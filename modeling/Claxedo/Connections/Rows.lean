import Claxedo.Connections.Service
import Claxedo.Lib.Lists
import Claxedo.Lib.Run

/-! A connection row has its credential, and when the order of the writes keeps it so. A row is written over a credential that a
finished removal has deleted, or that a finished connect has put over the writer's own; a connect over a stored row fails with
its own credential in the place of the row's; a removal fails between the credential and the row. Where none of these happens,
every row a run leaves has the credential of the last connect that stored it. -/

namespace Claxedo.Connections

open Claxedo.Lib

namespace ConnectionStore

theorem upsert_free (row : ConnectionRow) (rows : List ConnectionRow) (h : held row rows = false) :
    upsert row rows = some (Table.put ConnectionRow.id row rows) := by
  unfold upsert
  rw [h]
  rfl

theorem upsert_held (row : ConnectionRow) (rows : List ConnectionRow) (h : held row rows = true) : upsert row rows = none := by
  unfold upsert
  rw [h]
  rfl

end ConnectionStore

namespace ServiceStage

/-- The connection whose credential the call has put, with its row still to be written. -/
def holds : ServiceStage → Option ℕ
  | confirming storing | upserting storing => some storing.id
  | _ => none

/-- The connection whose credential the call has deleted, with its row still to be deleted. -/
def pastCredential : ServiceStage → Option ℕ
  | removing ⟨_, .credential, _⟩ => none
  | removing removal => some removal.id
  | _ => none

def isEnded : ServiceStage → Bool
  | ended _ => true
  | _ => false

end ServiceStage

namespace Service

def stored (s : Service) (id : ℕ) : Bool := (ConnectionStore.getById id s.rows).isSome

/-- Call `j` has put a credential of `id` and has its row still to write. -/
def Holds (s : Service) (id j : ℕ) : Prop := s.calls[j]?.bind ServiceStage.holds = some id

instance (s : Service) (id j : ℕ) : Decidable (s.Holds id j) := inferInstanceAs (Decidable (_ = _))

/-- Call `j` has deleted the credential of `id` and has its row still to delete. -/
def Removes (s : Service) (id j : ℕ) : Prop := s.calls[j]?.bind ServiceStage.pastCredential = some id

instance (s : Service) (id j : ℕ) : Decidable (s.Removes id j) := inferInstanceAs (Decidable (_ = _))

/-- Some call but `i` is to delete the row of `id`. -/
def RemovedBy (s : Service) (i id : ℕ) : Prop := ∃ j, j < s.calls.length ∧ j ≠ i ∧ s.Removes id j

instance (s : Service) (i id : ℕ) : Decidable (s.RemovedBy i id) := inferInstanceAs (Decidable (∃ _, _ ∧ _))

/-- What writing the row of `id` for call `call` finds: the credential of that call, or of one that will write the row after it;
or no credential, with a removal to come. -/
def Backed (s : Service) (i id : ℕ) (call : Option ℕ) : Prop :=
  match s.credential id with
  | none => s.RemovedBy i id
  | some stored => call = some stored.call ∨ s.Holds id stored.call

instance (s : Service) (i id : ℕ) (call : Option ℕ) : Decidable (s.Backed i id call) := by
  unfold Backed
  cases s.credential id <;> infer_instance

/-- An operation of call `i` that does not part a row from its credential. -/
def SparesOperation (registry : IntegrationRegistry) (s : Service) (i : ℕ) (fails : Bool) (now : ℕ) : ServiceStage → Prop
  | .confirming storing =>
    fails = true → s.stored storing.id = true → (s.credential storing.id).map StoredCredential.call ≠ some i
  | .upserting storing =>
    if fails = true ∨ ConnectionStore.held (storing.row registry now) s.rows = true then
      s.stored storing.id = true → (s.credential storing.id).map StoredCredential.call ≠ some i
    else s.Backed i storing.id (some i)
  | .rewriting row _ _ =>
    fails = false → ConnectionStore.held row s.rows = false → s.stored row.id = false →
      s.Backed i row.id (Assoc.lookup row.id s.connected)
  | .removing removal =>
    fails = true → removal.part ≠ .credential → s.stored removal.id = true → s.credential removal.id = none →
      s.RemovedBy i removal.id
  | _ => True

instance (registry : IntegrationRegistry) (s : Service) (i : ℕ) (fails : Bool) (now : ℕ) :
    DecidablePred (s.SparesOperation registry i fails now) := fun stage => by
  cases stage <;> unfold SparesOperation <;> infer_instance

def Spares (registry : IntegrationRegistry) (s : Service) : ServiceEvent → Prop
  | .operation i fails now => ∀ stage ∈ s.calls[i]?, s.SparesOperation registry i fails now stage
  | _ => True

instance (registry : IntegrationRegistry) (s : Service) : DecidablePred (s.Spares registry) := fun event => by
  cases event <;> unfold Spares <;> infer_instance

/-- A row's credential is there, put by the call that last stored the row or by one that is to store it again; or it is gone and
the row is about to go. -/
def Covered (s : Service) (id : ℕ) : Prop :=
  match s.credential id with
  | none => ∃ j, s.Removes id j
  | some stored => Assoc.lookup id s.connected = some stored.call ∨ s.Holds id stored.call

variable {registry : IntegrationRegistry} {s : Service} {i id now : ℕ} {old new : ServiceStage}

@[simp] theorem rows_set (s : Service) (i : ℕ) (stage : ServiceStage) : (s.set i stage).rows = s.rows := rfl

@[simp] theorem credentials_set (s : Service) (i : ℕ) (stage : ServiceStage) : (s.set i stage).credentials = s.credentials := rfl

@[simp] theorem connected_set (s : Service) (i : ℕ) (stage : ServiceStage) : (s.set i stage).connected = s.connected := rfl

@[simp] theorem credential_set (s : Service) (i : ℕ) (stage : ServiceStage) (id : ℕ) :
    (s.set i stage).credential id = s.credential id := rfl

theorem credential_put (s : Service) (k : ℕ) (stored : StoredCredential) (id : ℕ) :
    (s.put (.connection k) stored).credential id = if k = id then some stored else s.credential id := by
  unfold credential put
  rw [Assoc.lookup_assign]
  simp

theorem credential_deleteByProvider (s : Service) (k id : ℕ) :
    (s.deleteByProvider (.connection k)).credential id = if k = id then none else s.credential id := by
  unfold credential deleteByProvider
  rw [Assoc.lookup_erase]
  simp

@[simp] theorem credential_deleteWebhook (s : Service) (k id : ℕ) :
    (s.deleteByProvider (.webhookSigning k)).credential id = s.credential id := by
  unfold credential deleteByProvider
  rw [Assoc.lookup_erase]
  simp

variable {f : ServiceStage → Option ℕ} {cascade : Option Cascade} {k : ℕ}

theorem bind_set_self (hold : s.calls[i]? = some old) :
    (s.set i new).calls[i]?.bind f = f new := by
  rw [show (s.set i new).calls[i]? = some new from Indexed.modify_at hold]
  rfl

theorem bind_set_other {j : ℕ} (hne : i ≠ j) :
    (s.set i new).calls[j]?.bind f = s.calls[j]?.bind f := by
  rw [show (s.set i new).calls[j]? = s.calls[j]? from Indexed.modify_other hne]

theorem Covered.of_eq {t : Service} (h : s.Covered id) (hcredential : t.credential id = s.credential id)
    (hcalls : t.calls = s.calls) (hconnected : Assoc.lookup id t.connected = Assoc.lookup id s.connected) : t.Covered id := by
  unfold Covered Removes Holds at *
  rw [hcredential, hcalls, hconnected]
  exact h

/-- A call that moves on uncovers no row: the credential is not its own, or it still holds it; and if it was to delete the row, it
still is, or another call is, or the row has its credential. -/
theorem Covered.set (h : s.Covered id) (hold : s.calls[i]? = some old)
    (hholds : (s.credential id).map StoredCredential.call = some i → old.holds = some id → new.holds = some id)
    (hpast : s.credential id = none → old.pastCredential = some id → new.pastCredential = some id ∨ s.RemovedBy i id) :
    (s.set i new).Covered id := by
  unfold Covered at *
  rw [credential_set, connected_set]
  rcases hc : s.credential id with _ | stored
  · rw [hc] at h
    obtain ⟨j, hj⟩ := h
    by_cases hij : i = j
    · subst hij
      have hid : old.pastCredential = some id := by simpa [Removes, hold] using hj
      rcases hpast hc hid with hnew | ⟨k, _, hki, hk⟩
      · exact ⟨i, (bind_set_self hold).trans hnew⟩
      · exact ⟨k, (bind_set_other (Ne.symm hki)).trans hk⟩
    · exact ⟨j, (bind_set_other hij).trans hj⟩
  · rw [hc] at h
    refine h.imp_right fun hj => ?_
    by_cases hij : i = stored.call
    · have hid : old.holds = some id := by simpa [Holds, ← hij, hold] using hj
      have hnew := hholds (by rw [hc, hij]; rfl) hid
      unfold Holds
      rw [← hij]
      exact (bind_set_self hold).trans hnew
    · exact (bind_set_other hij).trans hj

/-- A call that neither holds a credential nor is about to delete a row. -/
theorem Covered.quiet (h : s.Covered id) (hold : s.calls[i]? = some old) (hholds : old.holds = none)
    (hpast : old.pastCredential = none) : (s.set i new).Covered id :=
  h.set hold (fun _ h => by rw [hholds] at h; cases h) fun _ h => by rw [hpast] at h; cases h

theorem Covered.setAvailable (h : s.Covered id) (k : ℕ) : (s.setAvailable k).Covered id := by
  unfold Service.setAvailable
  rcases hk : s.credential k with _ | stored
  · exact h
  · unfold Covered at *
    dsimp only
    rw [credential_put]
    split_ifs with hid
    · subst hid
      rw [hk] at h
      exact h
    · exact h

theorem Covered.start (h : s.Covered id) (stage : ServiceStage) : ({ s with calls := s.calls ++ [stage] } : Service).Covered id := by
  have hkeep (f : ServiceStage → Option ℕ) (j : ℕ) (hj : s.calls[j]?.bind f = some id) : (s.calls ++ [stage])[j]?.bind f = some id := by
    obtain ⟨old, hold, hf⟩ := Option.bind_eq_some_iff.mp hj
    rw [Indexed.snoc_at stage hold]
    exact hf
  unfold Covered at *
  change (match s.credential id with | none => _ | some _ => _)
  rcases hc : s.credential id with _ | stored
  · rw [hc] at h
    obtain ⟨j, hj⟩ := h
    exact ⟨j, hkeep _ j hj⟩
  · rw [hc] at h
    exact h.imp_right (hkeep _ _)

/-- Every row of the connection store is covered. -/
def AllCovered (s : Service) : Prop := ∀ id, s.stored id = true → s.Covered id

theorem stored_put (s : Service) (row : ConnectionRow) (id : ℕ) :
    ({ s with rows := Table.put ConnectionRow.id row s.rows } : Service).stored id = if row.id = id then true else s.stored id := by
  unfold stored ConnectionStore.getById
  rw [Table.get_put]
  split_ifs <;> rfl

theorem stored_deleteRow (s : Service) (k id : ℕ) : (s.deleteRow k).stored id = if k = id then false else s.stored id := by
  unfold stored deleteRow ConnectionStore.delete ConnectionStore.getById
  split_ifs with hid
  · rw [Table.get_eq_none_iff.mpr, Option.isSome_none]
    intro row hrow
    simpa [hid] using (List.mem_filter.mp hrow).2
  · rw [Table.get_filter]
    intro row _ hk
    simp [hk, Ne.symm hid]

theorem AllCovered.put (h : s.AllCovered) {storing : Storing} (hold : s.calls[i]? = some (.putting storing)) :
    ((s.put (.connection storing.id) ⟨i, storing.grant.credential⟩).set i (.confirming storing)).AllCovered := by
  intro id hid
  by_cases hk : storing.id = id
  · unfold Covered
    rw [credential_set, credential_put, if_pos hk]
    have hput : (s.put (.connection storing.id) ⟨i, storing.grant.credential⟩).calls[i]? = some (.putting storing) := hold
    exact .inr ((bind_set_self hput).trans (congrArg some hk))
  · refine Covered.quiet ((h id hid).of_eq ?_ rfl rfl) hold rfl rfl
    rw [credential_put, if_neg hk]

theorem AllCovered.upsert (h : s.AllCovered) {storing : Storing} {stage : ServiceStage}
    (hold : s.calls[i]? = some (.upserting storing)) (hback : s.Backed i storing.id (some i)) :
    ({ s with
        rows := Table.put ConnectionRow.id (storing.row registry now) s.rows
        connected := Assoc.assign storing.id i s.connected }.set i stage).AllCovered := by
  intro id hid
  by_cases hk : storing.id = id
  · subst hk
    unfold Covered
    unfold Backed at hback
    change (match s.credential storing.id with | none => _ | some _ => _)
    rcases hc : s.credential storing.id with _ | stored
    · rw [hc] at hback
      obtain ⟨j, _, hji, hj⟩ := hback
      exact ⟨j, (bind_set_other (Ne.symm hji)).trans hj⟩
    · rw [hc] at hback
      rw [connected_set, Assoc.lookup_assign, if_pos rfl]
      by_cases hij : i = stored.call
      · exact .inl (congrArg some hij)
      · rcases hback with hback | hback
        · exact absurd (Option.some.inj hback) hij
        · exact .inr ((bind_set_other hij).trans hback)
  · have hstored : s.stored id = true := by
      have := (stored_put s (storing.row registry now) id).symm.trans hid
      rwa [if_neg (show ¬ (storing.row registry now).id = id from hk)] at this
    have hne : ¬ (ServiceStage.upserting storing).holds = some id := fun hs => hk (Option.some.inj hs)
    refine Covered.set ((h id hstored).of_eq rfl rfl ?_) hold (fun _ hs => absurd hs hne) fun _ hs => by cases hs
    rw [Assoc.lookup_assign, if_neg hk]

theorem AllCovered.rewrite (h : s.AllCovered) {row written : ConnectionRow} {fields : Option ConnectionFields}
    {accountLabel : Option String} (hold : s.calls[i]? = some (.rewriting row fields accountLabel)) (hid : written.id = row.id)
    (hback : s.stored row.id = false → s.Backed i row.id (Assoc.lookup row.id s.connected)) :
    ({ s with rows := Table.put ConnectionRow.id written s.rows }.set i new).AllCovered := by
  have hof {id : ℕ} (hc : s.Covered id) :
      ({ s with rows := Table.put ConnectionRow.id written s.rows }.set i new).Covered id :=
    Covered.quiet (hc.of_eq rfl rfl rfl) hold rfl rfl
  intro id hstored
  have hstored' := (stored_put s written id).symm.trans hstored
  by_cases hk : row.id = id
  · subst hk
    rcases hs : s.stored row.id with _ | _
    · refine hof ?_
      have hb := hback hs
      unfold Backed at hb
      unfold Covered
      rcases hc : s.credential row.id with _ | stored
      · rw [hc] at hb
        obtain ⟨j, _, _, hj⟩ := hb
        exact ⟨j, hj⟩
      · rw [hc] at hb
        exact hb
    · exact hof (h _ hs)
  · rw [hid, if_neg hk] at hstored'
    exact hof (h id hstored')

theorem AllCovered.deleteCredential (h : s.AllCovered) (hold : s.calls[i]? = some (.removing ⟨k, .credential, cascade⟩)) :
    ((s.deleteByProvider (.connection k)).set i (.removing ⟨k, .webhookSigning, cascade⟩)).AllCovered := by
  intro id hid
  by_cases hk : k = id
  · unfold Covered
    rw [credential_set, credential_deleteByProvider, if_pos hk]
    have hdelete : (s.deleteByProvider (.connection k)).calls[i]? = some (.removing ⟨k, .credential, cascade⟩) := hold
    exact ⟨i, (bind_set_self hdelete).trans (congrArg some hk)⟩
  · refine Covered.quiet ((h id hid).of_eq ?_ rfl rfl) hold rfl rfl
    rw [credential_deleteByProvider, if_neg hk]

theorem AllCovered.deleteWebhook (h : s.AllCovered) (hold : s.calls[i]? = some (.removing ⟨k, .webhookSigning, cascade⟩)) :
    ((s.deleteByProvider (.webhookSigning k)).set i (.removing ⟨k, .row, cascade⟩)).AllCovered := by
  intro id hid
  refine Covered.set ((h id hid).of_eq (credential_deleteWebhook s k id) rfl rfl) hold (fun _ hs => ?_) fun _ hs => .inl hs
  cases hs

theorem AllCovered.deleteRow (h : s.AllCovered) (hold : s.calls[i]? = some (.removing ⟨k, .row, cascade⟩)) :
    ((s.deleteRow k).set i new).AllCovered := by
  intro id hid
  have hstored := (stored_deleteRow s k id).symm.trans hid
  split_ifs at hstored with hk
  have hne : ¬ (ServiceStage.removing ⟨k, .row, cascade⟩).pastCredential = some id := fun hs => hk (Option.some.inj hs)
  exact Covered.set ((h id hstored).of_eq rfl rfl rfl) hold (fun _ hs => by cases hs) fun _ hs => absurd hs hne

@[simp] theorem calls_setAvailable (s : Service) (k : ℕ) : (s.setAvailable k).calls = s.calls := by
  unfold Service.setAvailable
  cases s.credential k <;> rfl

@[simp] theorem rows_setAvailable (s : Service) (k : ℕ) : (s.setAvailable k).rows = s.rows := by
  unfold Service.setAvailable
  cases s.credential k <;> rfl

theorem AllCovered.setAvailable (h : s.AllCovered) (k : ℕ) : (s.setAvailable k).AllCovered := by
  intro id hid
  unfold stored at hid
  rw [rows_setAvailable] at hid
  exact (h id hid).setAvailable k

theorem AllCovered.quiet (h : s.AllCovered) (hold : s.calls[i]? = some old) (hholds : old.holds = none)
    (hpast : old.pastCredential = none) : (s.set i new).AllCovered := fun id hid => (h id hid).quiet hold hholds hpast

/-- A connect that ends without its row leaves its own credential to no stored row. -/
theorem AllCovered.drop (h : s.AllCovered) (hold : s.calls[i]? = some old) (hholds : old.holds = some k)
    (hpast : old.pastCredential = none) (hown : s.stored k = true → (s.credential k).map StoredCredential.call ≠ some i) :
    (s.set i new).AllCovered := by
  intro id hid
  refine (h id hid).set hold (fun hcall hs => ?_) fun _ hs => ?_
  · rw [hholds] at hs
    obtain rfl := Option.some.inj hs
    exact absurd hcall (hown hid)
  · rw [hpast] at hs
    cases hs

theorem AllCovered.leave (h : s.AllCovered) {removal : Removal} (hold : s.calls[i]? = some (.removing removal))
    (hsome : removal.part ≠ .credential → s.stored removal.id = true → s.credential removal.id = none →
      s.RemovedBy i removal.id) : (s.set i new).AllCovered := by
  obtain ⟨k, part, cascade⟩ := removal
  intro id hid
  refine (h id hid).set hold (fun _ hs => by cases hs) fun hnone hs => ?_
  cases part with
  | credential => cases hs
  | webhookSigning | row =>
    obtain rfl := Option.some.inj hs
    exact .inr (hsome (by simp) hid hnone)

theorem AllCovered.fail (h : s.AllCovered) (hold : s.calls[i]? = some old) (hspares : s.SparesOperation registry i true now old) :
    (s.set i old.failed).AllCovered := by
  cases old with
  | confirming storing => exact h.drop hold rfl rfl (hspares rfl)
  | upserting storing =>
    unfold SparesOperation at hspares
    dsimp only at hspares
    rw [if_pos (.inl rfl)] at hspares
    exact h.drop hold rfl rfl hspares
  | removing removal => exact h.leave hold (hspares rfl)
  | _ => exact h.quiet hold rfl rfl

theorem AllCovered.land (h : s.AllCovered) (hold : s.calls[i]? = some old)
    (hspares : s.SparesOperation registry i false now old) : (s.land registry i now old).AllCovered := by
  cases old with
  | asking input =>
    unfold Service.land
    dsimp only
    split_ifs
    · exact h.quiet hold rfl rfl
    · cases registry input.integrationId <;> exact h.quiet hold rfl rfl
  | looking grant =>
    unfold Service.land
    dsimp only
    rcases ConnectionStore.get grant.integrationId grant.owner s.rows with _ | existing
    · intro id hid
      exact ((h id hid).of_eq (t := { s with minted := s.minted + 1 }) rfl rfl rfl).quiet hold rfl rfl
    · exact h.quiet hold rfl rfl
  | putting storing => exact h.put hold
  | confirming storing =>
    unfold Service.land
    dsimp only
    split_ifs with hc
    · exact h.drop hold rfl rfl fun _ hown => by rw [hc] at hown; cases hown
    · intro id hid
      exact (h id hid).set hold (fun _ hs => hs) fun _ hs => by cases hs
  | upserting storing =>
    unfold Service.land
    dsimp only
    unfold SparesOperation at hspares
    dsimp only at hspares
    rcases hheld : ConnectionStore.held (storing.row registry now) s.rows with _ | _
    · rw [if_neg (by simp [hheld])] at hspares
      rw [ConnectionStore.upsert_free _ _ hheld]
      exact h.upsert hold hspares
    · rw [if_pos (.inr hheld)] at hspares
      rw [ConnectionStore.upsert_held _ _ hheld]
      exact h.drop hold rfl rfl hspares
  | finding id =>
    unfold Service.land
    dsimp only
    rcases ConnectionStore.getById id s.rows with _ | row
    · exact h.quiet hold rfl rfl
    · dsimp only
      split_ifs <;> exact h.quiet hold rfl rfl
  | readingSecret row =>
    unfold Service.land
    dsimp only
    cases s.credential row.id <;> exact h.quiet hold rfl rfl
  | marking row fields accountLabel =>
    have hmarked := h.setAvailable row.id
    have hcalls := (calls_setAvailable s row.id).symm ▸ hold
    unfold Service.land
    dsimp only
    split_ifs <;> exact hmarked.quiet hcalls rfl rfl
  | rewriting row fields accountLabel =>
    unfold Service.land
    dsimp only
    rcases hheld : ConnectionStore.held row s.rows with _ | _
    · rw [ConnectionStore.upsert_free { row with fields := canonical registry row fields, updatedAt := now } s.rows hheld]
      exact h.rewrite hold rfl (hspares rfl hheld)
    · rw [ConnectionStore.upsert_held { row with fields := canonical registry row fields, updatedAt := now } s.rows hheld]
      exact h.quiet hold rfl rfl
  | seeking id =>
    unfold Service.land
    dsimp only
    cases ConnectionStore.getById id s.rows <;> exact h.quiet hold rfl rfl
  | listing owner => exact h.quiet hold rfl rfl
  | removing removal =>
    obtain ⟨k, part, cascade⟩ := removal
    cases part with
    | credential => exact h.deleteCredential hold
    | webhookSigning => exact h.deleteWebhook hold
    | row => exact h.deleteRow hold
  | verifying | exchanging | reverifying | ended => exact h

theorem step_operation (registry : IntegrationRegistry) (s : Service) (i : ℕ) (fails : Bool) (now : ℕ) :
    s.step registry (.operation i fails now) = s ∨
      ∃ old, s.calls[i]? = some old ∧
        s.step registry (.operation i fails now) = if fails then s.set i old.failed else s.land registry i now old := by
  simp only [Service.step]
  rcases hold : s.calls[i]? with _ | old
  · exact .inl rfl
  · exact .inr ⟨old, rfl, rfl⟩

/-- What the provider answers moves one call, which neither holds a credential nor is past one. -/
theorem step_answered (registry : IntegrationRegistry) (s : Service) {event : ServiceEvent}
    (hevent : (∃ i result, event = .verified i result) ∨ ∃ i tokens, event = .exchanged i tokens) :
    s.step registry event = s ∨
      ∃ i old new, s.calls[i]? = some old ∧ old.holds = none ∧ old.pastCredential = none ∧ old.isEnded = false ∧
        s.step registry event = s.set i new := by
  rcases hevent with ⟨i, result, rfl⟩ | ⟨i, tokens, rfl⟩
  · simp only [Service.step]
    rcases hold : s.calls[i]? with _ | old
    · exact .inl rfl
    · cases old with
      | verifying | reverifying =>
        rcases result with _ | ⟨_ | _⟩ <;> exact .inr ⟨i, _, _, hold, rfl, rfl, rfl, rfl⟩
      | _ => exact .inl rfl
  · simp only [Service.step]
    rcases hold : s.calls[i]? with _ | old
    · exact .inl rfl
    · cases old with
      | exchanging => cases tokens <;> exact .inr ⟨i, _, _, hold, rfl, rfl, rfl, rfl⟩
      | _ => exact .inl rfl

theorem AllCovered.step (h : s.AllCovered) (event : ServiceEvent) (hspares : s.Spares registry event) :
    (s.step registry event).AllCovered := by
  cases event with
  | start request => exact fun id hid => (h id hid).start _
  | operation i fails now =>
    rcases step_operation registry s i fails now with heq | ⟨old, hold, heq⟩
    · rw [heq]
      exact h
    · rw [heq]
      have hone := hspares old hold
      cases fails with
      | true => exact h.fail hold hone
      | false => exact h.land hold hone
  | verified i result =>
    rcases step_answered registry s (.inl ⟨i, result, rfl⟩) with heq | ⟨k, old, new, hold, hholds, hpast, _, heq⟩
    · rw [heq]
      exact h
    · rw [heq]
      exact h.quiet hold hholds hpast
  | exchanged i tokens =>
    rcases step_answered registry s (.inr ⟨i, tokens, rfl⟩) with heq | ⟨k, old, new, hold, hholds, hpast, _, heq⟩
    · rw [heq]
      exact h
    · rw [heq]
      exact h.quiet hold hholds hpast

/-- What an operation that lands changes but the credentials: the call that awaited it, which call last stored a row where it stores
one, and a stored row only where it deletes it. -/
structure Lands (s : Service) (i : ℕ) (stage : ServiceStage) (t : Service) (new : ServiceStage) : Prop where
  calls : t.calls = s.calls
  connected : t.connected = s.connected ∨
    ∃ storing : Storing, new = .ended storing.grant.caller.stored ∧ t.connected = Assoc.assign storing.id i s.connected
  stored : ∀ id, s.stored id = true → t.stored id = true ∨ ∃ cascade, stage = .removing ⟨id, .row, cascade⟩

theorem Lands.same (s : Service) (i : ℕ) (stage new : ServiceStage) : Lands s i stage s new := ⟨rfl, .inl rfl, fun _ h => .inl h⟩

theorem Lands.put {rows : List ConnectionRow} {row : ConnectionRow} {connected : List (ℕ × ℕ)} {stage : ServiceStage}
    (hupsert : ConnectionStore.upsert row s.rows = some rows)
    (hconnected : connected = s.connected ∨
      ∃ storing : Storing, new = .ended storing.grant.caller.stored ∧ connected = Assoc.assign storing.id i s.connected) :
    Lands s i stage { s with rows, connected } new := by
  refine ⟨rfl, hconnected, fun id h => .inl ?_⟩
  unfold ConnectionStore.upsert at hupsert
  split_ifs at hupsert
  obtain rfl := Option.some.inj hupsert
  refine (stored_put s row id).trans ?_
  rw [h]
  split_ifs <;> rfl

theorem land_cases (registry : IntegrationRegistry) (s : Service) (i now : ℕ) (stage : ServiceStage) :
    s.land registry i now stage = s ∨
      ∃ t new, Lands s i stage t new ∧ stage.isEnded = false ∧ s.land registry i now stage = t.set i new := by
  cases stage with
  | asking input =>
    simp only [Service.land]
    split_ifs
    · exact .inr ⟨s, _, Lands.same .., rfl, rfl⟩
    · cases registry input.integrationId <;> exact .inr ⟨s, _, Lands.same .., rfl, rfl⟩
  | looking grant =>
    simp only [Service.land]
    cases ConnectionStore.get grant.integrationId grant.owner s.rows
    · exact .inr ⟨{ s with minted := s.minted + 1 }, _, ⟨rfl, .inl rfl, fun _ h => .inl h⟩, rfl, rfl⟩
    · exact .inr ⟨s, _, Lands.same .., rfl, rfl⟩
  | putting storing => exact .inr ⟨s.put _ _, _, ⟨rfl, .inl rfl, fun _ h => .inl h⟩, rfl, rfl⟩
  | confirming storing =>
    simp only [Service.land]
    split_ifs <;> exact .inr ⟨s, _, Lands.same .., rfl, rfl⟩
  | upserting storing =>
    simp only [Service.land]
    rcases hupsert : ConnectionStore.upsert (storing.row registry now) s.rows with _ | rows
    · exact .inr ⟨s, _, Lands.same .., rfl, rfl⟩
    · exact .inr ⟨_, _, Lands.put hupsert (.inr ⟨storing, rfl, rfl⟩), rfl, rfl⟩
  | finding id =>
    simp only [Service.land]
    cases ConnectionStore.getById id s.rows
    · exact .inr ⟨s, _, Lands.same .., rfl, rfl⟩
    · dsimp only
      split_ifs <;> exact .inr ⟨s, _, Lands.same .., rfl, rfl⟩
  | readingSecret row =>
    simp only [Service.land]
    cases s.credential row.id <;> exact .inr ⟨s, _, Lands.same .., rfl, rfl⟩
  | marking row fields accountLabel =>
    have hmark (new : ServiceStage) : Lands s i (.marking row fields accountLabel) (s.setAvailable row.id) new := by
      refine ⟨calls_setAvailable s row.id, .inl ?_, fun id h => .inl ?_⟩
      · unfold Service.setAvailable
        cases s.credential row.id <;> rfl
      · unfold stored at *
        rw [rows_setAvailable]
        exact h
    simp only [Service.land]
    split_ifs <;> exact .inr ⟨_, _, hmark _, rfl, rfl⟩
  | rewriting row fields accountLabel =>
    simp only [Service.land]
    rcases hupsert : ConnectionStore.upsert { row with fields := canonical registry row fields, updatedAt := now } s.rows with _ | rows
    · exact .inr ⟨s, _, Lands.same .., rfl, rfl⟩
    · exact .inr ⟨_, _, Lands.put hupsert (.inl rfl), rfl, rfl⟩
  | seeking id =>
    simp only [Service.land]
    cases ConnectionStore.getById id s.rows <;> exact .inr ⟨s, _, Lands.same .., rfl, rfl⟩
  | listing owner => exact .inr ⟨s, _, Lands.same .., rfl, rfl⟩
  | removing removal =>
    obtain ⟨k, part, cascade⟩ := removal
    cases part with
    | credential => exact .inr ⟨s.deleteByProvider _, _, ⟨rfl, .inl rfl, fun _ h => .inl h⟩, rfl, rfl⟩
    | webhookSigning => exact .inr ⟨s.deleteByProvider _, _, ⟨rfl, .inl rfl, fun _ h => .inl h⟩, rfl, rfl⟩
    | row =>
      refine .inr ⟨s.deleteRow k, _, ⟨rfl, .inl rfl, fun id h => ?_⟩, rfl, rfl⟩
      rw [stored_deleteRow]
      split_ifs with hk
      · exact .inr ⟨cascade, by rw [hk]⟩
      · exact .inl h
  | verifying | exchanging | reverifying | ended => exact .inl rfl

/-- The call that last stored a row answered that it did. -/
def AllTold (s : Service) : Prop :=
  ∀ id k, Assoc.lookup id s.connected = some k → ∃ caller : Connecting, s.calls[k]? = some (.ended caller.stored)

theorem AllTold.moves (h : s.AllTold) {t : Service} (hold : s.calls[i]? = some old) (hended : old.isEnded = false)
    (hcalls : t.calls = s.calls)
    (hconnected : t.connected = s.connected ∨
      ∃ storing : Storing, new = .ended storing.grant.caller.stored ∧ t.connected = Assoc.assign storing.id i s.connected) :
    (t.set i new).AllTold := by
  have hkeep {k : ℕ} {caller : Connecting} (hk : s.calls[k]? = some (.ended caller.stored)) :
      (t.set i new).calls[k]? = some (.ended caller.stored) := by
    have hik : i ≠ k := by
      rintro rfl
      rw [hold] at hk
      obtain rfl := Option.some.inj hk
      cases hended
    rw [show (t.set i new).calls[k]? = t.calls[k]? from Indexed.modify_other hik, hcalls]
    exact hk
  intro id k hk
  rw [connected_set] at hk
  rcases hconnected with heq | ⟨storing, rfl, heq⟩
  · rw [heq] at hk
    obtain ⟨caller, hcaller⟩ := h id k hk
    exact ⟨caller, hkeep hcaller⟩
  · rw [heq, Assoc.lookup_assign] at hk
    split_ifs at hk with hid
    · obtain rfl := Option.some.inj hk
      refine ⟨storing.grant.caller, ?_⟩
      have ht : t.calls[i]? = some old := hcalls ▸ hold
      exact Indexed.modify_at ht
    · obtain ⟨caller, hcaller⟩ := h id k hk
      exact ⟨caller, hkeep hcaller⟩

theorem isEnded_failed (stage : ServiceStage) : stage.isEnded = false ∨ stage.failed = stage := by
  cases stage with
  | ended => exact .inr rfl
  | _ => exact .inl rfl

theorem set_same (hold : s.calls[i]? = some old) : s.set i old = s := by
  have hlist : s.calls.modify i (fun _ => old) = s.calls := by
    apply List.ext_getElem?
    intro k
    by_cases hik : i = k
    · subst hik
      rw [Indexed.modify_at hold, hold]
    · rw [Indexed.modify_other hik]
  unfold Service.set
  rw [hlist]

theorem step_cases (registry : IntegrationRegistry) (s : Service) (event : ServiceEvent) :
    (∃ request, event = .start request) ∨ s.step registry event = s ∨
      ∃ i old t new, s.calls[i]? = some old ∧ old.isEnded = false ∧ Lands s i old t new ∧
        s.step registry event = t.set i new ∧
        (t.stored = s.stored ∨ ∃ now, event = .operation i false now) := by
  cases event with
  | start request => exact .inl ⟨request, rfl⟩
  | operation i fails now =>
    rcases step_operation registry s i fails now with heq | ⟨old, hold, heq⟩
    · exact .inr (.inl heq)
    · cases fails with
      | true =>
        rcases isEnded_failed old with hended | hsame
        · exact .inr (.inr ⟨i, old, s, _, hold, hended, Lands.same .., heq, .inl rfl⟩)
        · rw [if_pos rfl, hsame, set_same hold] at heq
          exact .inr (.inl heq)
      | false =>
        rcases land_cases registry s i now old with hland | ⟨t, new, hlands, hended, hland⟩
        · exact .inr (.inl (heq.trans hland))
        · exact .inr (.inr ⟨i, old, t, new, hold, hended, hlands, heq.trans hland, .inr ⟨now, rfl⟩⟩)
  | verified i result =>
    rcases step_answered registry s (.inl ⟨i, result, rfl⟩) with heq | ⟨k, old, new, hold, _, _, hended, heq⟩
    · exact .inr (.inl heq)
    · exact .inr (.inr ⟨k, old, s, new, hold, hended, Lands.same .., heq, .inl rfl⟩)
  | exchanged i tokens =>
    rcases step_answered registry s (.inr ⟨i, tokens, rfl⟩) with heq | ⟨k, old, new, hold, _, _, hended, heq⟩
    · exact .inr (.inl heq)
    · exact .inr (.inr ⟨k, old, s, new, hold, hended, Lands.same .., heq, .inl rfl⟩)

theorem AllTold.step (h : s.AllTold) (event : ServiceEvent) : (s.step registry event).AllTold := by
  rcases step_cases registry s event with ⟨request, rfl⟩ | heq | ⟨i, old, t, new, hold, hended, hlands, heq, _⟩
  · intro id k hk
    obtain ⟨caller, hcaller⟩ := h id k hk
    exact ⟨caller, Indexed.snoc_at _ hcaller⟩
  · rw [heq]
    exact h
  · rw [heq]
    exact h.moves hold hended hlands.calls hlands.connected

/-- The step deletes the row of `id`, as the last part of a removal. -/
def DeletesRow (s : Service) (id : ℕ) (event : ServiceEvent) : Prop :=
  ∃ i now cascade, event = .operation i false now ∧ s.calls[i]? = some (.removing ⟨id, .row, cascade⟩)

theorem lost_by_removal (registry : IntegrationRegistry) (event : ServiceEvent) (h : s.stored id = true) :
    (s.step registry event).stored id = true ∨ s.DeletesRow id event := by
  rcases step_cases registry s event with ⟨request, rfl⟩ | heq | ⟨i, old, t, new, hold, _, hlands, heq, hwhich⟩
  · exact .inl h
  · rw [heq]
    exact .inl h
  · rw [heq]
    rcases hwhich with hsame | ⟨now, rfl⟩
    · exact .inl ((congrFun hsame id).trans h)
    · rcases hlands.stored id h with hstored | ⟨cascade, rfl⟩
      · exact .inl hstored
      · exact .inr ⟨i, now, cascade, rfl, hold⟩

theorem stored_of_mem {row : ConnectionRow} (h : row ∈ s.rows) : s.stored row.id = true := by
  unfold stored ConnectionStore.getById
  rcases hget : Table.get ConnectionRow.id row.id s.rows with _ | found
  · exact absurd rfl (Table.get_eq_none_iff.mp hget row h)
  · rfl

/-- No call is in flight. -/
def Quiet (s : Service) : Prop := ∀ stage ∈ s.calls, stage.isEnded = true

instance (s : Service) : Decidable s.Quiet := inferInstanceAs (Decidable (∀ _ ∈ _, _))

theorem Quiet.none (h : s.Quiet) (hf : ∀ answer, f (.ended answer) = Option.none) (j : ℕ) :
    s.calls[j]?.bind f = Option.none := by
  rcases hj : s.calls[j]? with _ | stage
  · rfl
  · have hended := h stage (List.mem_of_getElem? hj)
    cases stage with
    | ended answer => exact hf answer
    | _ => cases hended

/-- The row of `id` has its credential: that of the last call that stored the row, which answered that it had. -/
def HasCredential (s : Service) (id : ℕ) : Prop :=
  ∃ stored caller, s.credential id = some stored ∧ Assoc.lookup id s.connected = some stored.call ∧
    s.calls[stored.call]? = some (.ended (Connecting.stored caller))

theorem Covered.hasCredential (h : s.Covered id) (htold : s.AllTold) (hquiet : s.Quiet) : s.HasCredential id := by
  unfold Covered at h
  rcases hc : s.credential id with _ | stored
  · rw [hc] at h
    obtain ⟨j, hj⟩ := h
    unfold Removes at hj
    rw [hquiet.none fun _ => rfl] at hj
    cases hj
  · rw [hc] at h
    rcases h with h | h
    · obtain ⟨caller, hcaller⟩ := htold id _ h
      exact ⟨stored, caller, hc, h, hcaller⟩
    · unfold Holds at h
      rw [hquiet.none fun _ => rfl] at h
      cases h

end Service

/-- Over runs that spare the pairing, a row has the credential of the last call that stored it whenever no call is in flight, and
only a removal loses a row. -/
theorem rows_have_credentials (registry : IntegrationRegistry) (events : List ServiceEvent)
    (hmeets : Meets (Service.step registry) (Service.Spares registry) {} events) :
    ((run (Service.step registry) {} events).Quiet →
      ∀ row ∈ (run (Service.step registry) {} events).rows, (run (Service.step registry) {} events).HasCredential row.id) ∧
    ∀ event, ∀ row ∈ (run (Service.step registry) {} events).rows,
      (∃ row' ∈ ((run (Service.step registry) {} events).step registry event).rows, row'.id = row.id) ∨
        (run (Service.step registry) {} events).DeletesRow row.id event := by
  have hcovered : (run (Service.step registry) {} events).AllCovered :=
    invariant_of_meets Service.AllCovered (fun s event h hspares => h.step event hspares) (fun id h => by cases h) hmeets
  have htold : (run (Service.step registry) {} events).AllTold :=
    invariant_of_run Service.AllTold (fun s event h => h.step event) (fun id k h => by cases h) events
  refine ⟨fun hquiet row hrow => ?_, fun event row hrow => ?_⟩
  · exact (hcovered row.id (Service.stored_of_mem hrow)).hasCredential htold hquiet
  · refine (Service.lost_by_removal registry event (Service.stored_of_mem hrow)).imp_left fun hstored => ?_
    obtain ⟨row', hget⟩ := Option.isSome_iff_exists.mp hstored
    exact ⟨row', Table.mem_of_get hget⟩

section
/-- One integration, with a key prompt and an OAuth callback. -/
def notionRegistry : IntegrationRegistry := fun integrationId =>
  if integrationId = "notion" then
    some { decl := { methods := [.key, .oauth], prompts := [⟨"site", false⟩, ⟨"token", true⟩], capabilities := ["docs"] },
           auth := { verify := true, callback := true, canonicalFields := some ["workspace"] } }
  else none

/-- A connect that stores the first connection of its owner. -/
def firstConnect : List ServiceEvent :=
  [.start (.connect { integrationId := "notion", owner := some "ada", fields := [("site", "a"), ("token", "t")], secret := "k1" }),
    .operation 0 false 1, .verified 0 (some (.ok none (some "Ada"))), .operation 0 false 2, .operation 0 false 3,
    .operation 0 false 4, .operation 0 false 5]

/-- A callback and a removal of the same connection overlap: the removal's deletions come before the callback's credential, and its
row's deletion between that credential and the row. -/
def overlapping : List ServiceEvent :=
  firstConnect ++
    [.start (.handleCallback (some ⟨"notion", some "ada"⟩) (some "code")), .start (.remove 0),
      .exchanged 1 (some ⟨"access", some 1, none, none⟩), .operation 1 false 6, .operation 2 false 6, .operation 2 false 7,
      .operation 1 false 7, .operation 2 false 8, .operation 2 false 8, .operation 1 false 9, .operation 1 false 10]

theorem rows_have_credentials_overlapping :
    (∃ row ∈ (run (Service.step notionRegistry) {} overlapping).rows, row.id = 0) ∧
    (run (Service.step notionRegistry) {} overlapping).HasCredential 0 := by
  have hmeets : Meets (Service.step notionRegistry) (Service.Spares notionRegistry) {} overlapping := by decide
  have hquiet : (run (Service.step notionRegistry) {} overlapping).Quiet := by decide
  have hrow : ∃ row ∈ (run (Service.step notionRegistry) {} overlapping).rows, row.id = 0 := by decide
  have h := rows_have_credentials notionRegistry overlapping hmeets
  obtain ⟨row, hmem, hid⟩ := hrow
  have hhas := h.1 hquiet row hmem
  rw [hid] at hhas
  exact ⟨⟨row, hmem, hid⟩, hhas⟩

/-- A connect replaces the first connection, and a removal runs whole between the connect's check and its row. -/
def removedBeforeRow : List ServiceEvent :=
  firstConnect ++
    [.start (.connect { integrationId := "notion", owner := some "ada", secret := "k2", confirmReplace := true }),
      .operation 1 false 6, .verified 1 (some (.ok none none)), .operation 1 false 7, .operation 1 false 8, .operation 1 false 9,
      .start (.remove 0), .operation 2 false 9, .operation 2 false 9, .operation 2 false 9, .operation 2 false 9,
      .operation 1 false 10]

theorem not_rows_have_credentials_removed :
    ¬ ∀ (registry : IntegrationRegistry) (events : List ServiceEvent), (run (Service.step registry) {} events).Quiet →
      ∀ row ∈ (run (Service.step registry) {} events).rows, (run (Service.step registry) {} events).HasCredential row.id := by
  intro h
  have hquiet : (run (Service.step notionRegistry) {} removedBeforeRow).Quiet := by decide
  have hrow : ∃ row ∈ (run (Service.step notionRegistry) {} removedBeforeRow).rows, row.id = 0 := by decide
  have hnone : (run (Service.step notionRegistry) {} removedBeforeRow).credential 0 = none := by decide
  obtain ⟨row, hmem, hid⟩ := hrow
  obtain ⟨stored, caller, hcredential, _⟩ := h notionRegistry removedBeforeRow hquiet row hmem
  rw [hid, hnone] at hcredential
  cases hcredential

end

end Claxedo.Connections
