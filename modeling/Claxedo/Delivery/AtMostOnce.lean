import Claxedo.Delivery.Owner

/-! Queued prompts are delivered at most once. A row's key is drawn once, the attempt that owns a
row's delivery is the last one handed over, and only its own refusal, or the row given back, makes
the row claimable again. -/

namespace Claxedo.Delivery

section
variable {Parts Payload : Type}

/-- The attempt last handed over on a row that was neither refused nor given back since. -/
def openAttempt (key : String × ℕ) (log : List DeliveryEvent) : Option String :=
  log.foldl (fun attempt event =>
    match event with
    | .handed k operationId => if k = key then some operationId else attempt
    | .rejected k operationId | .requeued k operationId =>
      if k = key ∧ attempt = some operationId then none else attempt
    | .submitted _ _ _ => attempt) none

theorem openAttempt_snoc (key : String × ℕ) (log : List DeliveryEvent) (event : DeliveryEvent) :
    openAttempt key (log ++ [event]) =
      match event with
      | .handed k operationId => if k = key then some operationId else openAttempt key log
      | .rejected k operationId | .requeued k operationId =>
        if k = key ∧ openAttempt key log = some operationId then none else openAttempt key log
      | .submitted _ _ _ => openAttempt key log := by
  unfold openAttempt
  rw [List.foldl_append]
  rfl

variable {log : List DeliveryEvent} {r : QueuedPromptRecord Parts Payload} {tables : DeliveryTables Parts Payload}
  {s t : DeliveryState Parts Payload} {op : String}

theorem handed_of_openAttempt {key : String × ℕ} {operationId : String} (h : openAttempt key log = some operationId) :
    .handed key operationId ∈ log := by
  induction log using List.reverseRecOn with
  | nil => simp [openAttempt] at h
  | append_singleton log event ih =>
    rw [openAttempt_snoc] at h
    have hkeep : openAttempt key log = some operationId → .handed key operationId ∈ log ++ [event] :=
      fun h => List.mem_append_left _ (ih h)
    cases event with
    | handed k op =>
      simp only at h
      split_ifs at h with hk
      · obtain rfl := hk
        obtain rfl := Option.some.inj h
        simp
      · exact hkeep h
    | rejected k op | requeued k op =>
      simp only at h
      split_ifs at h
      exact hkeep h
    | submitted _ _ _ => exact hkeep h

/-- Two hand-overs of a row: between them the earlier attempt was refused or gave the row back. -/
def EndedBetween (log : List DeliveryEvent) : Prop :=
  ∀ before key op between op' after, log = before ++ .handed key op :: between ++ .handed key op' :: after →
    (∃ op'', .handed key op'' ∈ between) ∨ .rejected key op ∈ between ∨ .requeued key op ∈ between

/-- Every hand-over finds no attempt open on its row. -/
def Ordered (log : List DeliveryEvent) : Prop :=
  ∀ before key op after, log = before ++ .handed key op :: after → openAttempt key before = none

theorem openAttempt_after_handed (key : String × ℕ) (before : List DeliveryEvent) (op : String)
    (between : List DeliveryEvent) :
    openAttempt key (before ++ .handed key op :: between) = some op ∨ (∃ op', .handed key op' ∈ between) ∨
      .rejected key op ∈ between ∨ .requeued key op ∈ between := by
  induction between using List.reverseRecOn with
  | nil =>
    left
    rw [openAttempt_snoc]
    simp
  | append_singleton between event ih =>
    rw [← List.cons_append, ← List.append_assoc, openAttempt_snoc]
    rcases ih with ih | ⟨op', h⟩ | h | h
    · rw [ih]
      cases event with
      | handed k op' =>
        by_cases hk : k = key
        · obtain rfl := hk
          exact .inr (.inl ⟨op', by simp⟩)
        · simp [hk]
      | rejected k op' =>
        by_cases hk : k = key ∧ some op = some op'
        · obtain ⟨rfl, hop⟩ := hk
          obtain rfl := Option.some.inj hop
          exact .inr (.inr (.inl (by simp)))
        · exact .inl (if_neg hk)
      | requeued k op' =>
        by_cases hk : k = key ∧ some op = some op'
        · obtain ⟨rfl, hop⟩ := hk
          obtain rfl := Option.some.inj hop
          exact .inr (.inr (.inr (by simp)))
        · exact .inl (if_neg hk)
      | submitted _ _ _ => simp
    · exact .inr (.inl ⟨op', by simp [h]⟩)
    · exact .inr (.inr (.inl (by simp [h])))
    · exact .inr (.inr (.inr (by simp [h])))

theorem Ordered.endedBetween (h : Ordered log) : EndedBetween log := by
  intro before key op between op' after hlog
  have hnone := h (before ++ .handed key op :: between) key op' after (by rw [hlog])
  rcases openAttempt_after_handed key before op between with hsome | hrest
  · rw [hnone] at hsome
    cases hsome
  · exact hrest

theorem Ordered.snoc (h : Ordered log) (event : DeliveryEvent)
    (hevent : ∀ key op, event = .handed key op → openAttempt key log = none) : Ordered (log ++ [event]) := by
  intro before key op after hlog
  rcases List.eq_nil_or_concat after with rfl | ⟨after, last, rfl⟩
  · obtain ⟨rfl, hlast⟩ := List.append_inj' hlog rfl
    exact hevent key op (by simpa using hlast)
  · rw [List.concat_eq_append, ← List.cons_append, ← List.append_assoc] at hlog
    exact h before key op after (List.append_inj' hlog rfl).1

/-- A delivery the provider may hold: never claimed, edited or held again. -/
def QueuedPromptRecord.frozen (row : QueuedPromptRecord Parts Payload) : Bool :=
  row.inState .accepted ∨ row.inState .unknown

/-- The row's steering is the open attempt's own, and was not refused. -/
def QueuedPromptRecord.ownedBy (row : QueuedPromptRecord Parts Payload) (operationId : String) : Prop :=
  ∃ attempt, row.steering = some attempt ∧ attempt.operationId = operationId ∧ attempt.state ≠ .rejected

/-- One row for a key, numbered within the sequence, and one for a message id that is not empty. -/
structure TablesInv (tables : DeliveryTables Parts Payload) : Prop where
  keys : (tables.rows.map (·.key)).Nodup
  bound : ∀ r ∈ tables.rows, r.seq ≤ tables.sequence r.sessionId
  named : ∀ r ∈ tables.rows, r.messageId.isSome
  shared : tables.rows.Pairwise fun r r' =>
    r.sessionId = r'.sessionId → r.messageId = r'.messageId → r.messageId = some ""

structure DeliveryInv (s : DeliveryState Parts Payload) : Prop where
  tables : TablesInv s.tables
  owned : ∀ r ∈ s.tables.rows, ∀ op, openAttempt r.key s.log = some op → r.ownedBy op
  logged : ∀ key op, .handed key op ∈ s.log → key.2 ≤ s.tables.sequence key.1
  submitted : ∀ sessionId messageId seq, .submitted sessionId messageId seq ∈ s.log →
    seq ≤ s.tables.sequence sessionId ∧ ∀ r ∈ s.tables.rows, r.key = (sessionId, seq) → r.messageId = some messageId
  ordered : Ordered s.log

/-- What no later step undoes: a frozen row stays as it is or goes, a key once drawn and gone stays
gone, and neither is handed over. -/
structure Later (s t : DeliveryState Parts Payload) : Prop where
  sequence : ∀ sessionId, s.tables.sequence sessionId ≤ t.tables.sequence sessionId
  frozen : ∀ r ∈ s.tables.rows, r.frozen → ∀ r' ∈ t.tables.rows, r'.key = r.key → r' = r
  gone : ∀ key : String × ℕ, key.2 ≤ s.tables.sequence key.1 → (∀ r ∈ s.tables.rows, r.key ≠ key) →
    ∀ r ∈ t.tables.rows, r.key ≠ key
  log : ∃ new, t.log = s.log ++ new ∧
    (∀ r ∈ s.tables.rows, r.frozen → ∀ op, .handed r.key op ∉ new) ∧
    ∀ key : String × ℕ, key.2 ≤ s.tables.sequence key.1 → (∀ r ∈ s.tables.rows, r.key ≠ key) →
      ∀ op, .handed key op ∉ new

theorem TablesInv.eq_of_key (h : TablesInv tables) {r' : QueuedPromptRecord Parts Payload} (hr : r ∈ tables.rows)
    (hr' : r' ∈ tables.rows) (hkey : r.key = r'.key) :
    r = r' :=
  List.inj_on_of_nodup_map h.keys hr hr' hkey

/-- Two rows of a session with one id that is not empty are the same row. -/
theorem TablesInv.eq_of_messageId (h : TablesInv tables) {r' : QueuedPromptRecord Parts Payload} (hr : r ∈ tables.rows)
    (hr' : r' ∈ tables.rows) (hsession : r.sessionId = r'.sessionId) (hname : r.messageId = r'.messageId)
    (hne : r.messageId ≠ some "") :
    r = r' := by
  have hsymm : Std.Symm fun r r' : QueuedPromptRecord Parts Payload =>
      r.sessionId = r'.sessionId → r.messageId = r'.messageId → r.messageId = some "" :=
    ⟨fun _ _ h hs hm => hm.trans (h hs.symm hm.symm)⟩
  by_contra hdiff
  exact hne (h.shared.forall hr hr' hdiff hsession hname)

theorem Later.refl (h : DeliveryInv s) : Later s s :=
  ⟨fun _ => le_refl _, fun _ hr _ _ hr' hkey => h.tables.eq_of_key hr' hr hkey, fun _ _ hno => hno,
    [], by simp, by simp, by simp⟩

theorem Later.trans {u : DeliveryState Parts Payload} (hs : DeliveryInv s) (hst : Later s t) (htu : Later t u) :
    Later s u := by
  -- A frozen row is still there as it was, or its key is gone for good.
  have hmiddle : ∀ r ∈ s.tables.rows, r.frozen →
      r ∈ t.tables.rows ∨ ∀ r' ∈ t.tables.rows, r'.key ≠ r.key := by
    intro r hr hf
    by_cases hex : ∃ r' ∈ t.tables.rows, r'.key = r.key
    · obtain ⟨r', hr', hk⟩ := hex
      left
      rw [← hst.frozen r hr hf r' hr' hk]
      exact hr'
    · right
      push Not at hex
      exact hex
  refine ⟨fun sid => (hst.sequence sid).trans (htu.sequence sid), ?_, ?_, ?_⟩
  · intro r hr hf r'' hr'' hk
    rcases hmiddle r hr hf with hrt | hgone
    · exact htu.frozen r hrt hf r'' hr'' hk
    · have hb : r.key.2 ≤ t.tables.sequence r.key.1 := (hs.tables.bound r hr).trans (hst.sequence _)
      exact absurd hk (htu.gone r.key hb hgone r'' hr'')
  · intro key hb hno
    exact htu.gone key (hb.trans (hst.sequence _)) (hst.gone key hb hno)
  · obtain ⟨new, hnew, hfree, habsent⟩ := hst.log
    obtain ⟨new', hnew', hfree', habsent'⟩ := htu.log
    refine ⟨new ++ new', by rw [hnew', hnew, List.append_assoc], ?_, ?_⟩
    · intro r hr hf op hmem
      rcases List.mem_append.mp hmem with hmem | hmem
      · exact hfree r hr hf op hmem
      · rcases hmiddle r hr hf with hrt | hgone
        · exact hfree' r hrt hf op hmem
        · exact habsent' r.key ((hs.tables.bound r hr).trans (hst.sequence _)) hgone op hmem
    · intro key hb hno op hmem
      rcases List.mem_append.mp hmem with hmem | hmem
      · exact habsent key hb hno op hmem
      · exact habsent' key (hb.trans (hst.sequence _)) (hst.gone key hb hno) op hmem

theorem Ordered.append {events : List DeliveryEvent} (h : Ordered log) (hevents : ∀ key op, .handed key op ∉ events) :
    Ordered (log ++ events) := by
  induction events using List.reverseRecOn with
  | nil => simpa using h
  | append_singleton events event ih =>
    rw [← List.append_assoc]
    refine (ih fun key op hmem => hevents key op (List.mem_append_left _ hmem)).snoc event ?_
    rintro key op rfl
    exact absurd (by simp) (hevents key op)

namespace TablesInv

variable {tables : DeliveryTables Parts Payload} {cond : QueuedPromptRecord Parts Payload → Bool}
  {change : QueuedPromptRecord Parts Payload → QueuedPromptRecord Parts Payload}

theorem mem_update {r' : QueuedPromptRecord Parts Payload} :
    r' ∈ (tables.update cond change).1.rows ↔ ∃ r ∈ tables.rows, (if cond r then change r else r) = r' :=
  List.mem_map

theorem mem_delete {r : QueuedPromptRecord Parts Payload} :
    r ∈ (tables.delete cond).1.rows ↔ r ∈ tables.rows ∧ ¬ cond r := by
  simp [DeliveryTables.delete]

theorem update (h : TablesInv tables) (hkey : ∀ r, (change r).key = r.key)
    (hname : ∀ r ∈ tables.rows, (change r).messageId = r.messageId) : TablesInv (tables.update cond change).1 := by
  have hkey' : ∀ r, (if cond r then change r else r).key = r.key := by
    intro r
    split_ifs
    · exact hkey r
    · rfl
  have hname' : ∀ r ∈ tables.rows, (if cond r then change r else r).messageId = r.messageId := by
    intro r hr
    split_ifs
    · exact hname r hr
    · rfl
  refine ⟨?_, ?_, ?_, ?_⟩
  · simpa only [DeliveryTables.update, List.map_map, Function.comp_def, hkey'] using h.keys
  · intro r' hr'
    obtain ⟨r, hr, rfl⟩ := mem_update.mp hr'
    have hb := h.bound r hr
    obtain ⟨hsid, hseq⟩ := Prod.mk.inj (hkey' r)
    rw [hsid, hseq]
    exact hb
  · intro r' hr'
    obtain ⟨r, hr, rfl⟩ := mem_update.mp hr'
    rw [hname' r hr]
    exact h.named r hr
  · change (tables.rows.map _).Pairwise _
    rw [List.pairwise_map]
    refine h.shared.imp_of_mem fun {r r'} hr hr' hshared => ?_
    rw [hname' r hr, hname' r' hr', (Prod.mk.inj (hkey' r)).1, (Prod.mk.inj (hkey' r')).1]
    exact hshared

theorem delete (h : TablesInv tables) : TablesInv (tables.delete cond).1 := by
  have hsub : List.Sublist (tables.delete cond).1.rows tables.rows := List.filter_sublist
  exact ⟨h.keys.sublist (hsub.map _), fun r hr => h.bound r (hsub.subset hr), fun r hr => h.named r (hsub.subset hr),
    h.shared.sublist hsub⟩

/-- A condition that fixes the key changes one row at most. -/
theorem count_le_one (h : TablesInv tables) {key : String × ℕ} (hcond : ∀ r, cond r → r.key = key) :
    tables.rows.countP cond ≤ 1 := by
  have hle : tables.rows.countP cond ≤ tables.rows.countP fun r => r.key = key :=
    List.countP_mono_left fun r _ hr => by simpa using hcond r hr
  have hcount : (tables.rows.countP fun r => r.key = key) = (tables.rows.map (·.key)).count key := by
    rw [List.count, List.countP_map]
    exact List.countP_congr fun r _ => by simp
  have hone := List.nodup_iff_count_le_one.mp h.keys key
  omega

theorem not_cond_of_count_ne_one (h : TablesInv tables) {key : String × ℕ} (hcond : ∀ r, cond r → r.key = key)
    (hne : tables.rows.countP cond ≠ 1) : ∀ r ∈ tables.rows, ¬ cond r := by
  have hle := h.count_le_one hcond
  exact List.countP_eq_zero.mp (by omega)

end TablesInv

/-- A step leaves the invariant standing and undoes nothing. -/
def Advances (s t : DeliveryState Parts Payload) : Prop := DeliveryInv s → DeliveryInv t ∧ Later s t

theorem Advances.trans {u : DeliveryState Parts Payload} (hst : Advances s t) (htu : Advances t u) :
    Advances s u := by
  intro hs
  obtain ⟨ht, hlater⟩ := hst hs
  obtain ⟨hu, hlater'⟩ := htu ht
  exact ⟨hu, hlater.trans hs hlater'⟩

/-- Only what the owners keep in memory changed. -/
theorem advances_of_same (htables : t.tables = s.tables) (hlog : t.log = s.log) :
    Advances s t := by
  intro h
  have hrefl := Later.refl h
  refine ⟨⟨by rw [htables]; exact h.tables, by rw [htables, hlog]; exact h.owned,
    by rw [htables, hlog]; exact h.logged, by rw [htables, hlog]; exact h.submitted,
    by rw [hlog]; exact h.ordered⟩, ?_⟩
  exact ⟨by rw [htables]; exact hrefl.sequence, by rw [htables]; exact hrefl.frozen, by rw [htables]; exact hrefl.gone,
    by rw [hlog]; exact hrefl.log⟩

/-- An update of rows that are not frozen, which leaves each of them to its open attempt. -/
theorem advances_update {cond : QueuedPromptRecord Parts Payload → Bool}
    {change : QueuedPromptRecord Parts Payload → QueuedPromptRecord Parts Payload} {events : List DeliveryEvent}
    (htables : t.tables = (s.tables.update cond change).1) (hlog : t.log = s.log ++ events) (hkey : ∀ r, (change r).key = r.key)
    (hname : DeliveryInv s → ∀ r ∈ s.tables.rows, (change r).messageId = r.messageId)
    (hfree : ∀ r ∈ s.tables.rows, cond r → ¬ r.frozen)
    (howned : DeliveryInv s → ∀ r ∈ s.tables.rows, ∀ op, openAttempt r.key (s.log ++ events) = some op →
      (if cond r then change r else r).ownedBy op)
    (hevents : ∀ key op, .handed key op ∉ events)
    (hsubmitted : ∀ sessionId messageId seq, .submitted sessionId messageId seq ∉ events) : Advances s t := by
  intro h
  have hkey' : ∀ r, (if cond r then change r else r).key = r.key := by
    intro r
    split_ifs
    · exact hkey r
    · rfl
  refine ⟨⟨?_, ?_, ?_, ?_, ?_⟩, ⟨?_, ?_, ?_, ?_⟩⟩
  · rw [htables]
    exact h.tables.update hkey (hname h)
  · rw [htables, hlog]
    intro r' hr' op hopen
    obtain ⟨r, hr, rfl⟩ := TablesInv.mem_update.mp hr'
    rw [hkey' r] at hopen
    exact howned h r hr op hopen
  · rw [htables, hlog]
    intro key op hmem
    rcases List.mem_append.mp hmem with hmem | hmem
    · exact h.logged key op hmem
    · exact absurd hmem (hevents key op)
  · rw [htables, hlog]
    intro sid mid seq hmem
    rcases List.mem_append.mp hmem with hmem | hmem
    · refine ⟨(h.submitted sid mid seq hmem).1, fun r' hr' hk => ?_⟩
      obtain ⟨r, hr, rfl⟩ := TablesInv.mem_update.mp hr'
      rw [hkey' r] at hk
      have hmid := (h.submitted sid mid seq hmem).2 r hr hk
      split_ifs
      · rw [hname h r hr]
        exact hmid
      · exact hmid
    · exact absurd hmem (hsubmitted sid mid seq)
  · rw [hlog]
    exact h.ordered.append hevents
  · intro sid
    rw [htables]
    exact le_refl _
  · rw [htables]
    intro r hr hf r' hr' hk
    obtain ⟨r0, hr0, rfl⟩ := TablesInv.mem_update.mp hr'
    rw [hkey' r0] at hk
    obtain rfl := h.tables.eq_of_key hr0 hr hk
    rw [if_neg fun hc => hfree r0 hr0 hc hf]
  · rw [htables]
    intro key _ hno r' hr'
    obtain ⟨r, hr, rfl⟩ := TablesInv.mem_update.mp hr'
    rw [hkey' r]
    exact hno r hr
  · exact ⟨events, hlog, fun r _ _ op => hevents r.key op, fun key _ _ op => hevents key op⟩

theorem advances_delete {cond : QueuedPromptRecord Parts Payload → Bool} (htables : t.tables = (s.tables.delete cond).1)
    (hlog : t.log = s.log) : Advances s t := by
  intro h
  refine ⟨⟨?_, ?_, ?_, ?_, ?_⟩, ⟨?_, ?_, ?_, ?_⟩⟩
  · rw [htables]
    exact h.tables.delete
  · rw [htables, hlog]
    intro r hr
    exact h.owned r (TablesInv.mem_delete.mp hr).1
  · rw [htables, hlog]
    exact h.logged
  · rw [htables, hlog]
    intro sid mid seq hmem
    exact ⟨(h.submitted sid mid seq hmem).1, fun r hr =>
      (h.submitted sid mid seq hmem).2 r (TablesInv.mem_delete.mp hr).1⟩
  · rw [hlog]
    exact h.ordered
  · intro sid
    rw [htables]
    exact le_refl _
  · rw [htables]
    intro r hr _ r' hr' hk
    exact h.tables.eq_of_key (TablesInv.mem_delete.mp hr').1 hr hk
  · rw [htables]
    intro key _ hno r hr
    exact hno r (TablesInv.mem_delete.mp hr).1
  · exact ⟨[], by rw [hlog, List.append_nil], by simp, by simp⟩

/-- A row whose attempt is the caller's, with none open before, may be handed over. -/
theorem advances_handed {row : QueuedPromptRecord Parts Payload} (htables : t.tables = s.tables)
    (hlog : t.log = s.log ++ [.handed row.key op]) (hrow : row ∈ s.tables.rows) (howned : row.ownedBy op) (hfree : ¬ row.frozen)
    (hnone : openAttempt row.key s.log = none) : Advances s t := by
  intro h
  refine ⟨⟨?_, ?_, ?_, ?_, ?_⟩, ⟨?_, ?_, ?_, ?_⟩⟩
  · rw [htables]
    exact h.tables
  · rw [htables, hlog]
    intro r hr op' hopen
    rw [openAttempt_snoc] at hopen
    simp only at hopen
    split_ifs at hopen with hk
    · obtain rfl := Option.some.inj hopen
      obtain rfl := h.tables.eq_of_key hrow hr hk
      exact howned
    · exact h.owned r hr op' hopen
  · rw [htables, hlog]
    intro key op' hmem
    rcases List.mem_append.mp hmem with hmem | hmem
    · exact h.logged key op' hmem
    · obtain ⟨rfl, -⟩ : key = row.key ∧ op' = op := by simpa using hmem
      exact h.tables.bound row hrow
  · rw [htables, hlog]
    intro sid mid seq hmem
    exact h.submitted sid mid seq (by simpa using hmem)
  · rw [hlog]
    refine h.ordered.snoc _ ?_
    intro key op' heq
    obtain ⟨rfl, -⟩ := DeliveryEvent.handed.inj heq
    exact hnone
  · intro sid
    rw [htables]
  · rw [htables]
    exact (Later.refl h).frozen
  · rw [htables]
    exact (Later.refl h).gone
  · refine ⟨_, hlog, ?_, ?_⟩
    · intro r hr hf op' hmem
      obtain ⟨hk, -⟩ : r.key = row.key ∧ op' = op := by simpa using hmem
      obtain rfl := h.tables.eq_of_key hr hrow hk
      exact hfree hf
    · intro key _ hno op' hmem
      obtain ⟨rfl, -⟩ : key = row.key ∧ op' = op := by simpa using hmem
      exact hno row hrow rfl

theorem QueuedPromptRecord.dispatchedBy_iff :
    r.dispatchedBy op ↔ ∃ attempt, r.steering = some attempt ∧ attempt.operationId = op ∧ attempt.state = .dispatching := by
  rcases hs : r.steering with _ | attempt <;> simp [QueuedPromptRecord.dispatchedBy, hs]

theorem QueuedPromptRecord.not_frozen_of_dispatchedBy (h : r.dispatchedBy op) : ¬ r.frozen := by
  obtain ⟨attempt, hs, -, hstate⟩ := dispatchedBy_iff.mp h
  simp [frozen, inState, hs, hstate]

theorem QueuedPromptRecord.not_frozen_of_unowned (h : r.unowned) :
    ¬ r.frozen := by
  rcases hs : r.steering with _ | attempt
  · simp [frozen, inState, hs]
  · have hstate : attempt.state = .rejected := by simpa [unowned, inState, hs] using h
    simp [frozen, inState, hs, hstate]

theorem DeliveryInv.openAttempt_of_unowned (h : DeliveryInv s) (hr : r ∈ s.tables.rows) (hu : r.unowned) :
    openAttempt r.key s.log = none := by
  by_contra hne
  obtain ⟨op, hopen⟩ := Option.ne_none_iff_exists'.mp hne
  obtain ⟨attempt, hs, -, hstate⟩ := h.owned r hr op hopen
  simp [QueuedPromptRecord.unowned, QueuedPromptRecord.inState, hs, hstate] at hu

theorem owned_of_inv {op' : String} (h : DeliveryInv s) (hr : r ∈ s.tables.rows) (hd : r.dispatchedBy op)
    (hopen : openAttempt r.key s.log = some op') :
    op = op' := by
  obtain ⟨attempt, hs, rfl, -⟩ := QueuedPromptRecord.dispatchedBy_iff.mp hd
  obtain ⟨attempt', hs', rfl, -⟩ := h.owned r hr op' hopen
  rw [hs] at hs'
  rw [Option.some.inj hs']

/-- The end of the attempt `op` on `key`, refused or given back: no attempt on the row is open any more. -/
def Closes (event : DeliveryEvent) (key : String × ℕ) (op : String) : Prop :=
  event = .rejected key op ∨ event = .requeued key op

theorem openAttempt_closed {key k : String × ℕ} {event : DeliveryEvent} (hevent : Closes event key op) :
    openAttempt k (log ++ [event]) =
      if key = k ∧ openAttempt k log = some op then none else openAttempt k log := by
  rcases hevent with rfl | rfl <;> rw [openAttempt_snoc]

/-- The attempt that owns a row's delivery gives it up: the row becomes unowned as the log says so. -/
theorem advances_close (key : String × ℕ) (op : String) {event : DeliveryEvent}
    (change : QueuedPromptRecord Parts Payload → QueuedPromptRecord Parts Payload)
    (htables : t.tables = (s.tables.update (fun r => r.key = key ∧ r.dispatchedBy op) change).1) (hevent : Closes event key op)
    (hlog : t.log = if s.tables.rows.countP (fun r => r.key = key ∧ r.dispatchedBy op) = 1 then s.log ++ [event] else s.log)
    (hkey : ∀ r, (change r).key = r.key) (hname : ∀ r, (change r).messageId = r.messageId) : Advances s t := by
  intro h
  have hcond : ∀ r : QueuedPromptRecord Parts Payload, decide (r.key = key ∧ r.dispatchedBy op) = true → r.key = key :=
    fun r hr => (of_decide_eq_true hr).1
  have hfree : ∀ r ∈ s.tables.rows, decide (r.key = key ∧ r.dispatchedBy op) = true → ¬ r.frozen :=
    fun r _ hr => QueuedPromptRecord.not_frozen_of_dispatchedBy (of_decide_eq_true hr).2
  by_cases hone : s.tables.rows.countP (fun r => r.key = key ∧ r.dispatchedBy op) = 1
  · rw [if_pos hone] at hlog
    obtain ⟨row, hrow, hd⟩ := List.countP_pos_iff.mp (Nat.lt_of_lt_of_eq Nat.one_pos hone.symm)
    obtain ⟨hrk, hdisp⟩ := of_decide_eq_true hd
    refine advances_update htables hlog hkey (fun _ r _ => hname r) hfree ?_ ?_ ?_ h
    · intro _ r hr op' hopen
      rw [openAttempt_closed hevent] at hopen
      split_ifs at hopen with hk
      by_cases hc : r.key = key
      · -- The row's open attempt is the one that ends here.
        obtain rfl := owned_of_inv h hr (h.tables.eq_of_key hrow hr (hrk.trans hc.symm) ▸ hdisp) hopen
        exact absurd ⟨hc.symm, hopen⟩ hk
      · rw [if_neg fun hd' => hc (hcond r hd')]
        exact h.owned r hr op' hopen
    · intro k op' hmem
      rcases hevent with rfl | rfl <;> simp at hmem
    · intro sid mid seq hmem
      rcases hevent with rfl | rfl <;> simp at hmem
  · rw [if_neg hone, ← List.append_nil s.log] at hlog
    have hno := h.tables.not_cond_of_count_ne_one hcond hone
    refine advances_update htables hlog hkey (fun _ r _ => hname r) hfree ?_ (by simp) (by simp) h
    intro _ r hr op' hopen
    rw [List.append_nil] at hopen
    rw [if_neg (hno r hr)]
    exact h.owned r hr op' hopen

theorem advances_settled (key : String × ℕ) (steering : QueuedPromptAttempt)
    (htables : t.tables = (s.tables.update (fun r => r.key = key ∧ r.dispatchedBy steering.operationId) fun r =>
      { r with steering := some steering }).1)
    (hlog : t.log = s.log) (hstate : steering.state ≠ .rejected) : Advances s t := by
  intro h
  rw [← List.append_nil s.log] at hlog
  refine advances_update htables hlog (fun _ => rfl) (fun _ _ _ => rfl)
    (fun r _ hr => QueuedPromptRecord.not_frozen_of_dispatchedBy (of_decide_eq_true hr).2) ?_ (by simp) (by simp) h
  intro _ r hr op hopen
  rw [List.append_nil] at hopen
  split_ifs with hc
  · obtain ⟨-, hd⟩ := of_decide_eq_true hc
    exact ⟨steering, rfl, owned_of_inv h hr hd hopen, hstate⟩
  · exact h.owned r hr op hopen

theorem advances_edit (key : String × ℕ) (change : QueuedPromptRecord Parts Payload → QueuedPromptRecord Parts Payload)
    (htables : t.tables = (s.tables.update (fun r => r.key = key ∧ r.unowned) change).1) (hlog : t.log = s.log)
    (hkey : ∀ r, (change r).key = r.key) (hname : ∀ r, (change r).messageId = r.messageId) : Advances s t := by
  intro h
  rw [← List.append_nil s.log] at hlog
  refine advances_update htables hlog hkey (fun _ r _ => hname r)
    (fun r _ hr => QueuedPromptRecord.not_frozen_of_unowned (of_decide_eq_true hr).2) ?_ (by simp) (by simp) h
  intro _ r hr op hopen
  rw [List.append_nil] at hopen
  split_ifs with hc
  · rw [h.openAttempt_of_unowned hr (of_decide_eq_true hc).2] at hopen
    cases hopen
  · exact h.owned r hr op hopen

theorem advances_orphaned (htables : t.tables = s.tables.settleOrphanedDispatches) (hlog : t.log = s.log) : Advances s t := by
  intro h
  rw [← List.append_nil s.log] at hlog
  refine advances_update htables hlog (fun _ => rfl) (fun _ _ _ => rfl) ?_ ?_ (by simp) (by simp) h
  · intro r _ hr
    rcases hs : r.steering with _ | attempt
    · simp [QueuedPromptRecord.inState, hs] at hr
    · simp only [QueuedPromptRecord.inState, hs, Option.any_some, decide_eq_true_eq] at hr
      simp [QueuedPromptRecord.frozen, QueuedPromptRecord.inState, hs, hr]
  · intro _ r hr op hopen
    rw [List.append_nil] at hopen
    obtain ⟨attempt, hs, hop, hstate⟩ := h.owned r hr op hopen
    split_ifs with hc
    · exact ⟨{ attempt with
        state := .unknown
        message := some "The runtime restarted before this input's delivery was confirmed" },
        by simp [hs], hop, by simp⟩
    · exact ⟨attempt, hs, hop, hstate⟩

theorem advances_settle (record : QueuedPromptRecord Parts Payload) (operationId : String) (mode : AttemptMode)
    (result : SteeringResult) :
    Advances s (s.settle record operationId mode result).1 := by
  set steering := DeliveryState.settledAttempt operationId mode result with hsteering
  have hop : steering.operationId = operationId := by
    rw [hsteering]
    cases result <;> rfl
  by_cases hrejected : steering.state = .rejected
  · refine advances_close record.key operationId (fun r => { r with steering := some steering }) ?_ (.inl rfl) ?_
      (fun _ => rfl) (fun _ => rfl)
    · simp only [DeliveryState.settle, ← hsteering, DeliveryTables.settleQueuedPromptDelivery, hop]
      rfl
    · simp only [DeliveryState.settle, ← hsteering, hrejected, and_true, DeliveryTables.settleQueuedPromptDelivery, hop,
        decide_eq_true_eq]
      rfl
  · refine advances_settled record.key steering rfl ?_ hrejected
    simp [DeliveryState.settle, ← hsteering, hrejected]

theorem advances_requeue (record : QueuedPromptRecord Parts Payload) (operationId : String) :
    Advances s (s.requeue record operationId).1 := by
  refine advances_close record.key operationId (fun r => { r with steering := none }) rfl (.inr rfl) ?_
    (fun _ => rfl) (fun _ => rfl)
  simp only [DeliveryState.requeue, DeliveryTables.requeueQueuedPrompt, decide_eq_true_eq]
  rfl

theorem advances_settleTurn (record : QueuedPromptRecord Parts Payload) (operationId : String) (mode : AttemptMode)
    (outcome : TurnOutcome) :
    Advances s (s.settleTurn record operationId mode outcome).1 := by
  unfold DeliveryState.settleTurn
  split
  · exact advances_settle record operationId mode _
  · split
    · split
      · exact advances_requeue record operationId
      · exact advances_settle record operationId _ _
      · exact advances_settle record operationId _ _
    · split_ifs
      · exact advances_delete rfl rfl
      · split
        · exact advances_settle record operationId _ _
        · exact advances_settle record operationId _ _
      · split
        · exact advances_settle record operationId _ _
        · exact advances_settle record operationId _ _

/-- A row taken to start or to steer is dispatched under the attempt that took it. -/
theorem advances_claim (owner : ℕ) (directory : Bool) (sessionId : String) (seq : ℕ) (operationId uuid : String)
    (mode : AttemptMode) :
    Advances s (s.claim owner directory sessionId seq operationId uuid mode) := by
  intro h
  set t : DeliveryState Parts Payload :=
    { s with tables := (s.tables.claimQueuedPromptDelivery sessionId seq operationId mode uuid).1 } with ht
  have hcond : ∀ r : QueuedPromptRecord Parts Payload,
      s.tables.claimable sessionId seq mode r → r.key = (sessionId, seq) ∧ r.unowned := by
    intro r hr
    simp only [DeliveryTables.claimable, decide_eq_true_eq] at hr
    exact ⟨hr.1, hr.2.2⟩
  have hclaimed : Advances s t := by
    refine advances_update rfl (List.append_nil s.log).symm (fun _ => rfl) ?_
      (fun r _ hr => QueuedPromptRecord.not_frozen_of_unowned (hcond r hr).2) ?_ (by simp) (by simp)
    · intro h r hr
      obtain ⟨m, hm⟩ := Option.isSome_iff_exists.mp (h.tables.named r hr)
      simp [hm]
    · intro h r hr op hopen
      rw [List.append_nil] at hopen
      split_ifs with hc
      · rw [h.openAttempt_of_unowned hr (hcond r hc).2] at hopen
        cases hopen
      · exact h.owned r hr op hopen
  obtain ⟨hinv, hlater⟩ := hclaimed h
  unfold DeliveryState.claim
  by_cases hchanges : (s.tables.claimQueuedPromptDelivery sessionId seq operationId mode uuid).2
  · simp only [hchanges, if_true]
    cases hrow : (s.tables.claimQueuedPromptDelivery sessionId seq operationId mode uuid).1.row sessionId seq with
    | none => exact ⟨hinv, hlater⟩
    | some row =>
      simp only
      split_ifs with hop
      · unfold DeliveryState.dispatch
        split_ifs
        · exact hclaimed.trans (advances_settle row operationId mode _) h
        · obtain ⟨r, hr, hrow'⟩ := TablesInv.mem_update.mp (List.mem_of_find?_eq_some hrow)
          have hkey : row.key = (sessionId, seq) := by simpa using List.find?_some hrow
          -- The row read back is the one row the claim changed.
          have hc : s.tables.claimable sessionId seq mode r := by
            obtain ⟨r1, hr1, hc1⟩ := List.countP_pos_iff.mp
              (Nat.lt_of_lt_of_eq Nat.one_pos (of_decide_eq_true hchanges).symm)
            have hrk : r.key = (sessionId, seq) := by
              rw [← hrow'] at hkey
              split_ifs at hkey <;> exact hkey
            rw [h.tables.eq_of_key hr hr1 (hrk.trans (hcond r1 hc1).1.symm)]
            exact hc1
          rw [if_pos hc] at hrow'
          refine hclaimed.trans (advances_handed rfl rfl (List.mem_of_find?_eq_some hrow) ?_ ?_ ?_) h
          · rw [← hrow']
            exact ⟨_, rfl, rfl, by simp⟩
          · simp [← hrow', QueuedPromptRecord.frozen, QueuedPromptRecord.inState]
          · have hnone := h.openAttempt_of_unowned hr (hcond r hc).2
            rw [← hrow']
            exact hnone
      · exact ⟨hinv, hlater⟩
  · simp only [hchanges]
    exact ⟨hinv, hlater⟩

theorem advances_control (owner : ℕ) (directory : Bool) (sessionId : String) (seq : ℕ) (action : QueuedPromptAction Parts)
    (operationId uuid : String) :
    Advances s (s.control owner directory sessionId seq action operationId uuid) := by
  unfold DeliveryState.control
  split_ifs
  · exact advances_of_same rfl rfl
  cases s.tables.row sessionId seq with
  | none => exact advances_of_same rfl rfl
  | some current =>
    simp only
    split_ifs
    · exact advances_of_same rfl rfl
    · cases action with
      | cancel => exact advances_delete rfl rfl
      | steer => exact advances_claim owner directory sessionId seq operationId uuid .steer
      | hold => exact advances_edit (sessionId, seq) (fun r => { r with held := true }) rfl rfl (fun _ => rfl) fun _ => rfl
      | release =>
        exact advances_edit (sessionId, seq) (fun r => { r with held := false }) rfl rfl (fun _ => rfl) fun _ => rfl
      | replace parts =>
        exact advances_edit (sessionId, seq) (fun r => { r with parts := parts, held := false }) rfl rfl (fun _ => rfl)
          fun _ => rfl

/-- The row a submission is answered with: the earliest that already carries its id, or a new one
under the session's next number. -/
theorem queuePrompt_cases (tables : DeliveryTables Parts Payload) (input : QueuedPromptInput Parts Payload)
    (messageId : String) :
    (messageId ≠ "" ∧ (tables.queuePrompt { input with messageId := some messageId }).1 = tables ∧
      (tables.queuePrompt { input with messageId := some messageId }).2 ∈ tables.rows ∧
      (tables.queuePrompt { input with messageId := some messageId }).2.sessionId = input.sessionId ∧
      (tables.queuePrompt { input with messageId := some messageId }).2.messageId = some messageId) ∨
    ((∀ r ∈ tables.rows, r.sessionId = input.sessionId → r.messageId = some messageId → messageId = "") ∧
      tables.queuePrompt { input with messageId := some messageId } =
        let record : QueuedPromptRecord Parts Payload :=
          { input with messageId := some messageId, seq := tables.sequence input.sessionId + 1 }
        ({ rows := tables.rows ++ [record]
           sequence := Function.update tables.sequence input.sessionId (tables.sequence input.sessionId + 1) }, record)) := by
  by_cases hempty : messageId = ""
  · right
    exact ⟨fun _ _ _ _ => hempty, by simp [DeliveryTables.queuePrompt, hempty]⟩
  set same := tables.rows.filter fun row => row.sessionId = input.sessionId ∧ row.messageId = some messageId with hsame
  cases hfound : DeliveryTables.earliest same with
  | some row =>
    left
    have hmem : row ∈ same := List.argmin_mem (Option.mem_def.mpr hfound)
    obtain ⟨hrow, hrow'⟩ := List.mem_filter.mp hmem
    obtain ⟨hsid, hmid⟩ := of_decide_eq_true hrow'
    have heq : tables.queuePrompt { input with messageId := some messageId } = (tables, row) := by
      simp only [DeliveryTables.queuePrompt, if_neg hempty, ← hsame, hfound]
    rw [heq]
    exact ⟨hempty, rfl, hrow, hsid, hmid⟩
  | none =>
    right
    have hnil : same = [] := List.argmin_eq_none.mp hfound
    refine ⟨fun r hr hsid hmid => ?_, by simp only [DeliveryTables.queuePrompt, if_neg hempty, ← hsame, hfound]⟩
    have hmem : r ∈ same := List.mem_filter.mpr ⟨hr, by simp [hsid, hmid]⟩
    rw [hnil] at hmem
    cases hmem

/-- A new row under the next number. -/
theorem TablesInv.insert (h : TablesInv tables) (record : QueuedPromptRecord Parts Payload)
    (hseq : record.seq = tables.sequence record.sessionId + 1) (hnamed : record.messageId.isSome)
    (hnew : ∀ r ∈ tables.rows, r.sessionId = record.sessionId → r.messageId = record.messageId → r.messageId = some "") :
    TablesInv { rows := tables.rows ++ [record]
                sequence := Function.update tables.sequence record.sessionId record.seq } := by
  refine ⟨?_, ?_, ?_, ?_⟩
  · rw [List.map_append, List.map_singleton]
    refine List.Nodup.append h.keys (List.nodup_singleton _) ?_
    intro key hkey hmem
    obtain ⟨r, hr, rfl⟩ := List.mem_map.mp hkey
    obtain ⟨hsid, hrseq⟩ := Prod.mk.inj (List.mem_singleton.mp hmem)
    have hb := h.bound r hr
    rw [hsid] at hb
    omega
  · intro r hr
    change r.seq ≤ Function.update tables.sequence record.sessionId record.seq r.sessionId
    by_cases hsid : r.sessionId = record.sessionId
    · rw [hsid, Function.update_self]
      rcases List.mem_append.mp hr with hr | hr
      · have hb := h.bound r hr
        rw [hsid] at hb
        omega
      · rw [List.mem_singleton.mp hr]
    · rw [Function.update_of_ne hsid]
      rcases List.mem_append.mp hr with hr | hr
      · exact h.bound r hr
      · exact absurd (by rw [List.mem_singleton.mp hr]) hsid
  · intro r hr
    rcases List.mem_append.mp hr with hr | hr
    · exact h.named r hr
    · rw [List.mem_singleton.mp hr]
      exact hnamed
  · refine List.pairwise_append.mpr ⟨h.shared, List.pairwise_singleton _ _, fun r hr r' hr' => ?_⟩
    rw [List.mem_singleton.mp hr']
    exact hnew r hr

theorem advances_persist (owner : ℕ) (conflict : Bool) (input : QueuedPromptInput Parts Payload) (messageId : String) :
    Advances s (s.persist owner conflict input messageId).1 := by
  unfold DeliveryState.persist
  split_ifs
  · exact advances_of_same rfl rfl
  simp only
  have hevents : ∀ seq, ∀ key op, (DeliveryEvent.handed key op) ∉ [DeliveryEvent.submitted input.sessionId messageId seq] :=
    by simp
  rcases queuePrompt_cases s.tables input messageId with ⟨-, htables, hmem, hsid, hmid⟩ | ⟨hnew, heq⟩
  · rw [htables]
    intro h
    refine ⟨⟨h.tables, ?_, ?_, ?_, h.ordered.append (hevents _)⟩, ⟨fun _ => le_refl _, (Later.refl h).frozen,
      (Later.refl h).gone, _, rfl, fun r _ _ op => hevents _ r.key op, fun key _ _ op => hevents _ key op⟩⟩
    · intro r hr op hopen
      rw [openAttempt_snoc] at hopen
      exact h.owned r hr op hopen
    · intro key op hmem
      rcases List.mem_append.mp hmem with hmem | hmem
      · exact h.logged key op hmem
      · exact absurd hmem (hevents _ key op)
    · intro sid mid seq hsub
      rcases List.mem_append.mp hsub with hsub | hsub
      · exact h.submitted sid mid seq hsub
      · obtain ⟨rfl, rfl, rfl⟩ : sid = input.sessionId ∧ mid = messageId ∧ seq = _ := by simpa using hsub
        refine ⟨?_, fun r hr hk => ?_⟩
        · have hb := h.tables.bound _ hmem
          rw [hsid] at hb
          exact hb
        · have hk' : r.key = (s.tables.queuePrompt { input with messageId := some mid }).2.key :=
            hk.trans (congrArg (·, _) hsid.symm)
          rw [h.tables.eq_of_key hr hmem hk']
          exact hmid
  · rw [heq]
    intro h
    simp only
    have hgrow : ∀ sid, s.tables.sequence sid ≤
        Function.update s.tables.sequence input.sessionId (s.tables.sequence input.sessionId + 1) sid := by
      intro sid
      by_cases hsid : sid = input.sessionId
      · subst hsid
        rw [Function.update_self]
        omega
      · rw [Function.update_of_ne hsid]
    refine ⟨⟨?_, ?_, ?_, ?_, h.ordered.append (hevents _)⟩, ⟨hgrow, ?_, ?_, _, rfl,
      fun r _ _ op => hevents _ r.key op, fun key _ _ op => hevents _ key op⟩⟩
    · refine h.tables.insert { input with messageId := some messageId, seq := s.tables.sequence input.sessionId + 1 }
        rfl rfl fun r hr hsid hmid => ?_
      rw [hmid]
      exact congrArg some (hnew r hr hsid hmid)
    · intro r hr op hopen
      rw [openAttempt_snoc] at hopen
      rcases List.mem_append.mp hr with hr | hr
      · exact h.owned r hr op hopen
      · have hb := h.logged _ _ (handed_of_openAttempt hopen)
        rw [List.mem_singleton.mp hr] at hb
        exact absurd hb (Nat.not_succ_le_self _)
    · intro key op hmem
      rcases List.mem_append.mp hmem with hmem | hmem
      · exact (h.logged key op hmem).trans (hgrow key.1)
      · exact absurd hmem (hevents _ key op)
    · intro sid mid seq hsub
      rcases List.mem_append.mp hsub with hsub | hsub
      · obtain ⟨hb, hrow⟩ := h.submitted sid mid seq hsub
        refine ⟨hb.trans (hgrow sid), fun r hr hk => ?_⟩
        rcases List.mem_append.mp hr with hr | hr
        · exact hrow r hr hk
        · rw [List.mem_singleton.mp hr] at hk
          obtain ⟨rfl, rfl⟩ := Prod.mk.inj hk
          exact absurd hb (Nat.not_succ_le_self _)
      · obtain ⟨rfl, rfl, rfl⟩ : sid = input.sessionId ∧ mid = messageId ∧
            seq = s.tables.sequence input.sessionId + 1 := by simpa using hsub
        refine ⟨by simp, fun r hr hk => ?_⟩
        rcases List.mem_append.mp hr with hr | hr
        · obtain ⟨hsid, hseq⟩ := Prod.mk.inj hk
          have hb := h.tables.bound r hr
          rw [hsid, hseq] at hb
          exact absurd hb (Nat.not_succ_le_self _)
        · rw [List.mem_singleton.mp hr]
    · intro r hr hf r' hr' hk
      rcases List.mem_append.mp hr' with hr' | hr'
      · exact h.tables.eq_of_key hr' hr hk
      · obtain ⟨hsid, hseq⟩ := Prod.mk.inj hk
        rw [List.mem_singleton.mp hr'] at hsid hseq
        have hb := h.tables.bound r hr
        rw [← hsid] at hb
        exact absurd (hseq ▸ hb) (Nat.not_succ_le_self _)
    · intro key hb hno r hr
      rcases List.mem_append.mp hr with hr | hr
      · exact hno r hr
      · rintro rfl
        rw [List.mem_singleton.mp hr] at hb
        exact absurd hb (Nat.not_succ_le_self _)

theorem advances_step (s : DeliveryState Parts Payload) (label : DeliveryLabel Parts Payload) :
    Advances s (step s label) := by
  cases label with
  | queue owner conflict input messageId => exact advances_persist owner conflict input messageId
  | steer owner conflict input messageId directory operationId uuid =>
    have hpersist := advances_persist (s := s) owner conflict input messageId
    simp only [step]
    split
    · rename_i s' record heq
      rw [heq] at hpersist
      exact hpersist.trans (advances_control owner directory _ _ _ _ _)
    · rename_i s' heq
      rw [heq] at hpersist
      exact hpersist
  | control owner directory sessionId seq action operationId uuid =>
    exact advances_control owner directory sessionId seq action operationId uuid
  | discard owner sessionId =>
    simp only [step]
    split_ifs
    · exact advances_of_same rfl rfl
    · split
      · exact advances_delete rfl rfl
      · exact advances_of_same rfl rfl
  | drain owner sessionId archived directory operationId uuid =>
    simp only [step]
    split_ifs
    · exact advances_of_same rfl rfl
    · split
      · exact advances_claim owner directory _ _ _ _ _
      · exact advances_of_same rfl rfl
  | outcome index outcome =>
    simp only [step]
    split
    · rename_i operation _
      have herase : Advances s { s with operations := s.operations.eraseIdx index } := advances_of_same rfl rfl
      exact herase.trans (advances_settleTurn _ _ _ _)
    · exact advances_of_same rfl rfl
  | incorporated sessionId messageId => exact advances_delete rfl rfl
  | forgetSession sessionId => exact advances_delete rfl rfl
  | dispose owner => exact advances_of_same rfl rfl
  | restart => exact advances_orphaned rfl rfl

theorem DeliveryInv.empty : DeliveryInv ({} : DeliveryState Parts Payload) where
  tables := ⟨List.nodup_nil, fun _ hr => absurd hr List.not_mem_nil, fun _ hr => absurd hr List.not_mem_nil, .nil⟩
  owned _ hr := absurd hr List.not_mem_nil
  logged _ _ hmem := absurd hmem List.not_mem_nil
  submitted _ _ _ hmem := absurd hmem List.not_mem_nil
  ordered before key op after hlog := by simp at hlog

theorem advances_run (s : DeliveryState Parts Payload) (labels : List (DeliveryLabel Parts Payload)) :
    Advances s (Lib.run step s labels) := by
  induction labels generalizing s with
  | nil => exact advances_of_same rfl rfl
  | cons label labels ih => exact (advances_step s label).trans (ih (step s label))

/-- A submission under a message id that is not empty, made while the row an earlier submission of
the session was answered with under that id is there, is answered with that row and adds none. -/
theorem DeliveryInv.persist_shared (h : DeliveryInv s) {owner : ℕ} {conflict : Bool} {input : QueuedPromptInput Parts Payload}
    {messageId : String} (hne : messageId ≠ "") {row record : QueuedPromptRecord Parts Payload} (hrow : row ∈ s.tables.rows)
    (hsubmitted : .submitted input.sessionId messageId row.seq ∈ s.log) (hsession : row.sessionId = input.sessionId)
    (hrecord : (s.persist owner conflict input messageId).2 = some record) :
    record = row ∧ (s.persist owner conflict input messageId).1.tables = s.tables := by
  have hmid : row.messageId = some messageId :=
    (h.submitted _ _ _ hsubmitted).2 row hrow (Prod.ext hsession rfl)
  unfold DeliveryState.persist at hrecord ⊢
  split_ifs at hrecord ⊢
  simp only at hrecord ⊢
  rcases queuePrompt_cases s.tables input messageId with ⟨-, htables, hmem, hsid, hname⟩ | ⟨hnew, -⟩
  · refine ⟨?_, htables⟩
    obtain rfl := Option.some.inj hrecord
    exact h.tables.eq_of_messageId hmem hrow (hsid.trans hsession.symm) (hname.trans hmid.symm)
      fun hempty => hne (Option.some.inj (hname.symm.trans hempty))
  · exact absurd (hnew row hrow hsession hmid) hne

/-- Over every run of any owners: two hand-overs of a row have the earlier attempt refused or given
back between them; a row accepted or unknown stays as it is until it goes, and is not handed over
again; a row that went does not come back; and submissions under one message id that is not empty
share the row while it is there. -/
theorem queued_prompts_delivered_at_most_once (before after : List (DeliveryLabel Parts Payload)) :
    EndedBetween (Lib.run step {} (before ++ after)).log ∧
    (∀ r ∈ (Lib.run step {} before).tables.rows, r.frozen →
      (∀ r' ∈ (Lib.run step {} (before ++ after)).tables.rows, r'.key = r.key → r' = r) ∧
      ∃ new, (Lib.run step {} (before ++ after)).log = (Lib.run step {} before).log ++ new ∧
        ∀ op, .handed r.key op ∉ new) ∧
    (∀ first second, before = first ++ second → ∀ r ∈ (Lib.run step {} first).tables.rows,
      (∀ r' ∈ (Lib.run step {} before).tables.rows, r'.key ≠ r.key) →
      ∀ r' ∈ (Lib.run step {} (before ++ after)).tables.rows, r'.key ≠ r.key) ∧
    (∀ owner conflict (input : QueuedPromptInput Parts Payload) messageId, messageId ≠ "" →
      ∀ row ∈ (Lib.run step {} before).tables.rows, row.sessionId = input.sessionId →
      .submitted input.sessionId messageId row.seq ∈ (Lib.run step {} before).log →
      ∀ record, ((Lib.run step {} before).persist owner conflict input messageId).2 = some record →
        record = row ∧
        ((Lib.run step {} before).persist owner conflict input messageId).1.tables =
          (Lib.run step {} before).tables) := by
  have hbefore : DeliveryInv (Lib.run step ({} : DeliveryState Parts Payload) before) :=
    (advances_run _ before DeliveryInv.empty).1
  have hafter : DeliveryInv (Lib.run step ({} : DeliveryState Parts Payload) (before ++ after)) ∧
      Later (Lib.run step ({} : DeliveryState Parts Payload) before)
        (Lib.run step ({} : DeliveryState Parts Payload) (before ++ after)) := by
    rw [Lib.run_append]
    exact advances_run _ after hbefore
  obtain ⟨hinv, hlater⟩ := hafter
  refine ⟨hinv.ordered.endedBetween, ?_, ?_, ?_⟩
  · intro r hr hf
    obtain ⟨new, hnew, hfree, -⟩ := hlater.log
    exact ⟨hlater.frozen r hr hf, new, hnew, hfree r hr hf⟩
  · rintro first second rfl r hr hgone
    have hfirst : DeliveryInv (Lib.run step ({} : DeliveryState Parts Payload) first) :=
      (advances_run _ first DeliveryInv.empty).1
    have hseq : r.key.2 ≤ (Lib.run step {} (first ++ second)).tables.sequence r.key.1 := by
      refine (hfirst.tables.bound r hr).trans ?_
      rw [Lib.run_append]
      exact (advances_run _ second hfirst).2.sequence r.sessionId
    exact hlater.gone r.key hseq hgone
  · intro owner conflict input messageId hne row hrow hsession hsubmitted record hrecord
    exact hbefore.persist_shared hne hrow hsubmitted hsession hrecord

end

namespace Example

def prompt (messageId : String) : QueuedPromptInput String Unit :=
  { sessionId := "s", messageId := some messageId, parts := "hello", delivery := .queue, payload := () }

end Example

/-- An empty id is no id to the queue, though it is stored: each submission under it is a row of its own. -/
theorem empty_messageId_not_shared :
    ¬ ∀ (labels : List (DeliveryLabel String Unit)) (owner : ℕ) (conflict : Bool)
      (input : QueuedPromptInput String Unit) (messageId : String),
      ∀ row ∈ (Lib.run step {} labels).tables.rows, row.sessionId = input.sessionId →
      .submitted input.sessionId messageId row.seq ∈ (Lib.run step {} labels).log →
      ∀ record, ((Lib.run step {} labels).persist owner conflict input messageId).2 = some record → record = row := by
  intro h
  have hrow := h [.queue 0 false (Example.prompt "") ""] 0 false (Example.prompt "") ""
    { Example.prompt "" with seq := 1 } (by decide +kernel) (by decide) (by decide +kernel)
    { Example.prompt "" with seq := 2 } (by decide +kernel)
  exact absurd hrow (by decide +kernel)

end Claxedo.Delivery
