import Claxedo.Hosted.SnapshotCalls

/-! Every run of `syncSessionMessages` calls: the stored transcript is the snapshot that landed last,
and what a call was told of its ordinal is so. -/

namespace Claxedo.Hosted

open Claxedo.Lib

/-- No two of the inputs are different snapshots with one digest. -/
def CollisionFree (hashing : Hashing) (sent : List SyncArgs) : Prop :=
  ∀ a ∈ sent, ∀ b ∈ sent, ∀ s t, prepare hashing a = .ok s → prepare hashing b = .ok t → s.hash = t.hash →
    s.messages = t.messages

section
variable {hashing : Hashing} {sent : List SyncArgs}

variable {s : Snapshot} {current session : SessionRow} {call : Call} {w : World} {t : Tables}

theorem prepare_ok {args : SyncArgs} (h : prepare hashing args = .ok s) :
    canonicalMessages args.messages = .ok s.messages ∧ s.hash = hashing.snapshotHash s.messages := by
  unfold prepare at h
  split at h
  · cases h
  split at h
  · cases h
  rename_i messages hmessages
  split at h
  · cases h
  split_ifs at h
  cases h
  exact ⟨hmessages, rfl⟩

/-- A session's row is what the last of the batches left. -/
def Stands (session : SessionRow) (applied : List Application) : Prop :=
  match applied.getLast? with
  | none => session.snapshotHash = none ∧ session.maxEventOrdinal = 0
  | some a => session.snapshotHash = some a.snapshot.hash ∧ session.maxEventOrdinal = a.ordinal

/-- Ordinals never go down, and go up wherever the later batch was sent one. -/
def Ordered (applied : List Application) : Prop :=
  applied.Pairwise fun a b => a.ordinal ≤ b.ordinal ∧ (b.snapshot.maxEventOrdinal ≠ none → a.ordinal < b.ordinal)

def lastMessages (applied : List Application) : List CanonicalMessage :=
  (applied.getLast?.map (·.snapshot.messages)).getD []

theorem Stands.ordinal_le {applied : List Application} (h : Stands session applied) (hordered : Ordered applied) :
    ∀ a ∈ applied, a.ordinal ≤ session.maxEventOrdinal := by
  intro a ha
  rcases List.eq_nil_or_concat applied with rfl | ⟨front, last, rfl⟩
  · cases ha
  · rw [List.concat_eq_append] at *
    simp only [Stands, List.getLast?_append, List.getLast?_singleton, Option.some_or] at h
    rw [h.2]
    rcases List.mem_append.mp ha with ha | ha
    · exact ((List.pairwise_append.mp hordered).2.2 a ha last (List.mem_singleton.mpr rfl)).1
    · rw [List.mem_singleton.mp ha]

/-- Where a hash stands, some batch left it, with the ordinal. -/
theorem Stands.exists_last {applied : List Application} (h : Stands session applied) (hhash : session.snapshotHash.isSome) :
    ∃ front last, applied = front ++ [last] ∧ session.snapshotHash = some last.snapshot.hash ∧
      session.maxEventOrdinal = last.ordinal := by
  rcases List.eq_nil_or_concat applied with rfl | ⟨front, last, rfl⟩
  · simp only [Stands, List.getLast?_nil] at h
    rw [h.1] at hhash
    cases hhash
  · rw [List.concat_eq_append] at *
    simp only [Stands, List.getLast?_append, List.getLast?_singleton, Option.some_or] at h
    exact ⟨front, last, rfl, h⟩

theorem Stands.hash_isSome {applied : List Application} (h : Stands session applied) (hne : applied ≠ []) :
    session.snapshotHash.isSome := by
  rcases List.eq_nil_or_concat applied with rfl | ⟨front, last, rfl⟩
  · exact absurd rfl hne
  · rw [List.concat_eq_append] at *
    simp only [Stands, List.getLast?_append, List.getLast?_singleton, Option.some_or] at h
    rw [h.1]
    rfl

/-- What a call's snapshot repeats of the batches that had landed when the call read the session. -/
def Repeats (applied : List Application) (call : Call) (s : Snapshot) : Prop :=
  ∃ a ∈ applied.take call.seenApplied, a.snapshot.messages = s.messages ∧ a.snapshot.maxEventOrdinal = s.maxEventOrdinal

/-- A snapshot sent with no ordinal landed while the session stood at this one. -/
def Mixed (applied : List Application) (ordinal : ℕ) : Prop :=
  ∃ a ∈ applied, a.ordinal = ordinal ∧ a.snapshot.maxEventOrdinal = none

/-- What is known of a call in each of its phases. -/
def Known (hashing : Hashing) (w : World) (call : Call) : Phase → Prop
  | .asked => True
  | .prepared s => prepare hashing call.args = .ok s
  | .seen s current => prepare hashing call.args = .ok s ∧ w.tables.session.workspaceId = s.workspaceId ∧
      ¬ w.tables.session.deleted ∧ Stands current (w.applied.take call.seenApplied) ∧ s.fencingToken.isSome
  | .writing s current => prepare hashing call.args = .ok s ∧ w.tables.session.workspaceId = s.workspaceId ∧
      ¬ w.tables.session.deleted ∧ Stands current (w.applied.take call.seenApplied) ∧ eventGuard s.maxEventOrdinal current
  | .raced s => prepare hashing call.args = .ok s ∧
      (Repeats w.applied call s → s.maxEventOrdinal = none ∧ call.barred)
  | .answered _ ordinal => ∀ s, prepare hashing call.args = .ok s → s.maxEventOrdinal = some ordinal →
      ∃ a ∈ w.applied, a.ordinal = ordinal ∧ a.snapshot.messages = s.messages
  | .refused (.resourceConflict _) => ∀ s, prepare hashing call.args = .ok s → Repeats w.applied call s →
      call.barred ∨ ∃ ordinal, s.maxEventOrdinal = some ordinal ∧ Mixed w.applied ordinal
  | .refused _ => True

/-- A batch that landed: what it was sent with stood, and its call was told so. -/
structure Landed (hashing : Hashing) (w : World) (a : Application) : Prop where
  ordinal : ∀ ordinal, a.snapshot.maxEventOrdinal = some ordinal → a.ordinal = ordinal
  fence : ∀ fence, a.snapshot.fencingToken = some fence → a.newest = some fence
  answered : ∃ call, w.calls[a.call]? = some call ∧ prepare hashing call.args = .ok a.snapshot ∧
    ∃ ordinal, call.phase = .answered true ordinal
  produced : ∀ message ∈ a.snapshot.messages, message.role = "user" → producerOf w.tables.producers message.id ≠ none

structure Kept (hashing : Hashing) (sent : List SyncArgs) (w : World) : Prop where
  args : ∀ (i : ℕ) (call : Call), w.calls[i]? = some call → call.args ∈ sent
  whole : Whole w.tables
  fresh : ∀ token, w.tables.session.snapshotToken = some token → token < w.tokens
  stands : Stands w.tables.session w.applied
  stored : (w.tables.messages.map MessageRow.content).Perm (lastMessages w.applied)
  ordered : Ordered w.applied
  landed : ∀ a ∈ w.applied, Landed hashing w a
  newest : ∀ producer ∈ w.tables.producers, ∃ lease, w.tables.lease = some lease ∧ producer.fencingToken ≤ lease.fencingToken
  seen : ∀ (i : ℕ) (call : Call), w.calls[i]? = some call → call.seenApplied ≤ w.applied.length
  known : ∀ (i : ℕ) (call : Call), w.calls[i]? = some call → Known hashing w call call.phase

theorem Repeats.of_append {applied more : List Application} (hseen : call.seenApplied ≤ applied.length)
    (h : Repeats (applied ++ more) call s) : Repeats applied call s := by
  unfold Repeats at h ⊢
  rwa [List.take_append_of_le_length hseen] at h

theorem Mixed.append {applied : List Application} {ordinal : ℕ} (h : Mixed applied ordinal) (more : List Application) :
    Mixed (applied ++ more) ordinal := by
  obtain ⟨a, ha, hmixed⟩ := h
  exact ⟨a, List.mem_append_left _ ha, hmixed⟩

theorem Known.mono {w' : World} {phase : Phase} (h : Known hashing w call phase) (hseen : call.seenApplied ≤ w.applied.length)
    (happlied : ∃ more, w'.applied = w.applied ++ more)
    (hworkspace : w'.tables.session.workspaceId = w.tables.session.workspaceId)
    (hdeleted : w'.tables.session.deleted = w.tables.session.deleted) : Known hashing w' call phase := by
  obtain ⟨more, happlied⟩ := happlied
  have htake : w'.applied.take call.seenApplied = w.applied.take call.seenApplied := by
    rw [happlied, List.take_append_of_le_length hseen]
  rcases phase with _ | s | ⟨s, current⟩ | ⟨s, current⟩ | s | ⟨_, ordinal⟩ | refusal
  · trivial
  · exact h
  · obtain ⟨hprepare, hw, hd, hstands, hfence⟩ := h
    exact ⟨hprepare, hworkspace.trans hw, hdeleted ▸ hd, htake ▸ hstands, hfence⟩
  · obtain ⟨hprepare, hw, hd, hstands, hevent⟩ := h
    exact ⟨hprepare, hworkspace.trans hw, hdeleted ▸ hd, htake ▸ hstands, hevent⟩
  · refine ⟨h.1, fun hrepeats => h.2 ?_⟩
    rw [happlied] at hrepeats
    exact hrepeats.of_append hseen
  · intro s hprepare hsent
    obtain ⟨a, ha, hordinal⟩ := h s hprepare hsent
    exact ⟨a, happlied ▸ List.mem_append_left _ ha, hordinal⟩
  · rcases refusal with _ | message | _ | _ | _
    · trivial
    · intro s hprepare hrepeats
      rw [happlied] at hrepeats
      refine (h s hprepare (hrepeats.of_append hseen)).imp id ?_
      rintro ⟨ordinal, hsent, hmixed⟩
      exact ⟨ordinal, hsent, happlied ▸ hmixed.append more⟩
    · trivial
    · trivial
    · trivial

theorem known_verdict (h : Kept hashing sent w) (hfree : CollisionFree hashing sent) (call : Call) (hargs : call.args ∈ sent)
    (hprepare : prepare hashing call.args = .ok s) (hworkspace : w.tables.session.workspaceId = s.workspaceId)
    (hlive : ¬ w.tables.session.deleted) (hstands : Stands current (w.applied.take call.seenApplied)) :
    Known hashing w call (verdict s current) := by
  have hordered : Ordered (w.applied.take call.seenApplied) := h.ordered.sublist (List.take_sublist _ _)
  have hhash : s.hash = hashing.snapshotHash s.messages := (prepare_ok hprepare).2
  unfold verdict
  rcases hsent : s.maxEventOrdinal with _ | ordinal
  · exact ⟨hprepare, hworkspace, hlive, hstands, by rw [hsent]; rfl⟩
  dsimp only
  split_ifs with hlow hequal hdiffer
  · -- The session is past this ordinal, and the answer names where it stands.
    intro s' hprepare' hsent'
    obtain rfl : s = s' := Except.ok.inj (hprepare.symm.trans hprepare')
    rw [hsent] at hsent'
    cases hsent'
    omega
  · intro s' hprepare' hrepeats
    obtain rfl : s = s' := Except.ok.inj (hprepare.symm.trans hprepare')
    obtain ⟨a, ha, hmessages, hmax⟩ := hrepeats
    obtain ⟨front, last, htake, hlast, hordinal⟩ := hstands.exists_last hequal.2
    have hlanded := h.landed a (List.mem_of_mem_take ha)
    have haOrdinal : a.ordinal = ordinal := hlanded.ordinal ordinal (hmax.trans hsent)
    refine .inr ⟨ordinal, hsent, last, ?_, hordinal.symm.trans hequal.1.symm, ?_⟩
    · exact List.mem_of_mem_take (htake ▸ List.mem_append_right _ (List.mem_singleton.mpr rfl))
    -- The batch repeated is not the last one, so the last one was sent no ordinal.
    rw [htake] at ha
    rcases List.mem_append.mp ha with ha | ha
    · by_contra hne
      rw [htake] at hordered
      have := ((List.pairwise_append.mp hordered).2.2 a ha last (List.mem_singleton.mpr rfl)).2 hne
      omega
    · obtain rfl := List.mem_singleton.mp ha
      obtain ⟨_, _, hcall, _⟩ := hlanded.answered
      refine absurd ?_ hdiffer
      rw [hlast, hhash, (prepare_ok hcall).2, hmessages]
  · intro s' hprepare' hsent'
    obtain rfl : s = s' := Except.ok.inj (hprepare.symm.trans hprepare')
    obtain ⟨front, last, htake, hlast, hordinal⟩ := hstands.exists_last hequal.2
    have hmem : last ∈ w.applied := List.mem_of_mem_take (htake ▸ List.mem_append_right _ (List.mem_singleton.mpr rfl))
    obtain ⟨other, hother, hcall, _⟩ := (h.landed last hmem).answered
    refine ⟨last, hmem, hordinal.symm, hfree _ (h.args _ other hother) _ hargs _ _ hcall hprepare ?_⟩
    exact Option.some.inj (hlast.symm.trans (not_not.mp hdiffer))
  · refine ⟨hprepare, hworkspace, hlive, hstands, ?_⟩
    rw [hsent]
    simp only [eventGuard, decide_eq_true_eq]
    rcases hhashed : current.snapshotHash with _ | hash
    · simp only [Option.isNone_none, and_true]
      omega
    · simp only [hhashed, Option.isSome_some, and_true] at hequal
      simp only [Option.isNone_some, Bool.false_eq_true, and_false, or_false]
      omega

/-- One call moves, and nothing of the tables. -/
theorem Kept.update (h : Kept hashing sent w) {f : Call → Call} (i : ℕ)
    (hanswered : ∀ call b o, w.calls[i]? = some call → call.phase = .answered b o → f call = call)
    (hcall : ∀ call : Call, w.calls[i]? = some call → (f call).args = call.args ∧
      (f call).seenApplied ≤ w.applied.length ∧ Known hashing w (f call) (f call).phase) :
    Kept hashing sent (w.update f i) := by
  have hget : ∀ (j : ℕ) (call : Call), (w.update f i).calls[j]? = some call →
      w.calls[j]? = some call ∨ ∃ old, i = j ∧ w.calls[j]? = some old ∧ call = f old := by
    intro j call hj
    simp only [World.update, List.getElem?_modify] at hj
    split_ifs at hj with hij
    · obtain ⟨old, hold, rfl⟩ := Option.map_eq_some_iff.mp hj
      exact .inr ⟨old, hij, hold, rfl⟩
    · exact .inl (by simpa using hj)
  refine ⟨fun j call hj => ?_, h.whole, h.fresh, h.stands, h.stored, h.ordered, fun a ha => ?_, h.newest, fun j call hj => ?_,
    fun j call hj => ?_⟩
  · rcases hget j call hj with hj | ⟨old, rfl, hold, rfl⟩
    · exact h.args j call hj
    · rw [(hcall old hold).1]
      exact h.args _ old hold
  · have hl := h.landed a ha
    obtain ⟨call, hget', hprepare, ordinal, hphase⟩ := hl.answered
    refine ⟨hl.ordinal, hl.fence, ⟨call, ?_, hprepare, ordinal, hphase⟩, hl.produced⟩
    simp only [World.update, List.getElem?_modify]
    split_ifs with hi
    · rw [hget']
      exact congrArg some (hanswered call _ _ (hi ▸ hget') hphase)
    · simpa using hget'
  · rcases hget j call hj with hj | ⟨old, rfl, hold, rfl⟩
    · exact h.seen j call hj
    · exact (hcall old hold).2.1
  · rcases hget j call hj with hj | ⟨old, rfl, hold, rfl⟩
    · exact h.known j call hj
    · exact (hcall old hold).2.2

theorem known_access (call : Call) (h : Known hashing w call call.phase) :
    Known hashing w (access hashing w.tables call) (access hashing w.tables call).phase := by
  unfold access
  split
  · split_ifs
    · split
      · rename_i s hprepare
        exact hprepare
      · rename_i refusal hprepare
        -- An input that is refused here is no snapshot's.
        rcases refusal with _ | message | _ | _ | _
        · trivial
        · intro s hs
          rw [hprepare] at hs
          cases hs
        · trivial
        · trivial
        · trivial
    · trivial
  · exact h

theorem mayLand_lease (hworkspace : t.session.workspaceId = s.workspaceId)
    (h : ¬ t.lease.any fun lease => lease.workspaceId = s.workspaceId ∧ some lease.fencingToken = s.fencingToken)
    (hfence : s.fencingToken.isSome) : ¬ mayLand s t := by
  obtain ⟨fence, hfence⟩ := Option.isSome_iff_exists.mp hfence
  intro hmay
  simp only [mayLand, fenceGuard, hfence, decide_eq_true_eq] at hmay
  rw [hworkspace] at hmay
  refine h ?_
  rw [hfence]
  simpa using hmay.1

section
variable (hk : Kept hashing sent w) (hfree : CollisionFree hashing sent) (call : Call) (hargs : call.args ∈ sent)
  (h : Known hashing w call call.phase)
include hk hfree hargs h

theorem known_readSession :
    Known hashing w (readSession w.tables w.applied.length call) (readSession w.tables w.applied.length call).phase := by
  unfold readSession
  split
  · rename_i s hphase
    rw [hphase] at h
    have hstands : Stands w.tables.session (w.applied.take w.applied.length) := by
      rw [List.take_length]
      exact hk.stands
    split_ifs with hgone hfence
    · trivial
    · obtain ⟨hworkspace, hlive⟩ := not_or.mp hgone
      exact ⟨h, not_not.mp hworkspace, hlive, hstands, hfence⟩
    · obtain ⟨hworkspace, hlive⟩ := not_or.mp hgone
      exact known_verdict hk hfree ⟨call.args, verdict s w.tables.session, w.applied.length, call.barred⟩
        hargs h (not_not.mp hworkspace) hlive hstands
  · exact h

theorem known_readLease : Known hashing w (readLease w.tables call) (readLease w.tables call).phase := by
  unfold readLease
  split
  · rename_i s current hphase
    rw [hphase] at h
    obtain ⟨hprepare, hworkspace, hlive, hstands, hfence⟩ := h
    split_ifs with hlease
    · exact known_verdict hk hfree _ hargs hprepare hworkspace hlive hstands
    · intro s' hprepare' _
      exact .inl (decide_eq_true (mayLand_lease hworkspace hlease hfence))
  · exact h

theorem known_reread : Known hashing w (reread w.tables call) (reread w.tables call).phase := by
  unfold reread
  split
  · rename_i s hphase
    rw [hphase] at h
    obtain ⟨hprepare, hrepeats⟩ := h
    have hrefused : ∀ message, Known hashing w { call with phase := .refused (.resourceConflict message) }
        (.refused (.resourceConflict message)) := by
      intro message s' hprepare' hrepeats'
      obtain rfl : s = s' := Except.ok.inj (hprepare.symm.trans hprepare')
      exact .inl (hrepeats hrepeats').2
    split
    · rename_i ordinal hsent
      split_ifs with hsame
      · intro s' hprepare' hsent'
        obtain rfl : s = s' := Except.ok.inj (hprepare.symm.trans hprepare')
        obtain ⟨front, last, happlied, hlast, hordinal⟩ := hk.stands.exists_last (by rw [hsame.2]; rfl)
        have hmem : last ∈ w.applied := happlied ▸ List.mem_append_right _ (List.mem_singleton.mpr rfl)
        obtain ⟨other, hother, hcall, _⟩ := (hk.landed last hmem).answered
        refine ⟨last, hmem, hordinal.symm.trans hsame.1, hfree _ (hk.args _ other hother) _ hargs _ _ hcall hprepare ?_⟩
        exact Option.some.inj (hlast.symm.trans hsame.2)
      · exact hrefused _
    · exact hrefused _
  · exact h

end

/-- What a call has read allows of its batch: no batch before it carried its ordinal. -/
theorem not_repeats_of_eventGuard (hk : Kept hashing sent w) (hstands : Stands current (w.applied.take call.seenApplied))
    (hevent : eventGuard s.maxEventOrdinal current) (hrepeats : Repeats w.applied call s) : s.maxEventOrdinal = none := by
  by_contra hne
  obtain ⟨ordinal, hsent⟩ := Option.ne_none_iff_exists'.mp hne
  obtain ⟨a, ha, -, hmax⟩ := hrepeats
  have hle := hstands.ordinal_le (hk.ordered.sublist (List.take_sublist _ _)) a ha
  have haOrdinal := (hk.landed a (List.mem_of_mem_take ha)).ordinal ordinal (hmax.trans hsent)
  have hhash := hstands.hash_isSome (List.ne_nil_of_mem ha)
  rw [hsent] at hevent
  simp only [eventGuard, decide_eq_true_eq] at hevent
  rcases hevent with hevent | ⟨-, hnone⟩
  · omega
  · rw [Option.isNone_iff_eq_none] at hnone
    rw [hnone] at hhash
    cases hhash

/-- The row moves on by a batch that its event guard admitted. -/
theorem Kept.landing (hk : Kept hashing sent w) {a : Application} (hsnapshot : a.snapshot = s)
    (hordinal : a.ordinal = t.session.maxEventOrdinal) (hevent : eventGuard s.maxEventOrdinal w.tables.session)
    (hsession : t.session = w.tables.session.landed w.tokens s) :
    Stands t.session (w.applied ++ [a]) ∧ Ordered (w.applied ++ [a]) ∧
      ∀ ordinal, s.maxEventOrdinal = some ordinal → a.ordinal = ordinal := by
  have hmax : t.session.maxEventOrdinal = s.maxEventOrdinal.getD w.tables.session.maxEventOrdinal := by rw [hsession]; rfl
  refine ⟨?_, ?_, fun ordinal hsent => ?_⟩
  · simp only [Stands, List.getLast?_append, List.getLast?_singleton, Option.some_or]
    exact ⟨by rw [hsession, hsnapshot]; rfl, hordinal.symm⟩
  · refine List.pairwise_append.mpr ⟨hk.ordered, List.pairwise_singleton _ _, fun b hb c hc => ?_⟩
    rw [List.mem_singleton.mp hc, hsnapshot, hordinal, hmax]
    have hle := hk.stands.ordinal_le hk.ordered b hb
    have hhash := hk.stands.hash_isSome (List.ne_nil_of_mem hb)
    rcases hsent : s.maxEventOrdinal with _ | ordinal
    · exact ⟨hle, fun hne => absurd rfl hne⟩
    · rw [hsent] at hevent
      simp only [eventGuard, decide_eq_true_eq] at hevent
      rcases hevent with hevent | ⟨-, hnone⟩
      · exact ⟨by simp only [Option.getD_some]; omega, fun _ => by simp only [Option.getD_some]; omega⟩
      · rw [Option.isNone_iff_eq_none] at hnone
        rw [hnone] at hhash
        cases hhash
  · rw [hordinal, hmax, hsent, Option.getD_some]

/-- A batch that landed, and its call's answer. -/
theorem Kept.applied (hk : Kept hashing sent w) {i now : ℕ} (hget : w.calls[i]? = some call)
    (hphase : call.phase = .writing s current) (hbatch : batch w.tokens now s w.tables = some t) (ordinal : ℕ) :
    Kept hashing sent
      { tables := t
        calls := w.calls.set i { call with phase := .answered true ordinal }
        tokens := w.tokens + 1
        applied := w.applied ++ [{ call := i, snapshot := s, ordinal := t.session.maxEventOrdinal,
                                   newest := w.tables.lease.map (·.fencingToken) }] } := by
  have hknown := hk.known i call hget
  rw [hphase] at hknown
  obtain ⟨hprepare, -⟩ := hknown
  have hnodup := (canonicalMessages_ok (prepare_ok hprepare).1).1
  have hfresh : w.tables.session.snapshotToken ≠ some w.tokens := fun h => absurd (hk.fresh _ h) (lt_irrefl _)
  have hlt : i < w.calls.length := (List.getElem?_eq_some_iff.mp hget).1
  obtain ⟨hadmits, hproducers, hsession, hlease, hsameProducers, -, hwhole, hperm⟩ := batch_eq_some hk.whole hfresh hnodup hbatch
  set a : Application := { call := i, snapshot := s, ordinal := t.session.maxEventOrdinal,
                           newest := w.tables.lease.map (·.fencingToken) } with ha
  obtain ⟨hstands, hordered, hordinal⟩ := hk.landing (a := a) rfl rfl hadmits.event hsession
  have hother : ∀ (j : ℕ) (c : Call), (w.calls.set i { call with phase := .answered true ordinal })[j]? = some c →
      (i = j ∧ c = { call with phase := .answered true ordinal }) ∨ w.calls[j]? = some c := by
    intro j c hj
    rw [List.getElem?_set] at hj
    split_ifs at hj with hij
    · exact .inl ⟨hij, (Option.some.inj hj).symm⟩
    · exact .inr hj
  refine ⟨fun j c hj => ?_, hwhole, fun token htoken => ?_, hstands, ?_, hordered, fun b hb => ?_, ?_, fun j c hj => ?_,
    fun j c hj => ?_⟩
  · rcases hother j c hj with ⟨rfl, rfl⟩ | hj
    · exact hk.args _ call hget
    · exact hk.args j c hj
  · rw [hsession] at htoken
    have hsame : w.tokens = token := Option.some.inj htoken
    exact hsame ▸ Nat.lt_succ_self _
  · simpa only [lastMessages, List.getLast?_append, List.getLast?_singleton, Option.some_or, Option.map_some,
      Option.getD_some] using hperm
  · rcases List.mem_append.mp hb with hb | hb
    · have hl := hk.landed b hb
      obtain ⟨c, hc, hcPrepare, o, hcPhase⟩ := hl.answered
      have hne : i ≠ b.call := by
        rintro rfl
        rw [hget] at hc
        cases hc
        rw [hphase] at hcPhase
        cases hcPhase
      refine ⟨hl.ordinal, hl.fence, ⟨c, ?_, hcPrepare, o, hcPhase⟩, by simpa only [hsameProducers] using hl.produced⟩
      simpa [List.getElem?_set, hne] using hc
    · obtain rfl := List.mem_singleton.mp hb
      refine ⟨hordinal, fun fence hfence => ?_, ⟨{ call with phase := .answered true ordinal }, ?_, hprepare, ordinal, rfl⟩,
        by simpa only [hsameProducers] using hproducers⟩
      · have hguard := hadmits.fence
        rw [show s.fencingToken = some fence from hfence] at hguard
        simp only [fenceGuard] at hguard
        rcases hl : w.tables.lease with _ | lease
        · rw [hl] at hguard
          cases hguard
        · rw [hl] at hguard
          simp only [Option.any_some, decide_eq_true_eq] at hguard
          simp only [ha, hl, Option.map_some, hguard.2]
      · simp [ha, hlt]
  · simpa only [hsameProducers, hlease] using hk.newest
  · rw [List.length_append]
    rcases hother j c hj with ⟨rfl, rfl⟩ | hj
    · exact (hk.seen _ call hget).trans (Nat.le_add_right _ _)
    · exact (hk.seen j c hj).trans (Nat.le_add_right _ _)
  · rcases hother j c hj with ⟨rfl, rfl⟩ | hj
    · intro s' hprepare' hsent
      obtain rfl : s = s' := Except.ok.inj (hprepare.symm.trans hprepare')
      refine ⟨a, List.mem_append_right _ (List.mem_singleton.mpr rfl), ?_, rfl⟩
      exact hordinal _ hsent
    · exact (hk.known j c hj).mono (hk.seen j c hj) ⟨[a], rfl⟩ (by dsimp only; rw [hsession]; rfl)
        (by dsimp only; rw [hsession]; rfl)

theorem Kept.tick (hk : Kept hashing sent w) : Kept hashing sent { w with tokens := w.tokens + 1 } where
  args := hk.args
  whole := hk.whole
  fresh token h := (hk.fresh token h).trans (Nat.lt_succ_self _)
  stands := hk.stands
  stored := hk.stored
  ordered := hk.ordered
  landed a ha := ⟨(hk.landed a ha).ordinal, (hk.landed a ha).fence, (hk.landed a ha).answered, (hk.landed a ha).produced⟩
  newest := hk.newest
  seen := hk.seen
  known j c hj := (hk.known j c hj).mono (hk.seen j c hj) ⟨[], by simp⟩ rfl rfl

/-- A call whose snapshot landed before, sent with no ordinal, finds its batch rolled back only where
it may not land. -/
theorem barred_of_batch_eq_none (hk : Kept hashing sent w) {now : ℕ} (h : Known hashing w call (.writing s current))
    (hbatch : batch w.tokens now s w.tables = none) (hrepeats : Repeats w.applied call s) (hsent : s.maxEventOrdinal = none) :
    ¬ mayLand s w.tables := by
  obtain ⟨hprepare, hworkspace, hlive, -, -⟩ := h
  intro hmay
  simp only [mayLand, decide_eq_true_eq] at hmay
  obtain ⟨a, ha, hmessages, -⟩ := hrepeats
  have hproduced := (hk.landed a (List.mem_of_mem_take ha)).produced
  rw [hmessages] at hproduced
  have hsome : (batch w.tokens now s w.tables).isSome := batch_isSome hk.whole (canonicalMessages_ok (prepare_ok hprepare).1).1
    ⟨hworkspace, hlive, by rw [hsent]; rfl, hmay.1, hmay.2⟩ hproduced
  rw [hbatch] at hsome
  cases hsome

theorem Kept.write (hk : Kept hashing sent w) (i now : ℕ) : Kept hashing sent (w.write i now) := by
  unfold World.write
  split
  case h_2 => exact hk
  rename_i call hget
  split
  case h_2 => exact hk
  rename_i s current hphase
  split
  · rename_i t hbatch
    exact hk.applied hget hphase hbatch _
  · rename_i hbatch
    have hknown := hk.known i call hget
    rw [hphase] at hknown
    have hmoved := hk.tick.update (f := fun _ => { call with phase := .raced s, barred := ¬ mayLand s w.tables }) i
      (fun c b o hc hanswered => by
        rw [hget] at hc
        cases hc
        rw [hphase] at hanswered
        cases hanswered)
      (fun c hc => ⟨by rw [hget] at hc; cases hc; rfl, hk.seen i call hget, hknown.1, fun hrepeats => ?_⟩)
    · simpa only [World.update, List.set_eq_modify] using hmoved
    · have hsent := not_repeats_of_eventGuard hk hknown.2.2.2.1 hknown.2.2.2.2 hrepeats
      exact ⟨hsent, decide_eq_true (barred_of_batch_eq_none hk hknown hbatch hrepeats hsent)⟩

theorem producerOf_append {producers : List ProducerRow} {messageId : String} (h : producerOf producers messageId ≠ none)
    (more : List ProducerRow) : producerOf (producers ++ more) messageId = producerOf producers messageId := by
  unfold producerOf at h ⊢
  rw [Table.get_append]
  rcases hget : Table.get ProducerRow.turnId messageId producers with _ | producer
  · exact absurd (by rw [hget]; rfl) h
  · rfl

/-- A turn that takes the lease over leaves the transcript and its authors alone. -/
theorem Kept.takeOver (hk : Kept hashing sent w) (turnId actorId : String) :
    Kept hashing sent { w with tables := w.tables.takeOver turnId actorId } := by
  unfold Tables.takeOver
  split
  · exact hk
  · set fencingToken := (w.tables.lease.map (·.fencingToken)).getD 0 + 1 with htoken
    refine ⟨hk.args, ⟨hk.whole.keys, hk.whole.generation, fun row hrow => ?_, hk.whole.known⟩, hk.fresh, hk.stands,
        hk.stored, hk.ordered,
      fun a ha => ?_, fun producer hproducer => ⟨_, rfl, ?_⟩, hk.seen,
      fun j c hj => (hk.known j c hj).mono (hk.seen j c hj) ⟨[], by simp⟩ rfl rfl⟩
    · have hauthor := hk.whole.authored row hrow
      rw [hauthor]
      split_ifs with huser
      · have hknown := hk.whole.known row hrow huser
        rw [hauthor, if_pos huser] at hknown
        exact (producerOf_append hknown _).symm
      · rfl
    · have hl := hk.landed a ha
      refine ⟨hl.ordinal, hl.fence, hl.answered, fun message hmessage huser => ?_⟩
      have hproduced := hl.produced message hmessage huser
      rwa [producerOf_append hproduced]
    · rcases List.mem_append.mp hproducer with hproducer | hproducer
      · obtain ⟨lease, hlease, hle⟩ := hk.newest producer hproducer
        rw [hlease] at htoken
        simp only [Option.map_some, Option.getD_some] at htoken
        dsimp only
        omega
      · rw [List.mem_singleton.mp hproducer]

theorem Kept.setSenders (hk : Kept hashing sent w) (senders : List String) :
    Kept hashing sent { w with tables := { w.tables with senders } } :=
  ⟨hk.args, ⟨hk.whole.keys, hk.whole.generation, hk.whole.authored, hk.whole.known⟩, hk.fresh, hk.stands, hk.stored, hk.ordered,
    fun a ha => ⟨(hk.landed a ha).ordinal, (hk.landed a ha).fence, (hk.landed a ha).answered, (hk.landed a ha).produced⟩,
    hk.newest, hk.seen, fun j c hj => (hk.known j c hj).mono (hk.seen j c hj) ⟨[], by simp⟩ rfl rfl⟩

theorem Kept.sync (hk : Kept hashing sent w) {args : SyncArgs} (hargs : args ∈ sent) :
    Kept hashing sent { w with calls := w.calls ++ [{ args }] } := by
  have hother : ∀ (j : ℕ) (c : Call), (w.calls ++ [⟨args, .asked, 0, false⟩])[j]? = some c →
      c = ⟨args, .asked, 0, false⟩ ∨ w.calls[j]? = some c := by
    intro j c hj
    rw [List.getElem?_append] at hj
    split_ifs at hj with hlt
    · exact .inr hj
    · exact .inl (List.mem_singleton.mp (List.mem_of_getElem? hj))
  refine ⟨fun j c hj => ?_, hk.whole, hk.fresh, hk.stands, hk.stored, hk.ordered, fun a ha => ?_, hk.newest, fun j c hj => ?_,
    fun j c hj => ?_⟩
  · rcases hother j c hj with rfl | hj
    · exact hargs
    · exact hk.args j c hj
  · have hl := hk.landed a ha
    obtain ⟨call, hcall, hprepare, ordinal, hphase⟩ := hl.answered
    refine ⟨hl.ordinal, hl.fence, ⟨call, ?_, hprepare, ordinal, hphase⟩, hl.produced⟩
    rw [List.getElem?_append_left (List.getElem?_eq_some_iff.mp hcall).1]
    exact hcall
  · rcases hother j c hj with rfl | hj
    · exact Nat.zero_le _
    · exact hk.seen j c hj
  · rcases hother j c hj with rfl | hj
    · trivial
    · exact (hk.known j c hj).mono (hk.seen j c hj) ⟨[], by simp⟩ rfl rfl

theorem Kept.step (hk : Kept hashing sent w) (hfree : CollisionFree hashing sent) (moment : Moment)
    (hsent : ∀ args, moment = .sync args → args ∈ sent) : Kept hashing sent (w.step hashing moment) := by
  rcases moment with args | i | i | i | ⟨i, now⟩ | i | ⟨turnId, actorId⟩ | senders
  · exact hk.sync (hsent args rfl)
  · refine hk.update i (fun call b o _ hphase => by simp only [access, hphase]) fun call hcall => ⟨?_, ?_, ?_⟩
    · unfold access
      split
      · split_ifs
        · split <;> rfl
        · rfl
      · rfl
    · have hseen : (access hashing w.tables call).seenApplied = call.seenApplied := by
        unfold access
        split
        · split_ifs
          · split <;> rfl
          · rfl
        · rfl
      exact hseen ▸ hk.seen i call hcall
    · exact known_access call (hk.known i call hcall)
  · refine hk.update i (fun call b o _ hphase => by simp only [readSession, hphase]) fun call hcall => ⟨?_, ?_, ?_⟩
    · unfold readSession
      split
      · split_ifs <;> rfl
      · rfl
    · unfold readSession
      split
      · split_ifs
        · exact hk.seen i call hcall
        · exact le_refl _
        · exact le_refl _
      · exact hk.seen i call hcall
    · exact known_readSession hk hfree call (hk.args i call hcall) (hk.known i call hcall)
  · refine hk.update i (fun call b o _ hphase => by simp only [readLease, hphase]) fun call hcall => ⟨?_, ?_, ?_⟩
    · unfold readLease
      split
      · split_ifs <;> rfl
      · rfl
    · unfold readLease
      split
      · split_ifs
        · exact hk.seen i call hcall
        · exact hk.seen i call hcall
      · exact hk.seen i call hcall
    · exact known_readLease hk hfree call (hk.args i call hcall) (hk.known i call hcall)
  · exact hk.write i now
  · refine hk.update i (fun call b o _ hphase => by simp only [reread, hphase]) fun call hcall => ⟨?_, ?_, ?_⟩
    · unfold reread
      split
      · split
        · split_ifs <;> rfl
        · rfl
      · rfl
    · unfold reread
      split
      · split
        · split_ifs
          · exact hk.seen i call hcall
          · exact hk.seen i call hcall
        · exact hk.seen i call hcall
      · exact hk.seen i call hcall
    · exact known_reread hk hfree call (hk.args i call hcall) (hk.known i call hcall)
  · exact hk.takeOver turnId actorId
  · exact hk.setSenders senders

theorem Kept.fresh_world (session : SessionRow) (senders : List String) : Kept hashing sent (World.fresh session senders) where
  args _ _ h := by cases h
  whole := ⟨.nil, fun _ h => absurd h List.not_mem_nil, fun _ h => absurd h List.not_mem_nil, fun _ h => absurd h List.not_mem_nil⟩
  fresh _ h := by cases h
  stands := ⟨rfl, rfl⟩
  stored := .refl _
  ordered := .nil
  landed _ h := absurd h List.not_mem_nil
  newest _ h := absurd h List.not_mem_nil
  seen _ _ h := by cases h
  known _ _ h := by cases h

/-- The inputs of a run's calls. -/
def Moment.args? : Moment → Option SyncArgs
  | .sync args => some args
  | _ => none

theorem Kept.run {moments : List Moment} (hfree : CollisionFree hashing (moments.filterMap Moment.args?)) (session : SessionRow)
    (senders : List String) : Kept hashing (moments.filterMap Moment.args?)
      (Lib.run (World.step hashing) (World.fresh session senders) moments) := by
  have hmeets : ∀ (w : World) (ms : List Moment), (∀ m ∈ ms, m ∈ moments) →
      Lib.Meets (World.step hashing) (fun _ m => m ∈ moments) w ms := by
    intro w ms hms
    induction ms generalizing w with
    | nil => trivial
    | cons m ms ih => exact ⟨hms m List.mem_cons_self, ih _ fun m' hm' => hms m' (List.mem_cons_of_mem _ hm')⟩
  refine Lib.invariant_of_meets (Kept hashing (moments.filterMap Moment.args?)) (fun w moment hk hm => ?_)
    (Kept.fresh_world session senders) (hmeets _ _ fun _ h => h)
  refine hk.step hfree moment fun args hargs => ?_
  exact List.mem_filterMap.mpr ⟨moment, hm, by rw [hargs]; rfl⟩

end

end Claxedo.Hosted
