import Claxedo.Usage.CloudTurn

/-! The usage outbox over whole runs: every message keeps its latest revision and its turn, what is unanswered is offered,
and an answer settles the message it was given for, as long as the messages filed under one session's turns are told apart
by the ids they are reported under. -/

namespace Claxedo.Usage

open Claxedo.Lib

variable (usageRevisionHash : TurnUsageRevision → String) (size : TurnProof → List PendingUsageFact → ℕ)

/-- A message's rows up to a revision are answered, and every other row is as it was. -/
structure Settles (rows rows' : List RevisionRow) (message : Message) (revision : ℤ) : Prop where
  answered : ∀ row ∈ rows', row.message = message → row.revision ≤ revision → row.delivery ≠ .pending
  later : ∀ row ∈ rows', row.message = message → revision < row.revision → row ∈ rows
  others : ∀ row, row.message ≠ message → (row ∈ rows' ↔ row ∈ rows)

structure OutboxHolds (s : CloudTurnUsage) : Prop where
  kept : ∀ message revision, (message, revision) ∈ s.accepted →
    (∀ other, (message, other) ∈ s.accepted → other ≤ revision) →
    ∃ row ∈ s.ledger.rows, row.message = message ∧ row.revision = revision
  oneTurn : ∀ a ∈ s.ledger.rows, ∀ b ∈ s.ledger.rows, a.message = b.message → a.turn = b.turn
  turnStands : ∀ label, ∀ row ∈ s.ledger.rows, ∀ later ∈ (s.step usageRevisionHash size label).ledger.rows,
    later.message = row.message → row.turn ≠ none → later.turn = row.turn
  offered : ∀ message revision, (message, revision) ∈ s.accepted →
    (∀ answer, (message, answer) ∈ s.answered → answer < revision) →
    ∀ row ∈ s.ledger.rows, row.message = message → ∀ turn ∈ row.turn, ∃ item ∈ pending s.ledger.rows turn.sessionId,
      (item.sessionId, item.messageId) = message ∧ item.fact.turnId = turn.turnId ∧ revision ≤ item.fact.reported.revision
  apart : ∀ a ∈ s.ledger.rows, ∀ b ∈ s.ledger.rows, a.message ≠ b.message → ∀ turn ∈ a.turn, ∀ turn' ∈ b.turn,
    turn'.sessionId = turn.sessionId →
      reportedMessageId a.sessionId turn.sessionId a.messageId ≠ reportedMessageId b.sessionId turn.sessionId b.messageId
  answers : ∀ report ∈ s.report, ∀ item ∈ report.batch, ∀ result : ReportResult,
    result.messageId = item.fact.reported.messageId → result.revision = item.fact.reported.revision → ∀ t : CloudTurnUsage,
      Settles t.ledger.rows (CloudTurnUsage.settleResult report.batch t result).ledger.rows (item.sessionId, item.messageId)
        result.revision
  bodies : ∀ report ∈ s.report, report.batch.length ≤ USAGE_REPORT_MAX_FACTS
  batches : ∀ proof, (reportBatches (size proof) (pending s.ledger.rows proof.sessionId)).flatten =
      pending s.ledger.rows proof.sessionId ∧
    ∀ batch ∈ reportBatches (size proof) (pending s.ledger.rows proof.sessionId), batch.length ≤ USAGE_REPORT_MAX_FACTS

def FiledUnder (sessionId : String) (row : RevisionRow) : Prop := row.turn.map MeteringTurn.sessionId = some sessionId

instance (sessionId : String) (row : RevisionRow) : Decidable (FiledUnder sessionId row) := by
  unfold FiledUnder
  infer_instance

def Adopted (proof : TurnProof) (parents : Parents) (row : RevisionRow) : Prop :=
  row.turn = none ∧ proof.sessionId ∈ lineage parents row.sessionId

instance (proof : TurnProof) (parents : Parents) (row : RevisionRow) : Decidable (Adopted proof parents row) := by
  unfold Adopted
  infer_instance

/-- A message comes under a turn only where it is told apart from those filed under that turn's session, and the ids a
revision carries say something. -/
def FilesApart (s : CloudTurnUsage) : CloudTurnLabel → Prop
  | .write item _ => SaysWhat item
  | .hashed i => ∀ call ∈ s.writes[i]?, (∀ row ∈ s.ledger.rows, row.message ≠ (call.item.sessionId, call.item.messageId)) →
    ∀ turn ∈ call.turn, ∀ row ∈ s.ledger.rows, FiledUnder turn.sessionId row →
      Apart turn.sessionId row.message (call.item.sessionId, call.item.messageId)
  | .ended proof parents threw => threw = false → ∀ a ∈ s.ledger.rows, ∀ b ∈ s.ledger.rows, a.message ≠ b.message →
    Adopted proof parents a → Adopted proof parents b ∨ FiledUnder proof.sessionId b → Apart proof.sessionId a.message b.message
  | _ => True

instance (s : CloudTurnUsage) : (label : CloudTurnLabel) → Decidable (FilesApart s label)
  | .write item _ => inferInstanceAs (Decidable (SaysWhat item))
  | .hashed i => inferInstanceAs (Decidable (∀ call ∈ s.writes[i]?,
      (∀ row ∈ s.ledger.rows, row.message ≠ (call.item.sessionId, call.item.messageId)) →
        ∀ turn ∈ call.turn, ∀ row ∈ s.ledger.rows, FiledUnder turn.sessionId row →
          Apart turn.sessionId row.message (call.item.sessionId, call.item.messageId)))
  | .ended proof parents threw => inferInstanceAs (Decidable (threw = false → ∀ a ∈ s.ledger.rows, ∀ b ∈ s.ledger.rows,
      a.message ≠ b.message → Adopted proof parents a → Adopted proof parents b ∨ FiledUnder proof.sessionId b →
        Apart proof.sessionId a.message b.message))
  | .returned _ _ | .acquired _ _ | .renewed _ | .released _ | .flush _ | .drain _ | .offer | .answer _ | .restart => isTrue trivial

section
variable {rows rows' : List RevisionRow} {accepted answered : List (Message × ℤ)} {message : Message} {revision : ℤ}

variable {row : RevisionRow} {proof : TurnProof} {item : PendingUsageFact} {batch : List PendingUsageFact}

/-- The latest of the rows a property holds of. -/
theorem exists_top (p : RevisionRow → Prop) (hrow : row ∈ rows) (hp : p row) :
    ∃ top ∈ rows, p top ∧ row.revision ≤ top.revision ∧ ∀ other ∈ rows, p other → other.revision ≤ top.revision := by
  classical
  obtain ⟨top, htop, hmax⟩ := (rows.toFinset.filter p).exists_max_image RevisionRow.revision
    ⟨row, Finset.mem_filter.mpr ⟨List.mem_toFinset.mpr hrow, hp⟩⟩
  obtain ⟨hmem, hptop⟩ := Finset.mem_filter.mp htop
  have hmax : ∀ other ∈ rows, p other → other.revision ≤ top.revision := fun other hother hpother =>
    hmax other (Finset.mem_filter.mpr ⟨List.mem_toFinset.mpr hother, hpother⟩)
  exact ⟨top, List.mem_toFinset.mp hmem, hptop, hmax row hrow hp, hmax⟩

theorem latest_spec (rows : List RevisionRow) (message : Message) : (∃ current ∈ rows, latest rows message = some current ∧
    current.message = message ∧
      ∀ other ∈ rows, other.message = message → other.revision ≤ current.revision) ∨
    latest rows message = none ∧ ∀ row ∈ rows, row.message ≠ message := by
  rcases hlatest : latest rows message with _ | current
  · refine .inr ⟨rfl, fun row hrow hmessage => ?_⟩
    obtain ⟨top, htop, hptop, -, hmax⟩ := exists_top (fun row => row.message = message) hrow hmessage
    have hnot := List.find?_eq_none.mp hlatest top htop
    simp only [decide_eq_true_eq] at hnot
    exact hnot ⟨hptop, hmax⟩
  · have hcurrent := List.find?_some hlatest
    simp only [decide_eq_true_eq] at hcurrent
    exact .inl ⟨current, List.mem_of_find?_eq_some hlatest, rfl, hcurrent⟩

/-- What a write does where it is accepted: one row more, under its message's turn, or its own where it is the first. -/
theorem writeRevision_spec (rows : List RevisionRow) (item : TurnUsageRevision) (hash : String) (turn : Option MeteringTurn) :
    ((writeRevision rows item hash turn).1 ≠ .accepted ∧ (writeRevision rows item hash turn).2 = rows) ∨
    (writeRevision rows item hash turn).1 = .accepted ∧ ∃ row : RevisionRow, (writeRevision rows item hash turn).2 = rows ++ [row] ∧
      row.message = (item.sessionId, item.messageId) ∧ row.revision = item.revision ∧ row.fact = usageReportRevision item ∧
      row.delivery = .pending ∧
      (∀ other ∈ rows, other.message = row.message → other.revision < row.revision) ∧
      ((∃ current ∈ rows, current.message = row.message ∧ row.turn = current.turn) ∨
        (∀ other ∈ rows, other.message ≠ row.message) ∧ row.turn = turn) := by
  unfold writeRevision
  rcases latest_spec rows (item.sessionId, item.messageId) with
    ⟨current, hcurrent, hlatest, hmessage, hmax⟩ | ⟨hlatest, hnone⟩ <;> rw [hlatest] <;> dsimp only
  · split_ifs with holder hsame hhash
    · exact .inl ⟨nofun, rfl⟩
    · exact .inl ⟨nofun, rfl⟩
    · exact .inl ⟨nofun, rfl⟩
    · refine .inr ⟨rfl, _, rfl, rfl, rfl, rfl, rfl, fun other hother hkey => ?_, .inl ⟨current, hcurrent, hmessage, rfl⟩⟩
      have hle := hmax other hother hkey
      dsimp only
      omega
  · exact .inr ⟨rfl, _, rfl, rfl, rfl, rfl, rfl, fun other hother hkey => absurd hkey (hnone other hother), .inr ⟨hnone, rfl⟩⟩

/-- What the tables hold for what was accepted and what was answered. -/
structure Kept (rows : List RevisionRow) (accepted answered : List (Message × ℤ)) : Prop where
  unique : ∀ a ∈ rows, ∀ b ∈ rows, a.message = b.message → a.revision = b.revision → a = b
  oneTurn : ∀ a ∈ rows, ∀ b ∈ rows, a.message = b.message → a.turn = b.turn
  recorded : ∀ row ∈ rows, (row.message, row.revision) ∈ accepted
  there : ∀ message revision, (message, revision) ∈ accepted → ∃ row ∈ rows, row.message = message ∧ revision ≤ row.revision
  owed : ∀ message revision, (message, revision) ∈ accepted → (∃ answer, (message, answer) ∈ answered ∧ revision ≤ answer) ∨
    ∃ row ∈ rows, row.message = message ∧ row.revision = revision ∧ row.delivery = .pending
  reads : ∀ row ∈ rows, ∃ stored, readUsageReportRevision row.fact = some stored ∧ stored.messageId = row.messageId ∧
    stored.revision = row.revision
  apart : ∀ a ∈ rows, ∀ b ∈ rows, a.message ≠ b.message → ∀ sessionId, FiledUnder sessionId a → FiledUnder sessionId b →
    Apart sessionId a.message b.message

/-- The rows have gone on: every message is still there, under the turn it had. -/
structure Onward (rows rows' : List RevisionRow) : Prop where
  there : ∀ row ∈ rows, ∃ later ∈ rows', later.message = row.message
  stands : ∀ row ∈ rows, ∀ later ∈ rows', later.message = row.message → row.turn ≠ none → later.turn = row.turn

theorem Kept.onward_refl (h : Kept rows accepted answered) : Onward rows rows :=
  ⟨fun row hrow => ⟨row, hrow, rfl⟩, fun row hrow later hlater hmessage _ => h.oneTurn later hlater row hrow hmessage⟩

theorem Onward.trans {rows'' : List RevisionRow} (h : Onward rows rows') (h' : Onward rows' rows'') : Onward rows rows'' := by
  refine ⟨fun row hrow => ?_, fun row hrow last hlast hmessage hturn => ?_⟩
  · obtain ⟨later, hlater, hsame⟩ := h.there row hrow
    obtain ⟨last, hlast, hsame'⟩ := h'.there later hlater
    exact ⟨last, hlast, hsame'.trans hsame⟩
  · obtain ⟨later, hlater, hsame⟩ := h.there row hrow
    have hstands := h.stands row hrow later hlater hsame hturn
    exact (h'.stands later hlater last hlast (hmessage.trans hsame.symm) (hstands ▸ hturn)).trans hstands

/-- A message's new row is under the turn of those it has. -/
theorem Kept.turn_eq (h : Kept rows accepted answered) {turn : Option MeteringTurn}
    (hturn : (∃ current ∈ rows, current.message = row.message ∧ row.turn = current.turn) ∨
      (∀ other ∈ rows, other.message ≠ row.message) ∧ row.turn = turn) :
    ∀ other ∈ rows, other.message = row.message → other.turn = row.turn := by
  intro other hother hkey
  rcases hturn with ⟨current, hcurrent, hkey', hturn⟩ | ⟨hnone, -⟩
  · exact (h.oneTurn other hother current hcurrent (hkey.trans hkey'.symm)).trans hturn.symm
  · exact absurd hkey (hnone other hother)

theorem Kept.onward_write (h : Kept rows accepted answered) (item : TurnUsageRevision) (hash : String)
    (turn : Option MeteringTurn) : Onward rows (writeRevision rows item hash turn).2 := by
  rcases writeRevision_spec rows item hash turn with ⟨-, hrows⟩ | ⟨-, row, hrows, -, -, -, -, -, hturn⟩ <;> rw [hrows]
  · exact h.onward_refl
  · refine ⟨fun other hother => ⟨other, List.mem_append_left _ hother, rfl⟩, fun other hother later hlater hkey _ => ?_⟩
    rcases List.mem_append.mp hlater with hlater | hlater
    · exact h.oneTurn later hlater other hother hkey
    · obtain rfl := List.mem_singleton.mp hlater
      exact (h.turn_eq hturn other hother hkey.symm).symm

theorem Kept.write (h : Kept rows accepted answered) {item : TurnUsageRevision} {hash : String} {turn : Option MeteringTurn}
    (hassert : assertTurnUsageRevision item = .ok ()) (hwhat : SaysWhat item)
    (hapart : (∀ row ∈ rows, row.message ≠ (item.sessionId, item.messageId)) → ∀ turn' ∈ turn, ∀ row ∈ rows,
      FiledUnder turn'.sessionId row → Apart turn'.sessionId row.message (item.sessionId, item.messageId)) :
    Kept (writeRevision rows item hash turn).2
      (if (writeRevision rows item hash turn).1 = .accepted then
        accepted ++ [((item.sessionId, item.messageId), item.revision)] else accepted) answered := by
  rcases writeRevision_spec rows item hash turn with ⟨hrefused, hrows⟩ |
    ⟨haccepted, row, hrows, hmessage, hrevision, hfact, hpending, hnewer, hturn⟩
  · rw [if_neg hrefused, hrows]
    exact h
  rw [if_pos haccepted, hrows, ← hmessage, ← hrevision]
  have hmem : ∀ {other}, other ∈ rows ++ [row] → other ∈ rows ∨ other = row := fun hother =>
    (List.mem_append.mp hother).imp_right List.mem_singleton.mp
  have hrow : row ∈ rows ++ [row] := List.mem_append_right _ (List.mem_singleton.mpr rfl)
  have hsame := h.turn_eq hturn
  have hclear : ∀ other ∈ rows, other.message ≠ row.message → ∀ sessionId, FiledUnder sessionId other → FiledUnder sessionId row →
      Apart sessionId other.message row.message := by
    intro other hother hne sessionId hother' hrow'
    rcases hturn with ⟨current, hcurrent, hkey, hturn⟩ | ⟨hnone, hturn⟩
    · rw [← hkey] at hne ⊢
      exact h.apart other hother current hcurrent hne sessionId hother' (by rw [FiledUnder, ← hturn]; exact hrow')
    · rw [FiledUnder, hturn] at hrow'
      obtain ⟨turn', hturn', rfl⟩ := Option.map_eq_some_iff.mp hrow'
      rw [hmessage]
      exact hapart (fun other hother => hmessage ▸ hnone other hother) turn' hturn' other hother hother'
  refine ⟨?_, ?_, ?_, ?_, ?_, ?_, ?_⟩
  · intro a ha b hb hkey hrev
    rcases hmem ha with hina | rfl <;> rcases hmem hb with hinb | rfl
    · exact h.unique a hina b hinb hkey hrev
    · exact absurd hrev (hnewer a hina hkey).ne
    · exact absurd hrev (hnewer b hinb hkey.symm).ne'
    · rfl
  · intro a ha b hb hkey
    rcases hmem ha with hina | rfl <;> rcases hmem hb with hinb | rfl
    · exact h.oneTurn a hina b hinb hkey
    · exact hsame a hina hkey
    · exact (hsame b hinb hkey.symm).symm
    · rfl
  · intro other hother
    rcases hmem hother with hother | rfl
    · exact List.mem_append_left _ (h.recorded other hother)
    · exact List.mem_append_right _ (List.mem_singleton.mpr rfl)
  · intro message revision hin
    rcases List.mem_append.mp hin with hin | hin
    · obtain ⟨other, hother, hrest⟩ := h.there message revision hin
      exact ⟨other, List.mem_append_left _ hother, hrest⟩
    · obtain ⟨rfl, rfl⟩ := Prod.mk.inj (List.mem_singleton.mp hin)
      exact ⟨row, hrow, rfl, le_rfl⟩
  · intro message revision hin
    rcases List.mem_append.mp hin with hin | hin
    · rcases h.owed message revision hin with hanswered | ⟨other, hother, hrest⟩
      · exact .inl hanswered
      · exact .inr ⟨other, List.mem_append_left _ hother, hrest⟩
    · obtain ⟨rfl, rfl⟩ := Prod.mk.inj (List.mem_singleton.mp hin)
      exact .inr ⟨row, hrow, rfl, rfl, hpending⟩
  · intro other hother
    rcases hmem hother with hother | rfl
    · exact h.reads other hother
    · obtain ⟨stored, hstored, hid, hrev⟩ := readUsageReportRevision_of_assert hassert hwhat
      refine ⟨stored, hfact ▸ hstored, hid.trans (congrArg Prod.snd hmessage).symm, hrev.trans hrevision.symm⟩
  · intro a ha b hb hne sessionId ha' hb'
    rcases hmem ha with hina | rfl <;> rcases hmem hb with hinb | rfl
    · exact h.apart a hina b hinb hne sessionId ha' hb'
    · exact hclear a hina hne sessionId ha' hb'
    · exact (hclear b hinb (Ne.symm hne) sessionId hb' ha').symm
    · exact absurd rfl hne

/-- A statement that updates rows where they stand, and leaves each its message, revision and fact. -/
theorem Kept.map (h : Kept rows accepted answered) {answered' : List (Message × ℤ)} {f : RevisionRow → RevisionRow}
    (hmessage : ∀ row, (f row).message = row.message) (hrevision : ∀ row, (f row).revision = row.revision)
    (hfact : ∀ row, (f row).fact = row.fact) (hmore : ∀ answer ∈ answered, answer ∈ answered')
    (hturn : ∀ a ∈ rows, ∀ b ∈ rows, a.message = b.message → (f a).turn = (f b).turn)
    (hdelivery : ∀ row ∈ rows, row.delivery = .pending →
      (f row).delivery = .pending ∨ ∃ answer, (row.message, answer) ∈ answered' ∧ row.revision ≤ answer)
    (hapart : ∀ a ∈ rows, ∀ b ∈ rows, a.message ≠ b.message → ∀ sessionId, FiledUnder sessionId (f a) →
      FiledUnder sessionId (f b) → Apart sessionId a.message b.message) : Kept (rows.map f) accepted answered' := by
  refine ⟨List.forall_mem_map.mpr fun a ha => List.forall_mem_map.mpr fun b hb hkey hrev => ?_,
    List.forall_mem_map.mpr fun a ha => List.forall_mem_map.mpr fun b hb hkey => ?_, List.forall_mem_map.mpr fun row hrow => ?_,
    fun message revision hin => ?_, fun message revision hin => ?_, List.forall_mem_map.mpr fun row hrow => ?_,
    List.forall_mem_map.mpr fun a ha => List.forall_mem_map.mpr fun b hb hne sessionId ha' hb' => ?_⟩
  · rw [hmessage, hmessage] at hkey
    rw [hrevision, hrevision] at hrev
    rw [h.unique a ha b hb hkey hrev]
  · rw [hmessage, hmessage] at hkey
    exact hturn a ha b hb hkey
  · rw [hmessage, hrevision]
    exact h.recorded row hrow
  · obtain ⟨row, hrow, hkey, hle⟩ := h.there message revision hin
    exact ⟨f row, List.mem_map_of_mem hrow, (hmessage row).trans hkey, (hrevision row).symm ▸ hle⟩
  · rcases h.owed message revision hin with ⟨answer, hanswer, hle⟩ | ⟨row, hrow, rfl, rfl, hpending⟩
    · exact .inl ⟨answer, hmore _ hanswer, hle⟩
    · rcases hdelivery row hrow hpending with hpending | hanswered
      · exact .inr ⟨f row, List.mem_map_of_mem hrow, hmessage row, hrevision row, hpending⟩
      · exact .inl hanswered
  · obtain ⟨stored, hstored, hid, hrev⟩ := h.reads row hrow
    refine ⟨stored, (hfact row).symm ▸ hstored, hid.trans ?_, hrev.trans (hrevision row).symm⟩
    exact (congrArg Prod.snd (hmessage row)).symm
  · rw [hmessage, hmessage] at hne ⊢
    exact hapart a ha b hb hne sessionId ha' hb'

theorem onward_map {f : RevisionRow → RevisionRow} (hmessage : ∀ row, (f row).message = row.message)
    (hturn : ∀ a ∈ rows, ∀ b ∈ rows, a.message = b.message → b.turn ≠ none → (f a).turn = b.turn) : Onward rows (rows.map f) := by
  refine ⟨fun row hrow => ⟨f row, List.mem_map_of_mem hrow, hmessage row⟩, fun row hrow => List.forall_mem_map.mpr ?_⟩
  intro other hother hkey hnone
  rw [hmessage] at hkey
  exact hturn other hother row hrow hkey hnone

/-- The rows of a turn's family that none was set for, filed under it. -/
def adoptedRows (rows : List RevisionRow) (proof : TurnProof) (parents : Parents) : List RevisionRow :=
  adoptUnattributed rows ⟨proof.sessionId, proof.turnId⟩ fun sessionId => proof.sessionId ∈ lineage parents sessionId

theorem Kept.onward_adopt (h : Kept rows accepted answered) (proof : TurnProof) (parents : Parents) :
    Onward rows (adoptedRows rows proof parents) := by
  refine onward_map (fun row => ?_) (fun a ha b hb hkey hnone => ?_)
  · split_ifs <;> rfl
  · have hturn := h.oneTurn a ha b hb hkey
    rw [if_neg fun hadopt => hnone (hturn ▸ hadopt.1)]
    exact hturn

theorem Kept.adopt (h : Kept rows accepted answered) {parents : Parents}
    (hapart : ∀ a ∈ rows, ∀ b ∈ rows, a.message ≠ b.message → Adopted proof parents a → Adopted proof parents b ∨
      FiledUnder proof.sessionId b → Apart proof.sessionId a.message b.message) :
    Kept (adoptedRows rows proof parents) accepted answered := by
  have hsession : ∀ {a b : RevisionRow}, a.message = b.message → a.sessionId = b.sessionId := fun hkey => congrArg Prod.fst hkey
  refine h.map (fun row => ?_) (fun row => ?_) (fun row => ?_) (fun _ => id) (fun a ha b hb hkey => ?_) (fun row _ hpending => ?_)
    (fun a ha b hb hne sessionId ha' hb' => ?_)
  · split_ifs <;> rfl
  · split_ifs <;> rfl
  · split_ifs <;> rfl
  · dsimp only
    rw [h.oneTurn a ha b hb hkey, hsession hkey]
    split_ifs
    · rfl
    · exact h.oneTurn a ha b hb hkey
  · split_ifs
    · exact .inl hpending
    · exact .inl hpending
  · dsimp only at ha' hb'
    split_ifs at ha' hb' with hadopta hadoptb hadoptb
    · obtain rfl : proof.sessionId = sessionId := Option.some.inj ha'
      exact hapart a ha b hb hne ⟨hadopta.1, of_decide_eq_true hadopta.2⟩ (.inl ⟨hadoptb.1, of_decide_eq_true hadoptb.2⟩)
    · obtain rfl : proof.sessionId = sessionId := Option.some.inj ha'
      exact hapart a ha b hb hne ⟨hadopta.1, of_decide_eq_true hadopta.2⟩ (.inr hb')
    · obtain rfl : proof.sessionId = sessionId := Option.some.inj hb'
      exact (hapart b hb a ha (Ne.symm hne) ⟨hadoptb.1, of_decide_eq_true hadoptb.2⟩ (.inr ha')).symm
    · exact h.apart a ha b hb hne sessionId ha' hb'

/-- Only an answered row with a later one of its message goes. -/
theorem Kept.prune (h : Kept rows accepted answered) (message : Message) :
    Kept (pruneAnswered rows message) accepted answered ∧ Onward rows (pruneAnswered rows message) := by
  have hmem : ∀ {row}, row ∈ pruneAnswered rows message → row ∈ rows := fun hrow => (List.mem_filter.mp hrow).1
  have hstays : ∀ {row}, row ∈ rows → (row.delivery = .pending ∨
      ∀ other ∈ rows, other.message = row.message → other.revision ≤ row.revision) → row ∈ pruneAnswered rows message := by
    refine fun {row} hrow hwhy => List.mem_filter.mpr ⟨hrow, decide_eq_true ?_⟩
    rintro ⟨hkey, hanswered, other, hother, hkey', hlt⟩
    rcases hwhy with hpending | hlatest
    · exact hanswered hpending
    · exact absurd (hlatest other hother (hkey'.trans hkey.symm)) (not_le.mpr hlt)
  have htop : ∀ row ∈ rows, ∃ later ∈ pruneAnswered rows message, later.message = row.message ∧ row.revision ≤ later.revision := by
    intro row hrow
    obtain ⟨top, htop, hkey, hle, hmax⟩ := exists_top (fun other => other.message = row.message) hrow rfl
    exact ⟨top, hstays htop (.inr fun other hother hother' => hmax other hother (hother'.trans hkey)), hkey, hle⟩
  refine ⟨⟨fun a ha b hb => h.unique a (hmem ha) b (hmem hb), fun a ha b hb => h.oneTurn a (hmem ha) b (hmem hb),
    fun row hrow => h.recorded row (hmem hrow), fun message' revision hin => ?_, fun message' revision hin => ?_,
    fun row hrow => h.reads row (hmem hrow), fun a ha b hb => h.apart a (hmem ha) b (hmem hb)⟩, ⟨fun row hrow => ?_,
    fun row hrow later hlater hkey _ => h.oneTurn later (hmem hlater) row hrow hkey⟩⟩
  · obtain ⟨row, hrow, hkey, hle⟩ := h.there message' revision hin
    obtain ⟨later, hlater, hkey', hle'⟩ := htop row hrow
    exact ⟨later, hlater, hkey'.trans hkey, hle.trans hle'⟩
  · rcases h.owed message' revision hin with hanswered | ⟨row, hrow, hkey, hrev, hpending⟩
    · exact .inl hanswered
    · exact .inr ⟨row, hstays hrow (.inl hpending), hkey, hrev, hpending⟩
  · obtain ⟨later, hlater, hkey, -⟩ := htop row hrow
    exact ⟨later, hlater, hkey⟩

theorem Kept.settle (h : Kept rows accepted answered) (message : Message) (revision : ℤ) (status : ReportStatus) :
    Kept (settle rows message revision status) accepted (answered ++ [(message, revision)]) ∧
      Onward rows (settle rows message revision status) := by
  have hmarked : Kept (settleRows rows message revision (DELIVERY status)) accepted (answered ++ [(message, revision)]) := by
    refine h.map (fun row => ?_) (fun row => ?_) (fun row => ?_) (fun _ => List.mem_append_left _) (fun a ha b hb hkey => ?_)
      (fun row _ hpending => ?_) (fun a ha b hb hne sessionId ha' hb' => ?_)
    · split_ifs <;> rfl
    · split_ifs <;> rfl
    · split_ifs <;> rfl
    · split_ifs <;> exact h.oneTurn a ha b hb hkey
    · split_ifs with hsettled
      · exact .inr ⟨revision, List.mem_append_right _ (List.mem_singleton.mpr (by rw [hsettled.1])), hsettled.2.1⟩
      · exact .inl hpending
    · split_ifs at ha' hb' <;> exact h.apart a ha b hb hne sessionId ha' hb'
  have honward : Onward rows (settleRows rows message revision (DELIVERY status)) := by
    refine onward_map (fun row => ?_) (fun a ha b hb hkey _ => ?_)
    · split_ifs <;> rfl
    · split_ifs <;> exact h.oneTurn a ha b hb hkey
  have hpruned := hmarked.prune message
  exact ⟨hpruned.1, honward.trans hpruned.2⟩

/-- An answer settles the message it names, and nothing else. -/
theorem settles_settle (rows : List RevisionRow) (message : Message) (revision : ℤ) (status : ReportStatus) :
    Settles rows (settle rows message revision status) message revision := by
  have hmarked : ∀ {row}, row ∈ settle rows message revision status → row ∈ settleRows rows message revision (DELIVERY status) :=
    fun hrow => (List.mem_filter.mp hrow).1
  refine ⟨fun row hrow hkey hle hpending => ?_, fun row hrow hkey hlt => ?_, fun row hkey => ⟨fun hrow => ?_, fun hrow => ?_⟩⟩
  · obtain ⟨other, -, rfl⟩ := List.mem_map.mp (hmarked hrow)
    split_ifs at hkey hle hpending with hsettled
    · exact DELIVERY_ne status hpending
    · exact hsettled ⟨hkey, hle, hpending⟩
  · obtain ⟨other, hother, rfl⟩ := List.mem_map.mp (hmarked hrow)
    split_ifs at hlt ⊢ with hsettled
    · exact absurd hsettled.2.1 (not_le.mpr hlt)
    · exact hother
  · obtain ⟨other, hother, rfl⟩ := List.mem_map.mp (hmarked hrow)
    split_ifs at hkey ⊢ with hsettled
    · exact absurd hsettled.1 hkey
    · exact hother
  · refine List.mem_filter.mpr ⟨List.mem_map.mpr ⟨row, hrow, if_neg fun hsettled => hkey hsettled.1⟩, ?_⟩
    exact decide_eq_true fun hpruned => hkey hpruned.1

theorem pendingFact_spec {sessionId : String} (h : pendingFact sessionId row = some item) :
    (item.sessionId, item.messageId) = row.message ∧
      item.fact.reported.messageId = reportedMessageId item.sessionId sessionId item.messageId ∧
      (∃ turn ∈ row.turn, item.fact.turnId = turn.turnId) ∧
      ∃ stored, readUsageReportRevision row.fact = some stored ∧ item.fact.reported.revision = stored.revision := by
  obtain ⟨stored, hstored, hfact⟩ := Option.bind_eq_some_iff.mp h
  obtain ⟨turn, hturn, rfl⟩ := Option.map_eq_some_iff.mp hfact
  exact ⟨rfl, rfl, ⟨turn, hturn, rfl⟩, stored, hstored, rfl⟩

theorem mem_pending {sessionId : String} :
    item ∈ pending rows sessionId ↔ ∃ row ∈ rows, Offered rows sessionId row ∧ pendingFact sessionId row = some item := by
  unfold pending
  rw [List.mem_filterMap]
  simp only [List.mem_filter, decide_eq_true_eq, and_assoc]

/-- What nobody has answered is offered, by the latest revision that waits. -/
theorem Kept.offered (h : Kept rows accepted answered) (hin : (message, revision) ∈ accepted)
    (hnot : ∀ answer, (message, answer) ∈ answered → answer < revision) (hrow : row ∈ rows) (hkey : row.message = message)
    {turn : MeteringTurn} (hturn : row.turn = some turn) :
    ∃ item ∈ pending rows turn.sessionId, (item.sessionId, item.messageId) = message ∧ item.fact.turnId = turn.turnId ∧
      revision ≤ item.fact.reported.revision := by
  rcases h.owed message revision hin with ⟨answer, hanswer, hle⟩ | ⟨owed, howed, howedkey, rfl, hpending⟩
  · exact absurd (hnot answer hanswer) (not_lt.mpr hle)
  · obtain ⟨top, htop, ⟨htopkey, htoppending⟩, hle, hmax⟩ :=
      exists_top (fun other => other.message = message ∧ other.delivery = .pending) howed ⟨howedkey, hpending⟩
    have htopturn : top.turn = some turn := (h.oneTurn top htop row hrow (htopkey.trans hkey.symm)).trans hturn
    obtain ⟨stored, hstored, -, hrevision⟩ := h.reads top htop
    have hoffered : Offered rows turn.sessionId top :=
      ⟨by rw [htopturn]; rfl, htoppending, fun other hother hsame hwaits => hmax other hother ⟨hsame.trans htopkey, hwaits⟩⟩
    have hfact : ∃ item, pendingFact turn.sessionId top = some item := by
      unfold pendingFact
      rw [hstored, htopturn]
      exact ⟨_, rfl⟩
    obtain ⟨item, hitem⟩ := hfact
    obtain ⟨hitemkey, -, ⟨turn', hturn', hturnId⟩, stored', hstored', hitemrevision⟩ := pendingFact_spec hitem
    obtain rfl := Option.some.inj (htopturn.symm.trans hturn')
    obtain rfl := Option.some.inj (hstored.symm.trans hstored')
    exact ⟨item, mem_pending.mpr ⟨top, htop, hoffered, hitem⟩, hitemkey.trans htopkey, hturnId,
      hle.trans_eq (hrevision.symm.trans hitemrevision.symm)⟩

/-- A batch that is out, or to go, of facts filed under its session. -/
structure Carries (rows : List RevisionRow) (proof : TurnProof) (batch : List PendingUsageFact) : Prop where
  named : ∀ item ∈ batch, item.fact.reported.messageId = reportedMessageId item.sessionId proof.sessionId item.messageId ∧
    ∃ row ∈ rows, row.message = (item.sessionId, item.messageId) ∧ FiledUnder proof.sessionId row
  one : ∀ a ∈ batch, ∀ b ∈ batch, (a.sessionId, a.messageId) = (b.sessionId, b.messageId) → a = b
  length_le : batch.length ≤ USAGE_REPORT_MAX_FACTS

theorem Carries.onward (h : Carries rows proof batch) (honward : Onward rows rows') : Carries rows' proof batch := by
  refine ⟨fun item hitem => ?_, h.one, h.length_le⟩
  obtain ⟨hid, row, hrow, hkey, hfiled⟩ := h.named item hitem
  obtain ⟨later, hlater, hsame⟩ := honward.there row hrow
  refine ⟨hid, later, hlater, hsame.trans hkey, ?_⟩
  have hnone : row.turn ≠ none := fun hnone => by
    rw [FiledUnder, hnone] at hfiled
    cases hfiled
  rw [FiledUnder, honward.stands row hrow later hlater hsame hnone]
  exact hfiled

theorem Kept.carries (h : Kept rows accepted answered) (proof : TurnProof)
    (hbatch : batch ∈ reportBatches (size proof) (pending rows proof.sessionId)) : Carries rows proof batch := by
  obtain ⟨hflatten, hlength⟩ := reportBatches_spec (size proof) (pending rows proof.sessionId)
  have hmem : ∀ item ∈ batch, ∃ row ∈ rows, Offered rows proof.sessionId row ∧ pendingFact proof.sessionId row = some item := by
    intro item hitem
    rw [← mem_pending, ← hflatten]
    exact List.mem_flatten.mpr ⟨batch, hbatch, hitem⟩
  refine ⟨fun item hitem => ?_, fun a ha b hb hkey => ?_, hlength batch hbatch⟩
  · obtain ⟨row, hrow, hoffered, hitem⟩ := hmem item hitem
    obtain ⟨hkey, hid, -⟩ := pendingFact_spec hitem
    exact ⟨hid, row, hrow, hkey.symm, hoffered.1⟩
  · obtain ⟨row, hrow, hoffered, hitem⟩ := hmem a ha
    obtain ⟨row', hrow', hoffered', hitem'⟩ := hmem b hb
    have hsame : row.message = row'.message := (pendingFact_spec hitem).1.symm.trans (hkey.trans (pendingFact_spec hitem').1)
    have hrevision : row.revision = row'.revision :=
      le_antisymm (hoffered'.2.2 row hrow hsame hoffered.2.1) (hoffered.2.2 row' hrow' hsame.symm hoffered'.2.1)
    obtain rfl := h.unique row hrow row' hrow' hsame hrevision
    exact Option.some.inj (hitem.symm.trans hitem')

theorem Carries.answering (h : Carries rows proof batch) (hkept : Kept rows accepted answered) (hitem : item ∈ batch)
    {result : ReportResult} (hid : result.messageId = item.fact.reported.messageId)
    (hrevision : result.revision = item.fact.reported.revision) :
    CloudTurnUsage.answering batch result = some item := by
  unfold CloudTurnUsage.answering
  rcases hfind : batch.find? fun item => item.fact.reported.messageId = result.messageId ∧
      item.fact.reported.revision = result.revision with _ | found
  · have hnot := List.find?_eq_none.mp hfind item hitem
    simp only [decide_eq_true_eq] at hnot
    exact absurd ⟨hid.symm, hrevision.symm⟩ hnot
  · have hfound := List.find?_some hfind
    simp only [decide_eq_true_eq] at hfound
    obtain ⟨hnamed, row, hrow, hkey, hfiled⟩ := h.named item hitem
    obtain ⟨hnamed', row', hrow', hkey', hfiled'⟩ := h.named found (List.mem_of_find?_eq_some hfind)
    have hreported : reportedMessageId found.sessionId proof.sessionId found.messageId =
        reportedMessageId item.sessionId proof.sessionId item.messageId := by
      rw [← hnamed, ← hnamed', hfound.1, hid]
    refine hfind.trans (congrArg some (h.one found (List.mem_of_find?_eq_some hfind) item hitem ?_))
    by_contra hne
    have hne' : row'.message ≠ row.message := by
      rw [hkey, hkey']
      exact hne
    have hapart := hkept.apart row' hrow' row hrow hne' proof.sessionId hfiled' hfiled
    rw [hkey, hkey'] at hapart
    exact (reportedMessageId_eq_iff hne).mp hreported hapart

end

section
variable {usageRevisionHash} {size} {s s' : CloudTurnUsage}

structure Sound (s : CloudTurnUsage) : Prop where
  kept : Kept s.ledger.rows s.accepted s.answered
  writes : ∀ call ∈ s.writes, assertTurnUsageRevision call.item = .ok () ∧ SaysWhat call.item
  carries : ∀ report ∈ s.report, ∀ batch ∈ report.batch :: report.batches, Carries s.ledger.rows report.proof batch

/-- The process moved, and nothing else: the rows and what is out are as they were. -/
structure Unmoved (s s' : CloudTurnUsage) : Prop where
  rows : s'.ledger.rows = s.ledger.rows
  accepted : s'.accepted = s.accepted
  answered : s'.answered = s.answered
  writes : s'.writes = s.writes
  report : s'.report = s.report

theorem Unmoved.trans {s'' : CloudTurnUsage} (h : Unmoved s s') (h' : Unmoved s' s'') : Unmoved s s'' :=
  ⟨h'.rows.trans h.rows, h'.accepted.trans h.accepted, h'.answered.trans h.answered, h'.writes.trans h.writes,
    h'.report.trans h.report⟩

theorem Sound.unmoved (h : Sound s) (hs : Unmoved s s') : Sound s' ∧ Onward s.ledger.rows s'.ledger.rows := by
  obtain ⟨hrows, haccepted, hanswered, hwrites, hreport⟩ := hs
  refine ⟨⟨?_, ?_, ?_⟩, ?_⟩
  · rw [hrows, haccepted, hanswered]
    exact h.kept
  · rw [hwrites]
    exact h.writes
  · rw [hrows, hreport]
    exact h.carries
  · rw [hrows]
    exact h.kept.onward_refl

theorem unmoved_drain (s : CloudTurnUsage) (now : ℤ) : Unmoved s (s.drain now) := by
  have hreleased : ∀ (sessions : List String) (t : CloudTurnUsage),
      Unmoved t (sessions.foldl (CloudTurnUsage.drainReleased now) t) := by
    intro sessions
    induction sessions with
    | nil => exact fun t => ⟨rfl, rfl, rfl, rfl, rfl⟩
    | cons session sessions ih =>
      intro t
      refine Unmoved.trans ?_ (ih _)
      unfold CloudTurnUsage.drainReleased
      rcases t.proofFor session now with ⟨_ | proof, released⟩ <;> dsimp only
      · exact ⟨rfl, rfl, rfl, rfl, rfl⟩
      · split_ifs <;> exact ⟨rfl, rfl, rfl, rfl, rfl⟩
  have hlive : Unmoved s (s.reportLiveLeases now) := ⟨rfl, rfl, rfl, rfl, rfl⟩
  exact hlive.trans (hreleased _ _)

theorem Sound.settleResults (h : Sound s) (batch : List PendingUsageFact) (results : List ReportResult) :
    Sound (results.foldl (CloudTurnUsage.settleResult batch) s) ∧
      Onward s.ledger.rows (results.foldl (CloudTurnUsage.settleResult batch) s).ledger.rows ∧
      (results.foldl (CloudTurnUsage.settleResult batch) s).report = s.report := by
  induction results generalizing s with
  | nil => exact ⟨h, h.kept.onward_refl, rfl⟩
  | cons result results ih =>
    have hone : Sound (CloudTurnUsage.settleResult batch s result) ∧
        Onward s.ledger.rows (CloudTurnUsage.settleResult batch s result).ledger.rows ∧
        (CloudTurnUsage.settleResult batch s result).report = s.report := by
      unfold CloudTurnUsage.settleResult
      rcases CloudTurnUsage.answering batch result with _ | item <;> dsimp only
      · exact ⟨h, h.kept.onward_refl, rfl⟩
      · obtain ⟨hkept, honward⟩ := h.kept.settle (item.sessionId, item.messageId) result.revision result.status
        exact ⟨⟨hkept, h.writes, fun report hreport batch hbatch => (h.carries report hreport batch hbatch).onward honward⟩,
          honward, rfl⟩
    obtain ⟨hsound, honward, hreport⟩ := ih hone.1
    exact ⟨hsound, hone.2.1.trans honward, hreport.trans hone.2.2⟩

theorem Sound.next (h : Sound s) {proof : TurnProof} {batches : List (List PendingUsageFact)}
    (hbatches : ∀ batch ∈ batches, Carries s.ledger.rows proof batch) : Sound (s.next proof batches) := by
  unfold CloudTurnUsage.next
  rcases batches with _ | ⟨batch, batches⟩ <;> dsimp only
  · exact ⟨h.kept, h.writes, nofun⟩
  · refine ⟨h.kept, h.writes, fun report hreport => ?_⟩
    obtain rfl := Option.some.inj hreport
    exact hbatches

theorem next_rows (proof : TurnProof) (batches : List (List PendingUsageFact)) : (s.next proof batches).ledger = s.ledger := by
  unfold CloudTurnUsage.next
  rcases batches with _ | ⟨batch, batches⟩ <;> rfl

theorem Sound.answer (h : Sound s) (answer : ReportAnswer) :
    Sound (s.answerReport answer) ∧ Onward s.ledger.rows (s.answerReport answer).ledger.rows := by
  unfold CloudTurnUsage.answerReport
  rcases hreport : s.report with _ | report <;> dsimp only
  · exact ⟨h, h.kept.onward_refl⟩
  have hstop : Sound { s with report := none } := ⟨h.kept, h.writes, nofun⟩
  have hrest : ∀ batch ∈ report.batches, Carries s.ledger.rows report.proof batch := fun batch hbatch =>
    h.carries report hreport batch (List.mem_cons_of_mem _ hbatch)
  cases answer with
  | failed => exact ⟨hstop, h.kept.onward_refl⟩
  | refused status =>
    dsimp only
    split_ifs
    · refine ⟨h.next hrest, ?_⟩
      rw [next_rows]
      exact h.kept.onward_refl
    · exact ⟨hstop, h.kept.onward_refl⟩
  | results results =>
    obtain ⟨hsound, honward, -⟩ := h.settleResults report.batch results
    refine ⟨hsound.next fun batch hbatch => (hrest batch hbatch).onward honward, ?_⟩
    rw [next_rows]
    exact honward

theorem unmoved_shipSettled (s : CloudTurnUsage) (item : TurnUsageRevision) (turn : Option MeteringTurn) (now : ℤ) :
    Unmoved s (s.shipSettled item turn now) := by
  unfold CloudTurnUsage.shipSettled
  rcases turn with _ | turn <;> dsimp only
  · exact ⟨rfl, rfl, rfl, rfl, rfl⟩
  · split_ifs
    · rcases s.proofFor turn.sessionId now with ⟨_ | proof, released⟩ <;> exact ⟨rfl, rfl, rfl, rfl, rfl⟩
    · exact ⟨rfl, rfl, rfl, rfl, rfl⟩

theorem Sound.returned (h : Sound s) {i : ℕ} {call : WriteCall}
    (hcall : assertTurnUsageRevision call.item = .ok () ∧ SaysWhat call.item) (now : ℤ) :
    Sound (s.returned i call now) ∧ Onward s.ledger.rows (s.returned i call now).ledger.rows := by
  have hdone : Sound { s with writes := s.writes.set i { call with phase := .done } } := by
    refine ⟨h.kept, fun other hother => ?_, h.carries⟩
    rcases List.mem_or_eq_of_mem_set hother with hother | rfl
    · exact h.writes other hother
    · exact hcall
  exact hdone.unmoved (unmoved_shipSettled _ _ _ _)

/-- A step goes on with the rows, and from where it files messages apart it leaves all as it has to be. -/
theorem Sound.step (h : Sound s) (label : CloudTurnLabel) :
    (FilesApart s label → Sound (s.step usageRevisionHash size label)) ∧
      Onward s.ledger.rows (s.step usageRevisionHash size label).ledger.rows := by
  have hcarries : ∀ {rows}, Onward s.ledger.rows rows → ∀ report ∈ s.report, ∀ batch ∈ report.batch :: report.batches,
      Carries rows report.proof batch := fun honward report hreport batch hbatch =>
    (h.carries report hreport batch hbatch).onward honward
  have hstay : (FilesApart s label → Sound s) ∧ Onward s.ledger.rows s.ledger.rows := ⟨fun _ => h, h.kept.onward_refl⟩
  have hunmoved : ∀ {s'}, Unmoved s s' → (FilesApart s label → Sound s') ∧ Onward s.ledger.rows s'.ledger.rows := fun hs =>
    ⟨fun _ => (h.unmoved hs).1, (h.unmoved hs).2⟩
  unfold CloudTurnUsage.step
  cases label with
  | write item parents =>
    dsimp only
    unfold CloudTurnUsage.write
    rcases hassert : assertTurnUsageRevision item with message | _ <;> dsimp only
    · exact hstay
    · refine ⟨fun hfiles => ⟨h.kept, fun call hcall => ?_, h.carries⟩, h.kept.onward_refl⟩
      rcases List.mem_append.mp hcall with hcall | hcall
      · exact h.writes call hcall
      · obtain rfl := List.mem_singleton.mp hcall
        exact ⟨hassert, hfiles⟩
  | hashed i =>
    dsimp only
    rcases hcall : s.writes[i]? with _ | call <;> dsimp only
    · exact hstay
    · split_ifs
      · obtain ⟨hassert, hwhat⟩ := h.writes call (List.mem_of_getElem? hcall)
        have honward := h.kept.onward_write call.item (usageRevisionHash call.item) call.turn
        refine ⟨fun hfiles => ⟨h.kept.write hassert hwhat (hfiles call hcall), fun other hother => ?_, hcarries honward⟩, honward⟩
        rcases List.mem_or_eq_of_mem_set hother with hother | rfl
        · exact h.writes other hother
        · exact ⟨hassert, hwhat⟩
      · exact hstay
  | returned i now =>
    dsimp only
    rcases hcall : s.writes[i]? with _ | call <;> dsimp only
    · exact hstay
    · rcases call.phase with _ | result | _ <;> dsimp only
      · exact hstay
      · obtain ⟨hsound, honward⟩ := h.returned (h.writes call (List.mem_of_getElem? hcall)) now
        exact ⟨fun _ => hsound, honward⟩
      · exact hstay
  | acquired lease recorded =>
    refine hunmoved ⟨?_, rfl, rfl, rfl, rfl⟩
    unfold CloudTurnUsage.acquired CloudTurnUsage.holdLease
    dsimp only
    split_ifs <;> rfl
  | renewed lease => exact hunmoved ⟨rfl, rfl, rfl, rfl, rfl⟩
  | ended proof parents threw =>
    dsimp only
    unfold CloudTurnUsage.ended
    split_ifs with hthrew
    · exact hunmoved ⟨rfl, rfl, rfl, rfl, rfl⟩
    · have honward := h.kept.onward_adopt proof parents
      exact ⟨fun hfiles => ⟨h.kept.adopt (hfiles (by simpa using hthrew)), h.writes, hcarries honward⟩, honward⟩
  | released proof => exact hunmoved ⟨rfl, rfl, rfl, rfl, rfl⟩
  | flush now => exact hunmoved ⟨rfl, rfl, rfl, rfl, rfl⟩
  | drain now => exact hunmoved (unmoved_drain s now)
  | offer =>
    dsimp only
    unfold CloudTurnUsage.offer
    rcases s.report with _ | report
    · rcases s.reports with _ | ⟨proof, reports⟩ <;> dsimp only
      · exact hstay
      · have hsound : Sound { s with reports := reports } := ⟨h.kept, h.writes, h.carries⟩
        refine ⟨fun _ => hsound.next fun batch hbatch => h.kept.carries size proof hbatch, ?_⟩
        rw [next_rows]
        exact h.kept.onward_refl
    · exact hstay
  | answer answer => exact ⟨fun _ => (h.answer answer).1, (h.answer answer).2⟩
  | restart =>
    refine ⟨fun _ => ⟨h.kept, fun call hcall => ?_, fun report hreport => ?_⟩, h.kept.onward_refl⟩
    · cases hcall
    · cases hreport

theorem sound_empty : Sound {} := by
  refine ⟨⟨fun row hrow => ?_, fun row hrow => ?_, fun row hrow => ?_, fun _ _ hin => ?_, fun _ _ hin => ?_, fun row hrow => ?_,
    fun row hrow => ?_⟩, fun call hcall => ?_, nofun⟩
  · cases hrow
  · cases hrow
  · cases hrow
  · cases hin
  · cases hin
  · cases hrow
  · cases hrow
  · cases hcall

theorem Sound.holds (h : Sound s) : OutboxHolds usageRevisionHash size s := by
  refine ⟨fun message revision hin hmax => ?_, h.kept.oneTurn, fun label => (h.step label).2.stands,
    fun message revision hin hnot row hrow hkey turn hturn => h.kept.offered hin hnot hrow hkey hturn,
    fun a ha b hb hne turn hturn turn' hturn' hsame => ?_, fun report hreport item hitem result hid hrevision t => ?_,
    fun report hreport => (h.carries report hreport _ List.mem_cons_self).length_le, fun proof => reportBatches_spec _ _⟩
  · obtain ⟨row, hrow, hkey, hle⟩ := h.kept.there message revision hin
    have hrecorded := h.kept.recorded row hrow
    rw [hkey] at hrecorded
    exact ⟨row, hrow, hkey, le_antisymm (hmax _ hrecorded) hle⟩
  · have hfiled : FiledUnder turn.sessionId a := congrArg (Option.map MeteringTurn.sessionId) hturn
    have hfiled' : FiledUnder turn.sessionId b := (congrArg (Option.map MeteringTurn.sessionId) hturn').trans (congrArg some hsame)
    exact fun hreported => (reportedMessageId_eq_iff hne).mp hreported (h.kept.apart a ha b hb hne _ hfiled hfiled')
  · have hanswering := (h.carries report hreport _ List.mem_cons_self).answering h.kept hitem hid hrevision
    unfold CloudTurnUsage.settleResult
    rw [hanswering]
    exact settles_settle _ _ _ _

end

/-- A message's first revision, settled. -/
def metered (sessionId messageId : String) : TurnUsageRevision where
  sessionRef := sessionId
  sessionId := sessionId
  messageId := messageId
  revision := 1
  observedAt := 0
  settlement := .final
  status := .completed
  location := .cloudWorkspace
  harness := "harness"
  providerId := "provider"
  modelId := "model"
  hostId := "host"
  tokens := Store.unknownTokenUsage
  quality := ⟨.provider, none, none, none, []⟩

def rootTurn : Lease := ⟨⟨"root", "turn", "lease", 1⟩, 10⟩

/-- A turn of one session under which its child's message and one of its own are metered, up to the report of both. -/
def turnOf (messageId : String) : List CloudTurnLabel :=
  [.acquired rootTurn true, .write (metered "child" "m") [("child", "root")], .hashed 0, .write (metered "root" messageId) [],
    .hashed 1, .ended rootTurn.toTurnProof [("child", "root")] false, .offer]

/-- Where the report of such a turn is out. -/
def reported (messageId : String) : CloudTurnUsage :=
  run (CloudTurnUsage.step (fun _ => "hash") (fun _ _ => 0)) {} (turnOf messageId)

end Claxedo.Usage
