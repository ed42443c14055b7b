import Claxedo.Usage.D1Ledger

/-! Reports filed through the D1 ledger against the one atomic writer. Each answer is what that writer gives in the place
where it was given, as long as what a report read of its message's settlement still stands where it writes. -/

namespace Claxedo.Usage

open Claxedo.Lib

variable (usageRevisionHash : TurnUsageRevision → String)

/-- The atomic writer, asked one report after another, gives each the answer it was given. -/
def replays (tables : SqliteTables) : List ((TurnUsageRevision × Filing) × UsageReportWriteResult) → Option SqliteTables
  | [] => some tables
  | ((item, filing), result) :: rest =>
    match tables.write usageRevisionHash item filing with
    | .ok (answer, after) => if answer = result then replays after rest else none
    | .error _ => none

/-- One message's latest fact in both ledgers, the plane's credential as its stored rows resolved it. -/
def SameFact (row : FactRow) (current : CurrentFact) : Prop :=
  row.columns = current.columns ∧ ∃ spent, row.credential = filedCredential current.credential spent

def FactRow.ownerRow (row : FactRow) : OwnerRow :=
  ⟨row.columns.hostId, row.columns.sessionRef, row.columns.messageId, row.owner, some row.turnId⟩

/-- The ledgers hold the same latest fact, owner and turn for each message. -/
structure LedgersAgree (rows : List FactRow) (tables : SqliteTables) : Prop where
  facts : List.Forall₂ SameFact rows tables.current
  owners : tables.owners = rows.map FactRow.ownerRow

/-- What a run of reports comes to. -/
structure ReportsHold (s : D1Ledger) : Prop where
  linearizes : ∃ order, order.Perm s.answers ∧ ∃ tables, replays usageRevisionHash {} order = some tables ∧ LedgersAgree s.rows tables
  once : ∀ key, s.answers.countP (fun answer => answer.1.1.key = key ∧ answer.2 = .accepted true) ≤ 1
  kept : ∀ label key row, Table.get FactRow.key key s.rows = some row →
    ∃ later, Table.get FactRow.key key (s.step usageRevisionHash label).rows = some later ∧
      later.owner = row.owner ∧ later.turnId = row.turnId ∧ row.columns.revision ≤ later.columns.revision
  bounded : ∀ columns turnId, filedUnder s.rows columns turnId ≤ USAGE_REPORT_MAX_MESSAGES_PER_TURN

def Unsettled (row : Option CurrentRow) : Prop := ∀ current ∈ row, current.settlement = .provisional

instance (row : Option CurrentRow) : Decidable (Unsettled row) := by
  unfold Unsettled
  infer_instance

/-- Where a report's write would land, a provisional one does not find its message settled, and any other finds it settled
if its first read did; and a report that reads again finds no row older than itself. -/
def CallStands (s : D1Ledger) (call : ReportCall) : Prop :=
  match call.phase with
  | .writing before => (∀ current ∈ s.current call.item, current.revision < call.item.revision) →
    if call.item.settlement = .provisional then Unsettled (s.current call.item)
    else (Unsettled before ↔ Unsettled (s.current call.item))
  | .rereading => ∀ after ∈ s.current call.item, call.item.revision ≤ after.revision
  | .reading | .answered _ | .threw _ => True

instance (s : D1Ledger) (call : ReportCall) : Decidable (CallStands s call) :=
  match hphase : call.phase with
  | .writing before =>
    decidable_of_iff ((∀ current ∈ s.current call.item, current.revision < call.item.revision) →
      if call.item.settlement = .provisional then Unsettled (s.current call.item)
      else (Unsettled before ↔ Unsettled (s.current call.item))) (by simp only [CallStands, hphase])
  | .rereading =>
    decidable_of_iff (∀ after ∈ s.current call.item, call.item.revision ≤ after.revision) (by simp only [CallStands, hphase])
  | .reading | .answered _ | .threw _ => isTrue (by simp only [CallStands, hphase])

def ReadsStand (s : D1Ledger) : ReportLabel → Prop
  | .report _ _ => True
  | .step i _ _ => ∀ call ∈ s.calls[i]?, CallStands s call

instance (s : D1Ledger) : (label : ReportLabel) → Decidable (ReadsStand s label)
  | .report _ _ => isTrue trivial
  | .step i _ _ => inferInstanceAs (Decidable (∀ call ∈ s.calls[i]?, CallStands s call))

section
variable {usageRevisionHash} {s : D1Ledger} {rows : List FactRow} {tables : SqliteTables} {item : TurnUsageRevision}
  {filing : Filing} {turnId : String}

theorem replays_snoc {tables : SqliteTables} (answers : List ((TurnUsageRevision × Filing) × UsageReportWriteResult))
    {after final : SqliteTables} {result : UsageReportWriteResult} (h : replays usageRevisionHash tables answers = some after)
    (hwrite : after.write usageRevisionHash item filing = .ok (result, final)) :
    replays usageRevisionHash tables (answers ++ [((item, filing), result)]) = some final := by
  induction answers generalizing tables with
  | nil =>
    obtain rfl := Option.some.inj h
    simp only [List.nil_append, replays, hwrite, if_true]
  | cons answer answers ih =>
    obtain ⟨⟨item', filing'⟩, result'⟩ := answer
    rw [List.cons_append]
    unfold replays at h ⊢
    rcases hother : tables.write usageRevisionHash item' filing' with message | ⟨answer', after'⟩ <;> rw [hother] at h <;>
      dsimp only at h ⊢
    · cases h
    · split_ifs at h ⊢
      exact ih h

theorem SameFact.key (row : FactRow) (current : CurrentFact) (h : SameFact row current) : row.key = current.key := by
  unfold FactRow.key CurrentFact.key
  rw [h.1]

theorem LedgersAgree.get (h : LedgersAgree rows tables) (key : MessageKey) :
    Option.Rel SameFact (Table.get FactRow.key key rows) (Table.get CurrentFact.key key tables.current) :=
  Table.get_forall₂ SameFact.key h.facts key

theorem LedgersAgree.filed (h : LedgersAgree rows tables) :
    tables.filed item turnId = filedUnder rows (usageColumns item "") turnId := by
  unfold SqliteTables.filed filedUnder
  rw [h.owners, List.countP_map]
  refine List.countP_congr fun row _ => ?_
  simp only [Function.comp_apply, FactRow.ownerRow, usageColumns, Option.some.injEq]
  exact Iff.of_eq (by congr)

/-- Where a report stands against the row it reads, the atomic writer says so too. -/
theorem write_of_against (h : LedgersAgree s.rows tables) (hassert : assertTurnUsageRevision item = .ok ())
    {result : UsageReportWriteResult} (hagainst : against item (usageRevisionHash item) (s.current item) = some result) :
    tables.write usageRevisionHash item filing = .ok (result, tables) := by
  unfold D1Ledger.current at hagainst
  have hrel := h.get item.key
  rcases hrow : Table.get FactRow.key item.key s.rows with _ | row <;> rw [hrow] at hagainst hrel
  · cases hagainst
  · rcases hcurrent : Table.get CurrentFact.key item.key tables.current with _ | current <;> rw [hcurrent] at hrel
    · cases hrel
    · obtain ⟨hcolumns, -⟩ : SameFact row current := by
        cases hrel
        assumption
      unfold SqliteTables.write
      rw [hassert, hcurrent]
      dsimp only
      rw [← hcolumns]
      simp only [against, Option.map_some, FactRow.current] at hagainst
      split_ifs at hagainst with hnewer holder hhash <;> obtain rfl := Option.some.inj hagainst
      · rw [if_pos holder]
      · rw [if_neg holder, if_pos (by omega), if_pos hhash]
      · rw [if_neg holder, if_pos (by omega), if_neg hhash]

theorem ownerRow_key (row : FactRow) : row.ownerRow.key = row.key := rfl

theorem LedgersAgree.owner (h : LedgersAgree rows tables) (key : MessageKey) :
    Table.get OwnerRow.key key tables.owners = (Table.get FactRow.key key rows).map FactRow.ownerRow := by
  rw [h.owners]
  exact Table.get_map ownerRow_key key rows

variable {row : FactRow} {rows' : List FactRow}

/-- A report's row is put over its message's, whose owner and turn it keeps, or joins the rows. -/
theorem LedgersAgree.accept (h : LedgersAgree rows tables) {owner : UsageOwner}
    (hcolumns : row.columns = usageColumns item (usageRevisionHash item))
    (hcredential : ∃ spent, row.credential = filedCredential item.credential spent) (howner : filing.owner = some owner)
    (hturn : filing.turnId = some turnId)
    (hfiled : match Table.get FactRow.key item.key rows with
      | none => row.owner = owner ∧ row.turnId = turnId
      | some stored => row.owner = stored.owner ∧ row.turnId = stored.turnId) :
    LedgersAgree (Table.put FactRow.key row rows) (tables.accept item (usageRevisionHash item) filing) := by
  refine ⟨Table.put_forall₂ SameFact.key ⟨hcolumns, hcredential⟩ h.facts, ?_⟩
  unfold SqliteTables.accept stampOwner
  rw [Table.map_put ownerRow_key, howner, hturn, h.owner item.key]
  dsimp only [Option.elim]
  have hrow : row.ownerRow = ⟨item.hostId, item.sessionRef, item.messageId, row.owner, some row.turnId⟩ := by
    unfold FactRow.ownerRow
    rw [hcolumns]
    rfl
  rcases hstored : Table.get FactRow.key item.key rows with _ | stored <;> rw [hstored] at hfiled
  · rw [hrow, hfiled.1, hfiled.2, h.owners]
    rfl
  · have hget := h.owner item.key
    rw [hstored] at hget
    have hsame : row.ownerRow = stored.ownerRow := by
      have hkey : stored.columns.key = item.key := (Table.mem_of_get hstored).2
      simp only [UsageColumns.key, TurnUsageRevision.key, Prod.mk.injEq] at hkey
      rw [hrow, hfiled.1, hfiled.2]
      unfold FactRow.ownerRow
      rw [hkey.1, hkey.2.1, hkey.2.2]
    dsimp only [Option.map]
    rw [hsame, ← h.owners]
    have hkey : stored.ownerRow.key = item.key := (Table.mem_of_get hstored).2
    rw [← hkey] at hget
    obtain ⟨before, after, howners, hput⟩ := Table.put_of_get hget
    rw [hput, ← howners]

theorem write_of_landed (h : LedgersAgree s.rows tables) {call : ReportCall} (hassert : assertTurnUsageRevision call.item = .ok ())
    {owner : UsageOwner} (howner : call.filing.owner = some owner) (hturn : call.filing.turnId = some turnId)
    {spent : Option SpentCredential} {now : ℤ}
    (hlanded : insertOrUpdate s.rows (D1Ledger.factRow usageRevisionHash call owner spent now) = some rows) :
    ∃ after, tables.write usageRevisionHash call.item call.filing =
      .ok (.accepted (firstSettled call.item ((s.current call.item).map CurrentRow.settlement)), after) ∧ LedgersAgree rows after := by
  have hrel := h.get call.item.key
  have hfiled : ∀ turnId, tables.filed call.item turnId =
      filedUnder s.rows (D1Ledger.factRow usageRevisionHash call owner spent now).columns turnId := fun _ => h.filed
  refine ⟨tables.accept call.item (usageRevisionHash call.item) call.filing, ?_⟩
  have hkey : (D1Ledger.factRow usageRevisionHash call owner spent now).key = call.item.key := rfl
  unfold insertOrUpdate at hlanded
  rw [hkey] at hlanded
  unfold D1Ledger.current SqliteTables.write
  rw [hassert]
  dsimp only
  rcases hrow : Table.get FactRow.key call.item.key s.rows with _ | stored <;> rw [hrow] at hlanded hrel <;>
    rcases hcurrent : Table.get CurrentFact.key call.item.key tables.current with _ | current <;> rw [hcurrent] at hrel
  · dsimp only at hlanded
    split_ifs at hlanded with hroom
    obtain rfl := Option.some.inj hlanded
    have hturnId : (D1Ledger.factRow usageRevisionHash call owner spent now).turnId = turnId := by
      unfold D1Ledger.factRow
      rw [hturn]
      rfl
    rw [hturnId, ← hfiled] at hroom
    refine ⟨?_, h.accept rfl ⟨spent, rfl⟩ howner hturn ?_⟩
    · rw [hturn]
      simp only [Option.any_some, decide_eq_true_eq, if_neg (not_le.mpr hroom)]
      rfl
    · rw [hrow]
      exact ⟨rfl, hturnId⟩
  · cases hrel
  · cases hrel
  · obtain ⟨hcolumns, -⟩ : SameFact stored current := by
      cases hrel
      assumption
    dsimp only at hlanded
    split_ifs at hlanded with hnewer
    obtain rfl := Option.some.inj hlanded
    have hnewer : stored.columns.revision < call.item.revision := hnewer
    refine ⟨?_, h.accept rfl ⟨spent, rfl⟩ howner hturn ?_⟩
    · dsimp only
      rw [← hcolumns, if_neg (by omega), if_neg (by omega)]
      rfl
    · rw [hrow]
      exact ⟨rfl, rfl⟩

/-- What the statement does where it changes something. -/
theorem insertOrUpdate_spec (h : insertOrUpdate rows row = some rows') :
    (∃ stored, Table.get FactRow.key row.key rows = some stored ∧ stored.columns.revision < row.columns.revision ∧
      rows' = Table.put FactRow.key { row with owner := stored.owner, turnId := stored.turnId } rows) ∨
    Table.get FactRow.key row.key rows = none ∧ filedUnder rows row.columns row.turnId < USAGE_REPORT_MAX_MESSAGES_PER_TURN ∧
      rows' = rows ++ [row] := by
  unfold insertOrUpdate at h
  rcases hstored : Table.get FactRow.key row.key rows with _ | stored <;> rw [hstored] at h <;> dsimp only at h
  · split_ifs at h with hroom
    refine .inr ⟨rfl, hroom, ?_⟩
    rw [← Option.some.inj h, Table.put_of_get_none hstored]
  · split_ifs at h with hnewer
    exact .inl ⟨stored, rfl, hnewer, (Option.some.inj h).symm⟩

/-- The rows have gone on: a message keeps its owner and turn, and its revision does not go down; no turn gives one up. -/
structure Grown (rows rows' : List FactRow) : Prop where
  kept : ∀ key row, Table.get FactRow.key key rows = some row → ∃ later, Table.get FactRow.key key rows' = some later ∧
    later.owner = row.owner ∧ later.turnId = row.turnId ∧ row.columns.revision ≤ later.columns.revision
  filed : ∀ columns turnId, filedUnder rows columns turnId ≤ filedUnder rows' columns turnId

theorem Grown.refl (rows : List FactRow) : Grown rows rows :=
  ⟨fun _ row h => ⟨row, h, rfl, rfl, le_rfl⟩, fun _ _ => le_rfl⟩

theorem Grown.trans {rows rows'' : List FactRow} (h : Grown rows rows') (h' : Grown rows' rows'') : Grown rows rows'' := by
  refine ⟨fun key row hrow => ?_, fun columns turnId => (h.filed columns turnId).trans (h'.filed columns turnId)⟩
  obtain ⟨middle, hmiddle, howner, hturn, hrevision⟩ := h.kept key row hrow
  obtain ⟨later, hlater, howner', hturn', hrevision'⟩ := h'.kept key middle hmiddle
  exact ⟨later, hlater, howner'.trans howner, hturn'.trans hturn, hrevision.trans hrevision'⟩

theorem get_update (row stored : FactRow) (rows : List FactRow) :
    Table.get FactRow.key row.key
      (Table.put FactRow.key { row with owner := stored.owner, turnId := stored.turnId } rows) =
      some { row with owner := stored.owner, turnId := stored.turnId } :=
  Table.get_put_self ({ row with owner := stored.owner, turnId := stored.turnId } : FactRow) rows

theorem get_update_ne {key : MessageKey} (hkey : row.key ≠ key) (stored : FactRow) (rows : List FactRow) :
    Table.get FactRow.key key (Table.put FactRow.key { row with owner := stored.owner, turnId := stored.turnId } rows) =
      Table.get FactRow.key key rows := by
  have hupdate : FactRow.key { row with owner := stored.owner, turnId := stored.turnId } ≠ key := hkey
  exact Table.get_put_ne hupdate rows

theorem filedUnder_update {stored : FactRow} (hstored : Table.get FactRow.key row.key rows = some stored) (columns : UsageColumns)
    (turnId : String) :
    filedUnder (Table.put FactRow.key { row with owner := stored.owner, turnId := stored.turnId } rows) columns turnId =
      filedUnder rows columns turnId := by
  refine Table.countP_put hstored ?_
  have hkey : stored.columns.key = row.columns.key := (Table.mem_of_get hstored).2
  simp only [UsageColumns.key, Prod.mk.injEq] at hkey
  simp only [hkey.1, hkey.2.1]

theorem grown_insertOrUpdate (h : insertOrUpdate rows row = some rows') : Grown rows rows' := by
  rcases insertOrUpdate_spec h with ⟨stored, hstored, hnewer, rfl⟩ | ⟨hnone, -, rfl⟩
  · refine ⟨fun key other hother => ?_, fun columns turnId => (filedUnder_update hstored columns turnId).ge⟩
    by_cases hkey : row.key = key
    · subst hkey
      obtain rfl := Option.some.inj (hstored.symm.trans hother)
      exact ⟨_, get_update row stored rows, rfl, rfl, hnewer.le⟩
    · exact ⟨other, (get_update_ne hkey stored rows).trans hother, rfl, rfl, le_rfl⟩
  · refine ⟨fun key other hother => ⟨other, ?_, rfl, rfl, le_rfl⟩, fun columns turnId => ?_⟩
    · rw [Table.get_append, hother]
      rfl
    · unfold filedUnder
      rw [List.countP_append]
      exact Nat.le_add_right _ _

theorem bounded_insertOrUpdate (h : insertOrUpdate rows row = some rows')
    (hbounded : ∀ columns turnId, filedUnder rows columns turnId ≤ USAGE_REPORT_MAX_MESSAGES_PER_TURN) (columns : UsageColumns)
    (turnId : String) : filedUnder rows' columns turnId ≤ USAGE_REPORT_MAX_MESSAGES_PER_TURN := by
  rcases insertOrUpdate_spec h with ⟨stored, hstored, -, rfl⟩ | ⟨-, hroom, rfl⟩
  · rw [filedUnder_update hstored]
    exact hbounded columns turnId
  · have hold := hbounded columns turnId
    unfold filedUnder at hold hroom ⊢
    rw [List.countP_append, List.countP_singleton]
    split_ifs with hsame
    · simp only [decide_eq_true_eq] at hsame
      rw [← hsame.1, ← hsame.2.1, ← hsame.2.2]
      exact hroom
    · exact hold

end

section
variable {usageRevisionHash} {s : D1Ledger}

/-- The call has passed the checks. -/
structure Checked (call : ReportCall) : Prop where
  asserted : assertTurnUsageRevision call.item = .ok ()
  filed : ∃ owner turnId, call.filing.owner = some owner ∧ call.filing.turnId = some turnId

/-- A call that reads again found its message filed already, or its turn full. -/
def CallSound (rows : List FactRow) (call : ReportCall) : Prop :=
  match call.phase with
  | .writing _ => Checked call
  | .rereading => Checked call ∧ (Table.get FactRow.key call.item.key rows = none → ∀ hash, ∀ turnId ∈ call.filing.turnId,
      USAGE_REPORT_MAX_MESSAGES_PER_TURN ≤ filedUnder rows (usageColumns call.item hash) turnId)
  | _ => True

variable {call : ReportCall} {rows rows' : List FactRow} {i : ℕ} {result : UsageReportWriteResult}

theorem CallSound.grow (h : CallSound rows call) (hgrown : Grown rows rows') :
    CallSound rows' call := by
  unfold CallSound at h ⊢
  rcases hphase : call.phase with _ | before | _ | result | message <;> rw [hphase] at h
  · trivial
  · exact h
  · refine ⟨h.1, fun hnone hash turnId hturn => (h.2 ?_ hash turnId hturn).trans (hgrown.filed _ _)⟩
    by_contra hsome
    obtain ⟨row, hrow⟩ := Option.ne_none_iff_exists'.mp hsome
    obtain ⟨later, hlater, -⟩ := hgrown.kept _ row hrow
    rw [hnone] at hlater
    cases hlater
  · trivial
  · trivial

def settledAnswers (s : D1Ledger) (key : MessageKey) : ℕ :=
  s.answers.countP fun answer => answer.1.1.key = key ∧ answer.2 = .accepted true

/-- What every run whose reads stand keeps. -/
structure Linear (usageRevisionHash : TurnUsageRevision → String) (s : D1Ledger) : Prop where
  agrees : ∃ tables, replays usageRevisionHash {} s.answers = some tables ∧ LedgersAgree s.rows tables
  calls : ∀ call ∈ s.calls, CallSound s.rows call
  once : ∀ key, settledAnswers s key ≤ 1
  unsettled : ∀ key, Unsettled ((Table.get FactRow.key key s.rows).map FactRow.current) → settledAnswers s key = 0
  bounded : ∀ columns turnId, filedUnder s.rows columns turnId ≤ USAGE_REPORT_MAX_MESSAGES_PER_TURN

theorem settledAnswers_settle (key : MessageKey) :
    settledAnswers (s.settle i call result) key =
      settledAnswers s key + if call.item.key = key ∧ result = .accepted true then 1 else 0 := by
  unfold settledAnswers D1Ledger.settle
  rw [List.countP_append, List.countP_singleton]
  simp only [decide_eq_true_eq]

/-- A call is answered as the atomic writer answers it, over the rows it leaves. -/
theorem Linear.settle (h : Linear usageRevisionHash s) (hgrown : Grown s.rows rows)
    (hwrite : ∀ tables, LedgersAgree s.rows tables → ∃ after, tables.write usageRevisionHash call.item call.filing = .ok
      (result, after) ∧ LedgersAgree rows after)
    (honce : result = .accepted true → settledAnswers s call.item.key = 0)
    (hunsettled : ∀ key, Unsettled ((Table.get FactRow.key key rows).map FactRow.current) → settledAnswers s key = 0 ∧
      (call.item.key = key → result ≠ .accepted true))
    (hbounded : ∀ columns turnId, filedUnder rows columns turnId ≤ USAGE_REPORT_MAX_MESSAGES_PER_TURN) :
    Linear usageRevisionHash ({ s with rows := rows }.settle i call result) := by
  obtain ⟨tables, hreplays, hagree⟩ := h.agrees
  obtain ⟨after, hanswer, hafter⟩ := hwrite tables hagree
  refine ⟨⟨after, replays_snoc s.answers hreplays hanswer, hafter⟩, fun other hother => ?_, fun key => ?_, fun key hkey => ?_,
    hbounded⟩
  · rcases List.mem_or_eq_of_mem_set hother with hmem | rfl
    · exact (h.calls other hmem).grow hgrown
    · trivial
  · rw [settledAnswers_settle]
    have hle := h.once key
    unfold settledAnswers at hle ⊢
    dsimp only
    split_ifs with hsame
    · have hzero := honce hsame.2
      rw [hsame.1] at hzero
      unfold settledAnswers at hzero
      omega
    · exact hle
  · obtain ⟨hzero, hnot⟩ := hunsettled key hkey
    rw [settledAnswers_settle, if_neg fun hsame => hnot hsame.1 hsame.2]
    exact hzero

theorem Linear.phase (h : Linear usageRevisionHash s) (hsound : CallSound s.rows call) :
    Linear usageRevisionHash { s with calls := s.calls.set i call } := by
  refine ⟨h.agrees, fun other hother => ?_, h.once, h.unsettled, h.bounded⟩
  rcases List.mem_or_eq_of_mem_set hother with hmem | rfl
  · exact h.calls other hmem
  · exact hsound

/-- An answer read off the row that stands. -/
theorem Linear.against (h : Linear usageRevisionHash s) (hassert : assertTurnUsageRevision call.item = .ok ())
    (hagainst : against call.item (usageRevisionHash call.item) (s.current call.item) = some result) :
    Linear usageRevisionHash (s.settle i call result) := by
  have hnot : result ≠ .accepted true := by
    rintro rfl
    unfold Usage.against at hagainst
    rcases hcurrent : s.current call.item with _ | current <;> rw [hcurrent] at hagainst <;> dsimp only at hagainst
    · cases hagainst
    · split_ifs at hagainst <;> cases hagainst
  refine h.settle (.refl _) (fun tables hagree => ⟨tables, write_of_against hagree hassert hagainst, hagree⟩)
    (fun hsame => absurd hsame hnot) (fun key hkey => ⟨h.unsettled key hkey, fun _ => hnot⟩) h.bounded

theorem Linear.begin (h : Linear usageRevisionHash s) (i : ℕ) (call : ReportCall) :
    Linear usageRevisionHash (s.begin usageRevisionHash i call) := by
  unfold D1Ledger.begin
  rcases hassert : assertTurnUsageRevision call.item with message | _ <;> dsimp only
  · exact h.phase trivial
  · split_ifs with hfiling
    · exact h.phase trivial
    · rcases hagainst : Usage.against call.item (usageRevisionHash call.item) (s.current call.item) with _ | settled <;> dsimp only
      · rw [not_or] at hfiling
        obtain ⟨owner, howner⟩ := Option.ne_none_iff_exists'.mp hfiling.1
        rcases hturn : call.filing.turnId with _ | turnId
        · rw [hturn] at hfiling
          exact absurd rfl hfiling.2
        · exact h.phase ⟨hassert, owner, turnId, howner, hturn⟩
      · exact h.against hassert hagainst

theorem Linear.reread (h : Linear usageRevisionHash s) (hchecked : Checked call)
    (hfull : Table.get FactRow.key call.item.key s.rows = none → ∀ hash, ∀ turnId ∈ call.filing.turnId,
      USAGE_REPORT_MAX_MESSAGES_PER_TURN ≤ filedUnder s.rows (usageColumns call.item hash) turnId)
    (hstand : ∀ after ∈ s.current call.item, call.item.revision ≤ after.revision) :
    Linear usageRevisionHash (s.reread usageRevisionHash i call) := by
  unfold D1Ledger.reread
  rcases hafter : s.current call.item with _ | after <;> dsimp only
  · have hnone : Table.get FactRow.key call.item.key s.rows = none := Option.map_eq_none_iff.mp hafter
    refine h.settle (.refl _) (fun tables hagree => ⟨tables, ?_, hagree⟩) nofun
      (fun key hkey => ⟨h.unsettled key hkey, fun _ => nofun⟩) h.bounded
    obtain ⟨-, turnId, -, hturn⟩ := hchecked.filed
    have hrel := hagree.get call.item.key
    rw [hnone] at hrel
    unfold SqliteTables.write
    rw [hchecked.asserted]
    rcases hcurrent : Table.get CurrentFact.key call.item.key tables.current with _ | current <;> rw [hcurrent] at hrel
    · dsimp only
      have hcount := hfull hnone "" turnId hturn
      rw [← hagree.filed] at hcount
      rw [hturn, Option.any_some, if_pos (decide_eq_true hcount)]
    · cases hrel
  · have hagainst : ∃ result, Usage.against call.item (usageRevisionHash call.item) (some after) = some result := by
      unfold Usage.against
      dsimp only
      rw [if_neg (not_lt.mpr (hstand after hafter))]
      split_ifs <;> exact ⟨_, rfl⟩
    obtain ⟨result, hresult⟩ := hagainst
    rw [hresult, Option.getD_some]
    exact h.against hchecked.asserted (hafter ▸ hresult)

theorem firstSettled_eq {item : TurnUsageRevision} {row : Option CurrentRow} :
    firstSettled item (row.map CurrentRow.settlement) = true ↔ item.settlement ≠ .provisional ∧ Unsettled row := by
  unfold firstSettled Unsettled
  rcases row with _ | row <;> simp

theorem current_of_landed {row : FactRow} (h : insertOrUpdate rows row = some rows') :
    ∃ later, Table.get FactRow.key row.key rows' = some later ∧ later.columns = row.columns := by
  rcases insertOrUpdate_spec h with ⟨stored, -, -, rfl⟩ | ⟨hnone, -, rfl⟩
  · exact ⟨_, get_update row stored rows, rfl⟩
  · refine ⟨row, ?_, rfl⟩
    rw [Table.get_append, hnone, Table.get_cons, if_pos rfl]
    rfl

theorem get_of_landed {row : FactRow} (h : insertOrUpdate rows row = some rows') {key : MessageKey} (hkey : row.key ≠ key) :
    Table.get FactRow.key key rows' = Table.get FactRow.key key rows := by
  rcases insertOrUpdate_spec h with ⟨stored, -, -, rfl⟩ | ⟨-, -, rfl⟩
  · exact get_update_ne hkey stored rows
  · rw [Table.get_append, Table.get_cons, if_neg hkey, Table.get_nil, Option.or_none]

theorem Linear.write (h : Linear usageRevisionHash s) {before : Option CurrentRow} {spent : Option SpentCredential} {now : ℤ}
    (hchecked : Checked call)
    (hstand : (∀ current ∈ s.current call.item, current.revision < call.item.revision) →
      if call.item.settlement = .provisional then Unsettled (s.current call.item) else (Unsettled before ↔
      Unsettled (s.current call.item))) :
    Linear usageRevisionHash (s.write usageRevisionHash i call before spent now) := by
  obtain ⟨owner, turnId, howner, hturn⟩ := hchecked.filed
  unfold D1Ledger.write
  rw [howner]
  dsimp only
  rcases hlanded : insertOrUpdate s.rows (D1Ledger.factRow usageRevisionHash call owner spent now) with _ | rows <;> dsimp only
  · refine h.phase ⟨⟨hchecked.asserted, hchecked.filed⟩, fun hnone hash turnId' hturn' => ?_⟩
    obtain rfl := Option.some.inj (hturn.symm.trans hturn')
    have hkey : (D1Ledger.factRow usageRevisionHash call owner spent now).key = call.item.key := rfl
    unfold insertOrUpdate at hlanded
    rw [hkey, hnone] at hlanded
    dsimp only at hlanded
    split_ifs at hlanded with hroom
    have hturnId : (D1Ledger.factRow usageRevisionHash call owner spent now).turnId = turnId := by
      unfold D1Ledger.factRow
      rw [hturn]
      rfl
    rw [hturnId] at hroom
    exact not_lt.mp hroom
  · have holder : ∀ current ∈ s.current call.item, current.revision < call.item.revision := by
      intro current hcurrent
      obtain ⟨stored, hstored, rfl⟩ := Option.map_eq_some_iff.mp hcurrent
      rcases insertOrUpdate_spec hlanded with ⟨stored', hstored', hnewer, -⟩ | ⟨hnone, -, -⟩
      · obtain rfl := Option.some.inj (hstored.symm.trans hstored')
        exact hnewer
      · cases hstored.symm.trans hnone
    have hreads := hstand holder
    obtain ⟨later, hlater, hcolumns⟩ := current_of_landed hlanded
    have hsettled : firstSettled call.item (before.map CurrentRow.settlement) =
        firstSettled call.item ((s.current call.item).map CurrentRow.settlement) := by
      rw [Bool.eq_iff_iff, firstSettled_eq, firstSettled_eq]
      split_ifs at hreads with hprovisional
      · exact ⟨fun hfirst => absurd hprovisional hfirst.1, fun hfirst => absurd hprovisional hfirst.1⟩
      · exact and_congr_right fun _ => hreads
    rw [hsettled]
    refine h.settle (grown_insertOrUpdate hlanded) (fun tables hagree => ?_) (fun hfirst => ?_) (fun key hkey => ?_)
      (bounded_insertOrUpdate hlanded h.bounded)
    · obtain ⟨after, hafter⟩ := write_of_landed hagree hchecked.asserted howner hturn hlanded
      exact ⟨after, hafter⟩
    · exact h.unsettled _ (firstSettled_eq.mp (UsageReportWriteResult.accepted.inj hfirst)).2
    · by_cases hsame : call.item.key = key
      · subst hsame
        have hprovisional : call.item.settlement = .provisional := by
          have hget : Table.get FactRow.key call.item.key rows = some later := hlater
          rw [hget] at hkey
          have hsettlement := hkey later.current rfl
          unfold FactRow.current at hsettlement
          rw [hcolumns] at hsettlement
          exact hsettlement
        rw [if_pos hprovisional] at hreads
        refine ⟨h.unsettled _ hreads, fun _ hfirst => ?_⟩
        exact (firstSettled_eq.mp (UsageReportWriteResult.accepted.inj hfirst)).1 hprovisional
      · rw [get_of_landed hlanded hsame] at hkey
        exact ⟨h.unsettled key hkey, fun hkeys => absurd hkeys hsame⟩

theorem Linear.step (h : Linear usageRevisionHash s) (label : ReportLabel) (hstand : ReadsStand s label) :
    Linear usageRevisionHash (s.step usageRevisionHash label) := by
  cases label with
  | report item filing =>
    refine ⟨h.agrees, fun call hcall => ?_, h.once, h.unsettled, h.bounded⟩
    rcases List.mem_append.mp hcall with hcall | hcall
    · exact h.calls call hcall
    · obtain rfl := List.mem_singleton.mp hcall
      trivial
  | step i spent now =>
    unfold D1Ledger.step
    dsimp only
    rcases hcall : s.calls[i]? with _ | call <;> dsimp only
    · exact h
    · have hsound := h.calls call (List.mem_of_getElem? hcall)
      have hreads := hstand call hcall
      unfold CallSound at hsound
      unfold CallStands at hreads
      rcases hphase : call.phase with _ | before | _ | result | message <;> rw [hphase] at hsound hreads <;> dsimp only
      · exact h.begin i call
      · exact h.write hsound hreads
      · exact h.reread hsound.1 hsound.2 hreads
      · exact h
      · exact h

/-- A step writes one row, where the statement lands, or none. -/
theorem rows_step (s : D1Ledger) (label : ReportLabel) : (s.step usageRevisionHash label).rows = s.rows ∨
    ∃ row, insertOrUpdate s.rows row = some (s.step usageRevisionHash label).rows := by
  unfold D1Ledger.step
  cases label with
  | report item filing => exact .inl rfl
  | step i spent now =>
    dsimp only
    rcases s.calls[i]? with _ | call
    · exact .inl rfl
    · dsimp only
      split
      · unfold D1Ledger.begin
        rcases assertTurnUsageRevision call.item with message | _ <;> dsimp only
        · exact .inl rfl
        · split_ifs
          · exact .inl rfl
          · rcases against call.item (usageRevisionHash call.item) (s.current call.item) with _ | settled <;> exact .inl rfl
      · unfold D1Ledger.write
        rcases call.filing.owner with _ | owner <;> dsimp only
        · exact .inl rfl
        · rcases hlanded : insertOrUpdate s.rows (D1Ledger.factRow usageRevisionHash call owner spent now) with _ | rows
          · exact .inl rfl
          · exact .inr ⟨_, hlanded⟩
      · unfold D1Ledger.reread
        rcases s.current call.item with _ | after <;> exact .inl rfl
      · exact .inl rfl
      · exact .inl rfl

theorem grown_step (s : D1Ledger) (label : ReportLabel) : Grown s.rows (s.step usageRevisionHash label).rows := by
  rcases rows_step s label with hsame | ⟨row, hlanded⟩
  · rw [hsame]
    exact .refl _
  · exact grown_insertOrUpdate hlanded

theorem linear_empty : Linear usageRevisionHash {} := by
  have hanswers : ∀ key, settledAnswers {} key = 0 := fun _ => rfl
  refine ⟨⟨{}, rfl, .nil, rfl⟩, fun call hcall => ?_, fun key => ?_, fun key _ => hanswers key, fun columns turnId => ?_⟩
  · cases hcall
  · rw [hanswers]
    exact Nat.zero_le _
  · have hfiled : filedUnder [] columns turnId = 0 := rfl
    exact hfiled.trans_le (Nat.zero_le _)

theorem Linear.holds (h : Linear usageRevisionHash s) : ReportsHold usageRevisionHash s :=
  ⟨⟨s.answers, .refl _, h.agrees⟩, h.once, fun label => (grown_step s label).kept, h.bounded⟩

end

/-- In every run in which what the reports read stands where they write, the D1 ledger answers and files as the atomic
writer does. -/
theorem reportsHold_of_readsStand (labels : List ReportLabel)
    (h : Meets (D1Ledger.step usageRevisionHash) ReadsStand {} labels) :
    ReportsHold usageRevisionHash (run (D1Ledger.step usageRevisionHash) {} labels) :=
  (invariant_of_meets (Linear usageRevisionHash) (fun _ label hs hstand => hs.step label hstand) linear_empty h).holds

/-- A revision of one message that settles it. -/
def settledRevision (revision : ℤ) : TurnUsageRevision where
  sessionRef := "session"
  sessionId := "session"
  messageId := "message"
  revision := revision
  observedAt := 0
  settlement := .final
  status := .completed
  location := .cloudWorkspace
  harness := "harness"
  providerId := "provider"
  modelId := "model"
  hostId := "host"
  tokens := Store.unknownTokenUsage
  quality := ⟨.provider, none, none, none, []⟩

def turnFiling : Filing := ⟨some ⟨"org", "user"⟩, some "turn"⟩

/-- One report is answered before the other reads. -/
theorem reportsHold_inTurn : ReportsHold (fun _ => "hash") (run (D1Ledger.step fun _ => "hash") {}
    [.report (settledRevision 1) turnFiling, .step 0 none 0, .step 0 none 0, .report (settledRevision 2) turnFiling,
      .step 1 none 0, .step 1 none 0]) :=
  reportsHold_of_readsStand _ _ (by decide)

/-- Two revisions that settle one message both read before either writes: both are told to be the first to settle it. -/
theorem not_reportsHold : ¬ ReportsHold (fun _ => "hash") (run (D1Ledger.step fun _ => "hash") {}
    [.report (settledRevision 1) turnFiling, .report (settledRevision 2) turnFiling, .step 0 none 0, .step 1 none 0,
      .step 0 none 0, .step 1 none 0]) := fun h =>
  absurd (h.once ("host", "session", "message")) (by decide)

def Bounded (rows : List FactRow) : Prop := ∀ columns turnId, filedUnder rows columns turnId ≤ USAGE_REPORT_MAX_MESSAGES_PER_TURN

/-- Whatever reports race, what is filed stays filed: a message keeps its owner and its turn, its revision and a turn's messages
only grow, and a turn never has more than its bound. -/
theorem filed_stays (labels more : List ReportLabel) :
    let rows := (run (D1Ledger.step usageRevisionHash) {} labels).rows
    let later := (run (D1Ledger.step usageRevisionHash) {} (labels ++ more)).rows
    Grown rows later ∧ Bounded later := by
  have hruns : ∀ (s : D1Ledger) (labels : List ReportLabel), Bounded s.rows →
      Grown s.rows (run (D1Ledger.step usageRevisionHash) s labels).rows ∧
        Bounded (run (D1Ledger.step usageRevisionHash) s labels).rows := by
    intro s labels hs
    refine invariant_of_run (fun s' : D1Ledger => Grown s.rows s'.rows ∧ Bounded s'.rows) (fun s' label hs' => ?_) ⟨.refl _, hs⟩ labels
    rcases rows_step s' label with hsame | ⟨row, hlanded⟩
    · rw [hsame]
      exact hs'
    · exact ⟨hs'.1.trans (grown_insertOrUpdate hlanded), bounded_insertOrUpdate hlanded hs'.2⟩
  intro rows later
  have hrows := (hruns {} labels fun columns turnId => Nat.zero_le _).2
  have hlater := hruns _ more hrows
  rwa [← run_append] at hlater

end Claxedo.Usage
