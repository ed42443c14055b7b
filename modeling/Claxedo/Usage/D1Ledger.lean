import Claxedo.Usage.Contracts
import Claxedo.Lib.Run

/-! `createSqliteUsageLedger`: the latest revision of each message and the account it was first filed under, written in
one transaction. -/

namespace Claxedo.Usage

open Claxedo.Lib

structure CurrentFact where
  columns : UsageColumns
  credential : Option TurnUsageCredential

def CurrentFact.key (row : CurrentFact) : MessageKey := row.columns.key

structure OwnerRow where
  hostId : String
  sessionRef : String
  messageId : String
  owner : UsageOwner
  turnId : Option String

def OwnerRow.key (row : OwnerRow) : MessageKey := (row.hostId, row.sessionRef, row.messageId)

structure SqliteTables where
  current : List CurrentFact := []
  owners : List OwnerRow := []

/-- How many messages a turn has filed. -/
def SqliteTables.filed (tables : SqliteTables) (item : TurnUsageRevision) (turnId : String) : ℕ :=
  tables.owners.countP fun row => row.hostId = item.hostId ∧ row.sessionRef = item.sessionRef ∧ row.turnId = some turnId

/-- A reported message keeps the owner and turn it was first filed under; a revision with no turn restamps the owner. -/
def stampOwner (owners : List OwnerRow) (item : TurnUsageRevision) (owner : UsageOwner) (turnId : Option String) : List OwnerRow :=
  match Table.get OwnerRow.key item.key owners, turnId with
  | some row, none => Table.put OwnerRow.key { row with owner := owner } owners
  | some _, some _ => owners
  | none, turnId => Table.put OwnerRow.key ⟨item.hostId, item.sessionRef, item.messageId, owner, turnId⟩ owners

/-- Whether the first of its message to settle it is what a revision is, of the row it is written over. -/
def firstSettled (item : TurnUsageRevision) (current : Option TurnUsageSettlement) : Bool :=
  item.settlement ≠ .provisional ∧ (current = none ∨ current = some .provisional)

/-- The rows of an accepted revision. -/
def SqliteTables.accept (tables : SqliteTables) (item : TurnUsageRevision) (hash : String) (filing : Filing) : SqliteTables where
  current := Table.put CurrentFact.key ⟨usageColumns item hash, item.credential⟩ tables.current
  owners := filing.owner.elim tables.owners fun owner => stampOwner tables.owners item owner filing.turnId

/-- `write`, in its transaction. -/
def SqliteTables.write (usageRevisionHash : TurnUsageRevision → String) (tables : SqliteTables) (item : TurnUsageRevision)
    (filing : Filing) : Except String (UsageReportWriteResult × SqliteTables) :=
  match assertTurnUsageRevision item with
  | .error message => .error message
  | .ok () =>
    let hash := usageRevisionHash item
    match Table.get CurrentFact.key item.key tables.current with
    | some current =>
      if item.revision < current.columns.revision then .ok (.stale current.columns.revision, tables)
      else if item.revision = current.columns.revision then
        .ok (if current.columns.payloadHash = hash then .duplicate else .conflict current.columns.revision, tables)
      else .ok (.accepted (firstSettled item (some current.columns.settlement)), tables.accept item hash filing)
    | none =>
      if filing.turnId.any fun turnId => USAGE_REPORT_MAX_MESSAGES_PER_TURN ≤ tables.filed item turnId then
        .ok (.refused "usage_turn_full", tables)
      else .ok (.accepted (firstSettled item none), tables.accept item hash filing)

/-! `createD1UsageLedger`: a report reads its message's row, writes under a guard of the one statement it writes with, and
reads again where the guard refused. Between any two of these any other report may write. -/

/-- A row of the organization's stored credentials that the turn could have spent. -/
structure SpentCredential where
  id : String
  kind : String
  owner : Option String

inductive TurnUsageCredentialSource where
  | personal | org | machine | unresolved | unreported

structure FiledCredential where
  source : TurnUsageCredentialSource
  spent : Option SpentCredential

/-- What a reported credential is filed as, given the stored row it names where the turn could have spent it. -/
def filedCredential (credential : Option TurnUsageCredential) (spent : Option SpentCredential) : FiledCredential :=
  match credential, spent with
  | none, _ => ⟨.unreported, none⟩
  | some .machine, _ => ⟨.machine, none⟩
  | some (.stored _), none => ⟨.unresolved, none⟩
  | some (.stored _), some spent => ⟨if spent.owner.isNone then .org else .personal, some spent⟩

structure FactRow where
  columns : UsageColumns
  owner : UsageOwner
  turnId : String
  credential : FiledCredential
  recordedAt : ℤ

def FactRow.key (row : FactRow) : MessageKey := row.columns.key

structure CurrentRow where
  revision : ℤ
  payloadHash : String
  settlement : TurnUsageSettlement

def FactRow.current (row : FactRow) : CurrentRow := ⟨row.columns.revision, row.columns.payloadHash, row.columns.settlement⟩

/-- Where a report stands against the stored revision, or nothing when it is newer and should be written. -/
def against (item : TurnUsageRevision) (hash : String) : Option CurrentRow → Option UsageReportWriteResult
  | none => none
  | some current =>
    if current.revision < item.revision then none
    else if item.revision < current.revision then some (.stale current.revision)
    else some (if current.payloadHash = hash then .duplicate else .conflict current.revision)

def filedUnder (rows : List FactRow) (columns : UsageColumns) (turnId : String) : ℕ :=
  rows.countP fun row => row.columns.hostId = columns.hostId ∧ row.columns.sessionRef = columns.sessionRef ∧ row.turnId = turnId

/-- The statement: the rows it leaves, or none where it changes nothing. -/
def insertOrUpdate (rows : List FactRow) (row : FactRow) : Option (List FactRow) :=
  match Table.get FactRow.key row.key rows with
  | some stored =>
    if stored.columns.revision < row.columns.revision then
      some (Table.put FactRow.key { row with owner := stored.owner, turnId := stored.turnId } rows)
    else none
  | none =>
    if filedUnder rows row.columns row.turnId < USAGE_REPORT_MAX_MESSAGES_PER_TURN then some (Table.put FactRow.key row rows)
    else none

inductive ReportPhase where
  | reading
  | writing (before : Option CurrentRow)
  | rereading
  | answered (result : UsageReportWriteResult)
  | threw (message : String)

structure ReportCall where
  item : TurnUsageRevision
  filing : Filing
  phase : ReportPhase := .reading

/-- The rows, the calls there have been, and every answer in the order they were given. -/
structure D1Ledger where
  rows : List FactRow := []
  calls : List ReportCall := []
  answers : List ((TurnUsageRevision × Filing) × UsageReportWriteResult) := []

/-- A report comes in, or one under way takes its next step: what the credential lookup finds then, and the time. -/
inductive ReportLabel where
  | report (item : TurnUsageRevision) (filing : Filing)
  | step (i : ℕ) (spent : Option SpentCredential) (now : ℤ)

namespace D1Ledger

variable (usageRevisionHash : TurnUsageRevision → String)

def settle (s : D1Ledger) (i : ℕ) (call : ReportCall) (result : UsageReportWriteResult) : D1Ledger :=
  { s with
    calls := s.calls.set i { call with phase := .answered result }
    answers := s.answers ++ [((call.item, call.filing), result)] }

def throwing (s : D1Ledger) (i : ℕ) (call : ReportCall) (message : String) : D1Ledger :=
  { s with calls := s.calls.set i { call with phase := .threw message } }

def current (s : D1Ledger) (item : TurnUsageRevision) : Option CurrentRow :=
  (Table.get FactRow.key item.key s.rows).map FactRow.current

/-- The checks, and the first read. -/
def begin (s : D1Ledger) (i : ℕ) (call : ReportCall) : D1Ledger :=
  match assertTurnUsageRevision call.item with
  | .error message => s.throwing i call message
  | .ok () =>
    if call.filing.owner = none ∨ call.filing.turnId.getD "" = "" then
      s.throwing i call "A central usage revision requires the account and the turn that produced it"
    else
      match against call.item (usageRevisionHash call.item) (s.current call.item) with
      | some settled => s.settle i call settled
      | none => { s with calls := s.calls.set i { call with phase := .writing (s.current call.item) } }

/-- The row a report is written as. -/
def factRow (call : ReportCall) (owner : UsageOwner) (spent : Option SpentCredential) (now : ℤ) : FactRow where
  columns := usageColumns call.item (usageRevisionHash call.item)
  owner := owner
  turnId := call.filing.turnId.getD ""
  credential := filedCredential call.item.credential spent
  recordedAt := now

def write (s : D1Ledger) (i : ℕ) (call : ReportCall) (before : Option CurrentRow) (spent : Option SpentCredential) (now : ℤ) :
    D1Ledger :=
  match call.filing.owner with
  | none => s
  | some owner =>
    match insertOrUpdate s.rows (factRow usageRevisionHash call owner spent now) with
    | some rows => { s with rows := rows }.settle i call (.accepted (firstSettled call.item (before.map CurrentRow.settlement)))
    | none => { s with calls := s.calls.set i { call with phase := .rereading } }

def reread (s : D1Ledger) (i : ℕ) (call : ReportCall) : D1Ledger :=
  match s.current call.item with
  | none => s.settle i call (.refused "usage_turn_full")
  | some after =>
    s.settle i call ((against call.item (usageRevisionHash call.item) (some after)).getD (.stale after.revision))

def step (s : D1Ledger) : ReportLabel → D1Ledger
  | .report item filing => { s with calls := s.calls ++ [{ item := item, filing := filing }] }
  | .step i spent now =>
    match s.calls[i]? with
    | none => s
    | some call =>
      match call.phase with
      | .reading => s.begin usageRevisionHash i call
      | .writing before => s.write usageRevisionHash i call before spent now
      | .rereading => s.reread usageRevisionHash i call
      | .answered _ => s
      | .threw _ => s

end D1Ledger

end Claxedo.Usage
