import Claxedo.Tasks.Service
import Claxedo.Lib.Run

/-! `createD1TasksStore`: a unit reads committed rows and its own overlay, collects its statements, and
commits them as one batch. A statement that refuses takes the batch with it, and the probes say why. -/

namespace Claxedo.Tasks

open Claxedo.Lib

/-- `taskNumber`: the key a person quotes. -/
def taskNumber (task : Task) : String := task.childNumber.elim s!"{task.number}" fun child => s!"{task.number}.{child}"

/-- The row the unique index refuses this one for. A root's child number is stored as zero. -/
def Rows.numberHolder (rows : Rows) (task : Task) : Option Task :=
  rows.tasks.find? fun row =>
    row.scopeId = task.scopeId ∧ row.projectId = task.projectId ∧ row.number = task.number ∧
      row.childNumber.getD 0 = task.childNumber.getD 0 ∧ row.key ≠ task.key

inductive Statement where
  | insertPreset (preset : Preset)
  | updatePreset (preset : Preset) (expectedRevision : ℕ)
  | guardPreset (key : Key) (expectedRevision : ℕ)
  | insertTask (task : Task)
  | updateTask (task : Task) (expectedRevision : ℕ)
  | guardTask (key : Key) (expectedRevision : ℕ)
  | insertAttachment (attachment : TaskAttachmentRecord)
  | insertLink (link : TaskSessionLink)
  | insertReceipt (receipt : TasksCommandReceipt)

/-- What the statement leaves, or none where it refuses: an insert whose key is taken, a row whose number is
taken, a guard whose row left its revision. An update that matches no row changes nothing. -/
def Statement.apply (rows : Rows) : Statement → Option Rows
  | .insertPreset preset => if rows.preset preset.key = none then some (rows.putPreset preset) else none
  | .updatePreset preset expectedRevision =>
    some (if (rows.preset preset.key).any (·.revision = expectedRevision) then rows.putPreset preset else rows)
  | .guardPreset key expectedRevision => if (rows.preset key).any (·.revision = expectedRevision) then some rows else none
  | .insertTask task =>
    if rows.task task.key = none ∧ rows.numberHolder task = none then some (rows.putTask task) else none
  | .updateTask task expectedRevision =>
    if (rows.task task.key).any (·.revision = expectedRevision) then
      if rows.numberHolder task = none then some (rows.putTask task) else none
    else some rows
  | .guardTask key expectedRevision => if (rows.task key).any (·.revision = expectedRevision) then some rows else none
  | .insertAttachment attachment =>
    if Table.get TaskAttachmentRecord.key attachment.key rows.attachments = none then some (rows.putAttachment attachment)
    else none
  | .insertLink link => if rows.link link.key = none then some (rows.putLink link) else none
  | .insertReceipt receipt => if rows.receipt receipt.key = none then some (rows.putReceipt receipt) else none

/-- `database.batch`: every statement lands or none does. -/
def batch (rows : Rows) : List Statement → Option Rows
  | [] => some rows
  | statement :: statements => (statement.apply rows).bind fun rows => batch rows statements

/-- A predicate an operation reported as holding, and the committed read that says whether it broke. -/
structure TasksConflictProbe where
  kind : TasksStoreConflictKind
  broken : Rows → Option String

def stalePreset (key : Key) (expectedRevision : ℕ) : TasksConflictProbe where
  kind := .staleRevision
  broken rows :=
    if (rows.preset key).any (·.revision = expectedRevision) then none
    else some s!"preset {key.2} left revision {expectedRevision}"

def staleTask (key : Key) (expectedRevision : ℕ) : TasksConflictProbe where
  kind := .staleRevision
  broken rows :=
    if (rows.task key).any (·.revision = expectedRevision) then none
    else some s!"task {key.2} left revision {expectedRevision}"

def numberProbe (task : Task) : TasksConflictProbe where
  kind := .numberTaken
  broken rows := (rows.numberHolder task).map fun _ =>
    s!"task number {taskNumber task} in project {task.projectId} was taken by another task"

def linkProbe (link : TaskSessionLink) : TasksConflictProbe where
  kind := .linkConflict
  broken rows := (rows.link link.key).map fun _ =>
    s!"session link {link.taskId}/{link.slot.name}/{link.attempt} was claimed by another session"

def duplicate (receipt : TasksCommandReceipt) : TasksConflictProbe where
  kind := .duplicateReceipt
  broken rows := (rows.receipt receipt.key).map fun _ =>
    s!"client request {receipt.clientRequestId} was committed by another request"

/-- `overlay` holds the rows the unit has written and not committed. -/
structure D1Unit where
  statements : List Statement := []
  probes : List TasksConflictProbe := []
  overlay : Rows := {}
  asked : ℕ := 0

namespace D1Unit

variable (unit : D1Unit)

/-- `commit`, inside a unit. -/
def commit (statements : List Statement) (overlay : Rows) (probes : List TasksConflictProbe) : D1Unit :=
  { unit with statements := unit.statements ++ statements, probes := unit.probes ++ probes, overlay := overlay }

def hasWritten : Bool :=
  ¬ (unit.overlay.presets = [] ∧ unit.overlay.tasks = [] ∧ unit.overlay.links = [] ∧ unit.overlay.receipts = [])

/-- `refuseListAfterWrite`. -/
def listed {β : Type} (what : String) (answer : β) : Except Fault β :=
  if unit.hasWritten then .error (.error s!"Tasks {what} cannot be read inside a unit that has already written rows")
  else .ok answer

def read {β : Type} (committed : Rows) : ReadOp β → Except Fault β
  | .presetGet key => .ok ((unit.overlay.preset key).or (committed.preset key))
  | .taskGet key => .ok ((unit.overlay.task key).or (committed.task key))
  | .countChildren parent includeArchived excludeStatus =>
    unit.listed "children" (committed.countChildren parent includeArchived excludeStatus)
  | .nextNumber scopeId projectId => unit.listed "task numbers" (committed.nextNumber scopeId projectId)
  | .nextChildNumber parent => unit.listed "child numbers" (committed.nextChildNumber parent)
  | .linkCurrent task slot =>
    let pending := (unit.overlay.linksOf task).filter fun link => link.slot = slot
    .ok (((pending ++ (committed.linkCurrent task slot).toList).insertionSort fun left right =>
      right.attempt ≤ left.attempt).head?)
  | .linksByTask task => unit.listed "session links" (committed.linksOf task)
  | .receiptGet key => .ok ((unit.overlay.receipt key).or (committed.receipt key))

/-- A row this unit wrote needs no guard: the statement that wrote it is in the same batch. -/
def write {β : Type} (committed : Rows) : WriteOp β → β × D1Unit
  | .presetInsert preset => ((), unit.commit [.insertPreset preset] (unit.overlay.putPreset preset) [])
  | .presetUpdate preset expectedRevision =>
    let pending := unit.overlay.preset preset.key
    if (pending.or (committed.preset preset.key)).any (·.revision = expectedRevision) then
      if pending = none then
        (true, unit.commit [.guardPreset preset.key expectedRevision, .updatePreset preset expectedRevision]
          (unit.overlay.putPreset preset) [stalePreset preset.key expectedRevision])
      else (true, unit.commit [.updatePreset preset expectedRevision] (unit.overlay.putPreset preset) [])
    else (false, unit)
  | .presetAssertRevision key revision =>
    match unit.overlay.preset key with
    | some pending => (pending.revision = revision, unit)
    | none =>
      if (committed.preset key).any (·.revision = revision) then
        (true, unit.commit [.guardPreset key revision] unit.overlay [stalePreset key revision])
      else (false, unit)
  | .taskInsert task => ((), unit.commit [.insertTask task] (unit.overlay.putTask task) [numberProbe task])
  | .taskUpdate task expectedRevision =>
    let pending := unit.overlay.task task.key
    if (pending.or (committed.task task.key)).any (·.revision = expectedRevision) then
      if pending = none then
        (true, unit.commit [.guardTask task.key expectedRevision, .updateTask task expectedRevision]
          (unit.overlay.putTask task) [staleTask task.key expectedRevision, numberProbe task])
      else (true, unit.commit [.updateTask task expectedRevision] (unit.overlay.putTask task) [numberProbe task])
    else (false, unit)
  | .attachmentInsert attachment => ((), unit.commit [.insertAttachment attachment] unit.overlay [])
  | .linkInsert link =>
    match (unit.overlay.link link.key).or (committed.link link.key) with
    | some held => (.exists held, unit)
    | none => (.inserted, unit.commit [.insertLink link] (unit.overlay.putLink link) [linkProbe link])
  | .receiptPut receipt =>
    if (unit.overlay.receipt receipt.key).or (committed.receipt receipt.key) = none then
      (true, unit.commit [.insertReceipt receipt] (unit.overlay.putReceipt receipt) [duplicate receipt])
    else (false, unit)

end D1Unit

/-- The unit's operation `n` finds the host as `ports n` and the committed rows as `committed n`. -/
def d1Handler (ports : ℕ → Ports) (committed : ℕ → Rows) : Handler TasksOp Fault D1Unit := fun _ op unit =>
  match op with
  | .port op => .ok ((ports unit.asked).answer op, { unit with asked := unit.asked + 1 })
  | .read op =>
    match unit.read (committed unit.asked) op with
    | .ok answer => .ok (answer, { unit with asked := unit.asked + 1 })
    | .error fault => .error fault
  | .write op =>
    let (answer, written) := unit.write (committed unit.asked) op
    .ok (answer, { written with asked := unit.asked + 1 })

/-- The order of `TASKS_STORE_CONFLICTS`. -/
def TasksStoreConflictKind.rank : TasksStoreConflictKind → ℕ
  | .duplicateReceipt => 0
  | .staleRevision => 1
  | .linkConflict => 2
  | .numberTaken => 3

/-- The first broken probe, each read in its turn. -/
def firstBroken : List TasksConflictProbe → (ℕ → Rows) → Option (TasksStoreConflictKind × String)
  | [], _ => none
  | probe :: probes, committed =>
    match probe.broken (committed 0) with
    | some message => some (probe.kind, message)
    | none => firstBroken probes fun n => committed (n + 1)

/-- `tasksStoreConflict`: the conflict a refused batch was; one that no probe explains travels as it is. -/
def tasksStoreConflict (probes : List TasksConflictProbe) (committed : ℕ → Rows) : Fault :=
  match firstBroken (probes.insertionSort fun left right => left.kind.rank ≤ right.kind.rank) committed with
  | some (kind, message) => .conflict kind message
  | none => .error "the batch was refused"

variable {α : Type}

/-- The unit up to its batch. -/
def d1Work (ports : ℕ → Ports) (committed : ℕ → Rows) (work : TasksM α) : Except Fault (α × D1Unit) :=
  work.exec (d1Handler ports committed) {}

/-- A unit that commits over `rows`, with its result and the rows it leaves. -/
def d1Commits (ports : ℕ → Ports) (committed : ℕ → Rows) (rows : Rows) (work : TasksM α) : Option (α × Rows) :=
  match d1Work ports committed work with
  | .ok (result, unit) => (batch rows unit.statements).map fun rows => (result, rows)
  | .error _ => none

end Claxedo.Tasks

/-! Runs of units over one store. The ledger keeps the rows of every commit so far, since a unit over D1 may
have read any of its rows before a commit that came in between: where a unit's reads fall is the call's choice,
so every interleaving is a list of calls. -/

namespace Claxedo.Tasks

open Claxedo.Lib

inductive StoreKind where
  | memory | d1
  deriving DecidableEq

inductive UnitWork where
  | command (actor : TasksActor) (request : TasksCommandRequest)
  | settle (settlement : Settlement)

inductive UnitResult where
  | command (result : Option TasksCommandResult)
  | settled (link : TaskSessionLink) (created : Bool)
  deriving DecidableEq

def UnitWork.program (hashRequest : TasksCommand → String) : UnitWork → TasksM UnitResult
  | .command actor request => do
    let result ← commandUnit hashRequest actor request
    pure (.command result)
  | .settle settlement => do
    let result ← Tasks.settle settlement
    pure (.settled result.1 result.2)

/-- A unit on its way: what the host answers it, and the moment each of its operations is answered at, which
never goes back. A Start has loaded its task at `loadedAt` and its preset at `presetAt`, before its unit. -/
structure UnitCall where
  work : UnitWork
  ports : ℕ → Ports
  moments : ℕ → ℕ
  mono : Monotone moments
  loadedAt : ℕ := 0
  presetAt : ℕ := 0

/-- `past` holds the rows before each commit, oldest first; `committed` the units behind them. -/
structure Ledger where
  past : List Rows := []
  rows : Rows := {}
  committed : List (UnitCall × UnitResult) := []

/-- The rows committed at a moment; a moment past the last commit is now. -/
def Ledger.at (ledger : Ledger) (moment : ℕ) : Rows := ledger.past.getD moment ledger.rows

/-- A settlement is of the rows its Start loaded, its task open. -/
def Ledger.admits (ledger : Ledger) (call : UnitCall) : Bool :=
  match call.work with
  | .command .. => true
  | .settle settlement =>
    (ledger.at call.loadedAt).task (settlement.actor.scopeId, settlement.task.id) = some settlement.task ∧
      settlement.task.archivedAt = none ∧
      (ledger.at call.presetAt).preset (settlement.actor.scopeId, settlement.preset.id) = some settlement.preset

/-- The unit's result and the rows it leaves, where it commits. -/
def Ledger.transact (hashRequest : TasksCommand → String) (store : StoreKind) (ledger : Ledger) (call : UnitCall) :
    Option (UnitResult × Rows) :=
  match store with
  | .memory => (memoryTransaction call.ports (call.work.program hashRequest) ledger.rows).toOption
  | .d1 => d1Commits call.ports (fun n => ledger.at (call.moments n)) ledger.rows (call.work.program hashRequest)

def Ledger.commit (ledger : Ledger) (call : UnitCall) (result : UnitResult) (rows : Rows) : Ledger :=
  ⟨ledger.past ++ [ledger.rows], rows, ledger.committed ++ [(call, result)]⟩

/-- A unit that is refused leaves everything as it was. -/
def Ledger.step (hashRequest : TasksCommand → String) (store : StoreKind) (ledger : Ledger) (call : UnitCall) : Ledger :=
  if ledger.admits call then
    match ledger.transact hashRequest store call with
    | some (result, rows) => ledger.commit call result rows
    | none => ledger
  else ledger

def runUnits (hashRequest : TasksCommand → String) (store : StoreKind) (calls : List UnitCall) : Ledger :=
  run (Ledger.step hashRequest store) {} calls

end Claxedo.Tasks
