import Claxedo.Lib.Run
import Claxedo.Sandbox.MemoryStore

/-! `createD1SandboxLeaseStore`: a call reads the lease row, computes the row it wants, and
writes later under a guard on what it read. Between the two any other call's write may land.
JSON columns hold the value they parse to. The boots a write closes are `sandbox_boots`. -/

namespace Claxedo.Sandbox

inductive SandboxLeaseRowStatus where
  | pending | acquiring | starting | ready | unhealthy | backoff | stopping | stopped | destroyed | failed
  deriving DecidableEq

def sandboxLeaseStatus : SandboxLeaseRowStatus → SandboxLeaseStatus
  | .ready => .ready
  | .destroyed => .destroyed
  | .stopped | .stopping => .stopped
  | .pending | .acquiring | .starting => .acquiring
  | .unhealthy | .backoff | .failed => .unavailable

def sandboxLeaseRowStatus (lease : SandboxLease) : SandboxLeaseRowStatus :=
  match lease.status with
  | .ready => .ready
  | .stopped => .stopped
  | .unavailable => if lease.nextRetryAt.isNone then .failed else .backoff
  | .destroyed => .destroyed
  | .acquiring => .acquiring

/-- The ten stored states collapse to the port's five, and each of the five reads back. -/
@[simp] theorem sandboxLeaseStatus_rowStatus (lease : SandboxLease) :
    sandboxLeaseStatus (sandboxLeaseRowStatus lease) = lease.status := by
  unfold sandboxLeaseRowStatus
  cases lease.status <;> try rfl
  by_cases h : lease.nextRetryAt.isNone <;> simp [h, sandboxLeaseStatus]

structure SandboxLeaseRow where
  workspaceId : String
  leaseId : String
  homeRegion : String
  epoch : ℕ
  routingId : Option String
  status : SandboxLeaseRowStatus
  driver : String
  driverResourceId : Option String
  driverSnapshotId : Option String
  sandboxId : Option String
  url : Option String
  retryCount : ℕ
  nextRetryAt : Option ℤ
  lastHeartbeatAt : Option ℤ
  lastActivityAt : Option ℤ
  lastHealthFailureAt : Option ℤ
  lastError : Option String
  machineClass : Option String
  accelBaseImageId : Option String
  accelPreparedImageId : Option String
  accelSnapshotId : Option String
  labels : Option Labels
  checkpoint : Option SandboxCheckpointReference
  persistence : Option SandboxPersistenceCapabilities
  restore : Option SandboxRestoreStatus
  start : Option SandboxStartProgress
  createdAt : ℤ
  updatedAt : ℤ
  deriving DecidableEq

/-- The columns a fenced write may name. -/
inductive Column where
  | leaseId | routingId | status | driverResourceId | sandboxId | url | retryCount | nextRetryAt
  | lastHeartbeatAt | lastActivityAt | lastHealthFailureAt | lastError | labels | checkpoint
  | persistence | restore | start | updatedAt
  deriving DecidableEq

def Column.set (values : SandboxLeaseRow) (row : SandboxLeaseRow) : Column → SandboxLeaseRow
  | .leaseId => { row with leaseId := values.leaseId }
  | .routingId => { row with routingId := values.routingId }
  | .status => { row with status := values.status }
  | .driverResourceId => { row with driverResourceId := values.driverResourceId }
  | .sandboxId => { row with sandboxId := values.sandboxId }
  | .url => { row with url := values.url }
  | .retryCount => { row with retryCount := values.retryCount }
  | .nextRetryAt => { row with nextRetryAt := values.nextRetryAt }
  | .lastHeartbeatAt => { row with lastHeartbeatAt := values.lastHeartbeatAt }
  | .lastActivityAt => { row with lastActivityAt := values.lastActivityAt }
  | .lastHealthFailureAt => { row with lastHealthFailureAt := values.lastHealthFailureAt }
  | .lastError => { row with lastError := values.lastError }
  | .labels => { row with labels := values.labels }
  | .checkpoint => { row with checkpoint := values.checkpoint }
  | .persistence => { row with persistence := values.persistence }
  | .restore => { row with restore := values.restore }
  | .start => { row with start := values.start }
  | .updatedAt => { row with updatedAt := values.updatedAt }

/-- `update sandbox_leases set columns = values`. -/
def setColumns (columns : List Column) (values row : SandboxLeaseRow) : SandboxLeaseRow :=
  columns.foldl (fun row column => column.set values row) row

/-- A field that one column writes, and no other, is the written value exactly where that column is named. -/
theorem setColumns_field {β : Type*} (field : SandboxLeaseRow → β) (column : Column)
    (hset : ∀ values row, field (column.set values row) = field values)
    (hother : ∀ c values row, c ≠ column → field (c.set values row) = field row)
    (columns : List Column) (values row : SandboxLeaseRow) :
    field (setColumns columns values row) = if column ∈ columns then field values else field row := by
  induction columns generalizing row with
  | nil => rfl
  | cons c columns ih =>
    rw [show setColumns (c :: columns) values row = setColumns columns values (c.set values row) from rfl, ih]
    by_cases hc : c = column
    · subst hc
      simp [hset]
    · simp [hother c values row hc, List.mem_cons, Ne.symm hc]

theorem setColumns_frame {β : Type*} (field : SandboxLeaseRow → β)
    (hother : ∀ (c : Column) values row, field (c.set values row) = field row)
    (columns : List Column) (values row : SandboxLeaseRow) :
    field (setColumns columns values row) = field row := by
  induction columns generalizing row with
  | nil => rfl
  | cons c columns ih => exact (ih _).trans (hother c values row)

/-- The deployment's regions; an unknown stored region reads as the first of them. -/
structure Regions where
  known : List String
  fallback : String := "us-east"

def normalizeClaxedoRegion (regions : Regions) (input : String) : String :=
  if input ∈ regions.known then input else regions.fallback

def toSandboxLease (regions : Regions) (row : SandboxLeaseRow) : SandboxLease :=
  { workspaceId := row.workspaceId
    homeRegion := normalizeClaxedoRegion regions row.homeRegion
    driver := row.driver
    epoch := row.epoch
    routingId := row.routingId
    status := sandboxLeaseStatus row.status
    retryCount := row.retryCount
    createdAt := row.createdAt
    updatedAt := row.updatedAt
    sandboxId := row.sandboxId
    url := row.url
    hostId := some row.leaseId
    driverResourceId := row.driverResourceId
    nextRetryAt := row.nextRetryAt
    lastError := row.lastError
    lastHeartbeatAt := row.lastHeartbeatAt
    lastActivityAt := row.lastActivityAt
    lastHealthFailureAt := row.lastHealthFailureAt
    labels := row.labels
    checkpoint := row.checkpoint
    persistence := row.persistence
    restore := row.restore
    start := row.start
    machineClass := row.machineClass }

def rowValues (lease : SandboxLease) (current : Option SandboxLeaseRow) : SandboxLeaseRow :=
  { workspaceId := lease.workspaceId
    leaseId := lease.hostId.getD ((current.map (·.leaseId)).getD s!"{lease.workspaceId}:{lease.epoch}")
    homeRegion := lease.homeRegion
    epoch := lease.epoch
    routingId := lease.routingId
    status := sandboxLeaseRowStatus lease
    driver := lease.driver
    driverResourceId := lease.driverResourceId
    driverSnapshotId := current.bind (·.driverSnapshotId)
    sandboxId := lease.sandboxId
    url := lease.url
    retryCount := lease.retryCount
    nextRetryAt := lease.nextRetryAt
    lastHeartbeatAt := lease.lastHeartbeatAt
    lastActivityAt := lease.lastActivityAt
    lastHealthFailureAt := lease.lastHealthFailureAt.or (current.bind (·.lastHealthFailureAt))
    lastError := lease.lastError
    machineClass := lease.machineClass.or (current.bind (·.machineClass))
    accelBaseImageId := current.bind (·.accelBaseImageId)
    accelPreparedImageId := current.bind (·.accelPreparedImageId)
    accelSnapshotId := current.bind (·.accelSnapshotId)
    labels := lease.labels
    checkpoint := lease.checkpoint
    persistence := lease.persistence
    restore := lease.restore
    start := lease.start
    createdAt := lease.createdAt
    updatedAt := lease.updatedAt }

/-- The `where` clause of a lease write; an absent entry is not part of it. -/
structure SandboxLeaseGuard where
  epoch : Option ℕ := none
  status : Option SandboxLeaseRowStatus := none
  routingId : Option (Option String) := none

def SandboxLeaseGuard.holds (guard : SandboxLeaseGuard) (row : SandboxLeaseRow) : Bool :=
  guard.epoch.all (· = row.epoch) ∧ guard.status.all (· = row.status) ∧
    guard.routingId.all (· = row.routingId)

/-- One `sandbox_boots` row of the workspace. -/
structure Boot where
  epoch : ℕ
  driver : String
  machineClass : Option String
  startedAt : ℤ
  stoppedAt : ℤ

/-- A row the provider bills a host for: serving, or booting on a host the driver reported. -/
def hosted (row : SandboxLeaseRow) : Bool :=
  row.status = .ready ∨
    ((row.status = .pending ∨ row.status = .acquiring ∨ row.status = .starting) ∧ row.sandboxId.isSome)

/-- The insert of `closeBoot` on `(workspace_id, epoch)`: an epoch already recorded is extended. -/
def recordBoot (boot : Boot) (boots : List Boot) : List Boot :=
  if boots.any (·.epoch = boot.epoch) then
    boots.map fun b => if b.epoch = boot.epoch then { b with stoppedAt := max b.stoppedAt boot.stoppedAt } else b
  else boots ++ [boot]

/-- The boot a write ends, recorded ahead of it under its guard. -/
def closeBoot (guard : SandboxLeaseGuard) (stoppedAt : ℤ) (row : Option SandboxLeaseRow) (boots : List Boot) :
    List Boot :=
  match row with
  | none => boots
  | some row =>
    match row.start with
    | none => boots
    | some start =>
      if guard.holds row ∧ hosted row then
        recordBoot ⟨row.epoch, row.driver, row.machineClass, min start.startedAt stoppedAt, stoppedAt⟩ boots
      else boots

/-- The two tables, as far as one workspace's rows go. -/
structure Tables where
  row : Option SandboxLeaseRow := none
  boots : List Boot := []

/-- The one statement (or batch) a call writes with. -/
inductive LeaseWrite where
  /-- `insert … on conflict do nothing`: no row was read. -/
  | insert (values : SandboxLeaseRow)
  /-- `insert … on conflict do update … where epoch = ?`, behind the boot it ends. -/
  | takeOver (values : SandboxLeaseRow) (readEpoch : ℕ) (now : ℤ)
  /-- `update … set columns where guard`, behind the boot it ends when it ends one. -/
  | fenced (guard : SandboxLeaseGuard) (columns : List Column) (values : SandboxLeaseRow) (closes : Option ℤ)
  /-- `delete`, behind the boot it ends. -/
  | delete (now : ℤ)

/-- Everything an upsert writes over an existing row: all but the key and `created_at`. -/
def overwrite (values row : SandboxLeaseRow) : SandboxLeaseRow :=
  { values with workspaceId := row.workspaceId, createdAt := row.createdAt }

/-- The tables after a write, and the row it wrote; `none` when its guard let nothing through. -/
def LeaseWrite.commit (tables : Tables) : LeaseWrite → Tables × Option SandboxLeaseRow
  | .insert values =>
    match tables.row with
    | none => ({ tables with row := some values }, some values)
    | some _ => (tables, none)
  | .takeOver values readEpoch now =>
    match tables.row with
    | none => ({ tables with row := some values }, some values)
    | some row =>
      if row.epoch = readEpoch then
        let written := overwrite values row
        ({ row := some written, boots := closeBoot { epoch := some readEpoch } now tables.row tables.boots },
          some written)
      else (tables, none)
  | .fenced guard columns values closes =>
    match tables.row with
    | none => (tables, none)
    | some row =>
      if guard.holds row then
        let written := setColumns columns values row
        ({ row := some written
           boots := match closes with
             | some stoppedAt => closeBoot guard stoppedAt tables.row tables.boots
             | none => tables.boots }, some written)
      else (tables, none)
  | .delete now => ({ row := none, boots := closeBoot {} now tables.row tables.boots }, none)

/-- `writeFenced`: only this call's columns, under the epoch, and under the status or the
routing id it read where the call asks for that. -/
def writeFenced (expectedEpoch : ℕ) (next : SandboxLease) (current : SandboxLeaseRow) (columns : List Column)
    (expectedStatus : Option SandboxLeaseRowStatus) (endedAt : Option ℤ) : LeaseWrite :=
  .fenced
    { epoch := some expectedEpoch
      status := expectedStatus
      routingId := if Column.routingId ∈ columns then some current.routingId else none }
    columns (rowValues next (some current))
    (if Column.status ∈ columns ∧ next.status ≠ .ready ∧ next.status ≠ .acquiring then
      some (endedAt.getD next.updatedAt) else none)

def targetColumns : List Column :=
  [.routingId, .leaseId, .sandboxId, .url, .driverResourceId, .labels, .persistence, .status, .retryCount,
    .nextRetryAt, .lastError, .updatedAt]

def failureColumns : List Column :=
  [.status, .retryCount, .nextRetryAt, .lastError, .start, .lastHealthFailureAt, .updatedAt]

/-- The columns a patch writes: `updated_at`, each field it carries, and the status wherever it
moves `next_retry_at`, because the stored unavailable state tells backoff from failure. -/
def patchColumns (patch : SandboxLeasePatch) : List Column :=
  [Column.updatedAt] ++
  (if patch.status.isSome then [Column.status] else []) ++
  (if patch.retryCount.isSome then [Column.retryCount] else []) ++
  (if patch.nextRetryAt.isSome then [Column.nextRetryAt] else []) ++
  (if patch.lastHeartbeatAt.isSome then [Column.lastHeartbeatAt] else []) ++
  (if patch.lastActivityAt.isSome then [Column.lastActivityAt] else []) ++
  (if patch.lastHealthFailureAt.isSome then [Column.lastHealthFailureAt] else []) ++
  (if patch.lastError.isSome then [Column.lastError] else []) ++
  (if patch.checkpoint.isSome then [Column.checkpoint] else []) ++
  (if patch.restore.isSome then [Column.restore] else []) ++
  (if patch.start.isSome then [Column.start] else []) ++
  (if patch.nextRetryAt.isSome ∧ patch.status.isNone then [Column.status] else [])

/-- What a call does once its read is answered: end there, or write. -/
inductive Attempt where
  | answer (answer : LeaseAnswer)
  | write (write : LeaseWrite)

section
variable (regions : Regions) (workspaceId : String)

def attempt (read : Option SandboxLeaseRow) : LeaseCall → Attempt
  | .acquire input now =>
    let current := read.map (toSandboxLease regions)
    match current.bind (refusal · now input.staleAfterMs) with
    | some refused => .answer (.acquire refused)
    | none =>
      let values := rowValues (acquireNext workspaceId current input now) read
      match read with
      | none => .write (.insert values)
      | some row => .write (.takeOver values row.epoch now)
  | .recordTarget expectedEpoch target uuid now =>
    match read with
    | none => .answer (.lease none)
    | some row =>
      if row.epoch ≠ expectedEpoch then .answer (.lease none)
      else if sandboxLeaseStatus row.status = .stopped ∨ sandboxLeaseStatus row.status = .destroyed then
        .answer (.lease none)
      else .write (writeFenced expectedEpoch
        (applySandboxProvisionedTarget (toSandboxLease regions row) target uuid now) row targetColumns
        (some row.status) none)
  | .update expectedEpoch patch expectedStatus now =>
    match read with
    | none => .answer (.lease none)
    | some row =>
      if row.epoch ≠ expectedEpoch then .answer (.lease none)
      else if expectedStatus.isSome ∧ expectedStatus ≠ some (sandboxLeaseStatus row.status) then
        .answer (.lease none)
      else .write (writeFenced expectedEpoch (applySandboxLeasePatch (toSandboxLease regions row) patch now) row
        (patchColumns patch) (if expectedStatus.isSome then some row.status else none) patch.endedAt)
  | .recordFailure expectedEpoch error nextRetryAt now =>
    match read with
    | none => .answer (.lease none)
    | some row =>
      if row.epoch ≠ expectedEpoch then .answer (.lease none)
      else if sandboxLeaseStatus row.status = .stopped ∨ sandboxLeaseStatus row.status = .destroyed then
        .answer (.lease none)
      else .write (writeFenced expectedEpoch
        (applySandboxLeaseFailure (toSandboxLease regions row) error nextRetryAt now) row failureColumns
        (some row.status) none)
  | .release now => .write (.delete now)

/-- What a call answers when its write went through, from the row written. -/
def answerWritten (read written : Option SandboxLeaseRow) : LeaseCall → LeaseAnswer
  | .acquire input now =>
    .acquire (.acquired (acquireNext workspaceId (read.map (toSandboxLease regions)) input now))
  | .release _ => .released
  | _ => .lease (written.map (toSandboxLease regions))

/-- Whether a committed write took effect; a delete always does. -/
def tookEffect (call : LeaseCall) (written : Option SandboxLeaseRow) : Bool :=
  match call with
  | .release _ => true
  | _ => written.isSome

/-- A call under way: about to read for the `pass`-th time, or holding what it read. -/
inductive Phase where
  | reading (pass : ℕ)
  | writing (pass : ℕ) (read : Option SandboxLeaseRow)

structure Isolate where
  call : LeaseCall
  phase : Phase

/-- The database, the calls under way by id, and the calls whose writes took effect, in the
order they did, each with its answer. -/
structure D1State where
  tables : Tables := {}
  calls : List (ℕ × Isolate) := []
  log : List (LeaseCall × LeaseAnswer) := []

inductive D1Label where
  | begin (id : ℕ) (call : LeaseCall)
  | read (id : ℕ)
  | write (id : ℕ)

def D1State.find (s : D1State) (id : ℕ) : Option Isolate := s.calls.lookup id

def D1State.finish (s : D1State) (id : ℕ) : D1State :=
  { s with calls := s.calls.filter (·.1 ≠ id) }

def D1State.setPhase (s : D1State) (id : ℕ) (isolate : Isolate) : D1State :=
  { s with calls := (id, isolate) :: s.calls.filter (·.1 ≠ id) }

/-- The three passes of `acquire`; the fourth read answers from the winner's row. -/
def maxPasses : ℕ := 3

/-- The write of a call that holds its read. -/
def commitCall (s : D1State) (id : ℕ) (isolate : Isolate) (pass : ℕ) (read : Option SandboxLeaseRow) : D1State :=
  match attempt regions workspaceId read isolate.call with
  | .answer _ => s.finish id
  | .write write =>
    let (tables, written) := write.commit s.tables
    if tookEffect isolate.call written then
      { s.finish id with
        tables := tables
        log := s.log ++ [(isolate.call, answerWritten regions workspaceId read written isolate.call)] }
    else
      match isolate.call with
      | .acquire _ _ => s.setPhase id { isolate with phase := .reading (pass + 1) }
      | _ => s.finish id

/-- One step of one isolate. A read that settles the call ends it there. -/
def d1Step (s : D1State) : D1Label → D1State
  | .begin id call =>
    if (s.find id).isSome then s else s.setPhase id ⟨call, .reading 0⟩
  | .read id =>
    match s.find id with
    | some ⟨call, .reading pass⟩ =>
      if maxPasses ≤ pass then s.finish id
      else
        match attempt regions workspaceId s.tables.row call with
        | .answer _ => s.finish id
        | .write _ => s.setPhase id ⟨call, .writing pass s.tables.row⟩
    | _ => s
  | .write id =>
    match s.find id with
    | some ⟨call, .writing pass read⟩ =>
      commitCall regions workspaceId s id ⟨call, .writing pass read⟩ pass read
    | _ => s

end

end Claxedo.Sandbox
