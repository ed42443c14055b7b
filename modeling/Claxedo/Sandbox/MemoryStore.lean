import Mathlib.Tactic

/-! The lease record of `sandbox-manager/src/contract.ts` and the three merges every
lease store shares: a patch, a failure, and a driver's report of its resource. -/

namespace Claxedo.Sandbox

inductive SandboxLeaseStatus where
  | acquiring | ready | unavailable | stopped | destroyed
  deriving DecidableEq

inductive SandboxCaptureScope where
  | none | sameResource | filesystem
  deriving DecidableEq

inductive SandboxCaptureSourceBehavior where
  | notApplicable | preserved | stopped | deleted
  deriving DecidableEq

inductive SandboxRestoreMountBehavior where
  | notApplicable | sameResource | newResource
  deriving DecidableEq

inductive SandboxResume where
  | sameSandbox | replacementRestore
  deriving DecidableEq

inductive SandboxRetention where
  | notApplicable | providerManaged | explicit
  deriving DecidableEq

structure SandboxPersistenceCapabilities where
  resume : SandboxResume
  capture : SandboxCaptureScope
  clone : Bool
  captureSource : SandboxCaptureSourceBehavior
  retention : SandboxRetention
  restoreMount : SandboxRestoreMountBehavior
  deriving DecidableEq

structure SandboxCheckpointReference where
  id : String
  providerReference : String
  sourceEpoch : ℕ
  capturedAt : ℤ
  scope : SandboxCaptureScope
  sourceBehavior : SandboxCaptureSourceBehavior
  restoreMount : SandboxRestoreMountBehavior
  unfrozen : Bool
  deriving DecidableEq

inductive SandboxRestoreState where
  | pending
  | restoring (startedAt : ℤ)
  | ready (startedAt completedAt : ℤ)
  | failed (startedAt : Option ℤ) (failedAt : ℤ) (error : String)
  deriving DecidableEq

structure SandboxRestoreStatus where
  checkpointId : String
  sourceEpoch : ℕ
  requestedAt : ℤ
  state : SandboxRestoreState
  deriving DecidableEq

inductive SandboxBootMode where
  | restore | resume | coldStart
  deriving DecidableEq

inductive SandboxStartPhase where
  | leaseDecision | providerReady | machineReady | imageReady | repositoryCheckout
  | setupScript | startScript | runtimeReady | firstSessionReady
  deriving DecidableEq

structure SandboxStartFailure where
  epoch : ℕ
  failedAt : ℤ
  error : String
  deriving DecidableEq

/-- One epoch's start as far as it was observed; `startedAt` is the boot the epoch is metered by. -/
structure SandboxStartProgress where
  requestedAt : ℤ
  startedAt : ℤ
  bootMode : SandboxBootMode
  markedAt : ℤ
  phases : List SandboxStartPhase
  failures : Option (List SandboxStartFailure)
  deriving DecidableEq

abbrev Labels := List (String × String)

structure SandboxLease where
  workspaceId : String
  homeRegion : String
  driver : String
  epoch : ℕ
  routingId : Option String
  status : SandboxLeaseStatus
  retryCount : ℕ
  updatedAt : ℤ
  createdAt : ℤ
  sandboxId : Option String
  url : Option String
  hostId : Option String
  driverResourceId : Option String
  nextRetryAt : Option ℤ
  lastError : Option String
  lastHeartbeatAt : Option ℤ
  lastActivityAt : Option ℤ
  lastHealthFailureAt : Option ℤ
  labels : Option Labels
  checkpoint : Option SandboxCheckpointReference
  persistence : Option SandboxPersistenceCapabilities
  restore : Option SandboxRestoreStatus
  start : Option SandboxStartProgress
  machineClass : Option String
  deriving DecidableEq

structure SandboxLeaseAcquireInput where
  homeRegion : String
  driver : String
  staleAfterMs : ℤ
  labels : Option Labels
  machineClass : Option String
  start : Option SandboxStartProgress

/-- A refused acquire answers from the lease it found. -/
inductive SandboxLeaseAcquireResult where
  | acquired (lease : SandboxLease)
  | refused (lease : SandboxLease) (retryAfterMs : ℤ)
  deriving DecidableEq

/-- The lease whose host the next epoch resumes: stopped, or failed on a host already reported. -/
def sandboxLeaseHeldHost : Option SandboxLease → Option SandboxLease
  | some lease =>
    if lease.sandboxId.isSome ∧ (lease.status = .stopped ∨ lease.status = .unavailable) then some lease
    else none
  | none => none

/-- `none` leaves a field, `some none` clears one that may be cleared. -/
structure SandboxLeasePatch where
  status : Option SandboxLeaseStatus := none
  retryCount : Option ℕ := none
  lastHeartbeatAt : Option ℤ := none
  lastActivityAt : Option ℤ := none
  lastHealthFailureAt : Option ℤ := none
  nextRetryAt : Option (Option ℤ) := none
  lastError : Option (Option String) := none
  checkpoint : Option (Option SandboxCheckpointReference) := none
  restore : Option (Option SandboxRestoreStatus) := none
  start : Option SandboxStartProgress := none
  endedAt : Option ℤ := none

def applySandboxLeasePatch (current : SandboxLease) (patch : SandboxLeasePatch) (updatedAt : ℤ) :
    SandboxLease :=
  { current with
    status := patch.status.getD current.status
    retryCount := patch.retryCount.getD current.retryCount
    lastHeartbeatAt := patch.lastHeartbeatAt.or current.lastHeartbeatAt
    lastActivityAt := patch.lastActivityAt.or current.lastActivityAt
    lastHealthFailureAt := patch.lastHealthFailureAt.or current.lastHealthFailureAt
    nextRetryAt := patch.nextRetryAt.getD current.nextRetryAt
    lastError := patch.lastError.getD current.lastError
    checkpoint := patch.checkpoint.getD current.checkpoint
    restore := patch.restore.getD current.restore
    start := patch.start.or current.start
    updatedAt := updatedAt }

structure SandboxProvisionedTarget where
  sandboxId : String
  url : Option String
  hostId : String
  driverResourceId : Option String
  labels : Labels
  persistence : Option SandboxPersistenceCapabilities

def applySandboxLeaseFailure (current : SandboxLease) (error : String) (nextRetryAt : Option ℤ)
    (failedAt : ℤ) : SandboxLease :=
  { current with
    status := .unavailable
    retryCount := current.retryCount + 1
    lastError := some error
    nextRetryAt := nextRetryAt
    lastHealthFailureAt := some failedAt
    updatedAt := failedAt
    start := current.start.map fun start =>
      { start with failures := some (start.failures.getD [] ++ [⟨current.epoch, failedAt, error⟩]) } }

/-- A lease already serving this very resource keeps the routing id its readers hold. -/
def sameTarget (current : SandboxLease) (target : SandboxProvisionedTarget) : Bool :=
  current.status = .ready ∧ current.url = target.url ∧ current.sandboxId = some target.sandboxId ∧
    current.hostId = some target.hostId ∧ current.driverResourceId = target.driverResourceId

/-- The routing id after a target is recorded; an empty one is falsy and is replaced. -/
def routingIdFor (current : SandboxLease) (target : SandboxProvisionedTarget) (uuid : String) :
    Option String :=
  if sameTarget current target ∧ current.routingId ≠ some "" then current.routingId.or (some uuid)
  else some uuid

def applySandboxProvisionedTarget (current : SandboxLease) (target : SandboxProvisionedTarget)
    (uuid : String) (updatedAt : ℤ) : SandboxLease :=
  { current with
    status := if target.url.isNone then .acquiring else .ready
    routingId := routingIdFor current target uuid
    sandboxId := some target.sandboxId
    url := target.url
    hostId := some target.hostId
    driverResourceId := target.driverResourceId
    labels := some target.labels
    persistence := target.persistence.or current.persistence
    retryCount := 0
    nextRetryAt := none
    lastError := none
    updatedAt := updatedAt }

/-! `createMemoryLeaseStore`, on the one workspace a run is about: every call is atomic.
The values a call's `Date.now()` and `crypto.randomUUID()` answer travel in the call. -/

inductive LeaseCall where
  | acquire (input : SandboxLeaseAcquireInput) (now : ℤ)
  | recordTarget (expectedEpoch : ℕ) (target : SandboxProvisionedTarget) (uuid : String) (now : ℤ)
  | update (expectedEpoch : ℕ) (patch : SandboxLeasePatch) (expectedStatus : Option SandboxLeaseStatus)
      (now : ℤ)
  | recordFailure (expectedEpoch : ℕ) (error : String) (nextRetryAt : Option ℤ) (now : ℤ)
  | release (now : ℤ)

/-- What a call answers; `lease none` is the `undefined` of a write that changed nothing. -/
inductive LeaseAnswer where
  | acquire (result : SandboxLeaseAcquireResult)
  | lease (lease : Option SandboxLease)
  | released
  deriving DecidableEq

/-- The refusal an acquire gets from a serving lease, or from one still being acquired. -/
def refusal (lease : SandboxLease) (now staleAfterMs : ℤ) : Option SandboxLeaseAcquireResult :=
  if lease.status = .ready then some (.refused lease 0)
  else if lease.status = .acquiring ∧ now - lease.updatedAt < staleAfterMs then
    some (.refused lease (max 0 (staleAfterMs - (now - lease.updatedAt))))
  else none

/-- The lease a granted acquire writes, from the lease it found. -/
def acquireNext (workspaceId : String) (current : Option SandboxLease) (input : SandboxLeaseAcquireInput)
    (now : ℤ) : SandboxLease :=
  let held := sandboxLeaseHeldHost current
  { workspaceId := workspaceId
    homeRegion := (current.map (·.homeRegion)).getD input.homeRegion
    driver := (current.map (·.driver)).getD input.driver
    epoch := (current.map (·.epoch)).getD 0 + 1
    routingId := none
    status := .acquiring
    retryCount := (current.map (·.retryCount)).getD 0
    createdAt := (current.map (·.createdAt)).getD now
    updatedAt := now
    sandboxId := held.bind (·.sandboxId)
    url := held.bind (·.url)
    hostId := held.bind (·.hostId)
    driverResourceId := held.bind (·.driverResourceId)
    nextRetryAt := none
    lastError := none
    lastHeartbeatAt := held.bind (·.lastHeartbeatAt)
    lastActivityAt := held.bind (·.lastActivityAt)
    lastHealthFailureAt := none
    labels := match held with
      | some lease => lease.labels
      | none => input.labels
    machineClass := input.machineClass.or (held.bind (·.machineClass))
    checkpoint := current.bind (·.checkpoint)
    persistence := current.bind (·.persistence)
    restore := current.bind (·.restore)
    start := input.start }

namespace Memory

/-- One call of the memory store on the lease it holds. -/
def step (workspaceId : String) (current : Option SandboxLease) :
    LeaseCall → Option SandboxLease × LeaseAnswer
  | .acquire input now =>
    match current.bind (refusal · now input.staleAfterMs) with
    | some refused => (current, .acquire refused)
    | none =>
      let next := acquireNext workspaceId current input now
      (some next, .acquire (.acquired next))
  | .recordTarget expectedEpoch target uuid now =>
    match current with
    | none => (none, .lease none)
    | some lease =>
      if lease.epoch ≠ expectedEpoch then (current, .lease none)
      else if lease.status = .stopped ∨ lease.status = .destroyed then (current, .lease none)
      else
        let next := applySandboxProvisionedTarget lease target uuid now
        (some next, .lease (some next))
  | .update expectedEpoch patch expectedStatus now =>
    match current with
    | none => (none, .lease none)
    | some lease =>
      if lease.epoch ≠ expectedEpoch then (current, .lease none)
      else if expectedStatus.isSome ∧ expectedStatus ≠ some lease.status then (current, .lease none)
      else
        let next := applySandboxLeasePatch lease patch now
        (some next, .lease (some next))
  | .recordFailure expectedEpoch error nextRetryAt now =>
    match current with
    | none => (none, .lease none)
    | some lease =>
      if lease.epoch ≠ expectedEpoch then (current, .lease none)
      else if lease.status = .stopped ∨ lease.status = .destroyed then (current, .lease none)
      else
        let next := applySandboxLeaseFailure lease error nextRetryAt now
        (some next, .lease (some next))
  | .release _ => (none, .released)

/-- The lease left and the answers given by calls made one after another. -/
def run (workspaceId : String) (current : Option SandboxLease) :
    List LeaseCall → Option SandboxLease × List LeaseAnswer
  | [] => (current, [])
  | call :: calls =>
    let (next, answer) := step workspaceId current call
    let (last, answers) := run workspaceId next calls
    (last, answer :: answers)

theorem run_snoc (workspaceId : String) (current : Option SandboxLease) (calls : List LeaseCall)
    (call : LeaseCall) :
    run workspaceId current (calls ++ [call]) =
      ((step workspaceId (run workspaceId current calls).1 call).1,
        (run workspaceId current calls).2 ++ [(step workspaceId (run workspaceId current calls).1 call).2]) := by
  induction calls generalizing current with
  | nil => rfl
  | cons c calls ih => simp only [List.cons_append, run, ih]

end Memory

end Claxedo.Sandbox
