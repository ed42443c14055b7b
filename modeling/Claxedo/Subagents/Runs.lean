import Claxedo.Subagents.ObservationRows

/-! The stored status of a subagent. An admission names the run it belongs to by revisions, one with the subagent and one with
each correlation key, and its status replaces the stored one unless it belongs to an earlier run. -/

namespace Claxedo.Subagents

open Claxedo.Lib

/-- The columns of `session_subagent` that a status goes through. -/
structure SubagentRow where
  revision : ℕ := 0
  status : SubagentStatus := .pending
  statusRevision : ℕ := 0
  runRevision : Option ℕ := none

/-- The observations, `session_subagent` by parent and key, and the run revisions of `session_subagent_correlation` by parent,
correlation key and subagent. -/
structure StatusStore where
  store : SubagentStore := {}
  subagents : List ((String × String) × SubagentRow) := []
  correlations : List ((String × String × String) × Option ℕ) := []

def isTerminalSubagentStatus : SubagentStatus → Bool
  | .completed | .failed | .killed | .interrupted => true
  | _ => false

def stableRunKey (observation : SubagentObservation) : String :=
  "stable:" ++ observation.harnessExecutionId.getD "" ++ ":" ++ observation.stableCorrelationId.getD "undefined"

def toolRunKey (observation : SubagentObservation) : String :=
  "tool:" ++ observation.harnessExecutionId.getD "" ++ ":" ++ observation.toolCallId.getD "undefined"

/-- Whether an incoming status replaces the stored one. -/
def subagentStatusAdvances (current : SubagentRow) (status : SubagentStatus) (revision : ℕ) (startsNewRun : Bool) : Bool :=
  let currentTerminal := isTerminalSubagentStatus current.status
  let incomingTerminal := isTerminalSubagentStatus status
  if currentTerminal ∧ ¬ incomingTerminal then startsNewRun ∧ current.statusRevision < revision
  else ¬ currentTerminal ∧ incomingTerminal ∨ current.statusRevision < revision

/-- `freshKeys` are the correlation keys this observation added to its subagent. -/
def observationStartsNewRun (observation : SubagentObservation) (freshKeys : List String) : Bool :=
  match observation.status with
  | none => false
  | some status =>
    if isTerminalSubagentStatus status then false
    else if observation.providerKind = some "claxedo" ∧ present observation.stableCorrelationId ≠ none then
      stableRunKey observation ∈ freshKeys
    else present observation.toolCallId ≠ none ∧ toolRunKey observation ∈ freshKeys

namespace StatusStore

def rowOf (s : StatusStore) (parentSessionId subagentKey : String) : SubagentRow :=
  (Assoc.lookup (parentSessionId, subagentKey) s.subagents).getD {}

/-- The run a correlation key names, where one was recorded with it. -/
def runOf (s : StatusStore) (parentSessionId subagentKey correlationKey : String) : Option ℕ :=
  (Assoc.lookup (parentSessionId, correlationKey, subagentKey) s.correlations).join

/-- The revision that started a subagent's current run, or, for a host child's observation naming its turn, the revision that
started that turn's run. -/
def subagentRunRevision (s : StatusStore) (parentSessionId subagentKey : String) : Option SubagentObservation → Option ℕ
  | some observation =>
    if observation.providerKind = some "claxedo" ∧ observation.stableCorrelationId ≠ none then
      s.runOf parentSessionId subagentKey (stableRunKey observation)
    else (s.rowOf parentSessionId subagentKey).runRevision
  | none => (s.rowOf parentSessionId subagentKey).runRevision

/-- The keys that were not there, and the store with them. -/
def addCorrelations (s : StatusStore) (parentSessionId subagentKey : String) : List String → List String × StatusStore
  | [] => ([], s)
  | key :: keys =>
    if (Assoc.lookup (parentSessionId, key, subagentKey) s.correlations).isSome then s.addCorrelations parentSessionId subagentKey keys
    else
      let added : StatusStore := { s with correlations := Assoc.assign (parentSessionId, key, subagentKey) none s.correlations }
      let (fresh, added) := added.addCorrelations parentSessionId subagentKey keys
      (key :: fresh, added)

/-- `freshKeys` each name the run from then on. -/
def recordSubagentRun (s : StatusStore) (parentSessionId subagentKey : String) (freshKeys : List String) (revision : ℕ) : StatusStore :=
  { s with
    subagents := Assoc.assign (parentSessionId, subagentKey)
      { s.rowOf parentSessionId subagentKey with runRevision := some revision } s.subagents
    correlations := freshKeys.foldl (fun correlations key =>
      Assoc.assign (parentSessionId, key, subagentKey) (some revision) correlations) s.correlations }

def persistStatus (current : SubagentRow) (status : SubagentStatus) (revision : ℕ) (startsNewRun : Bool) : SubagentRow :=
  let row :=
    if subagentStatusAdvances current status revision startsNewRun then
      { current with status, statusRevision := max current.statusRevision revision }
    else current
  if current.statusRevision < revision then { row with statusRevision := revision } else row

def persistSubagentEvent (s : StatusStore) (parentSessionId : String) (event : SubagentUpdatedEvent) (runRevision : Option ℕ)
    (startsNewRun : Bool) : StatusStore :=
  let row := s.rowOf parentSessionId event.subagentKey
  let row := { row with revision := max row.revision event.revision }
  let row :=
    match event.input.status with
    | some status =>
      if runRevision.all fun run => row.runRevision.getD 0 ≤ run then persistStatus row status event.revision startsNewRun else row
    | none => row
  { s with subagents := Assoc.assign (parentSessionId, event.subagentKey) row s.subagents }

/-- What an observation is admitted as, where it is new and its other statements go through. -/
def admitted (s : StatusStore) (input : AdmissionInput) (goesThrough : Bool) : Option SubagentUpdatedEvent :=
  match hydrateSubagentAdmission s.store.rows with
  | .error _ => none
  | .ok m =>
    match m.admitInput input with
    | .error _ => none
    | .ok (admitted, _) =>
      if isStored s.store.rows input.parentSessionId input.observation.observationId ∨ ¬ goesThrough then none
      else some admitted.event

def admitStatus (s : StatusStore) (input : AdmissionInput) (event : SubagentUpdatedEvent) : StatusStore :=
  let parentSessionId := input.parentSessionId
  let (freshKeys, s) := s.addCorrelations parentSessionId event.subagentKey (correlationKeys input.observation)
  let startsNewRun := observationStartsNewRun input.observation freshKeys
  let runRevision :=
    if startsNewRun then some event.revision
    else s.subagentRunRevision parentSessionId event.subagentKey (some input.observation)
  let s := s.persistSubagentEvent parentSessionId event runRevision startsNewRun
  if startsNewRun then s.recordSubagentRun parentSessionId event.subagentKey freshKeys event.revision else s

def admitObservation (s : StatusStore) (input : AdmissionInput) (goesThrough : Bool) : StatusStore :=
  match s.admitted input goesThrough with
  | none => s
  | some event => { s.admitStatus input event with store := s.store.admitObservation input goesThrough }

end StatusStore

/-! ### Runs of a host child -/

/-- The turn an observation names. -/
def turnOf (observation : SubagentObservation) : Option String :=
  (present observation.stableCorrelationId).map fun _ => stableRunKey observation

/-- An observation of the host child: by the host, under its key, and with a turn wherever it has a status. -/
structure OfHostChild (parentSessionId subagentKey : String) (input : AdmissionInput) : Prop where
  parent : input.parentSessionId = parentSessionId
  key : input.observation.subagentKey = some subagentKey
  host : input.observation.providerKind = some "claxedo"
  names : input.observation.status ≠ none → turnOf input.observation ≠ none

/-- An observation to be admitted, and whether its other statements go through. -/
structure Observed where
  input : AdmissionInput
  goesThrough : Bool := true

def reportOf (row : ObservationRow) : Option (String × SubagentStatus) :=
  match turnOf row.observation, row.observation.status with
  | some turn, some status => some (turn, status)
  | _, _ => none

namespace StatusStore

def step (s : StatusStore) (observed : Observed) : StatusStore := s.admitObservation observed.input observed.goesThrough

/-- The turns and statuses that were reported of the subagent, in their order. -/
def reports (s : StatusStore) (parentSessionId subagentKey : String) : List (String × SubagentStatus) :=
  (s.store.rows.filter fun row => row.parentSessionId = parentSessionId ∧ row.subagentKey = subagentKey).filterMap reportOf

end StatusStore

/-- The turn that was reported last for the first time. -/
def newestRun (reports : List (String × SubagentStatus)) : Option String := (firsts (reports.map Prod.fst)).getLast?

/-- The first terminal status reported for the turn, or else the last. -/
def runStatus (reports : List (String × SubagentStatus)) (turn : String) : Option SubagentStatus :=
  let statuses := (reports.filter fun report => report.1 = turn).map Prod.snd
  (statuses.find? isTerminalSubagentStatus).or statuses.getLast?

section
variable (parentSessionId subagentKey : String) (s : StatusStore)

/-- The stored status is the newest run's. -/
def FollowsNewestRun : Prop :=
  ∀ turn, newestRun (s.reports parentSessionId subagentKey) = some turn →
    runStatus (s.reports parentSessionId subagentKey) turn = some (s.rowOf parentSessionId subagentKey).status

/-- A report for an older turn leaves the status and the run. -/
def SparesNewestRun (observed : Observed) : Prop :=
  ∀ turn ∈ (s.reports parentSessionId subagentKey).map Prod.fst, turnOf observed.input.observation = some turn →
    newestRun (s.reports parentSessionId subagentKey) ≠ some turn →
      ((s.step observed).rowOf parentSessionId subagentKey).status = (s.rowOf parentSessionId subagentKey).status ∧
        ((s.step observed).rowOf parentSessionId subagentKey).runRevision = (s.rowOf parentSessionId subagentKey).runRevision

/-- A status replaces another one, and no terminal one gives way to one that is not. -/
def Replaces (current status : SubagentStatus) : Prop :=
  status ≠ current ∧ (isTerminalSubagentStatus current → isTerminalSubagentStatus status)

/-- An admitted report is the first of a turn that nothing named before, or does not follow a terminal status; or is of the
newest turn, and replaces no terminal status; or is of an older turn, and replaces no status or has a run recorded that is
before the subagent's. -/
def KeepsRun (observed : Observed) : Prop :=
  s.admitted observed.input observed.goesThrough ≠ none → ∀ turn, turnOf observed.input.observation = some turn →
    ∀ status, observed.input.observation.status = some status →
      let row := s.rowOf parentSessionId subagentKey
      let reports := s.reports parentSessionId subagentKey
      if turn ∉ reports.map Prod.fst then
        (Assoc.lookup (parentSessionId, turn, subagentKey) s.correlations).isSome → isTerminalSubagentStatus row.status →
          isTerminalSubagentStatus status
      else if newestRun reports = some turn then isTerminalSubagentStatus row.status → ¬ Replaces row.status status
      else ((s.runOf parentSessionId subagentKey turn).all fun run => row.runRevision.getD 0 ≤ run) → ¬ Replaces row.status status

end

end Claxedo.Subagents
