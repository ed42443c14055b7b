import Claxedo.Lib.Table
import Claxedo.Lib.Lists
import Claxedo.Lib.Run
import Mathlib.Data.List.Sort
import Mathlib.Data.String.Basic

/-! `AdmissionMachine`: which subagent an observation is of, by its key, its child session, its provider or what it
correlates with, and the revision it is given. -/

namespace Claxedo.Subagents

open Claxedo.Lib

inductive SubagentToolCallRole where
  | spawn | interaction
  deriving DecidableEq

inductive SubagentMode where
  | foreground | background
  deriving DecidableEq

inductive SubagentStatus where
  | pending | running | paused | interrupted | completed | failed | killed
  deriving DecidableEq

inductive SubagentTranscriptKind where
  | live | file | messages | none
  deriving DecidableEq

structure SubagentTranscript where
  kind : SubagentTranscriptKind
  ref : Option String := none
  deriving DecidableEq

structure SubagentObservation where
  observationId : String
  harnessExecutionId : Option String := none
  subagentKey : Option String := none
  stableCorrelationId : Option String := none
  toolCallId : Option String := none
  toolCallRole : Option SubagentToolCallRole := none
  mode : Option SubagentMode := none
  status : Option SubagentStatus := none
  label : Option String := none
  subagentType : Option String := none
  description : Option String := none
  providerId : Option String := none
  providerKind : Option String := none
  childSessionId : Option String := none
  transcript : Option SubagentTranscript := none
  attention : Option ℤ := none
  deriving DecidableEq

/-- What an observation says, past its identity: the texts that are not empty. -/
structure EventInput where
  toolCallId : Option String
  toolCallRole : Option SubagentToolCallRole
  mode : Option SubagentMode
  status : Option SubagentStatus
  label : Option String
  subagentType : Option String
  description : Option String
  providerId : Option String
  providerKind : Option String
  childSessionId : Option String
  transcript : Option SubagentTranscript
  attention : Option ℤ
  deriving DecidableEq

structure SubagentUpdatedEvent where
  subagentKey : String
  revision : ℕ
  input : EventInput
  deriving DecidableEq

structure AdmittedSubagentObservation where
  parentSessionId : String
  observationId : String
  event : SubagentUpdatedEvent
  published : Bool := false

/-- A text that counts as one: there, and not empty. -/
def present (text : Option String) : Option String := text.filter (· ≠ "")

def observationEventInput (observation : SubagentObservation) : EventInput where
  toolCallId := present observation.toolCallId
  toolCallRole := observation.toolCallRole
  mode := observation.mode
  status := observation.status
  label := present observation.label
  subagentType := present observation.subagentType
  description := present observation.description
  providerId := present observation.providerId
  providerKind := present observation.providerKind
  childSessionId := present observation.childSessionId
  transcript := observation.transcript
  attention := observation.attention

def EventInput.withoutChildSessionId (input : EventInput) : EventInput := { input with childSessionId := none }

/-- What is to be admitted, and what the caller would allocate for it. -/
structure AdmissionInput where
  parentSessionId : String
  observation : SubagentObservation
  allocatedKey : String
  allocatedChildSessionId : Option String := none

inductive AdmissionError where
  | unknownHostSubagentKey (parentSessionId observationId : String) (subagentKey : Option String)
  | error (message : String)

structure Binding where
  providerId : Option String := none
  providerKind : Option String := none
  childSessionId : Option String := none

structure AdmissionMachine where
  observations : List (String × AdmittedSubagentObservation) := []
  associations : List (String × List String) := []
  revisions : List (String × ℕ) := []
  bindings : List (String × Binding) := []
  childOwners : List (String × String) := []

def scopedKey (parentSessionId key : String) : String := parentSessionId ++ "\x00" ++ key

def providerKey (observation : SubagentObservation) : Option String :=
  match present observation.providerId, present observation.providerKind with
  | some providerId, some providerKind => some ("provider:" ++ providerKind ++ ":" ++ providerId)
  | _, _ => none

def correlationKeys (observation : SubagentObservation) : List String :=
  [providerKey observation,
    (present observation.stableCorrelationId).map fun id =>
      "stable:" ++ observation.harnessExecutionId.getD "" ++ ":" ++ id,
    (present observation.toolCallId).map fun id =>
      "tool:" ++ observation.harnessExecutionId.getD "" ++ ":" ++ id].filterMap id

/-- The value, where there is one and no other. -/
def sole (values : List String) : Option String :=
  match firsts values with
  | [value] => some value
  | _ => none

def compatibleBinding (binding : Binding) (observation : SubagentObservation) : Bool :=
  ¬ (present observation.providerId ≠ none ∧ present binding.providerId ≠ none ∧ binding.providerId ≠ observation.providerId) ∧
    ¬ (present observation.providerKind ≠ none ∧ present binding.providerKind ≠ none ∧
      binding.providerKind ≠ observation.providerKind)

def requireCompatibleBinding (field : String) (current next : Option String) : Except AdmissionError Unit :=
  if current = none ∨ next = none ∨ current = next then .ok ()
  else .error (.error ("conflicting immutable subagent " ++ field ++ " binding"))

namespace AdmissionMachine

/-- What an association, a revision or a binding is where the map has none. -/
def associated (m : AdmissionMachine) (key : String) : List String := (Assoc.lookup key m.associations).getD []

def revisionOf (m : AdmissionMachine) (key : String) : ℕ := (Assoc.lookup key m.revisions).getD 0

def bindingOf (m : AdmissionMachine) (key : String) : Binding := (Assoc.lookup key m.bindings).getD {}

def replay (prior : AdmittedSubagentObservation) (observation : SubagentObservation) :
    Except AdmissionError AdmittedSubagentObservation :=
  let same := prior.event.input.withoutChildSessionId = (observationEventInput observation).withoutChildSessionId
  let sameChild := present observation.childSessionId = none ∨ present prior.event.input.childSessionId = none ∨
    observation.childSessionId = prior.event.input.childSessionId
  if ¬ same ∨ ¬ sameChild then
    .error (.error ("subagent observation " ++ observation.observationId ++ " was reused with conflicting content"))
  else .ok prior

def validate (m : AdmissionMachine) (input : AdmissionInput) : Except AdmissionError Unit :=
  let observation := input.observation
  if observation.toolCallRole ≠ none ∧ present observation.toolCallId = none then
    .error (.error "a subagent tool-call role requires its toolCallId")
  else if observation.providerKind ≠ some "claxedo" ∨ present observation.toolCallId = none then .ok ()
  else
    let bound := (present observation.subagentKey).bind fun key =>
      (m.bindingOf (scopedKey input.parentSessionId key)).childSessionId
    if present bound = none then
      .error (.unknownHostSubagentKey input.parentSessionId observation.observationId observation.subagentKey)
    else .ok ()

/-- The one match of the first key that has just one, among the subagents the observation could be of. -/
def strongest (m : AdmissionMachine) (parentSessionId : String) (observation : SubagentObservation) : List String → Option String
  | [] => none
  | key :: keys =>
    match present (sole ((m.associated (scopedKey parentSessionId key)).filter fun candidate =>
        compatibleBinding (m.bindingOf (scopedKey parentSessionId candidate)) observation)) with
    | some found => some found
    | none => m.strongest parentSessionId observation keys

def unbound (m : AdmissionMachine) (parentSessionId : String) (observation : SubagentObservation) (keys : List String) :
    Option String :=
  sole ((keys.flatMap fun key => m.associated (scopedKey parentSessionId key)).filter fun key =>
    let binding := m.bindingOf (scopedKey parentSessionId key)
    present binding.providerId = none ∧ (present observation.providerKind = none ∨ present binding.providerKind = none ∨
      binding.providerKind = observation.providerKind))

def resolve (m : AdmissionMachine) (input : AdmissionInput) (keys : List String) : String :=
  let parentSessionId := input.parentSessionId
  let observation := input.observation
  let childOwner := (present observation.childSessionId).bind fun child =>
    Assoc.lookup (scopedKey parentSessionId ("child:" ++ child)) m.childOwners
  let byProvider := (providerKey observation).bind fun provider =>
    (sole (m.associated (scopedKey parentSessionId provider))).or (m.unbound parentSessionId observation keys)
  (((observation.subagentKey.or childOwner).or byProvider).or (m.strongest parentSessionId observation keys)).getD
    input.allocatedKey

/-- The child session an observation is bound to, and the maps with it bound. -/
def bind (m : AdmissionMachine) (input : AdmissionInput) (key : String) :
    Except AdmissionError (Option String × List (String × Binding) × List (String × String)) :=
  let parentSessionId := input.parentSessionId
  let observation := input.observation
  let binding := m.bindingOf (scopedKey parentSessionId key)
  match requireCompatibleBinding "providerId" binding.providerId observation.providerId,
      requireCompatibleBinding "providerKind" binding.providerKind observation.providerKind,
      requireCompatibleBinding "childSessionId" binding.childSessionId observation.childSessionId with
  | .error e, _, _ => .error e
  | .ok (), .error e, _ => .error e
  | .ok (), .ok (), .error e => .error e
  | .ok (), .ok (), .ok () =>
    let child := present ((binding.childSessionId.or observation.childSessionId).or input.allocatedChildSessionId)
    let bound : Binding :=
      { providerId := binding.providerId.or observation.providerId
        providerKind := binding.providerKind.or observation.providerKind
        childSessionId := child }
    let bindings := Assoc.assign (scopedKey parentSessionId key) bound m.bindings
    match child with
    | none => .ok (none, bindings, m.childOwners)
    | some child =>
      if present binding.childSessionId = none then
        let ownerKey := scopedKey parentSessionId ("child:" ++ child)
        match present (Assoc.lookup ownerKey m.childOwners) with
        | none => .ok (some child, bindings, Assoc.assign ownerKey key m.childOwners)
        | some owner =>
          if owner ≠ key then
            .error (.error ("subagent child session " ++ child ++ " is already owned by " ++ owner ++ "; observation " ++
              observation.observationId ++ " targets " ++ key))
          else .ok (some child, bindings, Assoc.assign ownerKey key m.childOwners)
      else .ok (some child, bindings, m.childOwners)

def associate (parentSessionId : String) (keys : List String) (subagentKey : String)
    (associations : List (String × List String)) : List (String × List String) :=
  keys.foldl (fun associations key =>
    let values := (Assoc.lookup (scopedKey parentSessionId key) associations).getD []
    Assoc.assign (scopedKey parentSessionId key) (if subagentKey ∈ values then values else values ++ [subagentKey]) associations)
    associations

/-- `admit` of the admission machine. -/
def admitInput (m : AdmissionMachine) (input : AdmissionInput) : Except AdmissionError (AdmittedSubagentObservation × AdmissionMachine) :=
  let parentSessionId := input.parentSessionId
  let observation := input.observation
  let observationKey := scopedKey parentSessionId ("observation:" ++ observation.observationId)
  match Assoc.lookup observationKey m.observations with
  | some prior => (replay prior observation).map fun prior => (prior, m)
  | none =>
    match m.validate input with
    | .error e => .error e
    | .ok () =>
      let keys := correlationKeys observation
      let subagentKey := m.resolve input keys
      match m.bind input subagentKey with
      | .error e => .error e
      | .ok (child, bindings, childOwners) =>
        let revisionKey := scopedKey parentSessionId ("revision:" ++ subagentKey)
        let revision := m.revisionOf revisionKey + 1
        let admitted : AdmittedSubagentObservation :=
          { parentSessionId := parentSessionId
            observationId := observation.observationId
            event :=
              { subagentKey := subagentKey
                revision := revision
                input := observationEventInput { observation with childSessionId := child.or observation.childSessionId } } }
        .ok (admitted,
          { observations := Assoc.assign observationKey admitted m.observations
            associations := associate parentSessionId keys subagentKey m.associations
            revisions := Assoc.assign revisionKey revision m.revisions
            bindings := bindings
            childOwners := childOwners })

def markPublished (m : AdmissionMachine) (parentSessionId observationId : String) : Except AdmissionError AdmissionMachine :=
  let key := scopedKey parentSessionId ("observation:" ++ observationId)
  match Assoc.lookup key m.observations with
  | none => .error (.error ("unknown subagent observation " ++ observationId))
  | some admitted => .ok { m with observations := Assoc.assign key { admitted with published := true } m.observations }

end AdmissionMachine

/-! The store's admissions: each takes the index rebuilt from the stored observations, and stores what it admits. -/

/-- A row of `session_subagent_observation`. -/
structure ObservationRow where
  parentSessionId : String
  observationId : String
  subagentKey : String
  revision : ℕ
  observation : SubagentObservation
  event : SubagentUpdatedEvent
  published : Bool := false
  deriving DecidableEq

/-- The order rows are replayed in. -/
def rowLe (a b : ObservationRow) : Prop :=
  a.parentSessionId < b.parentSessionId ∨ a.parentSessionId = b.parentSessionId ∧
    (a.subagentKey < b.subagentKey ∨ a.subagentKey = b.subagentKey ∧ a.revision ≤ b.revision)

instance : DecidableRel rowLe := fun a b => by
  unfold rowLe
  infer_instance

def replayInput (row : ObservationRow) : AdmissionInput where
  parentSessionId := row.parentSessionId
  observation := { row.observation with observationId := row.observationId, subagentKey := some row.subagentKey }
  allocatedKey := row.subagentKey

def replayRow (m : AdmissionMachine) (row : ObservationRow) : Except AdmissionError AdmissionMachine :=
  match m.admitInput (replayInput row) with
  | .error e => .error e
  | .ok (admitted, m) =>
    if admitted.event.revision ≠ row.revision then
      .error (.error ("subagent revision replay mismatch for " ++ row.parentSessionId ++ "/" ++ row.subagentKey))
    else if row.published then m.markPublished row.parentSessionId row.observationId
    else .ok m

def replayRows : AdmissionMachine → List ObservationRow → Except AdmissionError AdmissionMachine
  | m, [] => .ok m
  | m, row :: rows =>
    match replayRow m row with
    | .error e => .error e
    | .ok m => replayRows m rows

def hydrateSubagentAdmission (rows : List ObservationRow) : Except AdmissionError AdmissionMachine :=
  replayRows {} (rows.insertionSort rowLe)

/-- What is stored of an admission: the observation with the child session it is bound to stamped in. -/
def storedRow (input : AdmissionInput) (event : SubagentUpdatedEvent) : ObservationRow where
  parentSessionId := input.parentSessionId
  observationId := input.observation.observationId
  subagentKey := event.subagentKey
  revision := event.revision
  observation :=
    { input.observation with childSessionId := (present event.input.childSessionId).or input.observation.childSessionId }
  event := event

def isStored (rows : List ObservationRow) (parentSessionId observationId : String) : Bool :=
  rows.any fun row => row.parentSessionId = parentSessionId ∧ row.observationId = observationId

/-- The rows, and beside them a machine that was given the stored admissions as they came. -/
structure SubagentStore where
  rows : List ObservationRow := []
  live : AdmissionMachine := {}

/-- An admission, whose other statements go through or are rolled back with it; or an admitted one is published. -/
inductive SubagentLabel where
  | admitObservation (input : AdmissionInput) (goesThrough : Bool)
  | markPublished (parentSessionId observationId : String)

namespace SubagentStore

def admitObservation (s : SubagentStore) (input : AdmissionInput) (goesThrough : Bool) : SubagentStore :=
  match hydrateSubagentAdmission s.rows with
  | .error _ => s
  | .ok m =>
    match m.admitInput input with
    | .error _ => s
    | .ok (admitted, _) =>
      if isStored s.rows input.parentSessionId input.observation.observationId ∨ ¬ goesThrough then s
      else
        { rows := s.rows ++ [storedRow input admitted.event]
          live :=
            match s.live.admitInput input with
            | .error _ => s.live
            | .ok (_, live) => live }

def markPublished (s : SubagentStore) (parentSessionId observationId : String) : SubagentStore :=
  if isStored s.rows parentSessionId observationId then
    { rows := s.rows.map fun row =>
        if row.parentSessionId = parentSessionId ∧ row.observationId = observationId then { row with published := true } else row
      live :=
        match s.live.markPublished parentSessionId observationId with
        | .error _ => s.live
        | .ok live => live }
  else s

def step (s : SubagentStore) : SubagentLabel → SubagentStore
  | .admitObservation input goesThrough => s.admitObservation input goesThrough
  | .markPublished parentSessionId observationId => s.markPublished parentSessionId observationId

end SubagentStore

end Claxedo.Subagents
