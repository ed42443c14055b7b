import Claxedo.Lib.Table
import Claxedo.Usage.RuntimeLedger

/-! `createTurnMeter`: a turn's usage and lifecycle events, taken one after another, written as the revisions of its
message. A call's answers from the reader, the state store, the writer and the clock come with its label. -/

namespace Claxedo.Usage

open Claxedo.Lib
open Claxedo.Store (RuntimeTokenUsage RuntimeUsageObservation UsageStreams UsageKey unknownTokenUsage usageStreamsTotal
  isRepeatedUsageObservation recordUsageObservation usageObservationKey nonEmpty)

structure TurnContext where
  sessionRef : String
  workspaceId : Option String := none
  hostId : String
  location : TurnUsageLocation
  harness : String
  providerId : Option String := none
  modelId : Option String := none
  nativeSessionId : Option String := none

structure TurnState where
  sessionId : String
  messageId : String
  revision : ℤ := 0
  tokens : RuntimeTokenUsage := unknownTokenUsage
  hasUsage : Bool := false
  providerId : Option String := none
  modelId : Option String := none
  servedModelId : Option String := none
  nativeSessionId : Option String := none
  observedAt : Option ℤ := none
  completedAt : Option ℤ := none
  firstOutputAt : Option ℤ := none
  errorClass : Option String := none
  credential : Option TurnUsageCredential := none
  settlement : Option TurnUsageSettlement := none
  status : Option TurnUsageStatus := none
  quality : TurnUsageQuality := { source := .lifecycle, knownCategories := [] }
  usage : UsageStreams := {}
  context : Option TurnContext := none

def TurnUsageRevision.message (fact : TurnUsageRevision) : Message := (fact.sessionId, fact.messageId)

def TurnState.message (current : TurnState) : Message := (current.sessionId, current.messageId)

/-- The statuses no harness reports: a cancel's, a steer's and a lost process's. -/
inductive TurnVerdict where
  | stopped | interruptedBySteer | processLost

def TurnVerdict.status : TurnVerdict → TurnUsageStatus
  | .stopped => .stopped
  | .interruptedBySteer => .interruptedBySteer
  | .processLost => .processLost

def TurnUsageStatus.isVerdict : TurnUsageStatus → Bool
  | .stopped | .interruptedBySteer | .processLost => true
  | .running | .completed | .error => false

@[simp] theorem TurnVerdict.isVerdict_status (verdict : TurnVerdict) : verdict.status.isVerdict = true := by
  cases verdict <;> rfl

/-! What a fact is filed under. -/

/-- Pi keys a model as `<vendor>/<model>` under its own provider. -/
def vendorModel (providerId modelId : String) : String × String :=
  let slash := modelId.toList.idxOf '/'
  if providerId ≠ "pi" ∨ slash < 1 ∨ modelId.toList.length ≤ slash + 1 then (providerId, modelId)
  else (String.ofList (modelId.toList.take slash), String.ofList (modelId.toList.drop (slash + 1)))

def servedModel (current : TurnState) (context : TurnContext) : String × String :=
  vendorModel ((current.providerId.or context.providerId).getD "unknown")
    (((current.servedModelId.or current.modelId).or context.modelId).getD "unknown")

structure Terminal where
  settlement : TurnUsageSettlement
  status : TurnUsageStatus
  completedAt : Option ℤ

/-- The revision `persist` writes of a state. -/
def TurnState.fact (current : TurnState) (context : TurnContext) (terminal : Option Terminal) (now : ℤ) : TurnUsageRevision where
  sessionRef := context.sessionRef
  sessionId := current.sessionId
  messageId := current.messageId
  revision := current.revision + 1
  observedAt := current.observedAt.getD now
  completedAt := terminal.bind Terminal.completedAt
  firstOutputAt := current.firstOutputAt
  errorClass := if terminal.map Terminal.status = some .error then nonEmpty current.errorClass else none
  settlement := (terminal.map Terminal.settlement).getD .provisional
  status := (terminal.map Terminal.status).getD .running
  location := context.location
  harness := context.harness
  providerId := (servedModel current context).1
  modelId := (servedModel current context).2
  nativeSessionId := nonEmpty (context.nativeSessionId.or current.nativeSessionId)
  workspaceId := nonEmpty context.workspaceId
  hostId := context.hostId
  tokens := if current.hasUsage then current.tokens else unknownTokenUsage
  quality := { current.quality with
    knownCategories := if current.hasUsage then knownTokenCategories current.tokens else [] }
  credential := current.credential

/-- The state once its revision has landed. -/
def TurnState.landed (current : TurnState) (fact : TurnUsageRevision) : TurnState :=
  { current with
    revision := fact.revision
    settlement := some fact.settlement
    status := some fact.status
    completedAt := fact.completedAt }

/-! What the reader and the state store answer. -/

/-- What a meter files: a revision from one on, provisional while its turn runs. -/
def TurnUsageRevision.Metered (fact : TurnUsageRevision) : Prop :=
  1 ≤ fact.revision ∧ (fact.settlement = .provisional ↔ fact.status = .running)

instance (fact : TurnUsageRevision) : Decidable fact.Metered := by unfold TurnUsageRevision.Metered; infer_instance

/-- The reader's rows: the latest revision of each message. -/
structure CurrentRows where
  rows : List TurnUsageRevision
  single : (rows.map TurnUsageRevision.message).Nodup
  metered : ∀ fact ∈ rows, fact.Metered

structure MeterOptions where
  reader : Bool
  state : Bool
  reconcileProvisionalOnStart : Bool
  currentFilter : TurnUsageRevision → Bool

/-- The state of a message nothing is known of. -/
def createdState (sessionId messageId : String) : TurnState := { sessionId := sessionId, messageId := messageId }

/-- The state of a message a fact is read back of, with the streams the store has for it. -/
def hydratedState (fact : TurnUsageRevision) (saved : Option UsageStreams) : TurnState :=
  let streams := match saved with
    | some saved => saved.streams
    | none => if fact.quality.knownCategories ≠ [] then [("", fact.tokens)] else []
  -- Saved streams can hold an observation whose revision never landed.
  let restored := saved.isSome && streams ≠ []
  { sessionId := fact.sessionId
    messageId := fact.messageId
    revision := fact.revision
    tokens := if restored then usageStreamsTotal streams else fact.tokens
    hasUsage := fact.quality.knownCategories ≠ [] || restored
    providerId := some fact.providerId
    modelId := some fact.modelId
    nativeSessionId := nonEmpty fact.nativeSessionId
    observedAt := some fact.observedAt
    completedAt := fact.completedAt
    firstOutputAt := fact.firstOutputAt
    errorClass := fact.errorClass
    credential := fact.credential
    settlement := some fact.settlement
    status := some fact.status
    quality := if restored then { fact.quality with source := .provider } else fact.quality
    usage := {
      streams := streams
      lastObservationKeys := match saved with
        | some saved => saved.lastObservationKeys
        | none =>
          match fact.quality.providerObservationKey, fact.quality.observationKind, nonEmpty fact.quality.providerObservationId with
          | some key, _, _ => [("", key)]
          | none, some .delta, some id => [("", .provider id)]
          | none, _, _ => [] }
    context := some {
      sessionRef := fact.sessionRef
      workspaceId := nonEmpty fact.workspaceId
      hostId := fact.hostId
      location := fact.location
      harness := fact.harness
      providerId := some fact.providerId
      modelId := some fact.modelId
      nativeSessionId := nonEmpty fact.nativeSessionId } }

/-- What the writer finds of a message: the revision of its row, and whether its hash is the written one's. -/
inductive Durable where
  | failed
  | absent
  | row (revision : ℤ) (same : Bool)

/-- What a ledger answers where it has that row, `none` where it throws. -/
def Durable.answer (durable : Durable) (item : TurnUsageRevision) : Option UsageRevisionWriteResult :=
  match durable with
  | .failed => none
  | .absent => some .accepted
  | .row revision same =>
    if item.revision < revision then some (.stale revision)
    else if item.revision = revision then some (if same then .duplicate else .conflict revision)
    else some .accepted

/-- What a `persist` finds at its first write, and at the one after a refresh. -/
structure Writes where
  first : Durable
  second : Durable := .failed

/-- The answers to an initialization: `none` where a call throws. -/
structure StartAnswers where
  rows : Option CurrentRows
  saved : Message → Option (Option UsageStreams)
  writes : Message → Writes
  now : ℤ

/-- The answers to what comes after it. -/
structure CallAnswers where
  rows : Option CurrentRows
  saved : Option (Option UsageStreams)
  context : Option TurnContext
  writes : Writes
  now : ℤ

/-- The meter, what its ledger accepted, and the fact each message was last read back of. -/
structure TurnMeter where
  initialized : Bool := false
  states : List (Message × TurnState) := []
  activeBySession : List (String × String) := []
  accepted : List TurnUsageRevision := []
  read : List (Message × TurnUsageRevision) := []

namespace TurnMeter

variable (options : MeterOptions)

def put (m : TurnMeter) (current : TurnState) : TurnMeter :=
  { m with states := Assoc.assign current.message current m.states }

def activate (m : TurnMeter) (sessionId messageId : String) : TurnMeter :=
  { m with activeBySession := Assoc.assign sessionId messageId m.activeBySession }

def active (m : TurnMeter) (sessionId : String) : Option String := Assoc.lookup sessionId m.activeBySession

/-- What follows from a writer's answer; a duplicate is a revision the ledger accepted before. -/
def land (m : TurnMeter) (current : TurnState) (fact : TurnUsageRevision) :
    Option UsageRevisionWriteResult → TurnMeter
  | some .accepted | some .duplicate =>
    let m := m.put (current.landed fact)
    { m with
      activeBySession :=
        if fact.settlement ≠ .provisional ∧ m.active current.sessionId = some current.messageId then
          Assoc.erase current.sessionId m.activeBySession
        else m.activeBySession
      accepted := m.accepted ++ [fact] }
  | some (.stale _) | some (.conflict _) | none => m.put current

def persist (m : TurnMeter) (current : TurnState) (terminal : Option Terminal) (context : Option TurnContext)
    (writes : Writes) (now : ℤ) : TurnMeter :=
  match current.context.or context with
  | none => m.put current
  | some context =>
    let current := { current with context := some context }
    let fact := current.fact context terminal now
    match writes.first.answer fact with
    | some (.stale currentRevision) =>
      let fact := { fact with revision := currentRevision + 1 }
      m.land { current with revision := currentRevision } fact (writes.second.answer fact)
    | answer => m.land current fact answer

def hydrate (m : TurnMeter) (fact : TurnUsageRevision) (saved : Option UsageStreams) : TurnMeter :=
  { m.put (hydratedState fact saved) with read := Assoc.assign fact.message fact m.read }

def load (saved : Option (Option UsageStreams)) : Option (Option UsageStreams) := if options.state then saved else some none

/-- The loop of `initialize` over the facts: those that were running are active again. `false` where a load throws. -/
def hydrateRows (start : StartAnswers) : List TurnUsageRevision → TurnMeter → TurnMeter × Bool
  | [], m => (m, true)
  | fact :: facts, m =>
    if options.currentFilter fact then
      match load options (start.saved fact.message) with
      | none => (m, false)
      | some saved =>
        let m := m.hydrate fact saved
        hydrateRows start facts (if fact.settlement = .provisional then m.activate fact.sessionId fact.messageId else m)
    else hydrateRows start facts m

/-- A turn that was running when its process was lost settles with what is known of it. -/
def reconcile (start : StartAnswers) (m : TurnMeter) (fact : TurnUsageRevision) : TurnMeter :=
  match load options (start.saved fact.message) with
  | none => m
  | some saved =>
    let current := hydratedState fact saved
    m.persist current (some ⟨if current.hasUsage then .partialUsage else .unavailable, .processLost, some start.now⟩) none
      (start.writes fact.message) start.now

/-- What `initialize` reads. -/
def startRows (rows : CurrentRows) : List TurnUsageRevision :=
  if options.reconcileProvisionalOnStart then rows.rows.filter (·.settlement = .provisional) else rows.rows

def initializeMeter (m : TurnMeter) (start : StartAnswers) : TurnMeter × Bool :=
  if m.initialized then (m, true)
  else if options.reader then
    match start.rows with
    | none => (m, false)
    | some rows =>
      match hydrateRows options start (startRows options rows) m with
      | (m, false) => (m, false)
      | (m, true) =>
        let recover := (startRows options rows).filter fun fact => options.currentFilter fact ∧ fact.settlement = .provisional
        let m := if options.reconcileProvisionalOnStart then recover.foldl (reconcile options start) m else m
        ({ m with initialized := true }, true)
  else ({ m with initialized := true }, true)

/-- `state`: `none` where a read throws. -/
def state (m : TurnMeter) (sessionId messageId : String) (answers : CallAnswers) : TurnMeter × Option TurnState :=
  match Assoc.lookup (sessionId, messageId) m.states with
  | some existing => (m, some existing)
  | none =>
    let created := createdState sessionId messageId
    if options.reader && options.reconcileProvisionalOnStart then
      match answers.rows with
      | none => (m, none)
      | some rows =>
        match rows.rows.find? fun fact => fact.message = (sessionId, messageId) ∧ options.currentFilter fact with
        | none => (m.put created, some created)
        | some persisted =>
          match load options answers.saved with
          | none => (m, none)
          | some saved => (m.hydrate persisted saved, some (hydratedState persisted saved))
    else (m.put created, some created)

end TurnMeter

/-! The events, and what each makes of its message's state. -/

/-- What the meter reads of a harness's error: the class it names and the account it ran on. -/
structure HarnessError where
  firstTurnErrorClass : Option String := none
  account : Option TurnUsageCredential := none

def firstTurnErrorClassOf (error : Option HarnessError) : Option String :=
  (error.bind HarnessError.firstTurnErrorClass).filter (· ∈ FIRST_TURN_ERROR_CLASSES)

def errorCredential (error : Option HarnessError) : Option TurnUsageCredential := error.bind HarnessError.account

/-- An assistant row's tokens, `none` where a value is no integer. -/
structure MessageTokenRow where
  input : Option ℤ := none
  output : Option ℤ := none
  reasoning : Option ℤ := none
  cacheRead : Option ℤ := none
  cacheWrite : Option ℤ := none

def numberOrNull (input : Option ℤ) : Option ℤ := input.filter fun value => 0 ≤ value ∧ value ≤ maxSafeInteger

/-- Every assistant row starts at zero tokens, so an all-zero block reports no usage. -/
def messageTokens (row : MessageTokenRow) : Option RuntimeTokenUsage :=
  let tokens : RuntimeTokenUsage :=
    { input := numberOrNull row.input
      output := numberOrNull row.output
      reasoning := numberOrNull row.reasoning
      cacheRead := numberOrNull row.cacheRead
      cacheWrite := numberOrNull row.cacheWrite }
  if [tokens.input, tokens.output, tokens.reasoning, tokens.cacheRead, tokens.cacheWrite].any (·.any (0 < ·)) then some tokens
  else none

structure MessageInfo where
  assistant : Bool
  id : String
  providerID : String
  modelID : String
  error : Option HarnessError := none
  tokens : Option MessageTokenRow := none
  completed : Option ℤ := none

inductive TurnEvent where
  | sessionUsage (messageId : Option String) (observation : Option RuntimeUsageObservation) (model : Option String)
      (account : Option TurnUsageCredential)
  | partUpdated (messageId : String) (time : Option ℤ)
  | messageUpdated (info : MessageInfo)
  | messageCompleted (messageId : String)
  | sessionError (error : Option HarnessError)
  | other

namespace TurnState

/-- Provider observations are canonical: tokens read off an assistant message before the first are no stream. -/
def observed (current : TurnState) (observation : RuntimeUsageObservation) (model : Option String)
    (account : Option TurnUsageCredential) (now : ℤ) : TurnState :=
  let streams := if current.quality.source ≠ .provider then { current.usage with streams := [] } else current.usage
  let usage := recordUsageObservation streams observation
  let tokens := usageStreamsTotal usage.streams
  { current with
    usage := usage
    tokens := tokens
    hasUsage := true
    observedAt := some (observation.observedAt.getD now)
    nativeSessionId := current.nativeSessionId.or observation.nativeSessionId
    servedModelId := current.servedModelId.or model
    credential := account.or current.credential
    quality := {
      source := .provider
      observationKind := some observation.kind
      providerObservationId := nonEmpty observation.providerObservationId
      providerObservationKey := some (usageObservationKey observation)
      knownCategories := knownTokenCategories tokens } }

/-- Usage that lands on a settled turn keeps its status, and recovers what its settlement did not know. -/
def usageTerminal (current : TurnState) (now : ℤ) : Option Terminal :=
  match current.settlement with
  | none | some .provisional => none
  | some settlement => some {
      settlement := if settlement = .partialUsage ∨ settlement = .unavailable then .recovered else settlement
      status := current.status.getD .completed
      completedAt := some (current.completedAt.getD now) }

def failed (current : TurnState) (error : Option HarnessError) : TurnState :=
  { current with
    errorClass := current.errorClass.or (firstTurnErrorClassOf error)
    credential := current.credential.or (errorCredential error) }

/-- What an assistant row says of its turn; its tokens count while no provider has observed any. -/
def updated (current : TurnState) (info : MessageInfo) (now : ℤ) : TurnState :=
  let current := { current with providerId := some info.providerID, modelId := some info.modelID }.failed info.error
  match info.tokens.bind messageTokens with
  | none => current
  | some tokens =>
    if current.quality.source ≠ .provider then
      { current with
        tokens := tokens
        hasUsage := true
        observedAt := some (info.completed.getD now)
        quality := { source := .providerMessage, knownCategories := knownTokenCategories tokens } }
    else current

def hasVerdict (current : TurnState) : Bool := current.status.any TurnUsageStatus.isVerdict

/-- The settlement of a turn that ended by itself. -/
def ended (current : TurnState) : TurnUsageSettlement := if current.hasUsage then .final else .unavailable

/-- The settlement of a turn that was cut short. -/
def cut (current : TurnState) : TurnUsageSettlement := if current.hasUsage then .partialUsage else .unavailable

end TurnState

namespace TurnMeter

variable (options : MeterOptions)

def takeUsage (m : TurnMeter) (current : TurnState) (observation : RuntimeUsageObservation) (model : Option String)
    (account : Option TurnUsageCredential) (answers : CallAnswers) : TurnMeter :=
  if isRepeatedUsageObservation current.usage observation then m
  else
    let current := current.observed observation model account answers.now
    let m := if current.settlement = none ∨ current.settlement = some .provisional then
      m.activate current.sessionId current.messageId else m
    m.persist current (current.usageTerminal answers.now) answers.context answers.writes answers.now

def takeUpdated (m : TurnMeter) (current : TurnState) (info : MessageInfo) (answers : CallAnswers) : TurnMeter :=
  let current := current.updated info answers.now
  let m := m.activate current.sessionId current.messageId
  match info.completed with
  | none => if current.revision = 0 then m.persist current none answers.context answers.writes answers.now else m.put current
  | some completedAt =>
    let status : TurnUsageStatus := if info.error.isSome then .error else .completed
    if current.hasVerdict then m.put current
    else if current.settlement = some .final ∧ current.status = some status then m.put current
    else m.persist current (some ⟨current.ended, status, some completedAt⟩) answers.context answers.writes answers.now

def takeCompleted (m : TurnMeter) (current : TurnState) (answers : CallAnswers) : TurnMeter :=
  if current.settlement = some .final ∨ current.settlement = some .unavailable then m
  else m.persist current (some ⟨current.ended, .completed, some answers.now⟩) answers.context answers.writes answers.now

def takeError (m : TurnMeter) (current : TurnState) (error : Option HarnessError) (answers : CallAnswers) : TurnMeter :=
  if current.hasVerdict then m
  else
    let current := current.failed error
    m.persist current (some ⟨current.ended, .error, some answers.now⟩) answers.context answers.writes answers.now

/-- Takes an event past initialization on to its message's state, where there is one. -/
def withState (m : TurnMeter) (sessionId messageId : String) (answers : CallAnswers)
    (take : TurnMeter → TurnState → TurnMeter) : TurnMeter :=
  match m.state options sessionId messageId answers with
  | (m, none) => m
  | (m, some current) => take m current

def consumeEvent (m : TurnMeter) (sessionId : String) (event : TurnEvent) (answers : CallAnswers) : TurnMeter :=
  match event with
  | .sessionUsage messageId observation model account =>
    match observation, nonEmpty messageId with
    | some observation, some messageId =>
      m.withState options sessionId messageId answers fun m current => m.takeUsage current observation model account answers
    | _, _ => m
  | .partUpdated messageId time =>
    if m.active sessionId = some messageId then
      m.withState options sessionId messageId answers fun m current =>
        m.put { current with firstOutputAt := current.firstOutputAt.or time }
    else m
  | .messageUpdated info =>
    if info.assistant then
      m.withState options sessionId info.id answers fun m current => m.takeUpdated current info answers
    else m
  | .messageCompleted messageId =>
    m.withState options sessionId messageId answers fun m current => m.takeCompleted current answers
  | .sessionError error =>
    match (m.active sessionId).bind fun messageId => nonEmpty (some messageId) with
    | none => m
    | some messageId => m.withState options sessionId messageId answers fun m current => m.takeError current error answers
  | .other => m

def settleTurn (m : TurnMeter) (current : TurnState) (verdict : TurnVerdict) (answers : CallAnswers) : TurnMeter :=
  m.persist current (some ⟨current.cut, verdict.status, some answers.now⟩) answers.context answers.writes answers.now

end TurnMeter

/-- The meter's calls, which it takes one after another. -/
inductive MeterLabel where
  | start (start : StartAnswers)
  | consume (start : StartAnswers) (sessionId : Option String) (event : TurnEvent) (answers : CallAnswers)
  | settle (start : StartAnswers) (sessionId messageId : String) (verdict : TurnVerdict) (answers : CallAnswers)

namespace TurnMeter

variable (options : MeterOptions)

/-- A call goes on once the meter is initialized; one whose initialization throws ends there. -/
def onceInitialized (m : TurnMeter) (start : StartAnswers) (next : TurnMeter → TurnMeter) : TurnMeter :=
  match m.initializeMeter options start with
  | (m, false) => m
  | (m, true) => next m

def step (m : TurnMeter) : MeterLabel → TurnMeter
  | .start start => m.onceInitialized options start id
  | .consume start sessionId event answers =>
    m.onceInitialized options start fun m =>
      match nonEmpty sessionId with
      | none => m
      | some sessionId => m.consumeEvent options sessionId event answers
  | .settle start sessionId messageId verdict answers =>
    m.onceInitialized options start fun m =>
      m.withState options sessionId messageId answers fun m current => m.settleTurn current verdict answers

end TurnMeter

end Claxedo.Usage
