import Mathlib.Tactic
import Claxedo.Lib.Run

/-! `DeliveryQueue`: the `runtime_delivery` rows of every session and the sequence that numbers
them. Each statement is one atomic update; it answers by the number of rows it changed. The columns
that travel with a prompt untouched (agent, model, tools, requester, …) are one `payload`. -/

namespace Claxedo.Delivery

inductive AttemptMode where
  | start | steer
  deriving DecidableEq

inductive AttemptState where
  | dispatching | accepted | unknown | rejected
  deriving DecidableEq

structure QueuedPromptAttempt where
  mode : AttemptMode
  operationId : String
  state : AttemptState
  message : Option String := none
  deriving DecidableEq

inductive PromptDelivery where
  | start | steer | queue
  deriving DecidableEq

/-- What a submission gives the row. -/
structure QueuedPromptInput (Parts Payload : Type) where
  sessionId : String
  messageId : Option String
  parts : Parts
  delivery : PromptDelivery
  payload : Payload
  deriving DecidableEq

structure QueuedPromptRecord (Parts Payload : Type) extends QueuedPromptInput Parts Payload where
  seq : ℕ
  held : Bool := false
  steering : Option QueuedPromptAttempt := none
  deriving DecidableEq

/-- `runtime_delivery` and `runtime_delivery_sequence`. -/
structure DeliveryTables (Parts Payload : Type) where
  rows : List (QueuedPromptRecord Parts Payload) := []
  sequence : String → ℕ := fun _ => 0

section
variable {Parts Payload : Type}

/-- A row's primary key. -/
def QueuedPromptRecord.key (row : QueuedPromptRecord Parts Payload) : String × ℕ := (row.sessionId, row.seq)

def QueuedPromptRecord.inState (row : QueuedPromptRecord Parts Payload) (state : AttemptState) : Bool :=
  row.steering.any (·.state = state)

/-- `steering_json IS NULL OR state = 'rejected'`: nobody owns the row's delivery. -/
def QueuedPromptRecord.unowned (row : QueuedPromptRecord Parts Payload) : Bool :=
  row.steering.isNone ∨ row.inState .rejected

/-- The attempt `operationId` still owns the row's delivery. -/
def QueuedPromptRecord.dispatchedBy (row : QueuedPromptRecord Parts Payload) (operationId : String) : Bool :=
  row.steering.any fun attempt => attempt.operationId = operationId ∧ attempt.state = .dispatching

namespace DeliveryTables

variable (tables : DeliveryTables Parts Payload)

/-- `UPDATE … SET change WHERE cond`, with the number of rows changed. -/
def update (cond : QueuedPromptRecord Parts Payload → Bool)
    (change : QueuedPromptRecord Parts Payload → QueuedPromptRecord Parts Payload) :
    DeliveryTables Parts Payload × ℕ :=
  ({ tables with rows := tables.rows.map fun row => if cond row then change row else row }, tables.rows.countP cond)

/-- `DELETE … WHERE cond`, with the number of rows removed. -/
def delete (cond : QueuedPromptRecord Parts Payload → Bool) : DeliveryTables Parts Payload × ℕ :=
  ({ tables with rows := tables.rows.filter fun row => !cond row }, tables.rows.countP cond)

/-- The row of a session and a sequence number, as `listQueuedPrompts().find` reads it. -/
def row (sessionId : String) (seq : ℕ) : Option (QueuedPromptRecord Parts Payload) :=
  tables.rows.find? fun row => row.key = (sessionId, seq)

/-- The earliest of some rows by `seq`. -/
def earliest (rows : List (QueuedPromptRecord Parts Payload)) : Option (QueuedPromptRecord Parts Payload) :=
  rows.argmin (·.seq)

/-- A prompt waiting for the session's turn. One that names a message id the session's queue already
holds is that row; an empty id names none. -/
def queuePrompt (input : QueuedPromptInput Parts Payload) :
    DeliveryTables Parts Payload × QueuedPromptRecord Parts Payload :=
  let existing :=
    match input.messageId with
    | none => none
    | some messageId =>
      if messageId = "" then none
      else earliest (tables.rows.filter fun row => row.sessionId = input.sessionId ∧ row.messageId = some messageId)
  match existing with
  | some row => (tables, row)
  | none =>
    let seq := tables.sequence input.sessionId + 1
    let record : QueuedPromptRecord Parts Payload := { input with seq := seq }
    ({ rows := tables.rows ++ [record], sequence := Function.update tables.sequence input.sessionId seq }, record)

/-- An earlier row of the session that a start may not overtake: one still to run, or a start whose
outcome is not known. -/
def blocks (earlier row : QueuedPromptRecord Parts Payload) : Bool :=
  earlier.sessionId = row.sessionId ∧ earlier.seq < row.seq ∧
    ((¬ earlier.held ∧ earlier.unowned) ∨
      earlier.steering.any fun attempt =>
        attempt.mode = .start ∧ (attempt.state = .dispatching ∨ attempt.state = .unknown))

def claimable (sessionId : String) (seq : ℕ) (mode : AttemptMode) (row : QueuedPromptRecord Parts Payload) : Bool :=
  row.key = (sessionId, seq) ∧
    (mode ≠ .start ∨ (¬ row.held ∧ ¬ tables.rows.any fun earlier => blocks earlier row)) ∧ row.unowned

def claimQueuedPromptDelivery (sessionId : String) (seq : ℕ) (operationId : String) (mode : AttemptMode)
    (uuid : String) : DeliveryTables Parts Payload × Bool :=
  let (tables, changes) := tables.update (tables.claimable sessionId seq mode) fun row =>
    { row with steering := some ⟨mode, operationId, .dispatching, none⟩, messageId := row.messageId.or (some ("msg_" ++ uuid)) }
  (tables, changes = 1)

def settleQueuedPromptDelivery (sessionId : String) (seq : ℕ) (steering : QueuedPromptAttempt) :
    DeliveryTables Parts Payload × Bool :=
  let (tables, changes) := tables.update
    (fun row => row.key = (sessionId, seq) ∧ row.dispatchedBy steering.operationId)
    fun row => { row with steering := some steering }
  (tables, changes = 1)

/-- A dispatch that left the input untouched hands the row back as it was before the claim. -/
def requeueQueuedPrompt (sessionId : String) (seq : ℕ) (operationId : String) : DeliveryTables Parts Payload × Bool :=
  let (tables, changes) := tables.update (fun row => row.key = (sessionId, seq) ∧ row.dispatchedBy operationId)
    fun row => { row with steering := none }
  (tables, changes = 1)

def settleOrphanedDispatches : DeliveryTables Parts Payload :=
  (tables.update (·.inState .dispatching) fun row =>
    { row with
      steering := row.steering.map fun attempt =>
        { attempt with
          state := .unknown
          message := some "The runtime restarted before this input's delivery was confirmed" } }).1

def deleteQueuedPrompt (sessionId : String) (seq : ℕ) : DeliveryTables Parts Payload × Bool :=
  let (tables, changes) := tables.delete fun row => row.key = (sessionId, seq) ∧ (row.unowned ∨ row.inState .unknown)
  (tables, changes = 1)

/-- A steered row whose message the transcript now holds. -/
def retireSteeredPrompt (sessionId messageId : String) : DeliveryTables Parts Payload × Bool :=
  let (tables, changes) := tables.delete fun row =>
    row.sessionId = sessionId ∧ row.messageId = some messageId ∧
      row.steering.any fun attempt => attempt.mode = .steer ∧ attempt.state ≠ .rejected
  (tables, changes = 1)

def replaceQueuedPromptParts (sessionId : String) (seq : ℕ) (parts : Parts) : DeliveryTables Parts Payload × Bool :=
  let (tables, changes) := tables.update (fun row => row.key = (sessionId, seq) ∧ row.unowned)
    fun row => { row with parts := parts, held := false }
  (tables, changes = 1)

def setQueuedPromptHeld (sessionId : String) (seq : ℕ) (held : Bool) : DeliveryTables Parts Payload × Bool :=
  let (tables, changes) := tables.update (fun row => row.key = (sessionId, seq) ∧ row.unowned)
    fun row => { row with held := held }
  (tables, changes = 1)

def completeQueuedPrompt (sessionId : String) (seq : ℕ) (operationId : String) :
    DeliveryTables Parts Payload × Bool :=
  let (tables, changes) := tables.delete fun row =>
    row.key = (sessionId, seq) ∧ row.dispatchedBy operationId ∧ row.steering.any (·.mode = .start)
  (tables, changes = 1)

def forgetSession (sessionId : String) : DeliveryTables Parts Payload :=
  (tables.delete (·.sessionId = sessionId)).1

end DeliveryTables

end

/-! `createSessionDeliveryOwner`: submissions, controls, drains and late outcomes over the one
table, by any number of owners. What runs between two awaits is one step: a claim and the call of
`startTurn` it leads to are one, that call's outcome is another. A label carries what the step reads
from outside (ids drawn, whether the session has a directory, what the turn reported). -/

inductive SteerFailure where
  | noActiveTurn | declined | unsupported | unknown
  deriving DecidableEq

inductive SteeringResult where
  | ok
  | refused (status : SteerFailure) (message : String)

inductive ControlStatus where
  | pending | rejected | unknown | conflict | providerOwned

inductive QueuedControlResult where
  | ok
  | refused (status : ControlStatus) (message : String) (operationId : Option String)

inductive QueuedPromptAction (Parts : Type) where
  | cancel | steer | hold | release
  | replace (parts : Parts)

/-- How a call of `startTurn` ended, with what it reported through its two callbacks by then. -/
inductive TurnOutcome where
  | returned (delivery : Option PromptDelivery) (steering : Option SteeringResult)
  | threw (message : String)

/-- What a run leaves to be seen of its rows' deliveries, in order. -/
inductive DeliveryEvent where
  /-- The claim `operationId` on the row was handed to `startTurn`. -/
  | handed (key : String × ℕ) (operationId : String)
  /-- The attempt was settled `rejected`. -/
  | rejected (key : String × ℕ) (operationId : String)
  /-- The attempt found no turn to steer into and gave the row back. -/
  | requeued (key : String × ℕ) (operationId : String)
  /-- A submission was answered with this row. -/
  | submitted (sessionId messageId : String) (seq : ℕ)
  deriving DecidableEq

section
variable {Parts Payload : Type}

/-- A call of `startTurn` that has not come back, with the row as it was claimed. -/
structure InFlight (Parts Payload : Type) where
  record : QueuedPromptRecord Parts Payload
  operationId : String
  mode : AttemptMode

structure DeliveryState (Parts Payload : Type) where
  tables : DeliveryTables Parts Payload := {}
  operations : List (InFlight Parts Payload) := []
  disposed : List ℕ := []
  log : List DeliveryEvent := []

namespace DeliveryState

variable (s : DeliveryState Parts Payload)

def eligible (row : QueuedPromptRecord Parts Payload) : Bool := ¬ row.held ∧ row.unowned

def next (sessionId : String) : Option (QueuedPromptRecord Parts Payload) :=
  DeliveryTables.earliest (s.tables.rows.filter fun row => row.sessionId = sessionId ∧ eligible row)

/-- The attempt as a result leaves it. -/
def settledAttempt (operationId : String) (mode : AttemptMode) : SteeringResult → QueuedPromptAttempt
  | .ok => ⟨mode, operationId, .accepted, none⟩
  | .refused status message => ⟨mode, operationId, if status = .unknown then .unknown else .rejected, some message⟩

/-- `settle`: the outcome of an attempt becomes the row's state, if the attempt still owns the row. -/
def settle (record : QueuedPromptRecord Parts Payload) (operationId : String) (mode : AttemptMode)
    (result : SteeringResult) : DeliveryState Parts Payload × QueuedControlResult :=
  let steering := settledAttempt operationId mode result
  let (tables, settled) := s.tables.settleQueuedPromptDelivery record.sessionId record.seq steering
  let log := if settled ∧ steering.state = .rejected then s.log ++ [.rejected record.key operationId] else s.log
  ({ s with tables := tables, log := log },
    if ¬ settled ∧ mode = .steer ∧ (tables.row record.sessionId record.seq).isNone then .ok
    else if ¬ settled then .refused .conflict "Delivery ownership changed" (some operationId)
    else
      match result with
      | .ok => .ok
      | .refused status message =>
        .refused (if status = .unknown then .unknown else .rejected) message (some operationId))

def requeue (record : QueuedPromptRecord Parts Payload) (operationId : String) :
    DeliveryState Parts Payload × QueuedControlResult :=
  let (tables, requeued) := s.tables.requeueQueuedPrompt record.sessionId record.seq operationId
  let log := if requeued then s.log ++ [.requeued record.key operationId] else s.log
  ({ s with tables := tables, log := log },
    if requeued then .ok else .refused .conflict "Delivery ownership changed" (some operationId))

/-- The part of `dispatch` that follows `startTurn`. -/
def settleTurn (record : QueuedPromptRecord Parts Payload) (operationId : String) (mode : AttemptMode) :
    TurnOutcome → DeliveryState Parts Payload × QueuedControlResult
  | .threw message => s.settle record operationId mode (.refused .unknown message)
  | .returned delivery steering =>
    match mode with
    | .steer =>
      match steering with
      | some (.refused .noActiveTurn _) => s.requeue record operationId
      | some result => s.settle record operationId mode result
      | none => s.settle record operationId mode (.refused .unknown "Runtime did not report a steering outcome")
    | .start =>
      if delivery = some .start then
        let (tables, completed) := s.tables.completeQueuedPrompt record.sessionId record.seq operationId
        ({ s with tables := tables },
          if completed then .ok else .refused .conflict "Delivery ownership changed" (some operationId))
      else
        match steering with
        | some (.refused status message) => s.settle record operationId mode (.refused status message)
        | _ =>
          if delivery = some .queue then s.settle record operationId mode (.refused .declined "Session is still busy")
          else s.settle record operationId mode (.refused .unknown "Runtime did not report admission")

/-- The part of `dispatch` up to and including the call of `startTurn`. -/
def dispatch (owner : ℕ) (directory : Bool) (record : QueuedPromptRecord Parts Payload) (operationId : String)
    (mode : AttemptMode) : DeliveryState Parts Payload :=
  if ¬ directory ∨ owner ∈ s.disposed then
    (s.settle record operationId mode (.refused .declined "Session delivery is unavailable")).1
  else
    { s with
      operations := s.operations ++ [⟨record, operationId, mode⟩]
      log := s.log ++ [.handed record.key operationId] }

/-- `claim`: take the row's delivery and dispatch the row as it was claimed. -/
def claim (owner : ℕ) (directory : Bool) (sessionId : String) (seq : ℕ) (operationId uuid : String)
    (mode : AttemptMode) : DeliveryState Parts Payload :=
  let (tables, claimed) := s.tables.claimQueuedPromptDelivery sessionId seq operationId mode uuid
  let s' := { s with tables := tables }
  if claimed then
    match tables.row sessionId seq with
    | some row =>
      if row.steering.any (·.operationId = operationId) then s'.dispatch owner directory row operationId mode
      else s'
    | none => s'
  else s'

/-- The state a control leaves; what it answers a caller that only watches another's attempt is not read back. -/
def control (owner : ℕ) (directory : Bool) (sessionId : String) (seq : ℕ) (action : QueuedPromptAction Parts)
    (operationId uuid : String) : DeliveryState Parts Payload :=
  if owner ∈ s.disposed then s
  else
    match s.tables.row sessionId seq with
    | none => s
    | some current =>
      let cancelling : Bool := match action with
        | .cancel => true
        | _ => false
      if ¬ current.unowned ∧ ¬ (cancelling ∧ current.inState .unknown) then s
      else
        match action with
        | .steer => s.claim owner directory sessionId seq operationId uuid .steer
        | .cancel => { s with tables := (s.tables.deleteQueuedPrompt sessionId seq).1 }
        | .hold => { s with tables := (s.tables.setQueuedPromptHeld sessionId seq true).1 }
        | .release => { s with tables := (s.tables.setQueuedPromptHeld sessionId seq false).1 }
        | .replace parts => { s with tables := (s.tables.replaceQueuedPromptParts sessionId seq parts).1 }

/-- `persist`: refused by a disposed owner, and where another session holds a message id of the turn. -/
def persist (owner : ℕ) (conflict : Bool) (input : QueuedPromptInput Parts Payload) (messageId : String) :
    DeliveryState Parts Payload × Option (QueuedPromptRecord Parts Payload) :=
  if owner ∈ s.disposed ∨ conflict then (s, none)
  else
    let (tables, record) := s.tables.queuePrompt { input with messageId := some messageId }
    ({ s with tables := tables, log := s.log ++ [.submitted input.sessionId messageId record.seq] }, some record)

end DeliveryState

/-- `messageId` is the id a submission names, or the one drawn for it. -/
inductive DeliveryLabel (Parts Payload : Type) where
  | queue (owner : ℕ) (conflict : Bool) (input : QueuedPromptInput Parts Payload) (messageId : String)
  | steer (owner : ℕ) (conflict : Bool) (input : QueuedPromptInput Parts Payload) (messageId : String)
      (directory : Bool) (operationId uuid : String)
  | control (owner : ℕ) (directory : Bool) (sessionId : String) (seq : ℕ) (action : QueuedPromptAction Parts)
      (operationId uuid : String)
  /-- The drain loop finds its candidate in a session with no directory. -/
  | discard (owner : ℕ) (sessionId : String)
  /-- The drain loop once the session is its own to start a turn in. -/
  | drain (owner : ℕ) (sessionId : String) (archived directory : Bool) (operationId uuid : String)
  /-- The `index`-th call of `startTurn` under way ends. -/
  | outcome (index : ℕ) (outcome : TurnOutcome)
  | incorporated (sessionId messageId : String)
  | forgetSession (sessionId : String)
  | dispose (owner : ℕ)
  /-- The runtime starts over: nothing of the previous one still runs. -/
  | restart

open DeliveryState in
def step (s : DeliveryState Parts Payload) : DeliveryLabel Parts Payload → DeliveryState Parts Payload
  | .queue owner conflict input messageId => (s.persist owner conflict input messageId).1
  | .steer owner conflict input messageId directory operationId uuid =>
    match s.persist owner conflict input messageId with
    | (s', some record) => s'.control owner directory record.sessionId record.seq .steer operationId uuid
    | (s', none) => s'
  | .control owner directory sessionId seq action operationId uuid =>
    s.control owner directory sessionId seq action operationId uuid
  | .discard owner sessionId =>
    if owner ∈ s.disposed then s
    else
      match s.next sessionId with
      | some candidate => { s with tables := (s.tables.deleteQueuedPrompt sessionId candidate.seq).1 }
      | none => s
  | .drain owner sessionId archived directory operationId uuid =>
    if owner ∈ s.disposed ∨ archived then s
    else
      match s.next sessionId with
      | some current => s.claim owner directory sessionId current.seq operationId uuid .start
      | none => s
  | .outcome index outcome =>
    match s.operations[index]? with
    | some operation =>
      ({ s with operations := s.operations.eraseIdx index }.settleTurn operation.record operation.operationId
        operation.mode outcome).1
    | none => s
  | .incorporated sessionId messageId =>
    { s with tables := (s.tables.retireSteeredPrompt sessionId messageId).1 }
  | .forgetSession sessionId => { s with tables := s.tables.forgetSession sessionId }
  | .dispose owner => { s with disposed := owner :: s.disposed }
  | .restart =>
    { s with tables := s.tables.settleOrphanedDispatches, operations := [], disposed := [] }

end

end Claxedo.Delivery
