import Claxedo.Lib.Json
import Claxedo.Store.Usage

/-! What the runtime store keeps: the journal's rows, control and event, and the tables their
projection writes. A message's info has the fields the store reads apart from the rest; a part is
the open record its column holds. -/

namespace Claxedo.Store

open Lib

inductive Role where
  | user
  | assistant
  | other (role : String)
  deriving DecidableEq

/-- `author` is `claxedo.author`; `created` and `completed` are the two stamps of `time`. -/
structure MessageInfo where
  id : String
  sessionID : String
  role : Role
  parentID : Option String := none
  created : Option ℕ := none
  completed : Option ℕ := none
  tokens : Option AgentTokenUsage := none
  error : Option Json := none
  author : Option Json := none
  rest : Record := []

inductive TurnStatus where
  | completed
  | failed
  | cancelled
  deriving DecidableEq

/-- `error` is the error data a failed turn puts on its message and its `session.error`. -/
structure AgentTurnOutcome where
  status : TurnStatus
  completedAt : ℕ
  error : Option Json := none
  assistantMessageId : Option String := none

structure Turn where
  userMessageId : Option String := none
  parentMessageId : Option String := none
  assistantMessageId : String
  agent : Option String := none
  model : Option (String × String) := none
  parts : List Record := []
  tools : Option Json := none
  format : Option Json := none
  system : Option String := none
  variant : Option String := none
  humanTurn : Bool := false
  fencingToken : Option ℤ := none
  author : Option Json := none

structure ConfigPatch where
  harness : Option String := none
  permissionState : Option (Option Record) := none

/-- The controls the store commits one at a time and under no fence. -/
inductive SessionControl where
  | bind (directory : String)
  | interrupted (message : String)
  | update
  | delete
  | permissionStaled (permissionId : String)
  | questionStaled (questionId : String)
  | noticeAcknowledged
  | noticeCreated (message : String)
  | projectionResetRequested (reason : String)
  | configUpdate (patch : ConfigPatch)
  | goalUpdate (goal : Option Json)

inductive Control where
  | turnStart (turn : Turn)
  | turnFinish (assistantMessageId : String) (outcome : AgentTurnOutcome)
  | session (control : SessionControl)

structure PartRef where
  messageID : String
  partID : String

/-- A presentation event. `elsewhere` is one of those that write no session, message or part row:
to-dos, permissions, questions, diagnostics and the like. -/
inductive AgentPresentationEvent where
  | messageUpdated (info : MessageInfo)
  | messagePartUpdated (part : Record)
  | messagePartRetracted (sessionID : String) (parts : List PartRef) (reason : String)
  | messagePartDelta (sessionID messageID partID field delta : String)
  | messageCompleted (sessionID messageID : String) (cancelled : Bool)
  | sessionUsage (messageID : Option String) (observation : Option RuntimeUsageObservation)
  | sessionStatus (sessionID status : String)
  | sessionIdle (sessionID : String) (lastTurn : Option (TurnStatus × ℕ))
  | sessionError (sessionID : Option String) (error : Option Json) (lastTurn : Option (TurnStatus × ℕ))
  | elsewhere (type : String)

inductive Content where
  | control (control : Control)
  | event (payload : AgentPresentationEvent)

/-- A row of `runtime_journal`. -/
structure Row where
  sessionId : String
  seq : ℕ
  ts : ℕ
  agentSessionId : Option String := none
  content : Content

structure SessionRow where
  directory : String
  status : Option String := none
  harness : Option String := none
  permissionState : Option Record := none

structure MessageRow where
  id : String
  sessionId : String
  role : Role
  ord : ℕ
  info : MessageInfo
  createdAt : ℕ
  turnId : Option String

structure PartRow where
  id : String
  sessionId : String
  messageId : String
  ord : ℕ
  data : Record
  updatedAt : ℕ

/-- The durable half of the store. A session without a checkpoint reads as one at 0; the journal
lists a session's rows by their sequence. -/
structure Database where
  runtimeJournal : List Row := []
  session : String → Option SessionRow := fun _ => none
  message : List MessageRow := []
  part : List PartRow := []
  deletedSession : String → Bool := fun _ => false
  journalCheckpoint : String → ℕ := fun _ => 0
  sessionTurnLease : String → Option String := fun _ => none

/-- Streamed text waiting to be folded into its part row. -/
structure PendingDelta where
  sessionId : String
  messageId : String
  partId : String
  field : String
  text : String
  seq : ℕ
  ts : ℕ

structure ProjectionFailure where
  seq : ℕ
  repairable : Bool

structure RuntimeStore where
  db : Database := {}
  /-- By part, in the order the parts were first deferred. -/
  pendingDeltas : List PendingDelta := []
  failedProjections : String → Option ProjectionFailure := fun _ => none

def Row.turnStart? (row : Row) : Option Turn :=
  match row.content with
  | .control (.turnStart turn) => some turn
  | _ => none

/-- The turn a `turn.finish` row ends. -/
def Row.turnFinish? (row : Row) : Option String :=
  match row.content with
  | .control (.turnFinish assistantMessageId _) => some assistantMessageId
  | _ => none

/-- The `part_id` column: set for a `message.part.updated` row alone. -/
def Row.partId (row : Row) : Option String :=
  match row.content with
  | .event (.messagePartUpdated part) => asString (part.field "id")
  | _ => none

def Row.isDelta (row : Row) : Bool :=
  match row.content with
  | .event (.messagePartDelta ..) => true
  | _ => false

/-- The usage a row reports for a message: its `assistant_message_id` column and its observation. -/
def Row.usage? (row : Row) : Option (String × RuntimeUsageObservation) :=
  match row.content with
  | .event (.sessionUsage (some messageID) (some observation)) => some (messageID, observation)
  | _ => none

namespace Database

/-- The session's rows, by sequence. -/
def journalOf (db : Database) (sessionId : String) : List Row :=
  db.runtimeJournal.filter fun row => row.sessionId = sessionId

def getSessionMaxSeq (db : Database) (sessionId : String) : ℕ :=
  ((db.journalOf sessionId).map (·.seq)).foldr max 0

def next (db : Database) (sessionId : String) : ℕ := db.getSessionMaxSeq sessionId + 1

end Database

/-! The reducer of the runtime store: what one journal row does to the session, message and part
tables. Live commits, replays and rebuilds all go through `apply`. -/

def fieldIf (k : String) (v : Option Json) : Record := v.elim [] fun v => [(k, v)]

/-- `turnStartMessages`'s prompt: the user message a turn start writes. -/
def buildUserMessage (sessionId : String) (ts : ℕ) (id : String) (turn : Turn) : MessageInfo :=
  { id := id
    sessionID := sessionId
    role := .user
    created := some ts
    author := turn.author
    rest := fieldIf "agent" ((nonEmpty turn.agent).map .str) ++
      fieldIf "model" (turn.model.map fun (providerID, modelID) =>
        .obj [("providerID", .str providerID), ("modelID", .str modelID)]) ++
      fieldIf "tools" turn.tools ++ fieldIf "format" turn.format ++
      fieldIf "system" ((nonEmpty turn.system).map .str) ++ fieldIf "variant" ((nonEmpty turn.variant).map .str) }

def buildAssistantMessage (id sessionID parentID : String) (agent : Option String) (model : Option (String × String))
    (directory : String) (created : ℕ) (completed : Option ℕ) (error : Option Json) (variant : Option String) :
    MessageInfo :=
  { id := id
    sessionID := sessionID
    role := .assistant
    parentID := some parentID
    created := some created
    completed := completed.filter (· ≠ 0)
    tokens := some {}
    error := error
    rest := fieldIf "modelID" (model.map fun (_, modelID) => .str modelID) ++
      fieldIf "providerID" (model.map fun (providerID, _) => .str providerID) ++ [("mode", .str "auto")] ++
      fieldIf "agent" ((nonEmpty agent).map .str) ++
      [("path", .obj [("cwd", .str directory), ("root", .str directory)]), ("cost", .num 0)] ++
      fieldIf "variant" ((nonEmpty variant).map .str) }

def promptPartId (messageId : String) (index : ℕ) : String := messageId ++ "-part-" ++ toString index

def buildUserPromptParts (sessionID messageID : String) (parts : List Record) : List Record :=
  parts.zipIdx.map fun (part, index) =>
    ((part.set "id" (.str (promptPartId messageID index))).set "sessionID" (.str sessionID)).set "messageID" (.str messageID)

/-- The prompt and the assistant message a turn start writes. -/
def turnStartMessages (sessionId : String) (ts : ℕ) (directory : String) (turn : Turn) :
    Option (MessageInfo × List Record) × MessageInfo :=
  ((nonEmpty turn.userMessageId).map fun id =>
      (buildUserMessage sessionId ts id turn, buildUserPromptParts sessionId id turn.parts),
    buildAssistantMessage turn.assistantMessageId sessionId
      ((turn.userMessageId.or turn.parentMessageId).getD sessionId) turn.agent turn.model directory ts none none none)

/-- The newest turn started at or before `seq`: the turn a row there falls in. -/
def readJournaledTurn (db : Database) (sessionId : String) (seq : ℕ) : Option String :=
  (((db.journalOf sessionId).filter (·.seq ≤ seq)).filterMap (·.turnStart?)).getLast?.map (·.assistantMessageId)

/-- Keep the host-stamped author when an engine's envelope of a prompt omits it. -/
def preserveClaxedoAuthor (previous : Option MessageInfo) (next : MessageInfo) : MessageInfo :=
  if next.role = .user ∧ next.author.isNone then { next with author := previous.bind (·.author) } else next

/-- The two fields that close an open tool part, or nothing where the part is no such part. -/
def closeTool (part : Record) (ts : ℕ) : Option Record :=
  if asString (part.field "type") ≠ some "tool" then none
  else
    let state := asRecord (part.field "state")
    let status := asString (state.bind (·.field "status"))
    if status ≠ some "pending" ∧ status ≠ some "running" then none
    else
      let time := asRecord (state.bind (·.field "time"))
      let start := (asNumber (time.bind (·.field "start"))).getD ts
      some (part.set "state" (.obj ((((state.getD []).set "status" (.str "error")).set "error"
        (.str "Interrupted: The agent runtime stopped during this turn")).set "time"
          (.obj [("start", .num start), ("end", .num ts)]))))

/-- A text or reasoning part keeps its content and gains the reason it was withdrawn. -/
def retract (part : Record) (reason : String) : Option Record :=
  if asString (part.field "type") = some "text" ∨ asString (part.field "type") = some "reasoning" then
    some (part.set "retracted" (.obj [("reason", .str reason)]))
  else none

/-- What a delta is folded into where the part is not there yet. -/
def freshPart (sessionId messageId partId : String) : Record :=
  [("id", .str partId), ("sessionID", .str sessionId), ("messageID", .str messageId), ("type", .str "text"),
    ("text", .str "")]

def appendField (part : Record) (field text : String) : Record :=
  part.set field (.str ((asString (part.field field)).getD "" ++ text))

namespace Database

variable (db : Database)

def messageOrd (sessionId messageId : String) : ℕ :=
  match Table.get MessageRow.id messageId db.message with
  | some row => row.ord
  | none => ((db.message.filter (·.sessionId = sessionId)).map (·.ord + 1)).foldr max 0

def partOrd (sessionId messageId partId : String) : ℕ :=
  match Table.get PartRow.id partId db.part with
  | some row => row.ord
  | none => ((db.part.filter fun row => row.sessionId = sessionId ∧ row.messageId = messageId).map (·.ord + 1)).foldr max 0

/-- Usage folds from the journal, not from the row it replaces. -/
def messageUsageObservations (sessionId messageId : String) : List RuntimeUsageObservation :=
  ((db.journalOf sessionId).filterMap (·.usage?)).filterMap fun (id, observation) =>
    if id = messageId then some observation else none

/-- What is written for a message: the author it had, and the tokens its observations add up to. -/
def mergeMessage (info : MessageInfo) : MessageInfo :=
  let prev := Table.get MessageRow.id info.id db.message
  let merged := preserveClaxedoAuthor (prev.map (·.info)) info
  let observations := if info.role = .assistant then db.messageUsageObservations info.sessionID info.id else []
  if observations.isEmpty then merged else { merged with tokens := some (assistantMessageTokens observations) }

/-- A message keeps the place and the turn of the row that first projected it. -/
def upsertMessage (info : MessageInfo) (row : Row) : Database :=
  if info.sessionID = "" ∨ info.id = "" ∨ info.role = .other "" then db
  else
    let prev := Table.get MessageRow.id info.id db.message
    { db with
      message := Table.put MessageRow.id
        { id := info.id
          sessionId := info.sessionID
          role := info.role
          ord := db.messageOrd info.sessionID info.id
          info := db.mergeMessage info
          createdAt := (prev.map (·.createdAt)).getD row.ts
          turnId := match prev with
            | some prev => prev.turnId
            | none => readJournaledTurn db row.sessionId row.seq }
        db.message }

def storedAssistantMessage (sessionId messageId : String) : Option MessageInfo :=
  ((Table.get MessageRow.id messageId db.message).filter fun row =>
    row.sessionId = sessionId ∧ row.role = .assistant).map (·.info)

def upsertPart (part : Record) (ts : ℕ) : Database :=
  match nonEmpty (asString (part.field "sessionID")), nonEmpty (asString (part.field "messageID")),
      nonEmpty (asString (part.field "id")) with
  | some sessionId, some messageId, some id =>
    { db with
      part := Table.put PartRow.id
        { id := id
          sessionId := sessionId
          messageId := messageId
          ord := db.partOrd sessionId messageId id
          data := part
          updatedAt := ts }
        db.part }
  | _, _, _ => db

def delta (sessionId messageId partId field delta : String) (ts : ℕ) : Database :=
  let part := ((Table.get PartRow.id partId db.part).map (·.data)).getD (freshPart sessionId messageId partId)
  db.upsertPart (appendField part field delta) ts

/-- Every tool part of the session still pending or running ends in error; each is its own row's. -/
def finishTools (sessionId : String) (ts : ℕ) : Database :=
  (db.part.filter (·.sessionId = sessionId)).foldl
    (fun db row => ((closeTool row.data ts).map (db.upsertPart · ts)).getD db) db

def retractStoredParts (sessionID : String) (parts : List PartRef) (reason : String) (ts : ℕ) : Database :=
  parts.foldl
    (fun db ref =>
      let row := (Table.get PartRow.id ref.partID db.part).filter fun row =>
        row.sessionId = sessionID ∧ row.messageId = ref.messageID
      ((row.bind fun row => retract row.data reason).map (db.upsertPart · ts)).getD db)
    db

/-- Only a bind carries an owner, so only a bind creates the row. -/
def upsertSession (id directory : String) (status : Option String) (owner : Bool) : Database :=
  match db.session id with
  | none => if owner then { db with session := Function.update db.session id (some { directory, status }) } else db
  | some prev =>
    let row : SessionRow :=
      { prev with
        directory := directory
        status := status.or prev.status
        permissionState := if prev.harness.isSome then prev.permissionState else none }
    { db with session := Function.update db.session id (some row) }

/-- `sessionTimes`'s directory. -/
def sessionDirectory (id : String) : String := ((db.session id).map (·.directory)).getD ""

def deleteSessionProjection (id : String) : Database :=
  { db with
    journalCheckpoint := Function.update db.journalCheckpoint id 0
    part := db.part.filter (·.sessionId ≠ id)
    message := db.message.filter (·.sessionId ≠ id)
    session := Function.update db.session id none }

def applyConfigUpdate (id : String) (patch : ConfigPatch) : Database :=
  match db.session id with
  | none => db
  | some prev =>
    if prev.harness.isNone ∧ patch.harness.isNone then db
    else
      let harness := patch.harness.or prev.harness
      let permissionState := patch.permissionState.getD (if harness = prev.harness then prev.permissionState else none)
      { db with session := Function.update db.session id (some { prev with harness, permissionState }) }

def applySessionControl (row : Row) : SessionControl → Database
  | .bind directory =>
    upsertSession { db with deletedSession := Function.update db.deletedSession row.sessionId false } row.sessionId directory
      none true
  | .interrupted _ =>
    let directory := db.sessionDirectory row.sessionId
    (db.finishTools row.sessionId row.ts).upsertSession row.sessionId directory (some "interrupted") false
  | .delete =>
    let db := db.deleteSessionProjection row.sessionId
    { db with deletedSession := Function.update db.deletedSession row.sessionId true }
  | .noticeCreated _ => db.upsertSession row.sessionId (db.sessionDirectory row.sessionId) none false
  | .configUpdate patch => db.applyConfigUpdate row.sessionId patch
  -- Titles, archiving, pending requests, the recovery notice and the goal are columns and tables apart.
  | .update | .permissionStaled _ | .questionStaled _ | .noticeAcknowledged | .projectionResetRequested _
  | .goalUpdate _ => db

def applyTurnStart (row : Row) (turn : Turn) : Database :=
  let directory := db.sessionDirectory row.sessionId
  let messages := turnStartMessages row.sessionId row.ts directory turn
  let prompted := match messages.1 with
    | some (info, parts) => parts.foldl (fun (db : Database) part => db.upsertPart part row.ts) (db.upsertMessage info row)
    | none => db
  (prompted.upsertMessage messages.2 row).upsertSession row.sessionId directory (some "busy") false

def applyControl (row : Row) : Control → Database
  | .turnStart turn => db.applyTurnStart row turn
  | .turnFinish _ _ => db
  | .session control => db.applySessionControl row control

/-- A status keeps the directory of the session it names. -/
def setStatus (sessionId status : String) : Database :=
  db.upsertSession sessionId (db.sessionDirectory sessionId) (some status) false

def applyEvent (row : Row) (event : AgentPresentationEvent) : Database :=
  if db.deletedSession row.sessionId then db
  else match event with
    | .messageUpdated info => db.upsertMessage info row
    | .messagePartUpdated part => db.upsertPart part row.ts
    | .messagePartRetracted sessionID parts reason => db.retractStoredParts sessionID parts reason row.ts
    | .messagePartDelta sessionID messageID partID field text => db.delta sessionID messageID partID field text row.ts
    | .sessionUsage messageID observation =>
      match (nonEmpty messageID).bind (db.storedAssistantMessage row.sessionId), observation with
      | some info, some _ => db.upsertMessage info row
      | _, _ => db
    | .messageCompleted _ messageID _ =>
      match Table.get MessageRow.id messageID db.message with
      | some stored => db.upsertMessage { stored.info with completed := some row.ts } row
      | none => db
    | .sessionStatus sessionID status => db.setStatus sessionID status
    | .sessionIdle sessionID _ => db.setStatus sessionID "idle"
    | .sessionError sessionID _ _ => db.setStatus (sessionID.getD row.sessionId) "error"
    | .elsewhere _ => db

def apply (row : Row) : Database :=
  match row.content with
  | .control control => db.applyControl row control
  | .event event => db.applyEvent row event

/-- `INSERT OR REPLACE INTO journal_checkpoint`. -/
def setCheckpoint (sessionId : String) (seq : ℕ) : Database :=
  { db with journalCheckpoint := Function.update db.journalCheckpoint sessionId seq }

/-- The transaction of `project`: the row and its checkpoint together. -/
def project (row : Row) : Database := (db.apply row).setCheckpoint row.sessionId row.seq

/-- The row is inserted; an updated part's earlier `message.part.updated` rows go. -/
def insertRuntimeJournal (row : Row) : Database :=
  { db with
    runtimeJournal :=
      (match nonEmpty row.partId with
      | some partId =>
        db.runtimeJournal.filter fun earlier =>
          ¬ (earlier.sessionId = row.sessionId ∧ earlier.partId = some partId ∧ earlier.seq < row.seq)
      | none => db.runtimeJournal) ++ [row] }

end Database

end Claxedo.Store
