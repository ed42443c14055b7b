import Claxedo.Lib.Run
import Claxedo.Store.Projection

/-! `RuntimeStore`: deltas are journaled at once and projected later in bulk, every other row when
it is committed; a turn's rows are fenced by its token and its end by its lease. What a call cannot
choose for itself (the time, a lease's id, whether the database throws) is an argument. -/

namespace Claxedo.Store

open Lib

inductive StoreError where
  /-- `AgentRuntimeStaleTurnError`. -/
  | staleTurn
  /-- `RuntimeProjectionBlockedError`. -/
  | projectionBlocked (seq : ℕ)
  | deleted
  | unknownGrantSession
  | invalidBrokerGrants
  /-- What the database threw. -/
  | thrown

namespace Database

variable (db : Database)

/-- The tokens the session's turn starts carry, by sequence. -/
def fencingTokens (sessionId : String) : List ℤ :=
  (db.journalOf sessionId).filterMap fun row => row.turnStart?.bind (·.fencingToken)

def latestFencingToken (sessionId : String) : Option ℤ := (db.fencingTokens sessionId).getLast?

/-- The turns the journal records an end for. -/
def turnFinishes (sessionId : String) : List String := (db.journalOf sessionId).filterMap (·.turnFinish?)

def isSafeInteger (n : ℤ) : Bool := -9007199254740991 ≤ n ∧ n ≤ 9007199254740991

/-- `assertFencingToken`: the refusal, if any. -/
def fencingTokenRefused (sessionId : String) (fencingToken : Option ℤ) (advance : Bool) : Bool :=
  match fencingToken with
  | none => false
  | some token =>
    if ¬ isSafeInteger token ∨ token ≤ 0 then true
    else match db.latestFencingToken sessionId with
      | none => ¬ advance
      | some current => if advance then token < current else token ≠ current

def latestTurnStart (sessionId : String) : Option (Row × Turn) :=
  ((db.journalOf sessionId).filterMap fun row => row.turnStart?.map fun turn => (row, turn)).getLast?

def readTurnFinished (sessionId assistantMessageId : String) : Bool :=
  assistantMessageId ∈ db.turnFinishes sessionId

def readMessageCompleted (sessionId messageId : String) : Bool :=
  (db.journalOf sessionId).any fun row =>
    match row.content with
    | .event (.messageCompleted _ messageID _) => messageID = messageId
    | _ => false

/-- The turn's newest reply. -/
def readTurnReply (sessionId turnId : String) : Option MessageRow :=
  (db.message.filter fun row => row.sessionId = sessionId ∧ row.turnId = some turnId ∧ row.role = .assistant).foldl
    (fun newest row => if newest.all (·.ord ≤ row.ord) then some row else newest) none

def latestReplySegment (sessionId turnId : String) : Option MessageInfo :=
  ((db.readTurnReply sessionId turnId).map (·.info)).filter (·.role = .assistant)

/-- The turn the assistant message id opened, while the journal records no end for it. -/
def activeTurn (sessionId assistantMessageId : String) : Option (Row × Turn) :=
  if db.readTurnFinished sessionId assistantMessageId then none
  else
    ((db.journalOf sessionId).filterMap fun row =>
      (row.turnStart?.filter (·.assistantMessageId = assistantMessageId)).map fun turn => (row, turn)).getLast?

end Database

namespace RuntimeStore

/-- The deltas of one session in one transaction, which its checkpoint refuses where it is behind. -/
def settleSession (σ : RuntimeStore) (sessionId : String) (items : List PendingDelta) : RuntimeStore :=
  if (σ.failedProjections sessionId).isSome then σ
  else
    let last := items.foldl (fun last item => if last < item.seq then item.seq else last) 0
    let db := items.foldl
      (fun db item => db.delta item.sessionId item.messageId item.partId item.field item.text item.ts) σ.db
    { σ with db := db.setCheckpoint sessionId last }

def settleDeltas (σ : RuntimeStore) (sessionId : Option String) : RuntimeStore :=
  let selected := σ.pendingDeltas.filter fun item => sessionId.all (· = item.sessionId)
  (firsts (selected.map (·.sessionId))).foldl
    (fun σ session => σ.settleSession session (selected.filter (·.sessionId = session)))
    { σ with pendingDeltas := σ.pendingDeltas.filter fun item => ¬ sessionId.all (· = item.sessionId) }

def deferDelta (σ : RuntimeStore) (row : Row) : RuntimeStore :=
  match row.content with
  | .event (.messagePartDelta _ messageID partID field text) =>
    let item : PendingDelta :=
      { sessionId := row.sessionId, messageId := messageID, partId := partID, field, text, seq := row.seq, ts := row.ts }
    match Table.get PendingDelta.partId partID σ.pendingDeltas with
    | some prev =>
      if prev.field = field then
        { σ with pendingDeltas :=
            Table.put PendingDelta.partId { prev with text := prev.text ++ text, seq := row.seq, ts := row.ts } σ.pendingDeltas }
      else
        let σ := σ.settleDeltas (some row.sessionId)
        { σ with pendingDeltas := Table.put PendingDelta.partId item σ.pendingDeltas }
    | none => { σ with pendingDeltas := Table.put PendingDelta.partId item σ.pendingDeltas }
  | _ => σ

/-- The marker of a row that was journaled and then not projected. -/
def fail (σ : RuntimeStore) (row : Row) : RuntimeStore :=
  { σ with
    failedProjections :=
      Function.update σ.failedProjections row.sessionId (some { seq := row.seq, repairable := true }) }

/-- The rows in turn, and whether all were projected; `stops` counts those before one that throws. -/
def replayRows (σ : RuntimeStore) : List Row → Option ℕ → RuntimeStore × Bool
  | [], _ => (σ, true)
  | row :: _, some 0 => (σ.fail row, false)
  | row :: rows, stops => replayRows { σ with db := σ.db.project row } rows (stops.map (· - 1))

def replaySession (σ : RuntimeStore) (sessionId : String) (start stop : ℕ) (stops : Option ℕ) : RuntimeStore × Bool :=
  -- Entering replay is the retry, so the marker of the last attempt goes now.
  replayRows { σ with failedProjections := Function.update σ.failedProjections sessionId none }
    ((σ.db.journalOf sessionId).filter fun row => start < row.seq ∧ row.seq ≤ stop) stops

def replay (σ : RuntimeStore) (sessionId : String) (stops : Option ℕ) : RuntimeStore × Bool :=
  if σ.db.journalCheckpoint sessionId < σ.db.getSessionMaxSeq sessionId then
    σ.replaySession sessionId (σ.db.journalCheckpoint sessionId) (σ.db.getSessionMaxSeq sessionId) stops
  else (σ, true)

/-- The store a new process opens over the database. -/
def reopen (db : Database) : RuntimeStore :=
  ((firsts (db.runtimeJournal.map (·.sessionId))).insertionSort (· ≤ ·)).foldl
    (fun σ sessionId => (σ.replay sessionId none).1) { db := db }

/-- The session's projection is level with its journal, or the write is refused. -/
def assertProjectionCurrent (σ : RuntimeStore) (sessionId : String) (stops : Option ℕ) :
    RuntimeStore × Option StoreError :=
  match σ.failedProjections sessionId with
  | none => (σ, none)
  | some failure =>
    let (σ, replayed) := if failure.repairable then σ.replay sessionId stops else (σ, true)
    if replayed then (σ, (σ.failedProjections sessionId).map fun remaining => .projectionBlocked remaining.seq)
    else (σ, some .thrown)

/-- What the caller of a commit hands over; the row takes the session's next sequence. -/
structure Entry where
  sessionId : String
  ts : ℕ
  agentSessionId : Option String := none
  content : Content

def Entry.row (entry : Entry) (seq : ℕ) : Row :=
  { sessionId := entry.sessionId, seq, ts := entry.ts, agentSessionId := entry.agentSessionId, content := entry.content }

def Entry.isDelta (entry : Entry) : Bool := (entry.row 0).isDelta

def Entry.survivesDelete (entry : Entry) : Bool :=
  match entry.content with
  | .control (.session (.bind _)) | .control (.session .delete) => true
  | _ => false

def commit (σ : RuntimeStore) (entry : Entry) (fencingToken : Option ℤ) (advance : Bool) (stops : Option ℕ)
    (throws : Bool) : RuntimeStore × Except StoreError Row :=
  match σ.assertProjectionCurrent entry.sessionId stops with
  | (σ, some error) => (σ, .error error)
  | (σ, none) =>
    if σ.db.deletedSession entry.sessionId ∧ ¬ entry.survivesDelete then (σ, .error .deleted)
    else
      let σ := if entry.isDelta then σ else σ.settleDeltas (some entry.sessionId)
      let row := entry.row (σ.db.next entry.sessionId)
      let journaled := { σ with db := σ.db.insertRuntimeJournal row }
      if σ.db.fencingTokenRefused entry.sessionId fencingToken advance then (σ, .error .staleTurn)
      else if entry.isDelta then (journaled.deferDelta row, .ok row)
      else if throws then
        -- Under a fence the row is in the transaction that is rolled back; else it is journaled already.
        (if fencingToken.isSome then σ else journaled.fail row, .error .thrown)
      else ({ journaled with db := journaled.db.project row }, .ok row)

/-- Journal, apply and checkpoint one row inside the caller's transaction. -/
def commitInside (σ : RuntimeStore) (entry : Entry) (fencingToken : Option ℤ) : Except StoreError RuntimeStore :=
  if σ.db.fencingTokenRefused entry.sessionId fencingToken false then .error .staleTurn
  else
    let row := entry.row (σ.db.next entry.sessionId)
    match σ.failedProjections entry.sessionId with
    | some failure => .error (.projectionBlocked failure.seq)
    | none => .ok { σ with db := (σ.db.insertRuntimeJournal row).project row }

/-- A transaction's outcome: nothing of it where it threw. -/
def transaction (σ : RuntimeStore) (result : Except StoreError RuntimeStore) (throws : Bool) :
    RuntimeStore × Except StoreError Unit :=
  match result with
  | .error error => (σ, .error error)
  | .ok σ' => if throws then (σ, .error .thrown) else (σ', .ok ())

inductive BrokerCall where
  | appendInside (sessionId : String) (payload : AgentPresentationEvent) (ts : ℕ)
  | persistGrantInside (sessionId grantKey : String) (ts : ℕ)

def brokerAppendInside (σ : RuntimeStore) (sessionId : String) (payload : AgentPresentationEvent) (ts : ℕ) :
    Except StoreError RuntimeStore :=
  σ.commitInside { sessionId, ts, content := .event payload } none

/-- The grants a permission state holds, where it holds a list of strings or none. -/
def brokerGrants (state : Record) : Option (List String) :=
  match state.field "brokerGrants" with
  | none => some []
  | some (.arr items) => items.mapM fun item => asString (some item)
  | some _ => none

def brokerPersistGrantInside (σ : RuntimeStore) (sessionId grantKey : String) (ts : ℕ) : Except StoreError RuntimeStore :=
  match σ.db.session sessionId with
  | none => .error .unknownGrantSession
  | some row =>
    let state := row.permissionState.getD []
    match brokerGrants state with
    | none => .error .invalidBrokerGrants
    | some grants =>
      let permissionState := state.set "brokerGrants" (.arr ((firsts (grants ++ [grantKey])).map .str))
      σ.commitInside
        { sessionId, ts, content := .control (.session (.configUpdate { permissionState := some (some permissionState) })) } none

def brokerRun (σ : RuntimeStore) : List BrokerCall → Except StoreError RuntimeStore
  | [] => .ok σ
  | .appendInside sessionId payload ts :: calls =>
    match σ.brokerAppendInside sessionId payload ts with
    | .ok σ => brokerRun σ calls
    | .error error => .error error
  | .persistGrantInside sessionId grantKey ts :: calls =>
    match σ.brokerPersistGrantInside sessionId grantKey ts with
    | .ok σ => brokerRun σ calls
    | .error error => .error error

def brokerTransaction (σ : RuntimeStore) (calls : List BrokerCall) (throws : Bool) : RuntimeStore × Except StoreError Unit :=
  σ.transaction (σ.brokerRun calls) throws

/-- A turn that is already open is answered as it stands, to the token it was opened with. -/
def startTurn (σ : RuntimeStore) (sessionId : String) (agentSessionId : Option String) (turn : Turn) (ts : ℕ)
    (stops : Option ℕ) (throws : Bool) : RuntimeStore × Except StoreError ℕ :=
  match σ.db.activeTurn sessionId turn.assistantMessageId with
  | some (start, active) =>
    if turn.fencingToken ≠ active.fencingToken then (σ, .error .staleTurn) else (σ, .ok start.seq)
  | none =>
    let (σ, committed) :=
      σ.commit { sessionId, ts, agentSessionId, content := .control (.turnStart turn) } turn.fencingToken true stops throws
    (σ, committed.map (·.seq))

def appendEvent (σ : RuntimeStore) (sessionId : String) (agentSessionId : Option String) (payload : AgentPresentationEvent)
    (fencingToken : Option ℤ) (ts : ℕ) (stops : Option ℕ) (throws : Bool) : RuntimeStore × Except StoreError ℕ :=
  let (σ, committed) := σ.commit { sessionId, ts, agentSessionId, content := .event payload } fencingToken false stops throws
  (σ, committed.map (·.seq))

/-- The part the two ways to end a turn share: level, settled, and not deleted. -/
def endTurn (σ : RuntimeStore) (sessionId : String) (stops : Option ℕ)
    (run : RuntimeStore → RuntimeStore × Except StoreError Unit) (gone : Except StoreError Unit) :
    RuntimeStore × Except StoreError Unit :=
  match σ.assertProjectionCurrent sessionId stops with
  | (σ, some error) => (σ, .error error)
  | (σ, none) =>
    let σ := σ.settleDeltas (some sessionId)
    if σ.db.deletedSession sessionId then (σ, gone) else run σ

def interruptTurn (σ : RuntimeStore) (sessionId assistantMessageId leaseId : String) (fencingToken : Option ℤ)
    (message : String) (ts : ℕ) (stops : Option ℕ) (throws : Bool) : RuntimeStore × Except StoreError Unit :=
  σ.endTurn sessionId stops
    (fun σ =>
      if σ.db.sessionTurnLease sessionId ≠ some leaseId then (σ, .error .staleTurn)
      else if σ.db.fencingTokenRefused sessionId fencingToken false then (σ, .error .staleTurn)
      else match (σ.db.latestTurnStart sessionId).filter (·.2.assistantMessageId = assistantMessageId) with
        | none => (σ, .ok ())
        | some (active, _) =>
          if σ.db.readTurnFinished sessionId assistantMessageId then (σ, .ok ())
          else
            σ.transaction
              (σ.commitInside
                { sessionId, ts, agentSessionId := active.agentSessionId, content := .control (.session (.interrupted message)) }
                fencingToken)
              throws)
    (.ok ())

/-- The events a finishing turn commits ahead of its `turn.finish`; the last is its one terminal. -/
def terminalEvents (db : Database) (sessionId : String) (active : Row) (turn : Turn) (outcome : AgentTurnOutcome) :
    List AgentPresentationEvent :=
  let segment := db.latestReplySegment sessionId turn.assistantMessageId
  let reply := (segment.map (·.id)).getD turn.assistantMessageId
  let lastTurn := some (outcome.status, outcome.completedAt)
  match outcome.status with
  | .failed =>
    [.messageUpdated
      (buildAssistantMessage reply sessionId
        (((segment.bind (·.parentID)).or (turn.userMessageId.or turn.parentMessageId)).getD sessionId)
        (nonEmpty turn.agent) turn.model (db.sessionDirectory sessionId) ((segment.bind (·.created)).getD active.ts)
        (some outcome.completedAt) outcome.error turn.variant),
      .sessionError (some sessionId) outcome.error lastTurn]
  | .completed | .cancelled =>
    (if db.readMessageCompleted sessionId reply then []
    else [.messageCompleted sessionId reply (outcome.status = .cancelled)]) ++ [.sessionIdle sessionId lastTurn]

/-- Rows that land together, each at its own time. -/
def commitAll (σ : RuntimeStore) (fencingToken : Option ℤ) : List Entry → Except StoreError RuntimeStore
  | [] => .ok σ
  | entry :: entries =>
    match σ.commitInside entry fencingToken with
    | .ok σ => commitAll σ fencingToken entries
    | .error error => .error error

def finishEntries (db : Database) (sessionId : String) (active : Row) (turn : Turn) (outcome : AgentTurnOutcome)
    (now : ℕ → ℕ) : List Entry :=
  ((terminalEvents db sessionId active turn outcome).zipIdx.map fun (payload, i) =>
    { sessionId, ts := now i, agentSessionId := active.agentSessionId, content := .event payload }) ++
  [{ sessionId, ts := outcome.completedAt, agentSessionId := active.agentSessionId
     content := .control (.turnFinish turn.assistantMessageId
      { outcome with assistantMessageId := some turn.assistantMessageId }) }]

def finishTurn (σ : RuntimeStore) (sessionId : String) (assistantMessageId : Option String) (leaseId : String)
    (fencingToken : Option ℤ) (outcome : AgentTurnOutcome) (now : ℕ → ℕ) (stops : Option ℕ) (throws : Bool) :
    RuntimeStore × Except StoreError Unit :=
  σ.endTurn sessionId stops
    (fun σ =>
      if σ.db.sessionTurnLease sessionId ≠ some leaseId then (σ, .error .staleTurn)
      else if σ.db.fencingTokenRefused sessionId fencingToken false then (σ, .error .staleTurn)
      else match σ.db.latestTurnStart sessionId with
        | none => (σ, .ok ())
        | some (active, turn) =>
          if turn.assistantMessageId = "" then (σ, .ok ())
          else if (nonEmpty assistantMessageId).any (· ≠ turn.assistantMessageId) then (σ, .ok ())
          else if σ.db.readTurnFinished sessionId turn.assistantMessageId then (σ, .ok ())
          else σ.transaction (σ.commitAll fencingToken (finishEntries σ.db sessionId active turn outcome now)) throws)
    (.error .deleted)

/-- `TurnLeases.acquire`, of a fresh id. -/
def acquireLease (σ : RuntimeStore) (sessionId leaseId : String) : RuntimeStore :=
  if (σ.db.sessionTurnLease sessionId).isSome then σ
  else { σ with db := { σ.db with sessionTurnLease := Function.update σ.db.sessionTurnLease sessionId (some leaseId) } }

def releaseLease (σ : RuntimeStore) (sessionId leaseId : String) : RuntimeStore :=
  if σ.db.sessionTurnLease sessionId = some leaseId then
    { σ with db := { σ.db with sessionTurnLease := Function.update σ.db.sessionTurnLease sessionId none } }
  else σ

/-- `replayJournal`, as a read of the session's turn begins with. -/
def recover (σ : RuntimeStore) (sessionId : String) (stops : Option ℕ) : RuntimeStore × Bool :=
  (σ.settleDeltas (some sessionId)).replay sessionId stops

end RuntimeStore

open RuntimeStore in
inductive StoreCall where
  | startTurn (sessionId : String) (agentSessionId : Option String) (turn : Turn) (ts : ℕ) (stops : Option ℕ) (throws : Bool)
  | appendEvent (sessionId : String) (agentSessionId : Option String) (payload : AgentPresentationEvent)
      (fencingToken : Option ℤ) (ts : ℕ) (stops : Option ℕ) (throws : Bool)
  | sessionControl (sessionId : String) (agentSessionId : Option String) (control : SessionControl) (ts : ℕ)
      (stops : Option ℕ) (throws : Bool)
  | interruptTurn (sessionId assistantMessageId leaseId : String) (fencingToken : Option ℤ) (message : String) (ts : ℕ)
      (stops : Option ℕ) (throws : Bool)
  | finishTurn (sessionId : String) (assistantMessageId : Option String) (leaseId : String) (fencingToken : Option ℤ)
      (outcome : AgentTurnOutcome) (now : ℕ → ℕ) (stops : Option ℕ) (throws : Bool)
  | brokerTransaction (calls : List BrokerCall) (throws : Bool)
  /-- The settle timer, or a read of one session's parts. -/
  | settleDeltas (sessionId : Option String)
  | recover (sessionId : String) (stops : Option ℕ)
  | acquireLease (sessionId leaseId : String)
  | releaseLease (sessionId leaseId : String)
  /-- The process is gone, and another opens the store. -/
  | reopen

open RuntimeStore in
/-- The store after a call; what the call answered is the caller's. -/
def RuntimeStore.step (σ : RuntimeStore) : StoreCall → RuntimeStore
  | .startTurn sessionId agentSessionId turn ts stops throws =>
    (σ.startTurn sessionId agentSessionId turn ts stops throws).1
  | .appendEvent sessionId agentSessionId payload fencingToken ts stops throws =>
    (σ.appendEvent sessionId agentSessionId payload fencingToken ts stops throws).1
  | .sessionControl sessionId agentSessionId control ts stops throws =>
    (σ.commit { sessionId, ts, agentSessionId, content := .control (.session control) } none false stops throws).1
  | .interruptTurn sessionId assistantMessageId leaseId fencingToken message ts stops throws =>
    (σ.interruptTurn sessionId assistantMessageId leaseId fencingToken message ts stops throws).1
  | .finishTurn sessionId assistantMessageId leaseId fencingToken outcome now stops throws =>
    (σ.finishTurn sessionId assistantMessageId leaseId fencingToken outcome now stops throws).1
  | .brokerTransaction calls throws => (σ.brokerTransaction calls throws).1
  | .settleDeltas sessionId => σ.settleDeltas sessionId
  | .recover sessionId stops => (σ.recover sessionId stops).1
  | .acquireLease sessionId leaseId => σ.acquireLease sessionId leaseId
  | .releaseLease sessionId leaseId => σ.releaseLease sessionId leaseId
  | .reopen => RuntimeStore.reopen σ.db

end Claxedo.Store
