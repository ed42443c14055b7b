import Claxedo.Lib.Run
import Claxedo.Hosted.Snapshots

/-! `syncSessionMessages` by any number of isolates: each call reads the session and the turn lease,
comes to a verdict, and lands one batch, with turns taken over and send rights changing in between. -/

namespace Claxedo.Hosted

open Claxedo.Lib

structure SyncArgs where
  actorId : String
  workspaceId : String
  messages : List MessageInput
  maxEventOrdinal : Option ℤ := none
  fencingToken : Option ℤ := none
  updatedAt : ℕ := 0
  deriving DecidableEq

def MAX_SAFE_INTEGER : ℕ := 2 ^ 53 - 1

def optionalOrdinal : Option ℤ → Except Refusal (Option ℕ)
  | none => .ok none
  | some value =>
    if value < 0 ∨ MAX_SAFE_INTEGER < value then
      .error (.invalidInput "maxEventOrdinal must be a non-negative safe integer")
    else .ok (some value.toNat)

def positiveFence : Option ℤ → Except Refusal (Option ℕ)
  | none => .ok none
  | some value =>
    if value < 1 ∨ MAX_SAFE_INTEGER < value then
      .error (.invalidInput "fencingToken must be a positive safe integer")
    else .ok (some value.toNat)

/-- A batch that landed: whose it was, and the turn lease's token and the session's ordinal as it left them. -/
structure Application where
  call : ℕ
  snapshot : Snapshot
  ordinal : ℕ
  newest : Option ℕ
  deriving DecidableEq

inductive Phase where
  | asked
  | prepared (s : Snapshot)
  /-- The session is read, the lease is still to read. -/
  | seen (s : Snapshot) (current : SessionRow)
  | writing (s : Snapshot) (current : SessionRow)
  /-- The batch was rolled back, the session is to be read once more. -/
  | raced (s : Snapshot)
  | answered (applied : Bool) (maxEventOrdinal : ℕ)
  | refused (refusal : Refusal)
  deriving DecidableEq

/-- `seenApplied` counts the batches that had landed when the call read the session; `barred` notes
that it was turned down while its token was not the lease's or its actor might not send. -/
structure Call where
  args : SyncArgs
  phase : Phase := .asked
  seenApplied : ℕ := 0
  barred : Bool := false
  deriving DecidableEq

structure World where
  tables : Tables
  calls : List Call := []
  tokens : ℕ := 0
  applied : List Application := []

inductive Moment where
  | sync (args : SyncArgs)
  | access (i : ℕ)
  | readSession (i : ℕ)
  | readLease (i : ℕ)
  | write (i : ℕ) (now : ℕ)
  | reread (i : ℕ)
  | takeOver (turnId actorId : String)
  | setSenders (senders : List String)

/-- `JSON.stringify` of the canonical messages, and the digest of a text. -/
structure Hashing where
  snapshotJson : List CanonicalMessage → String
  sha256Hex : String → String

def Hashing.snapshotHash (hashing : Hashing) (messages : List CanonicalMessage) : String :=
  hashing.sha256Hex (hashing.snapshotJson messages)

section
variable (hashing : Hashing)

/-- What a call makes of its input before it reads the session. -/
def prepare (args : SyncArgs) : Except Refusal Snapshot :=
  match optionalOrdinal args.maxEventOrdinal with
  | .error refusal => .error refusal
  | .ok maxEventOrdinal =>
    match canonicalMessages args.messages with
    | .error refusal => .error refusal
    | .ok messages =>
      match positiveFence args.fencingToken with
      | .error refusal => .error refusal
      | .ok fencingToken =>
        if messages.any (·.role = "user") ∧ fencingToken = none then
          .error (.invalidInput "Session snapshots with user messages require a fencing token")
        else if MAX_SNAPSHOT_BYTES < (hashing.snapshotJson messages).utf8ByteSize then
          .error (.invalidInput ("Session snapshot exceeds " ++ toString MAX_SNAPSHOT_BYTES ++ " bytes"))
        else
          .ok { actorId := args.actorId, workspaceId := args.workspaceId, messages, hash := hashing.snapshotHash messages,
                maxEventOrdinal, fencingToken, updatedAt := args.updatedAt }

/-- Whether a call's token is the lease's and its actor may send. -/
def mayLand (s : Snapshot) (t : Tables) : Bool := fenceGuard s.fencingToken t ∧ s.actorId ∈ t.senders

/-- What a call decides on the session's row. -/
def verdict (s : Snapshot) (current : SessionRow) : Phase :=
  match s.maxEventOrdinal with
  | none => .writing s current
  | some ordinal =>
    if ordinal < current.maxEventOrdinal then .answered false current.maxEventOrdinal
    else if ordinal = current.maxEventOrdinal ∧ current.snapshotHash.isSome then
      if current.snapshotHash ≠ some s.hash then
        .refused (.resourceConflict "Equal session event ordinals carry different snapshots")
      else .answered false current.maxEventOrdinal
    else .writing s current

def access (t : Tables) (call : Call) : Call :=
  match call.phase with
  | .asked =>
    if t.session.workspaceId = call.args.workspaceId ∧ ¬ t.session.deleted ∧ call.args.actorId ∈ t.senders then
      match prepare hashing call.args with
      | .ok s => { call with phase := .prepared s }
      | .error refusal => { call with phase := .refused refusal }
    else { call with phase := .refused denied }
  | _ => call

def readSession (t : Tables) (applied : ℕ) (call : Call) : Call :=
  match call.phase with
  | .prepared s =>
    if t.session.workspaceId ≠ s.workspaceId ∨ t.session.deleted then { call with phase := .refused denied }
    else
      { call with
        phase := if s.fencingToken.isSome then .seen s t.session else verdict s t.session
        seenApplied := applied }
  | _ => call

def readLease (t : Tables) (call : Call) : Call :=
  match call.phase with
  | .seen s current =>
    if t.lease.any fun lease => lease.workspaceId = s.workspaceId ∧ some lease.fencingToken = s.fencingToken then
      { call with phase := verdict s current }
    else
      { call with
        phase := .refused (.resourceConflict "Session snapshot fencing token is stale")
        barred := ¬ mayLand s t }
  | _ => call

def reread (t : Tables) (call : Call) : Call :=
  match call.phase with
  | .raced s =>
    match s.maxEventOrdinal with
    | some ordinal =>
      if t.session.maxEventOrdinal = ordinal ∧ t.session.snapshotHash = some s.hash then
        { call with phase := .answered false ordinal }
      else { call with phase := .refused (.resourceConflict "Session snapshot raced with another write or authority change") }
    | none => { call with phase := .refused (.resourceConflict "Session snapshot raced with another write or authority change") }
  | _ => call

def World.update (f : Call → Call) (i : ℕ) (w : World) : World := { w with calls := w.calls.modify i f }

def World.write (i now : ℕ) (w : World) : World :=
  match w.calls[i]? with
  | some call =>
    match call.phase with
    | .writing s current =>
      match batch w.tokens now s w.tables with
      | some tables =>
        { tables
          calls := w.calls.set i { call with phase := .answered true (s.maxEventOrdinal.getD current.maxEventOrdinal) }
          tokens := w.tokens + 1
          applied := w.applied ++ [{ call := i, snapshot := s, ordinal := tables.session.maxEventOrdinal,
                                     newest := w.tables.lease.map (·.fencingToken) }] }
      | none =>
        { w with
          calls := w.calls.set i
            { call with phase := .raced s, barred := ¬ mayLand s w.tables }
          tokens := w.tokens + 1 }
    | _ => w
  | none => w

/-- The lease row passes to another turn with the next token, and the trigger notes the turn's producer;
a turn that was admitted before is refused by the producers' key. -/
def Tables.takeOver (turnId actorId : String) (t : Tables) : Tables :=
  match Table.get ProducerRow.turnId turnId t.producers with
  | some _ => t
  | none =>
    let fencingToken := (t.lease.map (·.fencingToken)).getD 0 + 1
    { t with
      lease := some { workspaceId := t.session.workspaceId, turnId, fencingToken, actorId }
      producers := t.producers ++ [{ turnId, fencingToken, actorId }] }

def World.step (w : World) : Moment → World
  | .sync args => { w with calls := w.calls ++ [{ args }] }
  | .access i => w.update (access hashing w.tables) i
  | .readSession i => w.update (readSession w.tables w.applied.length) i
  | .readLease i => w.update (readLease w.tables) i
  | .write i now => w.write i now
  | .reread i => w.update (reread w.tables) i
  | .takeOver turnId actorId => { w with tables := w.tables.takeOver turnId actorId }
  | .setSenders senders => { w with tables := { w.tables with senders } }

/-- A session that is registered and has no transcript yet. -/
def World.fresh (session : SessionRow) (senders : List String) : World :=
  { tables :=
      { session := { session with snapshotGeneration := 0, snapshotHash := none, snapshotToken := none, maxEventOrdinal := 0 }
        senders } }

end

end Claxedo.Hosted
