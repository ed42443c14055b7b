import Claxedo.Lib.Run
import Claxedo.Pty.SafeSlice

/-! A terminal as its clients see it: the replay buffer, the sockets attached to it, and what each was sent.
The headless emulator that mirrors the output is a parameter, and so is the filter a replay goes through. -/

namespace Claxedo.Pty

def BUFFER_LIMIT : ℕ := 1024 * 1024 * 2

def BUFFER_TRIM_AT : ℕ := BUFFER_LIMIT + BUFFER_LIMIT / 4

def BUFFER_CHUNK : ℕ := 64 * 1024

def MAX_SAFE_INTEGER : ℤ := 2 ^ 53 - 1

/-- What a checkpoint says of the screen; its other fields pass through as the emulator made them. -/
structure Checkpoint where
  screen : Text

structure Emulator (E : Type) where
  feed : Text → E → E
  resize : ℕ → ℕ → E → E
  buildPreamble : E → Text
  /-- Fails where tracking the output has. -/
  checkpoint : E → Option Checkpoint

structure PtyEnv (E : Type) where
  emulator : Emulator E
  sanitizeReplay : Text → Text
  websocketBufferedAmountMax : ℕ := 1024 * 1024
  queueHighWatermark : ℕ := 1024 * 1024
  queueLowWatermark : ℕ := 256 * 1024

inductive Frame where
  | text (data : Text)
  | metaFrame (cursor : ℕ) (checkpoint : Option Checkpoint)

/-- How a socket is when it is sent to. -/
structure SocketState where
  isOpen : Bool := true
  bufferedAmount : ℕ := 0
  throws : Bool := false

/-- The state of a client's socket by the number of frames it has been sent. -/
abbrev Socket := ℕ → SocketState

/-- A client that connected; `subscribed` is whether the session's subscribers hold its socket. -/
structure Client where
  sent : List Frame := []
  subscribed : Bool := true
  closed : Bool := false

def sendWebSocketWithBackpressure (maxBufferedBytes : ℕ) (socket : Socket) (data : Frame) (ws : Client) : Client × Bool :=
  let state := socket ws.sent.length
  if !state.isOpen || ws.closed then (ws, false)
  else if maxBufferedBytes < state.bufferedAmount then ({ ws with closed := true }, false)
  else if state.throws then ({ ws with closed := true }, false)
  else ({ ws with sent := ws.sent ++ [data] }, true)

inductive QueuedOperation where
  | write (data : Text)
  | resize (cols rows : ℕ)
  deriving DecidableEq

structure ActiveSession (E : Type) where
  buffer : Text
  bufferCursor : ℕ := 0
  cursor : ℕ
  modeTracker : E
  running : Bool := true
  ready : Bool := false
  writeQueue : List QueuedOperation := []
  queuedBytes : ℕ := 0
  clients : List Client := []

variable {E : Type} (env : PtyEnv E)

/-- A session as its creation leaves it, with what was restored of an earlier one's transcript. -/
def createdSession (modeTracker : E) (restored : Text) : ActiveSession E where
  buffer := restored
  cursor := restored.length
  modeTracker := if restored = [] then modeTracker else env.emulator.feed restored modeTracker

def safeBroadcast (sockets : ℕ → Socket) (data : Frame) (session : ActiveSession E) : ActiveSession E :=
  { session with
    clients := session.clients.mapIdx fun id ws =>
      if ws.subscribed then
        let (ws, sent) := sendWebSocketWithBackpressure env.websocketBufferedAmountMax (sockets id) data ws
        { ws with subscribed := sent }
      else ws }

def closeSubscribers (session : ActiveSession E) : ActiveSession E :=
  { session with
    clients := session.clients.map fun ws => if ws.subscribed then { ws with subscribed := false, closed := true } else ws }

/-- The checkpoint as it is sent: the modes first, then the screen. -/
def checkpointOf (modeTracker : E) : Option Checkpoint :=
  (env.emulator.checkpoint modeTracker).map fun checkpoint =>
    { checkpoint with screen := env.emulator.buildPreamble modeTracker ++ checkpoint.screen }

def onResize (sockets : ℕ → Socket) (session : ActiveSession E) : ActiveSession E :=
  match checkpointOf env session.modeTracker with
  | some checkpoint => safeBroadcast env sockets (.metaFrame session.cursor (some checkpoint)) session
  | none => closeSubscribers session

def operationBytes : QueuedOperation → ℕ
  | .write data => data.length
  | .resize _ _ => 0

/-- The oldest operations go while the queue is above the low watermark, the last never. -/
def dropQueued : List QueuedOperation → ℕ → List QueuedOperation × ℕ
  | operation :: next :: rest, queuedBytes =>
    if env.queueLowWatermark < queuedBytes then dropQueued (next :: rest) (queuedBytes - operationBytes operation)
    else (operation :: next :: rest, queuedBytes)
  | queue, queuedBytes => (queue, queuedBytes)

def enqueueWrite (operation : QueuedOperation) (session : ActiveSession E) : ActiveSession E :=
  if operation = .write [] then session
  else
    let queue := session.writeQueue ++ [operation]
    let queuedBytes := session.queuedBytes + operationBytes operation
    if queuedBytes ≤ env.queueHighWatermark then { session with writeQueue := queue, queuedBytes := queuedBytes }
    else
      let (queue, queuedBytes) := dropQueued env queue queuedBytes
      { session with writeQueue := queue, queuedBytes := queuedBytes }

def flushOperation (sockets : ℕ → Socket) (session : ActiveSession E) (operation : QueuedOperation) : ActiveSession E :=
  let session := { session with queuedBytes := session.queuedBytes - operationBytes operation }
  match operation with
  | .write _ => session
  | .resize cols rows =>
    onResize env sockets { session with modeTracker := env.emulator.resize cols rows session.modeTracker }

def flushWriteQueue (sockets : ℕ → Socket) (session : ActiveSession E) : ActiveSession E :=
  if session.ready && session.running then
    session.writeQueue.foldl (flushOperation env sockets) { session with writeQueue := [] }
  else session

/-- The buffer is cut back to its limit once it passes the point to trim at. -/
def trimBuffer (session : ActiveSession E) : ActiveSession E :=
  if BUFFER_TRIM_AT < session.buffer.length then
    let cut := safeStartIndex session.buffer (session.buffer.length - BUFFER_LIMIT)
    { session with buffer := session.buffer.drop cut, bufferCursor := session.bufferCursor + cut }
  else session

/-- One chunk of output: broadcast as it is, then kept for whoever attaches later. -/
def output (data : Text) (sockets : ℕ → Socket) (session : ActiveSession E) : ActiveSession E :=
  let session := { session with
    cursor := session.cursor + data.length, modeTracker := env.emulator.feed data session.modeTracker }
  let session := safeBroadcast env sockets (.text data) session
  trimBuffer { session with buffer := session.buffer ++ data }

/-- Where the piece of a replay that starts at `i` ends: not between the halves of a pair, and past `i` in any case. -/
def replayStop (replay : Text) (i : ℕ) : ℕ :=
  let chunkEnd := safeChunkEnd replay (min replay.length (i + BUFFER_CHUNK))
  if i < chunkEnd then chunkEnd else min replay.length (i + BUFFER_CHUNK)

theorem lt_replayStop {replay : Text} {i : ℕ} (h : i < replay.length) : i < replayStop replay i := by
  unfold replayStop BUFFER_CHUNK
  dsimp only
  split <;> omega

theorem replayStop_le (replay : Text) (i : ℕ) : replayStop replay i ≤ replay.length := by
  unfold replayStop
  dsimp only
  split
  · exact safeChunkEnd_le _ _
  · exact min_le_left _ _

/-- The pieces a replay is sent in, from `i` on. -/
def replayChunks (replay : Text) (i : ℕ) : List Text :=
  if i < replay.length then
    (replay.take (replayStop replay i)).drop i :: replayChunks replay (replayStop replay i)
  else []
  termination_by replay.length - i
  decreasing_by
    have := lt_replayStop ‹i < replay.length›
    omega

def sendChunks (socket : Socket) : List Text → Client → Client × Bool
  | [], ws => (ws, true)
  | chunk :: chunks, ws =>
    match sendWebSocketWithBackpressure env.websocketBufferedAmountMax socket (.text chunk) ws with
    | (ws, true) => sendChunks socket chunks ws
    | (ws, false) => (ws, false)

def safeReplay (socket : Socket) (replay : Text) (ws : Client) : Client × Bool :=
  sendChunks env socket (replayChunks replay 0) ws

/-- Where a client that names `cursor` wants its replay from: anything but a safe integer is nowhere, and -1 the end. -/
def replayFrom (cursor : Option ℤ) (stop : ℕ) : ℕ :=
  match cursor with
  | none => 0
  | some cursor => if cursor = -1 then stop else if cursor.natAbs ≤ MAX_SAFE_INTEGER then cursor.toNat else 0

/-- What of the buffer a client is replayed. -/
def replayData (cursor : Option ℤ) (session : ActiveSession E) : Text :=
  let start := replayFrom cursor session.cursor
  if session.buffer = [] then []
  else if session.cursor ≤ start then []
  else
    let offset := start - session.bufferCursor
    if session.buffer.length ≤ offset then [] else env.sanitizeReplay (session.buffer.drop offset)

/-- The replay, or the checkpoint where there is nowhere to replay from, sent to a socket that has just come. -/
def attach (cursor : Option ℤ) (socket : Socket) (session : ActiveSession E) : Client × Bool :=
  let send := sendWebSocketWithBackpressure env.websocketBufferedAmountMax socket
  if replayFrom cursor session.cursor = 0 then
    match checkpointOf env session.modeTracker with
    | some checkpoint => send (.metaFrame session.cursor (some checkpoint)) {}
    | none => ({}, false)
  else
    match safeReplay env socket (env.emulator.buildPreamble session.modeTracker ++ replayData env cursor session) {} with
    | (ws, true) => send (.metaFrame session.cursor none) ws
    | (ws, false) => (ws, false)

def connect (cursor : Option ℤ) (sockets : ℕ → Socket) (session : ActiveSession E) : ActiveSession E :=
  match attach env cursor (sockets session.clients.length) session with
  | (ws, true) => flushWriteQueue env sockets { session with clients := session.clients ++ [ws], ready := true }
  | (ws, false) => { session with clients := session.clients ++ [{ ws with subscribed := false, closed := true }] }

inductive SessionEvent where
  | output (data : Text) (sockets : ℕ → Socket)
  | connect (cursor : Option ℤ) (sockets : ℕ → Socket)
  | resize (cols rows : ℕ) (sockets : ℕ → Socket)
  | write (data : Text)
  /-- A client's socket closed, by its place among the clients. -/
  | onClose (id : ℕ)
  | exited
  /-- A cleanup lets go of the clients; a removal also of what was to be written. -/
  | cleanup (remove : Bool)

def sessionStep (session : ActiveSession E) : SessionEvent → ActiveSession E
  | .output data sockets => output env data sockets session
  | .connect cursor sockets => connect env cursor sockets session
  | .resize cols rows sockets =>
    if session.running then flushWriteQueue env sockets (enqueueWrite env (.resize cols rows) session) else session
  | .write data => if session.running && !session.ready then enqueueWrite env (.write data) session else session
  | .onClose id =>
    let clients := session.clients.modify id fun ws => { ws with subscribed := false }
    { session with clients := clients, ready := session.ready && clients.any Client.subscribed }
  | .exited => { session with running := false }
  | .cleanup remove =>
    let session := closeSubscribers session
    if remove then { session with ready := false, writeQueue := [], queuedBytes := 0 } else session

end Claxedo.Pty
