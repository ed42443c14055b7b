import Claxedo.Lib.LastMatch
import Claxedo.Lib.Run
import Claxedo.Pty.Terminal

/-! The transcript of a terminal on disk: what of the output is appended to it, and the file operations behind it. The
operations of the flush queue run one after the other; the removals that a clear asks for run beside them. -/

namespace Claxedo.Pty

open Claxedo.Lib

/-- `ESC [ 3 J`, erase scrollback. -/
def CLEAR_SCROLLBACK : Text := [ESC, CSI_INTRODUCER, 0x33, 0x4a]

def utf16 (text : String) : Text := text.toList.map fun ch => ch.toNat.toUInt16

def DIM : Text := ESC :: utf16 "[2m"

def RESET : Text := ESC :: utf16 "[0m"

def SESSION_RESTORED_NOTICE : Text := utf16 "\r\n" ++ DIM ++ utf16 "─── Session contents restored ───" ++ RESET ++ utf16 "\r\n"

def shouldMarkRestored (previousPtyId : Bool) (restoredLength : ℕ) : Bool := previousPtyId && 0 < restoredLength

/-- What a scanner for `needle` keeps of the output, and whether a match completes in `chunk`. -/
def scan (needle carry chunk : Text) : Bool × Text :=
  if chunk = [] then (false, carry)
  else
    let combined := carry ++ chunk
    let hit := decide (needle <:+: combined)
    (hit, if hit then [] else combined.rtake (needle.length - 1))

def extractContentAfterClear (data carry : Text) : Text := (afterLast CLEAR_SCROLLBACK (carry ++ data)).getD data

/-- What is read back of a text that was written as UTF-8: half a surrogate pair is replaced. -/
def toWellFormed : Text → Text
  | [] => []
  | [code] => [if isHighSurrogate code || isLowSurrogate code then 0xfffd else code]
  | code :: next :: rest =>
    if isHighSurrogate code && isLowSurrogate next then code :: next :: toWellFormed rest
    else (if isHighSurrogate code || isLowSurrogate code then 0xfffd else code) :: toWellFormed (next :: rest)

/-- The bytes of a well-formed text in UTF-8. -/
def byteLength (text : Text) : ℕ :=
  (text.map fun code => if code < 0x80 then 1 else if code < 0x800 || isHighSurrogate code || isLowSurrogate code then 2 else 3).sum

/-- Where a flush stands: its append, then the read and the rewrite of a compaction. -/
inductive FlushStage where
  | append
  | examine
  | rewrite (kept : Text)

structure Flush where
  chunk : Text
  stage : FlushStage := .append

/-- A transcript; `clears` are the removals that were asked for, each with the number of flushes it still waits for. -/
structure DiskHistory where
  file : Option Text := none
  bytes : ℕ := 0
  staged : Text := []
  timer : Bool := false
  queue : List Flush := []
  clears : List ℕ := []

/-- What a compaction writes in place of `existing`, if anything. -/
def compaction (limit : ℕ) (existing : Text) : Option Text :=
  if existing.length ≤ limit then none else some (safeTrimStart existing (limit - limit / 4))

/-- The history over the file that is there, compacted before anyone can append to it. -/
def createDiskHistory (limit : ℕ) : Option Text → DiskHistory
  | none => {}
  | some existing =>
    if limit < byteLength existing then
      match compaction limit existing with
      | none => { file := some existing, bytes := existing.length }
      | some kept => { file := some (toWellFormed kept), bytes := kept.length }
    else { file := some existing, bytes := byteLength existing }

namespace DiskHistory

def flush (h : DiskHistory) : DiskHistory :=
  if h.staged = [] then h else { h with staged := [], queue := h.queue ++ [{ chunk := h.staged }] }

def append (data : Text) (h : DiskHistory) : DiskHistory :=
  if data = [] then h else { h with staged := h.staged ++ data, timer := true }

def flushTimer (h : DiskHistory) : DiskHistory := if h.timer then { h with timer := false }.flush else h

def close (h : DiskHistory) : DiskHistory := { h with timer := false }.flush

/-- What a clear does at once; its removal waits for the flushes that are queued. -/
def clear (h : DiskHistory) : DiskHistory :=
  { h with timer := false, staged := [], bytes := 0, clears := h.clears ++ [h.queue.length] }

/-- The file is removed for the clear at `i`, once no flush is left before it. -/
def removed (i : ℕ) (h : DiskHistory) : DiskHistory :=
  if h.clears[i]? = some 0 then { h with file := none, clears := h.clears.eraseIdx i } else h

/-- The first flush of the queue is over. -/
def flushed (h : DiskHistory) : DiskHistory := { h with queue := h.queue.tail, clears := h.clears.map (· - 1) }

/-- The file operation that the first flush of the queue is at completes. -/
def proceed (limit : ℕ) (h : DiskHistory) : DiskHistory :=
  match h.queue with
  | [] => h
  | flush :: rest =>
    match flush.stage with
    | .append =>
      let h := { h with file := some (h.file.getD [] ++ toWellFormed flush.chunk), bytes := h.bytes + flush.chunk.length }
      if limit < h.bytes then { h with queue := { flush with stage := .examine } :: rest } else h.flushed
    | .examine =>
      match h.file with
      | none => h.flushed
      | some existing =>
        match compaction limit existing with
        | none => { h with bytes := existing.length }.flushed
        | some kept => { h with queue := { flush with stage := .rewrite kept } :: rest }
    | .rewrite kept => { h with file := some (toWellFormed kept), bytes := kept.length }.flushed

end DiskHistory

/-- A terminal's output on its way to disk. `seed` and `stream` are kept for the proofs only: what the transcript held
before any output, and all output so far. -/
structure Transcript where
  history : DiskHistory
  scannerCarry : Text := []
  clearScrollbackCarry : Text := []
  closing : Bool := false
  closed : Bool := false
  seed : Text := []
  stream : Text := []

/-- A terminal that starts over the transcript of the one it replaces, if it replaces one. -/
def startTranscript (limit : ℕ) (previousPtyId : Bool) (existing : Option Text) : Transcript :=
  let history := createDiskHistory limit existing
  let content := history.file.getD []
  let restored := if previousPtyId then safeTrimStart content (BUFFER_LIMIT - SESSION_RESTORED_NOTICE.length) else []
  let notice := if shouldMarkRestored previousPtyId restored.length then SESSION_RESTORED_NOTICE else []
  { history := history.append notice, seed := content ++ notice }

/-- What of `data` is appended, and the transcript it is appended to: cleared where a clear completes in `data`. -/
def filterOutput (data : Text) (t : Transcript) : Text × Transcript :=
  let (hit, carry) := scan CLEAR_SCROLLBACK t.scannerCarry data
  let next := { t with scannerCarry := carry, clearScrollbackCarry := data.rtake (CLEAR_SCROLLBACK.length - 1) }
  if hit then (extractContentAfterClear data t.clearScrollbackCarry, { next with history := t.history.clear })
  else (data, next)

def recordOutput (data : Text) (t : Transcript) : Transcript :=
  let (filtered, next) := filterOutput data t
  { next with history := next.history.append filtered, stream := t.stream ++ data }

inductive TranscriptEvent where
  | output (data : Text)
  | flushTimer
  | proceed
  | removed (i : ℕ)
  | close
  | closed

/-- The next thing to happen; no output comes once the history is being closed. -/
def transcriptStep (limit : ℕ) (t : Transcript) : TranscriptEvent → Transcript
  | .output data => if t.closing then t else recordOutput data t
  | .flushTimer => { t with history := t.history.flushTimer }
  | .proceed => { t with history := t.history.proceed limit }
  | .removed i => { t with history := t.history.removed i }
  | .close => { t with history := t.history.close, closing := true }
  | .closed => if t.closing && t.history.queue.isEmpty then { t with closed := true } else t

end Claxedo.Pty
