import Claxedo.Lib.Run

/-! How a terminal is let go of: cleanups, which wait on the processes they retire and on the ownership store, the
timers, and the calls that remove, abandon or dispose of it. A label is one turn of the event loop: a call that comes
in, a timer that fires, or an await that is answered, with what follows it up to the next await. -/

namespace Claxedo.Pty

inductive LeaderState where
  | exited
  | alive
  | unknown
  deriving DecidableEq

inductive DescendantsState where
  | verifiedClear
  | owned
  | unknown
  deriving DecidableEq

/-- Why a signal was not delivered. -/
inductive SignalRefusal where
  | exited
  | identityUnverifiable
  | identityMismatch
  | notGroupLeader
  | other
  deriving DecidableEq

structure RetirementResult where
  leader : LeaderState
  descendants : DescendantsState
  /-- Of each signal, why it was refused, if it was. -/
  signals : List (Option SignalRefusal) := []
  error : Bool := false

def retirementSettled (result : RetirementResult) : Bool :=
  if result.leader ≠ .exited || result.descendants = .owned || result.error then false
  else !result.signals.any fun refusal => refusal.isSome && refusal ≠ some .exited

/-- A terminal whose creation identity was never read. -/
def unverified (vanished : Bool) : RetirementResult :=
  if vanished then { leader := .exited, descendants := .unknown }
  else { leader := .unknown, descendants := .unknown, error := true }

/-- What a cleanup waits for. The first four belong to the cleanup of an exit, the others to that of a removal. -/
inductive CleanupStage where
  | captureOwnedGroup
  | sweepGroup
  | recordExit
  | closeHistoryOfExit
  | leaderVanished
  | captureDescendants
  | retire
  | retireDescendants (result : RetirementResult)
  | recordRetirement (result : RetirementResult)
  | closeHistory (result : RetirementResult)

/-- A cleanup that was started: what it waits for, or how it ended. -/
inductive Cleanup where
  | running (stage : CleanupStage)
  | resolved
  | rejected

inductive CleanupReason where
  | exit
  | remove

/-- A removal that was asked for and is remembered: it waits for a cleanup, by its place, or is over. -/
inductive RemoveOperation where
  | waiting (cleanup : ℕ)
  | resolved
  | rejected
  deriving DecidableEq

/-- Who answers for letting go of processes nothing proved had stopped. -/
structure Authorization where
  actorId : String
  reason : String
  named : actorId ≠ "" ∧ reason ≠ ""

/-- How far a dispose has come with this terminal. -/
inductive DisposeStage where
  | queued
  | removing
  | removed
  | ended
  deriving DecidableEq

structure RetiringSession where
  /-- Whether the sessions map holds it. -/
  held : Bool := true
  committed : Bool := false
  exited : Bool := false
  removed : Bool := false
  subscribers : ℕ := 0
  orphanTimer : Bool := true
  /-- Whether its creation identity was read, and whether it has a launch record to write. -/
  identity : Bool
  recorded : Bool
  /-- `cleanup` is "unresolved", and `persistence` is "unavailable". -/
  unresolved : Bool := false
  unavailable : Bool := false
  cleanupResult : Option RetirementResult := none
  cleanups : List Cleanup := []
  cleanupOperation : Option ℕ := none
  removeOperation : Option RemoveOperation := none
  retentionTimers : ℕ := 0
  abandons : List Authorization := []
  disposals : List DisposeStage := []

/-- What an await is answered: the parts that its stage reads. -/
structure CleanupAnswer where
  rejects : Bool := false
  vanished : Bool := false
  result : RetirementResult := { leader := .exited, descendants := .verifiedClear }
  recorded : Bool := true

namespace RetiringSession

/-- Whether this terminal must stay addressable. -/
def retained (s : RetiringSession) : Bool := s.unresolved || s.unavailable

def drop (s : RetiringSession) : RetiringSession := { s with held := false, removed := true }

/-- The synchronous start of a cleanup, and what it leaves the cleanup at. -/
def cleanupSessionOwned (reason : CleanupReason) (s : RetiringSession) : RetiringSession × Cleanup :=
  if s.removed then (s, .resolved)
  else
    match reason with
    | .exit => ({ s with orphanTimer := false }, .running (if s.identity then .captureOwnedGroup else .closeHistoryOfExit))
    | .remove => ({ s with removed := true, orphanTimer := false, subscribers := 0 },
        .running (if s.identity then .captureDescendants else .leaderVanished))

/-- The cleanup that is remembered, or a new one; by its place. -/
def cleanupSession (reason : CleanupReason) (s : RetiringSession) : RetiringSession × ℕ :=
  match s.cleanupOperation with
  | some cleanup => (s, cleanup)
  | none =>
    let (s, started) := cleanupSessionOwned reason s
    ({ s with cleanups := s.cleanups ++ [started], cleanupOperation := some s.cleanups.length }, s.cleanups.length)

/-- Those who called `remove` go on, a dispose among them. -/
def removeAnswered (rejected : Bool) (s : RetiringSession) : RetiringSession :=
  { s with
    removeOperation := if !rejected && s.retained then none else s.removeOperation
    disposals := s.disposals.map fun stage =>
      if stage = .removing then (if rejected then .ended else .removed) else stage }

/-- A removal goes on once the cleanup it waited for is over. -/
def removeSettled (rejected : Bool) (s : RetiringSession) : RetiringSession :=
  if rejected then { s with removeOperation := some .rejected }.removeAnswered true
  else
    let s := { s with removeOperation := some .resolved }
    (if !s.retained && s.held then s.drop else s).removeAnswered false

/-- A call of `remove` on a terminal the map holds. -/
def remove (s : RetiringSession) : RetiringSession :=
  match s.removeOperation with
  | some (.waiting _) => s
  | some .resolved => s.removeAnswered false
  | some .rejected => s.removeAnswered true
  | none =>
    let (s, cleanup) := s.cleanupSession .remove
    match s.cleanups[cleanup]? with
    | some .resolved => s.removeSettled false
    | some .rejected => s.removeSettled true
    | _ => { s with removeOperation := some (.waiting cleanup) }

/-- A cleanup moves on to what it waits for next. -/
def waitFor (cleanup : ℕ) (stage : CleanupStage) (s : RetiringSession) : RetiringSession :=
  { s with cleanups := s.cleanups.set cleanup (.running stage) }

/-- A cleanup is over, and with it the removal that waited for it. -/
def finish (cleanup : ℕ) (rejected : Bool) (s : RetiringSession) : RetiringSession :=
  let s := { s with cleanups := s.cleanups.set cleanup (if rejected then .rejected else .resolved) }
  if s.removeOperation = some (.waiting cleanup) then s.removeSettled rejected else s

/-- A removal's cleanup knows its result and lets the history close. -/
def retired (cleanup : ℕ) (result : RetirementResult) (s : RetiringSession) : RetiringSession :=
  { s with cleanupResult := some result }.waitFor cleanup (.closeHistory result)

/-- One await of a cleanup answered. -/
def proceed (cleanup : ℕ) (answer : CleanupAnswer) (s : RetiringSession) : CleanupStage → RetiringSession
  | .captureOwnedGroup => s.waitFor cleanup .sweepGroup
  | .sweepGroup =>
    if answer.rejects then s.finish cleanup true
    else s.waitFor cleanup (if s.recorded then .recordExit else .closeHistoryOfExit)
  | .recordExit => { s with unavailable := !answer.recorded }.waitFor cleanup .closeHistoryOfExit
  | .closeHistoryOfExit => { s with subscribers := 0, retentionTimers := s.retentionTimers + 1 }.finish cleanup false
  | .leaderVanished => s.retired cleanup (unverified (s.exited || answer.vanished))
  | .captureDescendants => s.waitFor cleanup .retire
  | .retire => s.waitFor cleanup (.retireDescendants answer.result)
  | .retireDescendants result =>
    if answer.rejects then s.finish cleanup true
    else if s.recorded then s.waitFor cleanup (.recordRetirement result)
    else s.retired cleanup result
  | .recordRetirement result => { s with unavailable := !answer.recorded }.retired cleanup result
  | .closeHistory result =>
    if !retirementSettled result || s.unavailable then
      { s with
        unresolved := s.unresolved || !retirementSettled result, removed := false, cleanupOperation := none }.finish cleanup false
    else { s with unresolved := false, held := false }.finish cleanup false

def armOrphanTimer (s : RetiringSession) : RetiringSession :=
  if s.committed || s.exited || s.removed || s.orphanTimer then s else { s with orphanTimer := true }

end RetiringSession

inductive RetirementEvent where
  /-- A client attaches, or its replay fails. -/
  | connect (replaySent : Bool)
  | onClose
  | commit
  /-- The native exit, as the terminal's subscription to it hears it. -/
  | exited
  | remove
  | orphanTimer
  | retentionTimer
  | proceed (cleanup : ℕ) (answer : CleanupAnswer)
  | abandon (actorId reason : String)
  /-- The record an abandon tried once more is answered. -/
  | abandonRecorded (i : ℕ) (recorded : Bool)
  | dispose
  | disposeRemove (i : ℕ)
  /-- A dispose has been through every terminal and lets go of what is left. -/
  | disposeSweep (i : ℕ)

def retirementStep (s : RetiringSession) : RetirementEvent → RetiringSession
  | .connect replaySent =>
    if s.held then { s with subscribers := if replaySent then s.subscribers + 1 else s.subscribers, orphanTimer := false } else s
  | .onClose =>
    let s := { s with subscribers := s.subscribers - 1 }
    if s.subscribers = 0 then s.armOrphanTimer else s
  | .commit => if s.held && !s.removed && !s.exited then { s with committed := true, orphanTimer := false } else s
  | .exited => if s.exited || s.removed then s else ({ s with exited := true }.cleanupSession .exit).1
  | .remove => if s.held then s.remove else s
  | .orphanTimer =>
    if s.orphanTimer && s.held then
      let s := { s with orphanTimer := false }
      if s.committed || 0 < s.subscribers || s.exited || s.removed then s else s.remove
    else s
  | .retentionTimer =>
    if s.retentionTimers = 0 then s
    else
      let s := { s with retentionTimers := s.retentionTimers - 1 }
      if s.held then { s with subscribers := 0 }.drop else s
  | .proceed cleanup answer =>
    match s.cleanups[cleanup]? with
    | some (.running stage) => s.proceed cleanup answer stage
    | _ => s
  | .abandon actorId reason =>
    if s.held && s.retained then
      if h : actorId ≠ "" ∧ reason ≠ "" then
        if s.cleanupResult.isSome && s.recorded then { s with abandons := s.abandons ++ [⟨actorId, reason, h⟩] } else s.drop
      else s
    else s
  | .abandonRecorded i recorded =>
    if i < s.abandons.length then { s with unavailable := !recorded, abandons := s.abandons.eraseIdx i }.drop else s
  | .dispose =>
    { s with disposals := s.disposals ++ [if s.held then .queued else .removed] }
  | .disposeRemove i =>
    if s.disposals[i]? = some .queued then
      if s.held then { s with disposals := s.disposals.set i .removing }.remove
      else { s with disposals := s.disposals.set i .removed }
    else s
  | .disposeSweep i =>
    if s.disposals[i]? = some .removed then
      let s := { s with disposals := s.disposals.set i .ended }
      if s.held then s.drop else s
    else s

end Claxedo.Pty
