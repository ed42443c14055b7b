import Claxedo.Lib.Table
import Claxedo.Lib.Run

/-! A session's status as the daemon tracks it: the frames of the runtimes it observes, and the snapshots read from them. -/

namespace Claxedo.Activity

open Claxedo.Lib

inductive SessionRowStatusKind where
  | idle | busy | retry | interrupted
  deriving DecidableEq

structure BackgroundWork where
  agents : ℕ
  shells : ℕ
  other : ℕ
  deriving DecidableEq

def NO_BACKGROUND_WORK : BackgroundWork := ⟨0, 0, 0⟩

def backgroundWorkActive (work : BackgroundWork) : Bool := 0 < work.agents + work.shells + work.other

/-- What a session waits for. -/
inductive Asks where
  | permission | question
  deriving DecidableEq

def Asks.name : Asks → String
  | permission => "permission"
  | question => "question"

/-- The key an open request is held under. -/
def pendingKey (asks : Asks) (id : String) : String := asks.name ++ ".asked:" ++ id

/-- A frame of a runtime's events, the session it names first, or none; a reply, a rejection and an expiry settle alike. -/
inductive Frame where
  | status (sessionID : String) (kind : SessionRowStatusKind)
  | idle (sessionID : String)
  | error (sessionID : String)
  | backgroundWork (sessionID : String) (work : BackgroundWork)
  | asked (asks : Asks) (sessionID id : String)
  | settled (asks : Asks) (sessionID requestID : String)
  | other (sessionID : String)

def Frame.sessionID : Frame → String
  | status s _ | idle s | error s | backgroundWork s _ | asked _ s _ | settled _ s _ | other s => s

structure Tracked where
  kind : SessionRowStatusKind
  pending : List String
  backgroundWork : BackgroundWork
  time : ℕ

structure SessionRowStatus where
  kind : SessionRowStatusKind
  awaitingInput : Bool
  backgroundWork : Option BackgroundWork
  time : ℕ

def rowStatus (entry : Tracked) : SessionRowStatus :=
  ⟨entry.kind, !entry.pending.isEmpty, if backgroundWorkActive entry.backgroundWork then some entry.backgroundWork else none,
    entry.time⟩

def sameStatus (a b : SessionRowStatus) : Bool :=
  a.kind = b.kind && a.awaitingInput = b.awaitingInput &&
    a.backgroundWork.getD NO_BACKGROUND_WORK = b.backgroundWork.getD NO_BACKGROUND_WORK

def idle (entry : Tracked) : Bool :=
  entry.kind = .idle && entry.pending.isEmpty && !backgroundWorkActive entry.backgroundWork

/-- A runtime mounted in this process. -/
structure ObservedRuntime where
  id : ℕ
  workspace : String
  deriving DecidableEq

/-- What the tracker tells its caller: a change, or what a snapshot answered. -/
inductive Notice where
  | changed (workspaceId sessionId : String)
  | answered (workspaceId : String) (rows : List (String × SessionRowStatus))

structure Tracker where
  workspaces : List (String × List (String × Tracked))
  attached : List ObservedRuntime

namespace Tracker

def empty : Tracker := ⟨[], []⟩

def sessionsOf (t : Tracker) (workspaceId : String) : List (String × Tracked) :=
  (Assoc.lookup workspaceId t.workspaces).getD []

/-- The entry of a session; idle for one it never saw. -/
def entryOf (t : Tracker) (workspaceId sessionId : String) (now : ℕ) : Tracked :=
  (Assoc.lookup sessionId (t.sessionsOf workspaceId)).getD ⟨.idle, [], NO_BACKGROUND_WORK, now⟩

def setEntry (t : Tracker) (workspaceId sessionId : String) (entry : Tracked) : Tracker :=
  { t with workspaces := Assoc.assign workspaceId (Assoc.assign sessionId entry (t.sessionsOf workspaceId)) t.workspaces }

end Tracker

def addPending (pending : List String) (key : String) : List String :=
  if key ∈ pending then pending else pending ++ [key]

/-- What a frame makes of its session's entry; a frame of another kind makes nothing. -/
def Tracked.apply (entry : Tracked) : Frame → Option Tracked
  | .status _ kind => some { entry with kind }
  | .idle _ | .error _ => some { entry with kind := .idle }
  | .backgroundWork _ work => some { entry with backgroundWork := work }
  | .asked asks _ id => some (if id = "" then entry else { entry with pending := addPending entry.pending (pendingKey asks id) })
  | .settled asks _ requestID =>
    some (if requestID = "" then entry else { entry with pending := entry.pending.filter (· ≠ pendingKey asks requestID) })
  | .other _ => none

def applyFrame (t : Tracker) (workspaceId : String) (frame : Frame) (now : ℕ) : Tracker × List Notice :=
  if frame.sessionID = "" then (t, [])
  else
    let entry := t.entryOf workspaceId frame.sessionID now
    match entry.apply frame with
    | none => (t.setEntry workspaceId frame.sessionID entry, [])
    | some entry' =>
      if sameStatus (rowStatus entry') (rowStatus entry) then (t.setEntry workspaceId frame.sessionID entry', [])
      else (t.setEntry workspaceId frame.sessionID { entry' with time := now }, [.changed workspaceId frame.sessionID])

def runtimeGone (t : Tracker) (workspaceId : String) : Tracker × List Notice :=
  ({ t with workspaces := Assoc.erase workspaceId t.workspaces },
   (t.sessionsOf workspaceId).filterMap fun pair => if idle pair.2 then none else some (.changed workspaceId pair.1))

def mounted (t : Tracker) (runtime : ObservedRuntime) : Tracker :=
  if runtime ∈ t.attached then t else { t with attached := runtime :: t.attached }

def disposed (t : Tracker) (runtime : ObservedRuntime) : Tracker × List Notice :=
  runtimeGone { t with attached := t.attached.filter (· ≠ runtime) } runtime.workspace

/-! ### A snapshot -/

/-- What a runtime answers for a session, and what a snapshot has read of it so far. -/
structure RuntimeSessionActivity where
  kind : SessionRowStatusKind
  pending : List String
  backgroundWork : Option BackgroundWork
  deriving DecidableEq

/-- A row of `/session/status`. -/
structure StatusRow where
  sessionID : String
  kind : SessionRowStatusKind
  backgroundWork : Option BackgroundWork
  deriving DecidableEq

/-- A row of `/permission` or `/question`. -/
structure RequestRow where
  sessionID : String
  id : String
  deriving DecidableEq

def statusRead (rows : List StatusRow) : List (String × RuntimeSessionActivity) :=
  rows.foldl (fun sessions row => Assoc.assign row.sessionID ⟨row.kind, [], row.backgroundWork⟩ sessions) []

def addRequest (asks : Asks) (sessions : List (String × RuntimeSessionActivity)) (row : RequestRow) :
    List (String × RuntimeSessionActivity) :=
  if row.sessionID = "" ∨ row.id = "" then sessions
  else
    let entry := (Assoc.lookup row.sessionID sessions).getD ⟨.idle, [], none⟩
    Assoc.assign row.sessionID { entry with pending := addPending entry.pending (pendingKey asks row.id) } sessions

def requestsRead (asks : Asks) (rows : List RequestRow) (sessions : List (String × RuntimeSessionActivity)) :
    List (String × RuntimeSessionActivity) := rows.foldl (addRequest asks) sessions

/-- The read a snapshot waits for, with what was read before it and the answer once the runtime gave one. -/
inductive Stage where
  | status (answer : Option (Option (List StatusRow)))
  | requests (asks : Asks) (sessions : List (String × RuntimeSessionActivity)) (answer : Option (List RequestRow))
  deriving DecidableEq

structure Snapshot where
  id : ℕ
  workspace : String
  stage : Stage
  deriving DecidableEq

def Snapshot.start (id : ℕ) (workspaceId : String) : Snapshot := ⟨id, workspaceId, .status none⟩

/-- How a read goes on when its answer arrives: with the next read, or with all that was read; none where no runtime is up. -/
inductive Goes where
  | waits
  | reads (stage : Stage)
  | ends (activity : Option (List (String × RuntimeSessionActivity)))

def Stage.answered : Stage → Goes
  | .status none | .requests _ _ none => .waits
  | .status (some none) => .ends none
  | .status (some (some rows)) => .reads (.requests .permission (statusRead rows) none)
  | .requests .permission sessions (some rows) => .reads (.requests .question (requestsRead .permission rows sessions) none)
  | .requests .question sessions (some rows) => .ends (some (requestsRead .question rows sessions))

def tracked (now : ℕ) (activity : RuntimeSessionActivity) : Tracked :=
  ⟨activity.kind, activity.pending, activity.backgroundWork.getD NO_BACKGROUND_WORK, now⟩

/-- A snapshot's end: what it read replaces what the frames had accumulated. -/
def snapshotEnds (t : Tracker) (workspaceId : String) (activity : Option (List (String × RuntimeSessionActivity))) (now : ℕ) :
    Tracker × List Notice :=
  match activity with
  | none => ({ t with workspaces := Assoc.erase workspaceId t.workspaces }, [.answered workspaceId []])
  | some activity =>
    let sessions := activity.map fun pair => (pair.1, tracked now pair.2)
    ({ t with workspaces := Assoc.assign workspaceId sessions t.workspaces },
     [.answered workspaceId (sessions.map fun pair => (pair.1, rowStatus pair.2))])

/-! The runtimes a status tracker observes: what each holds after the frames it sent, the reads in flight, and what the
tracker told. -/

/-- What a runtime holds of a session: its kind, its open requests and its work outside any turn. -/
structure Held where
  kind : SessionRowStatusKind
  requests : List (Asks × String)
  work : BackgroundWork

namespace Held

def idle : Held := ⟨.idle, [], NO_BACKGROUND_WORK⟩

/-- The change a frame tells. -/
def change (h : Held) : Frame → Held
  | .status _ kind => { h with kind }
  | .idle _ | .error _ => { h with kind := .idle }
  | .backgroundWork _ work => { h with work }
  | .asked asks _ id => if id = "" ∨ (asks, id) ∈ h.requests then h else { h with requests := h.requests ++ [(asks, id)] }
  | .settled asks _ requestID =>
    if requestID = "" then h else { h with requests := h.requests.filter (· ≠ (asks, requestID)) }
  | .other _ => h

end Held

/-- A runtime that is up or being torn down: the sessions it knows, and what it holds of each. -/
structure Runtime where
  observed : ObservedRuntime
  sessions : List String
  held : String → Held

namespace Runtime

def start (observed : ObservedRuntime) : Runtime := ⟨observed, [], fun _ => .idle⟩

def sends (r : Runtime) (frame : Frame) : Runtime :=
  if frame.sessionID = "" then r
  else ⟨r.observed, if frame.sessionID ∈ r.sessions then r.sessions else r.sessions ++ [frame.sessionID],
    Function.update r.held frame.sessionID ((r.held frame.sessionID).change frame)⟩

/-- The answer to `/session/status`: the sessions that are not idle or have work. -/
def statusRows (r : Runtime) : List StatusRow :=
  (r.sessions.filter fun s => (r.held s).kind ≠ .idle ∨ backgroundWorkActive (r.held s).work).map fun s =>
    ⟨s, (r.held s).kind, if backgroundWorkActive (r.held s).work then some (r.held s).work else none⟩

/-- The answer to `/permission` or `/question`. -/
def requestRows (r : Runtime) (asks : Asks) : List RequestRow :=
  r.sessions.flatMap fun s => ((r.held s).requests.filter fun request => request.1 = asks).map fun request => ⟨s, request.2⟩

end Runtime

inductive Event where
  | mount (runtime : ObservedRuntime)
  | retire (runtime : ObservedRuntime)
  | dispose (runtime : ObservedRuntime)
  | frame (runtime : ObservedRuntime) (frame : Frame) (now : ℕ)
  | snapshot (id : ℕ) (workspaceId : String)
  | read (id : ℕ)
  | answer (id now : ℕ)
  | fail (id : ℕ)

/-- The tracker, the runtimes with the newest first, the one reads of a workspace go to, the snapshots in flight, and what
the tracker told. -/
structure World where
  tracker : Tracker
  runtimes : List Runtime
  hosts : List (String × ObservedRuntime)
  reads : List Snapshot
  told : List Notice

/-- The runtimes after an event. -/
def runtimesAfter (runtimes : List Runtime) : Event → List Runtime
  | .mount runtime => if runtime ∈ runtimes.map Runtime.observed then runtimes else .start runtime :: runtimes
  | .dispose runtime => runtimes.filter fun r => r.observed ≠ runtime
  | .frame runtime frame _ => runtimes.map fun r => if r.observed = runtime then r.sends frame else r
  | _ => runtimes

/-- The runtime mounted last of a workspace's. -/
def newest (runtimes : List Runtime) (workspaceId : String) : Option Runtime :=
  runtimes.find? fun r => r.observed.workspace = workspaceId

/-- What the newest runtime of a workspace holds of a session; nothing where none is up. -/
def heldOf (runtimes : List Runtime) (workspaceId sessionId : String) : Held :=
  ((newest runtimes workspaceId).map fun r => r.held sessionId).getD .idle

/-- The runtime a workspace's reads go to. -/
def hostOf (σ : World) (workspaceId : String) : Option Runtime :=
  (Assoc.lookup workspaceId σ.hosts).bind fun runtime => σ.runtimes.find? fun r => r.observed = runtime

/-- The runtime answers the read a snapshot waits for. -/
def Stage.sampled (host : Option Runtime) : Stage → Stage
  | .status none => .status (some (host.map Runtime.statusRows))
  | .requests asks sessions none => .requests asks sessions (some ((host.map fun r => r.requestRows asks).getD []))
  | stage => stage

namespace World

def start : World := ⟨.empty, [], [], [], []⟩

def hostsAfter (σ : World) : Event → List (String × ObservedRuntime)
  | .mount runtime =>
    if runtime ∈ σ.runtimes.map Runtime.observed then σ.hosts else Assoc.assign runtime.workspace runtime σ.hosts
  | .retire runtime | .dispose runtime =>
    if Assoc.lookup runtime.workspace σ.hosts = some runtime then Assoc.erase runtime.workspace σ.hosts else σ.hosts
  | _ => σ.hosts

def setStage (reads : List Snapshot) (snap : Snapshot) (stage : Stage) : List Snapshot :=
  reads.map fun snap' => if snap' = snap then { snap with stage } else snap'

def without (reads : List Snapshot) (id : ℕ) : List Snapshot := reads.filter fun snap => snap.id ≠ id

/-- An answer arrives: the snapshot reads on, or replaces what the tracker has. -/
def answered (σ : World) (id now : ℕ) : World :=
  match σ.reads.find? fun snap => snap.id = id with
  | none => σ
  | some snap =>
    match snap.stage.answered with
    | .waits => σ
    | .reads stage => { σ with reads := setStage σ.reads snap stage }
    | .ends activity =>
      let ended := snapshotEnds σ.tracker snap.workspace activity now
      { σ with tracker := ended.1, reads := without σ.reads id, told := σ.told ++ ended.2 }

def step (σ : World) (e : Event) : World :=
  let σ' := { σ with runtimes := runtimesAfter σ.runtimes e, hosts := σ.hostsAfter e }
  match e with
  | .mount runtime => { σ' with tracker := mounted σ.tracker runtime }
  | .retire _ => σ'
  | .dispose runtime =>
    let gone := disposed σ.tracker runtime
    { σ' with tracker := gone.1, told := σ.told ++ gone.2 }
  | .frame runtime frame now =>
    if runtime ∈ σ.tracker.attached then
      let applied := applyFrame σ.tracker runtime.workspace frame now
      { σ' with tracker := applied.1, told := σ.told ++ applied.2 }
    else σ'
  | .snapshot id workspaceId =>
    if id ∈ σ.reads.map Snapshot.id then σ' else { σ' with reads := σ.reads ++ [.start id workspaceId] }
  | .read id =>
    { σ' with reads := σ.reads.map fun snap =>
        if snap.id = id then { snap with stage := snap.stage.sampled (hostOf σ snap.workspace) } else snap }
  | .answer id now => σ.answered id now
  | .fail id => { σ' with reads := without σ.reads id }

end World

def worldOf (events : List Event) : World := Lib.run World.step World.start events

/-! ### What is asked of the tracker -/

/-- What the tracker holds of a session, as a runtime would. -/
structure Agrees (entry : Tracked) (h : Held) : Prop where
  kind : entry.kind = h.kind
  work : entry.backgroundWork = h.work
  requests : ∀ key, key ∈ entry.pending ↔ ∃ request ∈ h.requests, pendingKey request.1 request.2 = key

/-- The three things a row shows. -/
structure Shown where
  kind : SessionRowStatusKind
  awaitingInput : Bool
  work : BackgroundWork

def shownRow (row : SessionRowStatus) : Shown := ⟨row.kind, row.awaitingInput, row.backgroundWork.getD NO_BACKGROUND_WORK⟩

def Held.shown (h : Held) : Shown := ⟨h.kind, !h.requests.isEmpty, h.work⟩

/-- A notice tells a session's status: its change, or a snapshot with it; idle where the snapshot leaves it out. -/
def Notice.Tells (workspaceId sessionId : String) (shown : Shown) : Notice → Prop
  | .changed w s => w = workspaceId ∧ s = sessionId
  | .answered w rows => w = workspaceId ∧ ((Assoc.lookup sessionId rows).map shownRow).getD Held.idle.shown = shown

namespace World

def tracked (σ : World) (workspaceId sessionId : String) : Tracked := σ.tracker.entryOf workspaceId sessionId 0

def held (σ : World) (workspaceId sessionId : String) : Held := heldOf σ.runtimes workspaceId sessionId

/-- No snapshot is in flight. -/
def Quiet (σ : World) : Prop := σ.reads = []

instance (σ : World) : Decidable σ.Quiet := inferInstanceAs (Decidable (_ = _))

/-- Every session is tracked as its runtime holds it, and every change since was told. -/
structure Follows (before σ : World) : Prop where
  tracks : ∀ w s, Agrees (σ.tracked w s) (σ.held w s)
  told : ∀ w s, (before.held w s).shown ≠ (σ.held w s).shown →
    ∃ notice ∈ σ.told.drop before.told.length, notice.Tells w s (σ.held w s).shown

end World

/-! ### When it follows -/

/-- A part of what a runtime holds, by the read that answers it. -/
inductive Part where
  | status
  | requests (asks : Asks)

def Part.Same : Part → Held → Held → Prop
  | .status, h, h' => h.kind = h'.kind ∧ h.work = h'.work
  | .requests asks, h, h' => ∀ id, (asks, id) ∈ h.requests ↔ (asks, id) ∈ h'.requests

def Held.Same (h h' : Held) : Prop := ∀ part : Part, part.Same h h'

/-- The parts a snapshot has read; all, where no runtime was up. -/
def Stage.parts : Stage → List Part
  | .status none => []
  | .status (some none) => [.status, .requests .permission, .requests .question]
  | .status (some (some _)) | .requests .permission _ none => [.status]
  | .requests .permission _ (some _) | .requests .question _ none => [.status, .requests .permission]
  | .requests .question _ (some _) => [.status, .requests .permission, .requests .question]

/-- The parts the next read answers where no runtime is up. -/
def Stage.nextParts : Stage → List Part
  | .status none => [.status, .requests .permission, .requests .question]
  | .requests asks _ none => [.requests asks]
  | _ => []

namespace World

/-- An event changes no part that a snapshot in flight has read. -/
def KeepsRead (σ : World) (e : Event) : Prop :=
  ∀ snap ∈ σ.reads, ∀ part ∈ snap.stage.parts, ∀ s,
    part.Same (σ.held snap.workspace s) (heldOf (runtimesAfter σ.runtimes e) snap.workspace s)

/-- A part that a snapshot in flight has read stays as it is; a runtime is mounted where none holds anything, and disposed
where none that is left does; a frame comes from the newest runtime, or tells nothing new; and a workspace is read while its
runtime is not torn down, or holds nothing of what is read. -/
structure Apart (σ : World) (e : Event) : Prop where
  keepsRead : σ.KeepsRead e
  mount : ∀ runtime, e = .mount runtime → runtime ∉ σ.runtimes.map Runtime.observed →
    ∀ s, (σ.held runtime.workspace s).Same .idle
  dispose : ∀ runtime, e = .dispose runtime → ∀ s, (heldOf (runtimesAfter σ.runtimes e) runtime.workspace s).Same .idle
  frame : ∀ runtime frame now, e = .frame runtime frame now → runtime ∈ σ.runtimes.map Runtime.observed →
    (newest σ.runtimes runtime.workspace).map Runtime.observed = some runtime ∨
      ((σ.held runtime.workspace frame.sessionID).change frame).Same (σ.held runtime.workspace frame.sessionID)
  read : ∀ id, e = .read id → ∀ snap ∈ σ.reads, snap.id = id → Assoc.lookup snap.workspace σ.hosts = none →
    ∀ part ∈ snap.stage.nextParts, ∀ s, part.Same (σ.held snap.workspace s) .idle

end World

end Claxedo.Activity
