import Claxedo.Lib.ObjectStore
import Claxedo.Lib.Run

/-! The history of a hosted document: one metadata object and one content object for each snapshot, and a head object that
holds the highest stamp ever issued, so that a write does not have to list history to find it. -/

namespace Claxedo.Documents

open Claxedo.Lib

inductive Lifecycle where
  | active | pending | deleting | deletingFinal
  deriving DecidableEq

structure SnapshotState where
  id : String
  size : ℕ
  reason : String
  actor : String
  sessionId : Option String
  createdAt : ℕ
  pins : List String
  state : Lifecycle
  leaseUntil : Option ℕ
  deleteAfter : Option ℕ
  deriving DecidableEq

/-- What an object of the document holds; `unreadable` is a body that parses as none of these. -/
inductive DocumentObject where
  | text (markdown : String)
  | snapshot (state : SnapshotState)
  | head (createdAt : ℕ)
  | unreadable
  deriving DecidableEq

inductive ObjectKey where
  | content (id : String)
  | metadata (id : String)
  | head
  deriving DecidableEq

namespace ObjectKey

/-- The key's text under the history's prefix; the head is not under it. -/
def historyName : ObjectKey → Option String
  | content id => some (id ++ ".md")
  | metadata id => some (id ++ ".json")
  | head => none

def snapshotId : ObjectKey → Option String
  | metadata id => some id
  | _ => none

end ObjectKey

def PENDING_SNAPSHOT_LEASE_MS : ℕ := 5 * 60000

def corrupt : String := "Snapshot is corrupt"

def notFound : String := "Snapshot is not found"

def conflict : String := "Version conflict"

variable {ε : Type} [DecidableEq ε] {etags : Etags ε DocumentObject}

abbrev DocumentStore (etags : Etags ε DocumentObject) := ObjectStore etags ObjectKey

def parseSnapshotState (body : DocumentObject) (id : String) : Except String SnapshotState :=
  match body with
  | .snapshot state => if state.id = id then .ok state else .error corrupt
  | _ => .error corrupt

def parseHistoryHead : DocumentObject → Option ℕ
  | .head createdAt => some createdAt
  | _ => none

/-- The objects under the history's prefix in key order; a bounded listing stops at its limit. -/
def listHistory (store : DocumentStore etags) (limit : ℕ) : List ObjectKey :=
  ((store.list fun key => key.historyName.isSome).insertionSort fun a b =>
    a.historyName.getD "" ≤ b.historyName.getD "").take limit

def readHistory (store : DocumentStore etags) (limit : ℕ) : Except String (List SnapshotState) :=
  ((listHistory store limit).filterMap ObjectKey.snapshotId).mapM fun id =>
    match store.objects (.metadata id) with
    | none => .error notFound
    | some object => parseSnapshotState object.body id

/-- The highest stamp, and the etag of the head object it was read from. -/
def latestStamp (store : DocumentStore etags) (limit : ℕ) : Except String (ℕ × Option ε) :=
  let head := store.objects .head
  match head.bind fun object => parseHistoryHead object.body with
  | some stamp => .ok (stamp, head.map StoredObject.etag)
  | none => do
    let history ← readHistory store limit
    return (history.foldl (fun highest state => max highest state.createdAt) 0, head.map StoredObject.etag)

/-- How the update of the head goes: it lands, it fails, or another write of the head comes before it. -/
inductive HeadUpdate where
  | lands
  | fails
  | loses (body : DocumentObject)

/-- Best-effort. -/
def recordStamp (store : DocumentStore etags) (stamp : ℕ) (etag : Option ε) (now : ℕ) : HeadUpdate → DocumentStore etags
  | .lands => (store.put (.head stamp) now .head etag).2
  | .fails => store
  | .loses body => ((store.upload body now .head).put (.head stamp) now .head etag).2

def finalizeSnapshot (store : DocumentStore etags) (id : String) (now : ℕ) : Except String (DocumentStore etags) :=
  match store.objects (.metadata id) with
  | none => .error notFound
  | some object => do
    let snapshot ← parseSnapshotState object.body id
    if snapshot.state = .active then return store
    else if snapshot.state = .pending then
      match store.put (.snapshot { snapshot with state := .active, leaseUntil := none }) now (.metadata id) (some object.etag) with
      | (some _, store) => return store
      | (none, _) => .error conflict
    else .error conflict

structure CaptureRequest where
  reason : String
  actor : String
  sessionId : Option String

/-- A capture: the text and the request, the state its snapshot is stored in, what the clock answers first and then, the
limit of a listing, and how the update of the head goes. -/
structure Capture where
  markdown : String
  request : CaptureRequest
  state : Lifecycle
  now : ℕ
  later : ℕ
  limit : ℕ
  update : HeadUpdate

/-- What a capture answers: the snapshot that was there, or the new one. -/
inductive Captured where
  | existing (snapshot : SnapshotState)
  | created (snapshot : SnapshotState)

variable (hash : String → String) (size : String → ℕ)

def newSnapshot (c : Capture) (createdAt : ℕ) : SnapshotState where
  id := hash c.markdown
  size := size c.markdown
  reason := c.request.reason
  actor := c.request.actor
  sessionId := c.request.sessionId
  createdAt := createdAt
  pins := []
  state := c.state
  leaseUntil := if c.state = .pending then some (c.later + PENDING_SNAPSHOT_LEASE_MS) else none
  deleteAfter := none

def captureMarkdown (store : DocumentStore etags) (c : Capture) : Except String (Captured × DocumentStore etags) :=
  let id := hash c.markdown
  match store.objects (.metadata id) with
  | some existing => do
    let value ← parseSnapshotState existing.body id
    if c.state = .active ∧ value.state = .pending then
      let store ← finalizeSnapshot store id c.now
      return (.existing value, store)
    else return (.existing value, store)
  | none => do
    let (stamp, etag) ← latestStamp store c.limit
    let createdAt := max c.now (stamp + 1)
    let metadata := newSnapshot hash size c createdAt
    let store := (store.put (.text c.markdown) c.now (.content id) none).2
    match store.put (.snapshot metadata) c.now (.metadata id) none with
    | (none, _) => .error conflict
    | (some _, store) => return (.created metadata, recordStamp store createdAt etag c.now c.update)

/-- Newest first. -/
def newestFirst (a b : SnapshotState) : Prop := b.createdAt < a.createdAt ∨ b.createdAt = a.createdAt ∧ b.id ≤ a.id

instance (a b : SnapshotState) : Decidable (newestFirst a b) := inferInstanceAs (Decidable (_ ∨ _))

def listSnapshots (store : DocumentStore etags) (limit : ℕ) : Except String (List SnapshotState) := do
  let history ← readHistory store limit
  return (history.filter fun snapshot => snapshot.state = .active).insertionSort newestFirst

/-! ### Runs -/

structure Stamp where
  id : String
  createdAt : ℕ
  deriving DecidableEq

def SnapshotState.stamp (snapshot : SnapshotState) : Stamp := ⟨snapshot.id, snapshot.createdAt⟩

/-- What happens to a document's history between two captures, besides them: retention removes a snapshot, or a sweep, a pin
or a finished write rewrites its metadata, and the head object is lost or overwritten. -/
inductive HistoryEvent where
  | capture (c : Capture)
  | removed (id : String)
  | rewritten (id : String) (state : Lifecycle) (pins : List String) (leaseUntil deleteAfter : Option ℕ)
  | headChanged (body : Option DocumentObject)

/-- The store, and the stamps given so far in their order. -/
structure History (etags : Etags ε DocumentObject) where
  store : DocumentStore etags
  stored : List Stamp

namespace History

def start : History etags := ⟨.empty, []⟩

def rewrite (store : DocumentStore etags) (id : String) (change : SnapshotState → SnapshotState) : DocumentStore etags :=
  match store.objects (.metadata id) with
  | none => store
  | some object =>
    match parseSnapshotState object.body id with
    | .ok state => (store.put (.snapshot (change state)) 0 (.metadata id) (some object.etag)).2
    | .error _ => store

def step (σ : History etags) : HistoryEvent → History etags
  | .capture c =>
    match captureMarkdown hash size σ.store c with
    | .ok (.created snapshot, store) => ⟨store, σ.stored ++ [snapshot.stamp]⟩
    | .ok (.existing _, store) => { σ with store }
    | .error _ => σ
  | .removed id => { σ with store := (σ.store.delete (.content id)).delete (.metadata id) }
  | .rewritten id state pins leaseUntil deleteAfter =>
    { σ with store := rewrite σ.store id fun snapshot => { snapshot with state, pins, leaseUntil, deleteAfter } }
  | .headChanged none => { σ with store := σ.store.delete .head }
  | .headChanged (some body) => { σ with store := σ.store.upload body 0 .head }

end History

def historyOf (events : List HistoryEvent) : History etags := Lib.run (History.step hash size) History.start events

/-- Every stamp is larger than those given before it, and the snapshots are listed by their creation. -/
structure History.StampsIncrease (σ : History etags) : Prop where
  stamps : σ.stored.Pairwise fun earlier later => earlier.createdAt < later.createdAt
  listed : ∀ limit listed, listSnapshots σ.store limit = .ok listed → (listed.map SnapshotState.stamp).Sublist σ.stored.reverse

/-- What the head object says, where it can be read. -/
def History.headStamp (σ : History etags) : Option ℕ := (σ.store.objects .head).bind fun object => parseHistoryHead object.body

/-- A new snapshot comes with the clock past every stamp given so far, or with a head object that is not behind them; or, where
that cannot be read, with a history that lists one as late as each. -/
def History.HeadKept (σ : History etags) : HistoryEvent → Prop
  | .capture c => σ.store.objects (.metadata (hash c.markdown)) = none →
    (∀ earlier ∈ σ.stored, earlier.createdAt < c.now) ∨
      match σ.headStamp with
      | some stamp => ∀ earlier ∈ σ.stored, earlier.createdAt ≤ stamp
      | none => ∀ history, readHistory σ.store c.limit = .ok history →
        ∀ earlier ∈ σ.stored, ∃ kept ∈ history, earlier.createdAt ≤ kept.createdAt
  | _ => True

end Claxedo.Documents
