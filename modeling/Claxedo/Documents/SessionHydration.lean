import Claxedo.Lib.Attempt
import Claxedo.Lib.ObjectStore
import Claxedo.Lib.Run

/-! A durable document handed to the files of a local session. The manifest and the runtime's own copy of its entry keep the
version the session's text is based on, and the hash of that text; the session's edits go back through a port that takes them
only on that version. One session and one of its documents, whose calls the source runs one after another. -/

namespace Claxedo.Documents

open Claxedo.Lib

inductive HydratedState where
  | active | conflicted
  deriving DecidableEq

structure ManifestEntry (ε : Type) where
  documentId : String
  path : String
  baseVersion : ε
  lastSyncedHash : String
  state : HydratedState
  deriving DecidableEq

structure HydratedDocument (ε : Type) extends ManifestEntry ε where
  error : Option String := none

/-- A file of the session; `unreadable` is one that is too large, is no UTF-8 text or leads out of the workspace. -/
inductive SessionFile where
  | text (markdown : String)
  | unreadable
  deriving DecidableEq

/-- How a file operation or a call of the port goes. A late failure has had its effect, or left something else in a file. -/
inductive Going where
  | succeeds
  | fails
  | failsLate (left : SessionFile)
  deriving DecidableEq

/-- The durable document, the files by their path, the document's manifest entry, what the runtime keeps of it, and how the
operations of the call that runs go. -/
structure Hydration {ε : Type} (etags : Etags ε String) where
  durable : ObjectStore etags Unit
  files : String → Option SessionFile
  manifest : Option (ManifestEntry ε)
  live : Option (HydratedDocument ε)
  goings : List Going

structure HydrateSessionDocumentInput (ε : Type) where
  documentId : String
  displayName : String
  markdown : String
  baseVersion : ε

inductive Resolution where
  | keepSession | useRemote

structure RecoverInput (ε : Type) where
  documentId : String
  displayName : String
  remoteMarkdown : String
  remoteVersion : ε
  resolution : Resolution
  now : ℕ

def operationFailed : String := "The operation failed"

def portRefused : String := "Version conflict"

def isConflicted (documentId : String) : String := "Hydrated document " ++ documentId ++ " is conflicted"

def isNotConflicted (documentId : String) : String := "Hydrated document " ++ documentId ++ " is not conflicted"

def wasNotFound (documentId : String) : String := "Hydrated document " ++ documentId ++ " was not found"

def untracked : String := "Untracked hydrated document already exists"

def unreadableText : String := "Hydrated document is not valid UTF-8 text"

variable {ε : Type} [DecidableEq ε] {etags : Etags ε String}

abbrev Hydrating (etags : Etags ε String) (α : Type) := Attempt String (Hydration etags) α

open Attempt

def going : Hydrating etags Going := fun σ =>
  match σ.goings with
  | [] => (.ok .succeeds, σ)
  | going :: goings => (.ok going, { σ with goings })

/-- An operation that has its effect, fails before it or fails after it. -/
def operation (effect : Hydration etags → Hydration etags) : Hydrating etags Unit := do
  match ← going with
  | .succeeds => change effect
  | .fails => throw operationFailed
  | .failsLate _ => do
    change effect
    throw operationFailed

def readManifest : Hydrating etags (Option (ManifestEntry ε)) := do
  operation id
  let σ ← state
  return σ.manifest

def writeManifest (entry : Option (ManifestEntry ε)) : Hydrating etags Unit :=
  operation fun σ => { σ with manifest := entry }

def pathExists (path : String) : Hydrating etags Bool := do
  let σ ← state
  return (σ.files path).isSome

def readContained (path : String) : Hydrating etags String := do
  operation id
  let σ ← state
  match σ.files path with
  | some (.text markdown) => return markdown
  | some .unreadable => throw unreadableText
  | none => throw operationFailed

def setFile (path : String) (file : SessionFile) (σ : Hydration etags) : Hydration etags :=
  { σ with files := Function.update σ.files path (some file) }

def writeContained (path : String) (content : String) : Hydrating etags Unit := do
  match ← going with
  | .succeeds => change (setFile path (.text content))
  | .fails => throw operationFailed
  | .failsLate left => do
    change (setFile path left)
    throw operationFailed

/-- The port: it accepts a text only when the expected version is the durable one. -/
def syncContent (markdown : String) (expectedVersion : ε) : Hydrating etags ε := do
  match ← going with
  | .fails => throw operationFailed
  | way => do
    let σ ← state
    match σ.durable.put markdown 0 () (some expectedVersion) with
    | (none, _) => throw portRefused
    | (some object, durable) => do
      change fun σ => { σ with durable }
      if way = .succeeds then return object.etag else throw operationFailed

def setLive (live : Option (HydratedDocument ε)) : Hydrating etags Unit := change fun σ => { σ with live }

def persist (document : HydratedDocument ε) : Hydrating etags Unit := do
  let _ ← readManifest
  writeManifest (some document.toManifestEntry)

def parkConflict (document : HydratedDocument ε) (error : String) : Hydrating etags Unit := do
  let document := { document with state := .conflicted, error := some error }
  setLive (some document)
  (persist document).orElse fun _ =>
    setLive (some { document with error := some ("Failed to persist conflict for " ++ document.documentId) })

variable (hash : String → String) (slug : String → String)

/-- The text goes back where it is not the one last synced. -/
def syncEdit (document : HydratedDocument ε) : Hydrating etags Unit := do
  let markdown ← readContained document.path
  if hash markdown = document.lastSyncedHash then return ()
  else do
    let baseVersion ← syncContent markdown document.baseVersion
    let document := { document with baseVersion, lastSyncedHash := hash markdown }
    setLive (some document)
    persist document

/-- The document's own `sync`. A conflict is parked with the entry as it then stands. -/
def sync (document : HydratedDocument ε) : Hydrating etags Unit :=
  if document.state = .conflicted then throw (document.error.getD operationFailed)
  else
    (syncEdit hash document).orElse fun error => do
      let σ ← state
      parkConflict (σ.live.getD document) error
      throw error

def syncHydratedSessionDocuments : Hydrating etags Unit := do
  let σ ← state
  match σ.live with
  | some document => sync hash document
  | none => return ()

/-- What the recorded entry leaves of the request: an edit that was not synced yet goes back and stays in the file. -/
def reconcile (input : HydrateSessionDocumentInput ε) (existing : ManifestEntry ε) : Hydrating etags (ManifestEntry ε × String) := do
  if existing.state = .conflicted then throw (isConflicted input.documentId)
  else if ← pathExists existing.path then do
    let dirty ← readContained existing.path
    if hash dirty = existing.lastSyncedHash then return (existing, input.markdown)
    else do
      let baseVersion ← (syncContent dirty existing.baseVersion).orElse fun error => do
        writeManifest (some { existing with state := .conflicted })
        throw error
      let existing := { existing with baseVersion, lastSyncedHash := hash dirty }
      writeManifest (some existing)
      return (existing, dirty)
  else return (existing, input.markdown)

/-- The file and the entry of a document that is handed to the session. -/
def install (input : HydrateSessionDocumentInput ε) (existing : Option (ManifestEntry ε)) (markdown : String) :
    Hydrating etags (ManifestEntry ε) := do
  operation id
  let target := slug input.displayName ++ ".md"
  let there ← pathExists target
  if existing.isNone ∧ there then throw untracked
  else do
    writeContained target markdown
    let entry : ManifestEntry ε :=
      { documentId := input.documentId, path := target,
        baseVersion := (existing.map ManifestEntry.baseVersion).getD input.baseVersion,
        lastSyncedHash := hash markdown, state := .active }
    writeManifest (some entry)
    return entry

/-- The file and the entry, over what the manifest records. -/
def handOver (input : HydrateSessionDocumentInput ε) : Option (ManifestEntry ε) → Hydrating etags (ManifestEntry ε)
  | some existing => do
    let found ← reconcile hash input existing
    install hash slug input (some found.1) found.2
  | none => install hash slug input none input.markdown

def hydrateSessionDocumentNow (input : HydrateSessionDocumentInput ε) : Hydrating etags String := do
  operation id
  syncHydratedSessionDocuments hash
  let existing ← readManifest
  let entry ← handOver hash slug input existing
  -- the watcher
  operation id
  setLive (some { toManifestEntry := entry })
  return entry.path

def currentHydratedMarkdown (documentId : String) : Hydrating etags String := do
  match ← readManifest with
  | some entry => readContained entry.path
  | none => throw (wasNotFound documentId)

/-- The text of the side that a recovery keeps. -/
def keptMarkdown (input : RecoverInput ε) : Hydrating etags String :=
  match input.resolution with
  | .useRemote => return input.remoteMarkdown
  | .keepSession => currentHydratedMarkdown input.documentId

/-- The entry of a conflict that is settled for one of its sides. -/
def settle (input : RecoverInput ε) (entry : ManifestEntry ε) (localMarkdown : String) : Hydrating etags (ManifestEntry ε) :=
  match input.resolution with
  | .keepSession => do
    let baseVersion ← syncContent localMarkdown input.remoteVersion
    return { entry with baseVersion, lastSyncedHash := hash localMarkdown }
  | .useRemote => do
    writeContained (entry.path ++ ".conflict-" ++ toString input.now ++ ".md") localMarkdown
    writeContained entry.path input.remoteMarkdown
    return { entry with baseVersion := input.remoteVersion, lastSyncedHash := hash input.remoteMarkdown }

def recoverHydratedSessionDocumentNow (input : RecoverInput ε) : Hydrating etags String := do
  setLive none
  operation id
  match ← readManifest with
  | none => throw (isNotConflicted input.documentId)
  | some entry =>
    if entry.state ≠ .conflicted then throw (isNotConflicted input.documentId)
    else do
      let localMarkdown ← readContained entry.path
      let entry ← settle hash input entry localMarkdown
      writeManifest (some { entry with state := .active })
      let markdown ← keptMarkdown input
      hydrateSessionDocumentNow hash slug ⟨input.documentId, input.displayName, markdown, input.remoteVersion⟩

/-- The document's directory goes with its files. A document that fails to sync stays. -/
def disposeHydratedSessionDocumentsNow : Hydrating etags Unit := do
  let σ ← state
  match σ.live with
  | none => return ()
  | some document =>
    (do sync hash document
        operation fun σ => { σ with files := fun _ => none }
        let _ ← readManifest
        writeManifest none
        setLive none).orElse fun _ => return ()

/-- The watcher of the document's directory fails. -/
def reportWatcherError (error : String) : Hydrating etags Unit := do
  let σ ← state
  match σ.live with
  | some document => parkConflict document error
  | none => return ()

/-! ### Runs -/

/-- The calls on the document, how their operations go, and what happens between them: the process restarts, the agent leaves
a file or takes it away, the durable document changes. A caller hands over one of the durable versions, the `version`-th. -/
inductive HydrationEvent where
  | hydrate (documentId displayName : String) (version : ℕ) (goings : List Going)
  | synced (goings : List Going)
  | recovered (documentId displayName : String) (version : ℕ) (resolution : Resolution) (now : ℕ) (goings : List Going)
  | disposed (goings : List Going)
  | watcherFailed (error : String) (goings : List Going)
  | restarted
  | edited (path : String) (file : Option SessionFile)
  | changed (markdown : String)

namespace Hydration

/-- The content and the name of a durable version. -/
def versionAt (σ : Hydration etags) (version : ℕ) : Option (String × ε) :=
  σ.durable.uploads[version]?.map fun upload => (upload.2, etags.tag version upload.2)

def call {α : Type} (σ : Hydration etags) (goings : List Going) (code : Hydrating etags α) : Hydration etags :=
  { code.after { σ with goings } with goings := [] }

def step (σ : Hydration etags) : HydrationEvent → Hydration etags
  | .hydrate documentId displayName version goings =>
    match σ.versionAt version with
    | some (markdown, baseVersion) =>
      σ.call goings (hydrateSessionDocumentNow hash slug ⟨documentId, displayName, markdown, baseVersion⟩)
    | none => σ
  | .synced goings => σ.call goings (syncHydratedSessionDocuments hash)
  | .recovered documentId displayName version resolution now goings =>
    match σ.versionAt version with
    | some (markdown, remoteVersion) =>
      σ.call goings (recoverHydratedSessionDocumentNow hash slug ⟨documentId, displayName, markdown, remoteVersion, resolution, now⟩)
    | none => σ
  | .disposed goings => σ.call goings (disposeHydratedSessionDocumentsNow hash)
  | .watcherFailed error goings => σ.call goings (reportWatcherError error)
  | .restarted => { σ with live := none }
  | .edited path file => { σ with files := Function.update σ.files path file }
  | .changed markdown => { σ with durable := σ.durable.upload markdown 0 () }

/-- The durable document is there before a session is. -/
def start (markdown : String) : Hydration etags := ⟨ObjectStore.empty.upload markdown 0 (), fun _ => none, none, none, []⟩

end Hydration

def hydrationOf (markdown : String) (events : List HydrationEvent) : Hydration etags :=
  run (Hydration.step hash slug) (Hydration.start markdown) events

/-- A durable version has the entry's base version for its name and the entry's hash for its content's. -/
def Based (durable : ObjectStore etags Unit) (entry : ManifestEntry ε) : Prop :=
  ∃ given, Uploaded etags durable.uploads () given ∧ given.etag = entry.baseVersion ∧ hash given.body = entry.lastSyncedHash

/-- The port would refuse an edit now, and the durable document has changed since the version the session was given. -/
def Overtaken (durable : ObjectStore etags Unit) (entry : ManifestEntry ε) : Prop :=
  ∃ given standing, Uploaded etags durable.uploads () given ∧ given.etag = entry.baseVersion ∧
    hash given.body = entry.lastSyncedHash ∧ durable.objects () = some standing ∧ given.version < standing.version

/-- The entry's hash is of the text of its base version, so that an edit is refused only where the document has changed since. -/
structure Hydration.BasedOnText (σ : Hydration etags) : Prop where
  text : ∀ entry, σ.manifest = some entry → Based hash σ.durable entry
  refused : ∀ entry, σ.manifest = some entry →
    ObjectStore.Allows (some entry.baseVersion) (σ.durable.objects ()) = false → Overtaken hash σ.durable entry

/-- The request's text is the one the entry was last synced with, unless an edit in the file takes its place or stops the call. -/
def Hydration.recordedText (σ : Hydration etags) (markdown : String) : Bool :=
  match σ.manifest with
  | some entry =>
    match entry.state, σ.files entry.path with
    | .conflicted, _ => true
    | .active, some .unreadable => true
    | .active, some (.text edit) => hash edit ≠ entry.lastSyncedHash || hash markdown = entry.lastSyncedHash
    | .active, none => hash markdown = entry.lastSyncedHash
  | none => true

/-- A document is handed over again with the text that the session last synced, counting an edit that the runtime syncs first. -/
def Hydration.givenAgain (σ : Hydration etags) : HydrationEvent → Bool
  | .hydrate _ _ version _ =>
    match σ.versionAt version, σ.live with
    | some (markdown, _), some document =>
      match document.state, σ.files document.path with
      | .conflicted, _ => true
      | .active, some (.text edit) =>
        if hash edit = document.lastSyncedHash then σ.recordedText hash markdown else hash markdown = hash edit
      | .active, _ => true
    | some (markdown, _), none => σ.recordedText hash markdown
    | none, _ => true
  | _ => true

end Claxedo.Documents
