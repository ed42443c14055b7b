import Claxedo.Lib.Flight
import Claxedo.Lib.ObjectStore

/-! The job authority of hosted documents: one object for a session and a document names the capability that is active.
Opening, renewing, resolving and disposing each read it, work, and write it later; between the two any other call may
write. What such a call awaits besides the object is answered from outside, also by throwing. -/

namespace Claxedo.Documents

open Claxedo.Lib

/-- The name of a minted token: the n-th one minted, so that no two share it. -/
abbrev Jti := ℕ

structure HostedDocumentJob where
  orgId : String
  projectId : String
  workspaceId : String
  jobExpiresAt : ℤ
  activeJti : Jti
  sealedAuth : String
  deriving DecidableEq

inductive DocumentJobRecord where
  | expired (jobExpiresAt : ℤ)
  | hosted (job : HostedDocumentJob)
  deriving DecidableEq

/-- `parseJobRecord`: a record that was written with an empty scope does not read back. -/
def parseJobRecord : DocumentJobRecord → Except String DocumentJobRecord
  | .expired jobExpiresAt => .ok (.expired jobExpiresAt)
  | .hosted job => if job.orgId = "" ∨ job.projectId = "" then .error "Document job authority is corrupt" else .ok (.hosted job)

structure DocumentIndexEntry where
  orgId : String
  projectId : String
  workspaceId : Option String := none
  archivedAt : Option String := none
  deriving DecidableEq

structure DocumentSessionClaims where
  jti : Jti
  jobExpiresAt : ℤ
  deriving DecidableEq

/-- What a runtime presents: a token, which verification reads, and the scope it claims. -/
structure CapabilityInput where
  orgId : String
  projectId : String
  workspaceId : String
  deriving DecidableEq

abbrev JobObject (ε : Type) := StoredObject ε DocumentJobRecord

inductive JobOp (ε : Type) : Type → Type
  | get : JobOp ε (Except String (Option (JobObject ε)))
  | put (record : DocumentJobRecord) (etag : Option ε) : JobOp ε (Except String (Option (JobObject ε)))
  | nowSeconds : JobOp ε ℤ
  | mintDocumentSessionToken : JobOp ε (Except String Jti)
  | verifyDocumentSessionToken : JobOp ε (Except String DocumentSessionClaims)
  | openJobAuth (sealedAuth : String) : JobOp ε (Except String String)
  | sealJobAuth (subject : String) : JobOp ε (Except String String)
  | resolveSessionWorkspace : JobOp ε (Except String String)
  | find : JobOp ε (Except String (Option DocumentIndexEntry))
  -- an authorisation, a read or write of the document, a request to the runtime
  | work : JobOp ε (Except String Unit)

abbrev JobProgram (ε : Type) := Program (JobOp ε) String

/-- What the deployment configures. -/
structure HostedDocumentsOptions where
  resolve : Bool := true
  resolveSessionWorkspace : Bool := true
  deriving DecidableEq

section
variable {ε : Type} {β : Type}

/-- Awaits an operation that may throw. -/
def awaited (op : JobOp ε (Except String β)) : JobProgram ε β :=
  .ask op fun answer => match answer with
    | .ok b => .done b
    | .error message => .throw message

def putJobFrom (job : HostedDocumentJob) : ℕ → JobProgram ε Unit
  | 0 => .throw "Document job authority update conflicted"
  | attempts + 1 => do
    let current ← awaited .get
    let written ← awaited (.put (.hosted job) (current.map (·.etag)))
    if written.isSome then pure () else putJobFrom job attempts

/-- Whatever stands is replaced: each attempt writes over what it has just read. -/
def putJob (job : HostedDocumentJob) : JobProgram ε Unit := putJobFrom job 3

def loadJob : JobProgram ε (JobObject ε × HostedDocumentJob) := do
  let object ← awaited .get
  match object with
  | none => .throw "Document job authority is unavailable"
  | some object =>
    match parseJobRecord object.body with
    | .error message => .throw message
    | .ok (.expired _) => .throw "Document job authority expired"
    | .ok (.hosted job) => do
      let now ← Program.op .nowSeconds
      if job.jobExpiresAt ≤ now then do
        let _ ← awaited (.put (.expired job.jobExpiresAt) (some object.etag))
        .throw "Document job authority expired"
      else pure (object, job)

def expireJobFrom : ℕ → Option Jti → JobProgram ε Unit
  | 0, _ => .throw "Document job capability expiration conflicted"
  | attempts + 1, targetJti => do
    let object ← awaited .get
    match object with
    | none => pure ()
    | some object =>
      match parseJobRecord object.body with
      | .error message => .throw message
      | .ok (.expired _) => pure ()
      | .ok (.hosted job) =>
        if job.activeJti ≠ targetJti.getD job.activeJti then pure ()
        else do
          let written ← awaited (.put (.expired job.jobExpiresAt) (some object.etag))
          if written.isSome then pure () else expireJobFrom attempts (some (targetJti.getD job.activeJti))

/-- Expires the capability it is given, or the one that its first read finds active, and no other. -/
def expireJob (activeJti : Option Jti) : JobProgram ε Unit := expireJobFrom 3 activeJti

def activeJob (input : CapabilityInput) : JobProgram ε (JobObject ε × HostedDocumentJob) := do
  let loaded ← loadJob
  let claims ← awaited .verifyDocumentSessionToken
  let now ← Program.op .nowSeconds
  let job := loaded.2
  if job.activeJti ≠ claims.jti ∨ job.jobExpiresAt ≠ claims.jobExpiresAt ∨ claims.jobExpiresAt ≤ now ∨
      job.orgId ≠ input.orgId ∨ job.projectId ≠ input.projectId ∨ job.workspaceId ≠ input.workspaceId then
    .throw "Document job capability is inactive"
  else do
    let _ ← awaited (.openJobAuth job.sealedAuth)
    awaited .work
    pure loaded

def liveEntry (input : CapabilityInput) : JobProgram ε (DocumentIndexEntry × JobObject ε × HostedDocumentJob) := do
  let job ← activeJob input
  let entry ← awaited .find
  match entry with
  | none => .throw "Hosted document is unavailable"
  | some entry => pure (entry, job)

/-- The active capability gives way to a fresh one of the same job, if the job is still the one that was read. -/
def rotate (loaded : JobObject ε × HostedDocumentJob) (conflicted : String) : JobProgram ε Unit := do
  let next ← awaited .mintDocumentSessionToken
  let rotated ← awaited (.put (.hosted { loaded.2 with activeJti := next }) (some loaded.1.etag))
  if rotated.isSome then pure () else .throw conflicted

variable (options : HostedDocumentsOptions)

def placed (workspaceId : String) : JobProgram ε Unit :=
  if options.resolveSessionWorkspace then do
    let current ← awaited .resolveSessionWorkspace
    if current ≠ workspaceId then .throw "Session placement changed" else pure ()
  else pure ()

def openingWorkspace (entry : DocumentIndexEntry) : JobProgram ε String :=
  if options.resolveSessionWorkspace then awaited .resolveSessionWorkspace else pure (entry.workspaceId.getD "")

/-- `agentOpen` over the broker's `open`. A failure before `registeredJti` is set is passed on as it is. -/
def agentOpen (entry : DocumentIndexEntry) (auth : Option String) : JobProgram ε Unit := do
  match auth with
  | none => .throw "Hosted document hydration requires signed authentication"
  | some auth => do
    awaited .work
    let workspaceId ← openingWorkspace options entry
    awaited .work
    let now ← Program.op .nowSeconds
    let jobExpiresAt := now + 60 * 60
    let sealedAuth ← awaited (.sealJobAuth auth)
    expireJob none
    awaited .work
    let capability ← awaited .mintDocumentSessionToken
    awaited .work
    putJob ⟨entry.orgId, entry.projectId, workspaceId, jobExpiresAt, capability, sealedAuth⟩
    let activated ← Program.op .work
    match activated with
    | .ok () => pure ()
    | .error message => do
      expireJob (some capability)
      .throw message

def runtimeResolve (entry : DocumentIndexEntry) (subject : String) : JobProgram ε Unit := do
  if options.resolve = false ∨ entry.archivedAt.isSome then .throw "Document conflict resolution is unavailable"
  else do
    let loaded ← loadJob
    let job := loaded.2
    let original ← awaited (.openJobAuth job.sealedAuth)
    awaited .work
    let now ← Program.op .nowSeconds
    -- a minted jti is never empty
    if job.jobExpiresAt ≤ now ∨ original ≠ subject ∨ job.orgId ≠ entry.orgId ∨ job.projectId ≠ entry.projectId then
      .throw "Document conflict job is inactive"
    else do
      placed options job.workspaceId
      awaited .work
      rotate loaded "Document conflict capability rotation conflicted"
      awaited .work

def runtimeDispose (input : CapabilityInput) : JobProgram ε Unit := do
  let loaded ← activeJob input
  let tombstoned ← awaited (.put (.expired loaded.2.jobExpiresAt) (some loaded.1.etag))
  if tombstoned.isSome then pure () else .throw "Document job disposal conflicted"

def runtimeWriteback (entry : DocumentIndexEntry) (input : CapabilityInput) : JobProgram ε Unit := do
  let _ ← activeJob input
  if entry.orgId ≠ input.orgId ∨ entry.projectId ≠ input.projectId then .throw "Document write-back scope is invalid"
  else if entry.archivedAt.isSome then .throw "Archived documents cannot be written back"
  else awaited .work

def runtimeRenew (entry : DocumentIndexEntry) (input : CapabilityInput) : JobProgram ε Unit := do
  if entry.archivedAt.isSome then .throw "Document renewal job is inactive"
  else do
    let live ← liveEntry input
    let currentEntry := live.1
    let job := live.2.2
    let now ← Program.op .nowSeconds
    if currentEntry.archivedAt.isSome ∨ job.jobExpiresAt ≤ now then .throw "Document renewal job is inactive"
    else do
      placed options job.workspaceId
      if currentEntry.orgId ≠ input.orgId ∨ currentEntry.projectId ≠ input.projectId then
        .throw "Document renewal scope is invalid"
      else rotate live.2 "Document capability rotation conflicted"

/-- The calls on one job. -/
inductive JobCall where
  | agentOpen (entry : DocumentIndexEntry) (auth : Option String)
  | runtimeResolve (entry : DocumentIndexEntry) (subject : String)
  | runtimeDispose (input : CapabilityInput)
  | runtimeWriteback (entry : DocumentIndexEntry) (input : CapabilityInput)
  | runtimeRenew (entry : DocumentIndexEntry) (input : CapabilityInput)
  deriving DecidableEq

def jobProgram : JobCall → JobProgram ε Unit
  | .agentOpen entry auth => agentOpen options entry auth
  | .runtimeResolve entry subject => runtimeResolve options entry subject
  | .runtimeDispose input => runtimeDispose input
  | .runtimeWriteback entry input => runtimeWriteback entry input
  | .runtimeRenew entry input => runtimeRenew options entry input

end

/-- What the object store does with a request: it answers, it throws, or it throws with the request carried out. -/
inductive Storage where
  | answers | throws | answerLost
  deriving DecidableEq

/-- What the outside answers at a step. -/
structure Outside where
  storage : Storage := .answers
  now : ℤ := 0
  mints : Except String Unit := .ok ()
  claims : Except String DocumentSessionClaims := .error ""
  text : Except String String := .ok ""
  entry : Except String (Option DocumentIndexEntry) := .ok none
  works : Except String Unit := .ok ()

structure JobWorld {ε : Type} (etags : Etags ε DocumentJobRecord) where
  store : ObjectStore etags Unit
  minted : ℕ

variable {ε : Type} [DecidableEq ε] {etags : Etags ε DocumentJobRecord}

def jobAnswers : Answers (JobOp ε) Outside (JobWorld etags)
  | _, outside, .get, world =>
    match outside.storage with
    | .answers => (.ok (world.store.objects ()), world)
    | .throws | .answerLost => (.error "unavailable", world)
  | _, outside, .put record etag, world =>
    match outside.storage with
    | .answers =>
      let (written, store) := world.store.put record (1000 * outside.now) () etag
      (.ok written, { world with store := store })
    | .throws => (.error "unavailable", world)
    | .answerLost => (.error "unavailable", { world with store := (world.store.put record (1000 * outside.now) () etag).2 })
  | _, outside, .nowSeconds, world => (outside.now, world)
  | _, outside, .mintDocumentSessionToken, world =>
    match outside.mints with
    | .ok () => (.ok world.minted, { world with minted := world.minted + 1 })
    | .error message => (.error message, world)
  | _, outside, .verifyDocumentSessionToken, world => (outside.claims, world)
  | _, outside, .openJobAuth _, world => (outside.text, world)
  | _, outside, .sealJobAuth _, world => (outside.text, world)
  | _, outside, .resolveSessionWorkspace, world => (outside.text, world)
  | _, outside, .find, world => (outside.entry, world)
  | _, outside, .work, world => (outside.works, world)

end Claxedo.Documents
