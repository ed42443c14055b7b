import Claxedo.Tasks.Contracts
import Claxedo.Tasks.Store

/-! The checks a request passes before any row is read: each answers the fields that are not valid. -/

namespace Claxedo.Tasks

def boundedField (value path : String) : List InvalidField := if idWithinBound value then [] else [⟨path, .tooLong⟩]

/-- An id that is named has to be there and within bound. -/
def namedField (value path : String) : List InvalidField :=
  if isBlank value then [⟨path, .required⟩] else boundedField value path

def nullableField (value : Option String) (path : String) : List InvalidField :=
  value.elim [] fun value => namedField value path

/-- The reader of ids looks at the bound first. -/
def sessionRefFields (reference : SessionRef) (path : String) : List InvalidField :=
  let id (value path : String) : List InvalidField :=
    if ¬ idWithinBound value then [⟨path, .tooLong⟩] else if isBlank value then [⟨path, .required⟩] else []
  id reference.sessionId (path ++ ".sessionId") ++ id reference.workspaceId (path ++ ".workspaceId")

def validateTitleAndDescription (title description : String) : List InvalidField :=
  (if isBlank title then [⟨"title", .required⟩]
    else if Bounds.taskTitleMax < utf16Length title then [⟨"title", .tooLong⟩] else []) ++
  (if Bounds.taskDescriptionMaxBytes < description.utf8ByteSize then [⟨"description", .tooLong⟩] else [])

def isTaskCreateStatus : TaskStatus → Bool
  | .backlog | .todo => true
  | _ => false

def validateTaskDraft (draft : TaskDraft) : List InvalidField :=
  validateTitleAndDescription draft.title draft.description ++
  namedField draft.projectId "projectId" ++
  nullableField draft.workspaceId "workspaceId" ++
  nullableField draft.parentTaskId "parentTaskId" ++
  (draft.status.elim [] fun status => if isTaskCreateStatus status then [] else [⟨"status", .unknownValue⟩]) ++
  (draft.createdFrom.elim [] fun reference => sessionRefFields reference "createdFrom")

def validateTaskEdit (input : TaskEditInput) : List InvalidField :=
  validateTitleAndDescription input.title input.description ++
  boundedField input.taskId "taskId" ++
  nullableField input.workspaceId "workspaceId"

def validateReparent (input : TaskReparentInput) : List InvalidField :=
  boundedField input.taskId "taskId" ++
  namedField input.projectId "projectId" ++
  (input.parentTaskId.elim [] fun parentTaskId =>
    if isBlank parentTaskId then [⟨"parentTaskId", .required⟩]
    else if parentTaskId = input.taskId then [⟨"parentTaskId", .notAllowed⟩]
    else boundedField parentTaskId "parentTaskId")

theorem validateReparent_ne {input : TaskReparentInput} (h : validateReparent input = []) :
    input.parentTaskId ≠ some input.taskId := by
  intro hself
  obtain ⟨-, hparent⟩ := List.append_eq_nil_iff.mp h
  rw [hself, Option.elim_some] at hparent
  by_cases hblank : isBlank input.taskId = true
  · rw [if_pos hblank] at hparent
    cases hparent
  · rw [if_neg hblank, if_pos rfl] at hparent
    cases hparent

theorem validateTaskDraft_status {draft : TaskDraft} (h : validateTaskDraft draft = []) :
    draft.status.getD .todo = .todo ∨ draft.status.getD .todo = .backlog := by
  obtain ⟨h, -⟩ := List.append_eq_nil_iff.mp h
  obtain ⟨-, hstatus⟩ := List.append_eq_nil_iff.mp h
  rcases hdraft : draft.status with _ | status
  · exact .inl rfl
  · rw [hdraft, Option.elim_some] at hstatus
    cases status with
    | backlog => exact .inr rfl
    | todo => exact .inl rfl
    | doing => cases hstatus
    | needsYou => cases hstatus
    | done => cases hstatus

/-! The commands of the presets and tasks services, the unit a command runs in, and the unit that settles a
Start. -/

open Claxedo.Lib

abbrev TasksM (α : Type) : Type 1 := Program TasksOp Fault α

namespace TasksM

variable {α β : Type}

def port (op : PortOp β) : TasksM β := Program.op (.port op)

def read (op : ReadOp β) : TasksM β := Program.op (.read op)

def write (op : WriteOp β) : TasksM β := Program.op (.write op)

def refuse (detail : TasksErrorDetail) : TasksM α := .throw (.refused detail)

def require (p : Prop) [Decidable p] (detail : TasksErrorDetail) : TasksM Unit := if p then pure () else refuse detail

def found (row : Option α) (detail : TasksErrorDetail) : TasksM α := row.elim (refuse detail) pure

def whenever (p : Prop) [Decidable p] (work : TasksM Unit) : TasksM Unit := if p then work else pure ()

/-- The work for an id that is named, and none for null. -/
def named (id : Option String) (work : String → TasksM α) : TasksM (Option α) :=
  match id with
  | none => pure none
  | some id => do
    let row ← work id
    pure (some row)

end TasksM

open TasksM

def invalid (message : String) (fields : List InvalidField) : TasksErrorDetail := ⟨.invalidInput, message, fields, none, none⟩

def refusal (code : TasksErrorCode) (message : String) : TasksErrorDetail := ⟨code, message, [], none, none⟩

namespace Presets

def owned (actor : TasksActor) (presetId : String) : TasksM Preset := do
  require (¬ isBlank presetId) (invalid "The preset id is not valid" [⟨"presetId", .required⟩])
  require (idWithinBound presetId) (invalid "The preset id is not valid" [⟨"presetId", .tooLong⟩])
  let row ← read (.presetGet (actor.scopeId, presetId))
  found (row.filter fun preset => preset.scopeId = actor.scopeId ∧ preset.ownerId = actor.ownerId)
    (refusal .notFound s!"Preset {presetId} was not found")

def atRevision (preset : Preset) (revision : ℕ) : TasksM Unit :=
  require (preset.revision = revision)
    ⟨.staleRevision, s!"Preset {preset.id} is at revision {preset.revision}", [], some preset, none⟩

def validated (draft : PresetDraft) : TasksM PresetDraft := do
  let checked ← port (.validated draft)
  match checked with
  | .ok draft => pure draft
  | .error detail => refuse detail

def write (next : Preset) (expectedRevision : ℕ) : TasksM Preset := do
  let stored ← TasksM.write (.presetUpdate next expectedRevision)
  require stored (refusal .staleRevision s!"Preset {next.id} changed while it was being saved")
  pure next

def create (actor : TasksActor) (input : PresetDraft) : TasksM Preset := do
  let draft ← validated input
  let now ← port .now
  let id ← port .presetId
  let preset : Preset := ⟨draft, id, 1, actor.scopeId, actor.ownerId, none, now, now⟩
  TasksM.write (.presetInsert preset)
  pure preset

def edit (actor : TasksActor) (input : PresetEditInput) : TasksM Preset := do
  let current ← owned actor input.presetId
  atRevision current input.revision
  let draft ← validated input.toPresetDraft
  let now ← port .now
  write { current with toPresetDraft := draft, revision := current.revision + 1, updatedAt := now } input.revision

def archive (actor : TasksActor) (input : RowInput) : TasksM Preset := do
  let current ← owned actor input.id
  atRevision current input.revision
  require (current.archivedAt = none) (refusal .conflict s!"Preset {current.id} is already archived")
  let now ← port .now
  write { current with revision := current.revision + 1, archivedAt := some now, updatedAt := now } input.revision

def restore (actor : TasksActor) (input : RowInput) : TasksM Preset := do
  let current ← owned actor input.id
  atRevision current input.revision
  require (current.archivedAt ≠ none) (refusal .conflict s!"Preset {current.id} is not archived")
  let now ← port .now
  write { current with revision := current.revision + 1, archivedAt := none, updatedAt := now } input.revision

end Presets

def boundedId (value path : String) : TasksM Unit := do
  require (¬ isBlank value) (invalid "The request is not valid" [⟨path, .required⟩])
  require (idWithinBound value) (invalid "The request is not valid" [⟨path, .tooLong⟩])

/-- The session a record may carry is the one the credential was authenticated as. -/
def provenance (actor : TasksActor) (claimed : Option SessionRef) (path : String) : TasksM (Option SessionRef) := do
  require (∀ session ∈ claimed, actor.session = some session)
    (refusal .forbidden s!"{path} may record only the session this caller's credential is authenticated as")
  pure actor.session

def Access.name : Access → String
  | .read => "read"
  | .write => "write"

def authorize (actor : TasksActor) (projectId : String) (access : Access) : TasksM Unit := do
  let granted ← port (.authorizeProject actor projectId access)
  require granted (refusal .forbidden s!"No {access.name} access to project {projectId}")

def load (actor : TasksActor) (taskId : String) (access : Access) : TasksM Task := do
  boundedId taskId "taskId"
  let row ← read (.taskGet (actor.scopeId, taskId))
  let task ← found (row.filter fun task => task.scopeId = actor.scopeId)
    (refusal .notFound s!"Task {taskId} was not found")
  authorize actor task.projectId access
  pure task

def atRevision (task : Task) (revision : ℕ) : TasksM Unit :=
  require (task.revision = revision)
    ⟨.staleRevision, s!"Task {task.id} is at revision {task.revision}", [], none, some task⟩

/-- `open`. -/
def requireOpen (task : Task) : TasksM Unit :=
  require (task.archivedAt = none) (refusal .conflict s!"Task {task.id} is archived")

def write (next : Task) (expectedRevision : ℕ) : TasksM Task := do
  let stored ← TasksM.write (.taskUpdate next expectedRevision)
  require stored (refusal .staleRevision s!"Task {next.id} changed while it was being saved")
  pure next

/-- The parent as a mutation of a child leaves it. -/
def Task.touched (parent : Task) (now : ℕ) : Task :=
  { parent with revision := parent.revision + 1, childSetRevision := parent.childSetRevision + 1, updatedAt := now }

/-- The parent's revision moves with its child, on the snapshot that admitted the mutation. -/
def touchParent : Option Task → TasksM (Option Task)
  | none => pure none
  | some parent => do
    let now ← port .now
    let next ← write (parent.touched now) parent.revision
    pure (some next)

/-- The parent of a mutation no parent guard applies to. -/
def parentSnapshot (scopeId : String) : Option String → TasksM (Option Task)
  | none => pure none
  | some parentTaskId => read (.taskGet (scopeId, parentTaskId))

def requireOpenParent (actor : TasksActor) (projectId parentTaskId : String) : TasksM Task := do
  let row ← read (.taskGet (actor.scopeId, parentTaskId))
  let parent ← found row (invalid "The parent task was not found" [⟨"parentTaskId", .unknownValue⟩])
  require (parent.projectId = projectId)
    (invalid "A child must stay in its parent's project" [⟨"parentTaskId", .notAllowed⟩])
  require (parent.parentTaskId = none)
    (invalid "Tasks support one level of children" [⟨"parentTaskId", .notAllowed⟩])
  require (parent.archivedAt = none) (refusal .conflict s!"Parent task {parent.id} is archived")
  require (parent.status ≠ .done) (refusal .conflict s!"Parent task {parent.id} is done")
  pure parent

/-- Where a task is filed: under its parent's number, or at the project's next. -/
def filing (scopeId projectId : String) : Option Task → TasksM (ℕ × Option ℕ)
  | some parent => do
    let childNumber ← read (.nextChildNumber (scopeId, parent.id))
    pure (parent.number, some childNumber)
  | none => do
    let number ← read (.nextNumber scopeId projectId)
    pure (number, none)

def insertAttachments (scopeId taskId : String) (now : ℕ) : ℕ → List DecodedAttachmentDraft → TasksM Unit
  | _, [] => pure ()
  | position, draft :: drafts => do
    let id ← port .attachmentId
    TasksM.write (.attachmentInsert
      ⟨id, scopeId, taskId, position, draft.filename, draft.mime, draft.bytes.length, draft.bytes, now⟩)
    insertAttachments scopeId taskId now (position + 1) drafts

def create (actor : TasksActor) (draft : TaskDraft) : TasksM (Task × Option Task) := do
  require (validateTaskDraft draft = []) (invalid "The task is not valid" (validateTaskDraft draft))
  let createdFrom ← provenance actor draft.createdFrom "createdFrom"
  authorize actor draft.projectId .write
  let parent ← named draft.parentTaskId (requireOpenParent actor draft.projectId)
  require (∀ row ∈ parent, ∀ workspaceId ∈ draft.workspaceId, some workspaceId = Task.workspaceId row)
    (invalid "A child keeps its parent's workspace preference" [⟨"workspaceId", .notAllowed⟩])
  let now ← port .now
  let id ← port .taskId
  let filed ← filing actor.scopeId draft.projectId parent
  let task : Task :=
    { id := id, revision := 1, scopeId := actor.scopeId, projectId := draft.projectId, number := filed.1,
      childNumber := filed.2, workspaceId := parent.elim draft.workspaceId Task.workspaceId,
      parentTaskId := draft.parentTaskId, createdFrom := createdFrom, title := draft.title,
      description := draft.description, status := draft.status.getD .todo, childSetRevision := 0,
      archivedAt := none, createdAt := now, updatedAt := now }
  TasksM.write (.taskInsert task)
  insertAttachments actor.scopeId task.id now 0 draft.attachments
  let parent ← touchParent parent
  pure (task, parent)

def edit (actor : TasksActor) (input : TaskEditInput) : TasksM (Task × Option Task) := do
  require (validateTaskEdit input = []) (invalid "The task is not valid" (validateTaskEdit input))
  let current ← load actor input.taskId .write
  atRevision current input.revision
  requireOpen current
  whenever (input.workspaceId ≠ current.workspaceId) do
    let links ← read (.linksByTask (actor.scopeId, current.id))
    require (links = [])
      (invalid "A linked task keeps the workspace its sessions were started in" [⟨"workspaceId", .notAllowed⟩])
  let now ← port .now
  let task ← write
    { current with
      revision := current.revision + 1, title := input.title, description := input.description,
      workspaceId := input.workspaceId, updatedAt := now }
    input.revision
  pure (task, none)

/-- The parent of a status change: reopening a done child takes an open one. -/
def statusParent (actor : TasksActor) (current : Task) (status : TaskStatus) : TasksM (Option Task) :=
  if current.status = .done ∧ status ≠ .done then named current.parentTaskId (requireOpenParent actor current.projectId)
  else parentSnapshot actor.scopeId current.parentTaskId

def setStatus (actor : TasksActor) (input : TaskSetStatusInput) : TasksM (Task × Option Task) := do
  let current ← load actor input.taskId .write
  atRevision current input.revision
  requireOpen current
  whenever (input.status = .done) do
    let unfinished ← read (.countChildren (actor.scopeId, current.id) false (some .done))
    require (unfinished = 0) (refusal .conflict s!"Task {current.id} has {unfinished} unfinished children")
  let parent ← statusParent actor current input.status
  let now ← port .now
  let task ← write { current with revision := current.revision + 1, status := input.status, updatedAt := now } input.revision
  let parent ← touchParent parent
  pure (task, parent)

/-- `hasChildren`, refused. -/
def requireChildless (scopeId taskId : String) (detail : TasksErrorDetail) : TasksM Unit := do
  let children ← read (.countChildren (scopeId, taskId) true none)
  require (children = 0) detail

/-- A task is filed again where it has moved. -/
def refiling (actor : TasksActor) (input : TaskReparentInput) (current : Task) (nextParent : Option Task) :
    TasksM (ℕ × Option ℕ) :=
  if input.projectId ≠ current.projectId ∨ input.parentTaskId ≠ current.parentTaskId then
    filing actor.scopeId input.projectId nextParent
  else pure (current.number, current.childNumber)

def reparent (actor : TasksActor) (input : TaskReparentInput) : TasksM (Task × Option Task) := do
  require (validateReparent input = []) (invalid "The task cannot be reparented" (validateReparent input))
  let current ← load actor input.taskId .write
  atRevision current input.revision
  requireOpen current
  whenever (input.projectId ≠ current.projectId) do
    authorize actor input.projectId .write
    requireChildless actor.scopeId current.id (invalid "Move the children first" [⟨"projectId", .notAllowed⟩])
    let links ← read (.linksByTask (actor.scopeId, current.id))
    require (links = [])
      (invalid "A linked task stays in the project its sessions were started in" [⟨"projectId", .notAllowed⟩])
  whenever (input.parentTaskId ≠ none)
    (requireChildless actor.scopeId current.id
      (invalid "A task with children cannot become a child" [⟨"parentTaskId", .notAllowed⟩]))
  let nextParent ← named input.parentTaskId (requireOpenParent actor input.projectId)
  let formerParent ← parentSnapshot actor.scopeId (current.parentTaskId.filter fun parent => some parent ≠ input.parentTaskId)
  let filed ← refiling actor input current nextParent
  let now ← port .now
  let task ← write
    { current with
      revision := current.revision + 1, projectId := input.projectId, parentTaskId := input.parentTaskId,
      number := filed.1, childNumber := filed.2,
      workspaceId := nextParent.elim current.workspaceId Task.workspaceId, updatedAt := now }
    input.revision
  let _ ← touchParent formerParent
  let parent ← touchParent nextParent
  pure (task, parent)

def archive (actor : TasksActor) (input : RowInput) : TasksM (Task × Option Task) := do
  let current ← load actor input.id .write
  atRevision current input.revision
  requireOpen current
  let living ← read (.countChildren (actor.scopeId, current.id) false none)
  require (living = 0) (refusal .conflict s!"Task {current.id} has {living} children that are not archived")
  let parent ← parentSnapshot actor.scopeId current.parentTaskId
  let now ← port .now
  let task ← write
    { current with revision := current.revision + 1, archivedAt := some now, updatedAt := now } input.revision
  let parent ← touchParent parent
  pure (task, parent)

def restore (actor : TasksActor) (input : RowInput) : TasksM (Task × Option Task) := do
  let current ← load actor input.id .write
  atRevision current input.revision
  require (current.archivedAt ≠ none) (refusal .conflict s!"Task {current.id} is not archived")
  let parent ← named current.parentTaskId (requireOpenParent actor current.projectId)
  let now ← port .now
  let task ← write { current with revision := current.revision + 1, archivedAt := none, updatedAt := now } input.revision
  let parent ← touchParent parent
  pure (task, parent)

/-- `run`: the command's own service. -/
def runCommand (actor : TasksActor) (command : TasksCommand) : TasksM TasksCommandResult :=
  let preset (work : TasksM Preset) : TasksM TasksCommandResult := do
    let preset ← work
    pure (.preset command.type preset)
  let task (work : TasksM (Task × Option Task)) : TasksM TasksCommandResult := do
    let result ← work
    pure (.task command.type result.1 result.2)
  match command with
  | .presetCreate input => preset (Presets.create actor input)
  | .presetEdit input => preset (Presets.edit actor input)
  | .presetArchive input => preset (Presets.archive actor input)
  | .presetRestore input => preset (Presets.restore actor input)
  | .taskCreate input => task (create actor input)
  | .taskEdit input => task (edit actor input)
  | .taskSetStatus input => task (setStatus actor input)
  | .taskReparent input => task (reparent actor input)
  | .taskArchive input => task (archive actor input)
  | .taskRestore input => task (restore actor input)

/-- The unit of `execute`: none where the receipt is there already. -/
def commandUnit (hashRequest : TasksCommand → String) (actor : TasksActor) (request : TasksCommandRequest) :
    TasksM (Option TasksCommandResult) := do
  let receipt ← read (.receiptGet (actor.scopeId, request.clientRequestId))
  if receipt ≠ none then pure none
  else do
    let committed ← runCommand actor request.command
    let now ← port .now
    let stored ← TasksM.write (.receiptPut
      ⟨actor.scopeId, request.clientRequestId, request.command.type, hashRequest request.command, committed, now⟩)
    if stored then pure (some committed)
    else .throw (.raced (refusal .conflict s!"Client request {request.clientRequestId} is already committing"))

/-- What a Start brings to its settlement: the rows its checks passed on, the session its host made and the
rest of the link. -/
structure Settlement where
  actor : TasksActor
  task : Task
  preset : Preset
  slot : ConfigurationSlot
  attempt : ℕ
  configurationDigest : String
  handoffText : Option String
  sessionRef : SessionRef
  continuedFrom : Option SessionRef
  startedFrom : Option SessionRef
  startedBy : SessionStarter
  createdAt : ℕ

def Settlement.link (settlement : Settlement) : TaskSessionLink where
  scopeId := settlement.actor.scopeId
  taskId := settlement.task.id
  slot := settlement.slot
  attempt := settlement.attempt
  sessionRef := settlement.sessionRef
  continuedFrom := settlement.continuedFrom
  presetId := settlement.preset.id
  presetRevision := settlement.preset.revision
  presetNameAtStart := settlement.preset.name
  configurationDigest := settlement.configurationDigest
  handoffText := settlement.handoffText
  startedFrom := settlement.startedFrom
  startedBy := settlement.startedBy
  placement := settlement.preset.execution.placement
  createdAt := settlement.createdAt

/-- The unit of `start`: the link, and whether it is this Start's. -/
def settle (settlement : Settlement) : TasksM (TaskSessionLink × Bool) := do
  let task := settlement.task
  let preset := settlement.preset
  let link := settlement.link
  authorize settlement.actor task.projectId .write
  let asserted ← TasksM.write (.presetAssertRevision (settlement.actor.scopeId, preset.id) preset.revision)
  require asserted (refusal .conflict s!"Preset {preset.id} changed while its session was being created")
  let outcome ← TasksM.write (.linkInsert link)
  match outcome with
  | .exists held => do
    require (held.sessionRef = link.sessionRef ∧ held.configurationDigest = link.configurationDigest)
      (refusal .conflict s!"Slot {link.slot.name} attempt {link.attempt} already holds another session")
    pure (held, false)
  | .inserted => do
    let now ← port .now
    let updated ← TasksM.write (.taskUpdate { task with revision := task.revision + 1, updatedAt := now } task.revision)
    require updated (refusal .conflict s!"Task {task.id} changed while its session was being created")
    pure (link, true)

end Claxedo.Tasks
