import Mathlib.Tactic

/-! The records the Tasks kit stores and exchanges: presets, tasks with their attachments, the links that
name a task's sessions, and the receipts of commands. -/

namespace Claxedo.Tasks

inductive ConfigurationSlot where
  | primary | planning | implementation | review
  deriving DecidableEq

def ConfigurationSlot.name : ConfigurationSlot → String
  | .primary => "primary"
  | .planning => "planning"
  | .implementation => "implementation"
  | .review => "review"

inductive TaskStatus where
  | backlog | todo | doing | needsYou | done
  deriving DecidableEq

inductive PresetPlacement where
  | local | cloud
  deriving DecidableEq

inductive TasksErrorCode where
  | invalidInput | notFound | forbidden | staleRevision | conflict | unsupported | rateLimited
  deriving DecidableEq

structure SessionRef where
  sessionId : String
  workspaceId : String
  deriving DecidableEq

/-- `session` is the one the credential is authenticated as acting from; none for a person. -/
structure TasksActor where
  scopeId : String
  ownerId : String
  session : Option SessionRef := none
  deriving DecidableEq

structure HarnessReference where
  id : String
  access : String
  deriving DecidableEq

structure ModelReference where
  providerID : String
  modelID : String
  deriving DecidableEq

structure ModelConfiguration where
  harness : HarnessReference
  model : ModelReference
  effort : Option String
  deriving DecidableEq

/-- The plugins and skills are catalog identities: a source and a name. -/
inductive PresetExecution where
  | local
  | cloud (plugins skills : List (String × String))
  deriving DecidableEq

def PresetExecution.placement : PresetExecution → PresetPlacement
  | .local => .local
  | .cloud .. => .cloud

/-- A preset always has a primary configuration; the others are there or not. -/
structure PresetConfigurations where
  primary : ModelConfiguration
  planning : Option ModelConfiguration := none
  implementation : Option ModelConfiguration := none
  review : Option ModelConfiguration := none
  deriving DecidableEq

structure PresetDraft where
  name : String
  instructions : String
  execution : PresetExecution
  configurations : PresetConfigurations
  agentStartable : Bool
  deriving DecidableEq

structure Preset extends PresetDraft where
  id : String
  revision : ℕ
  scopeId : String
  ownerId : String
  archivedAt : Option ℕ
  createdAt : ℕ
  updatedAt : ℕ
  deriving DecidableEq

/-- `number` is a root's own or a child's parent's; `childNumber` is none on a root. -/
structure Task where
  id : String
  revision : ℕ
  scopeId : String
  projectId : String
  number : ℕ
  childNumber : Option ℕ
  workspaceId : Option String
  parentTaskId : Option String
  createdFrom : Option SessionRef
  title : String
  description : String
  status : TaskStatus
  childSetRevision : ℕ
  archivedAt : Option ℕ
  createdAt : ℕ
  updatedAt : ℕ
  deriving DecidableEq

structure TaskAttachmentRecord where
  id : String
  scopeId : String
  taskId : String
  position : ℕ
  filename : String
  mime : String
  size : ℕ
  bytes : List UInt8
  createdAt : ℕ
  deriving DecidableEq

inductive SessionStarter where
  | person | agent
  deriving DecidableEq

structure TaskSessionLink where
  scopeId : String
  taskId : String
  slot : ConfigurationSlot
  attempt : ℕ
  sessionRef : SessionRef
  continuedFrom : Option SessionRef
  presetId : String
  presetRevision : ℕ
  presetNameAtStart : String
  configurationDigest : String
  handoffText : Option String
  startedFrom : Option SessionRef
  startedBy : SessionStarter
  placement : PresetPlacement
  createdAt : ℕ
  deriving DecidableEq

inductive InvalidFieldReason where
  | required | type | tooLong | tooMany | duplicate | unknownValue | outOfRange | notAllowed
  deriving DecidableEq

structure InvalidField where
  path : String
  reason : InvalidFieldReason
  deriving DecidableEq

structure TasksErrorDetail where
  code : TasksErrorCode
  message : String
  fields : List InvalidField := []
  currentPreset : Option Preset := none
  currentTask : Option Task := none
  deriving DecidableEq

/-- An image as a create carries it once its base64 is decoded. -/
structure DecodedAttachmentDraft where
  filename : String
  mime : String
  bytes : List UInt8
  deriving DecidableEq

/-- `status` is one a task may be created in, and absent means to do. -/
structure TaskDraft where
  projectId : String
  title : String
  description : String
  workspaceId : Option String := none
  parentTaskId : Option String := none
  status : Option TaskStatus := none
  createdFrom : Option SessionRef := none
  attachments : List DecodedAttachmentDraft := []
  deriving DecidableEq

structure TaskEditInput where
  taskId : String
  revision : ℕ
  title : String
  description : String
  workspaceId : Option String
  deriving DecidableEq

structure TaskSetStatusInput where
  taskId : String
  revision : ℕ
  status : TaskStatus
  deriving DecidableEq

structure TaskReparentInput where
  taskId : String
  revision : ℕ
  parentTaskId : Option String
  projectId : String
  deriving DecidableEq

/-- What `task.archive`, `task.restore`, `preset.archive` and `preset.restore` name: a row and its revision. -/
structure RowInput where
  id : String
  revision : ℕ
  deriving DecidableEq

structure PresetEditInput extends PresetDraft where
  presetId : String
  revision : ℕ
  deriving DecidableEq

inductive TasksCommandName where
  | presetCreate | presetEdit | presetArchive | presetRestore
  | taskCreate | taskEdit | taskSetStatus | taskReparent | taskArchive | taskRestore
  deriving DecidableEq

inductive TasksCommand where
  | presetCreate (input : PresetDraft)
  | presetEdit (input : PresetEditInput)
  | presetArchive (input : RowInput)
  | presetRestore (input : RowInput)
  | taskCreate (input : TaskDraft)
  | taskEdit (input : TaskEditInput)
  | taskSetStatus (input : TaskSetStatusInput)
  | taskReparent (input : TaskReparentInput)
  | taskArchive (input : RowInput)
  | taskRestore (input : RowInput)
  deriving DecidableEq

def TasksCommand.type : TasksCommand → TasksCommandName
  | .presetCreate _ => .presetCreate
  | .presetEdit _ => .presetEdit
  | .presetArchive _ => .presetArchive
  | .presetRestore _ => .presetRestore
  | .taskCreate _ => .taskCreate
  | .taskEdit _ => .taskEdit
  | .taskSetStatus _ => .taskSetStatus
  | .taskReparent _ => .taskReparent
  | .taskArchive _ => .taskArchive
  | .taskRestore _ => .taskRestore

/-- A committed command answers the preset it wrote, or the task and the parent it moved with it. -/
inductive TasksCommandResult where
  | preset (type : TasksCommandName) (preset : Preset)
  | task (type : TasksCommandName) (task : Task) (parent : Option Task)
  deriving DecidableEq

structure TasksCommandReceipt where
  scopeId : String
  clientRequestId : String
  commandName : TasksCommandName
  requestHash : String
  result : TasksCommandResult
  createdAt : ℕ
  deriving DecidableEq

structure TasksCommandRequest where
  clientRequestId : String
  command : TasksCommand
  deriving DecidableEq

namespace Bounds

/-! `TASKS_BOUNDS`, as far as a check here reads it. -/

def taskTitleMax : ℕ := 200
def taskDescriptionMaxBytes : ℕ := 64 * 1024
def idMaxBytes : ℕ := 256

end Bounds

/-- What `trim` takes from the ends of a string. -/
def isWhitespace (c : Char) : Bool :=
  c.val ∈ [0x9, 0xa, 0xb, 0xc, 0xd, 0x20, 0xa0, 0x1680, 0x2028, 0x2029, 0x202f, 0x205f, 0x3000, 0xfeff] ∨
    (0x2000 ≤ c.val ∧ c.val ≤ 0x200a)

/-- `value.trim().length === 0`. -/
def isBlank (value : String) : Bool := value.toList.all isWhitespace

/-- A string's length in UTF-16 code units. -/
def utf16Length (value : String) : ℕ := (value.toList.map fun c => if 0xffff < c.val then 2 else 1).sum

/-- Whether an identifier fits the bound every store key and receipt row is held to. -/
def idWithinBound (value : String) : Bool := value.utf8ByteSize ≤ Bounds.idMaxBytes

end Claxedo.Tasks
