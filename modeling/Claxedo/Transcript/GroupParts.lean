import Mathlib.Tactic

/-! The parts of a transcript's messages, and what each is for the transcript's grouping: reading up, work, a subagent, a question, a
thought, or anything else. -/

namespace Claxedo.Transcript

structure PartRef where
  messageId : String
  partId : String

inductive ToolStatus where
  | pending
  | running
  | completed
  | error
  deriving DecidableEq

/-- The strings that are read of a tool's input. -/
structure ToolInput where
  server : Option String := none
  tool : Option String := none
  intent : Option String := none

structure AgentToolState where
  status : ToolStatus
  input : Option ToolInput := none
  attachmentMimes : List String := []

/-- A part of any type but a tool's and a thought's is read for no more than its type. -/
inductive PartContent where
  | tool (tool : String) (state : AgentToolState)
  | reasoning
  | plain (type : String)

structure AgentContentPart where
  id : String
  content : PartContent

structure GroupablePart where
  messageId : String
  part : AgentContentPart

/-- What follows `start` in `text`, where `text` starts with it. -/
def after (start text : String) : Option String :=
  if start.toList.isPrefixOf text.toList then some (String.ofList (text.toList.drop start.toList.length)) else none

def TOOL_NAME_ALIASES : List (String × String) :=
  [("agent", "task"), ("subagent", "task"), ("spawn_agent", "task"), ("spawnagent", "task"), ("create_subagent", "task"),
    ("mcp__claxedo__create_subagent", "task"), ("claxedo_create_subagent", "task"), ("command", "bash"), ("shell", "bash"),
    ("local_shell", "bash"), ("read_file", "read"), ("write_file", "write"), ("edit_file", "edit"), ("ls", "list"),
    ("askuserquestion", "question"), ("createplan", "exitplanmode"), ("web_search", "websearch")]

def CLAXEDO_TOOL_NAMES : List String :=
  ["task_list", "task_get", "task_create", "task_edit", "task_start", "session_create", "sessions_list", "session_get",
    "session_transcript", "session_send", "session_cancel_turn", "session_handoff", "session_rename", "session_delete",
    "session_changes", "documents_list", "documents_open", "subagent_capabilities", "create_subagent", "subagent_status",
    "subagent_list", "subagent_cancel", "sessions_board", "permission_reply", "question_reply", "question_reject",
    "wait_for_attention", "workspaces_list", "workspace_status", "workspace_checkpoint", "workspace_restore", "workspace_lifecycle",
    "app_plugin_create", "app_plugin_check", "app_plugin_add", "app_plugin_guide", "ui_show", "ui_guide"]

def CONTEXT_GROUP_TOOLS : List String := ["read", "glob", "grep", "list"]

def STANDALONE_TOOLS : List String := ["question"]

def EDIT_TOOL_NAMES : List String := ["edit", "write", "apply_patch"]

def WEB_TOOL_NAMES : List String := ["webfetch", "websearch"]

def HIDDEN_TOOLS : List String := ["todowrite"]

def ANSWER_TOOLS : List String := ["ui_show"]

section
variable (toLowerCase : String → String)

def canonicalToolName (name : String) : String := (TOOL_NAME_ALIASES.lookup (toLowerCase name)).getD (toLowerCase name)

/-- What a tool of one of the servers is called: what the source's loop returns in the server's turn, if it returns. -/
def claxedoToolNameAt (tool : String) (input : Option ToolInput) (server : String) : Option (Option String) :=
  let lowered := toLowerCase tool
  match after ("mcp__" ++ server ++ "__") lowered with
  | some name => some (if name = "" then none else some name)
  | none =>
    match (after (server ++ "_") lowered).filter fun name => name ∈ CLAXEDO_TOOL_NAMES || (server = "claxedo-mcp" && name ≠ "") with
    | some name => some (some name)
    | none =>
      if (input.bind ToolInput.server).map toLowerCase = some server then
        some (some ((((input.bind ToolInput.tool).filter fun tool => tool ≠ "").map toLowerCase).getD lowered))
      else none

def claxedoToolName (tool : String) (input : Option ToolInput) : Option String :=
  (["claxedo-mcp", "claxedo"].findSome? (claxedoToolNameAt toLowerCase tool input)).join

namespace AgentContentPart

def isHiddenTool (part : AgentContentPart) : Bool :=
  match part.content with
  | .tool tool _ => tool ≠ "" && canonicalToolName toLowerCase tool ∈ HIDDEN_TOOLS
  | _ => false

def producedImage (state : AgentToolState) : Bool :=
  state.status = .completed && state.attachmentMimes.any fun mime => (after "image/" mime).isSome

def isStandaloneTool (part : AgentContentPart) : Bool :=
  match part.content with
  | .tool tool _ => tool ≠ "" && canonicalToolName toLowerCase tool ∈ STANDALONE_TOOLS
  | _ => false

def isPendingQuestion (part : AgentContentPart) : Bool :=
  part.isStandaloneTool toLowerCase &&
    match part.content with
    | .tool _ state => state.status = .pending || state.status = .running
    | _ => false

def isClaxedoToolPart (part : AgentContentPart) : Bool :=
  match part.content with
  | .tool tool state => tool ≠ "" && (claxedoToolName toLowerCase tool state.input).isSome
  | _ => false

def isAnswerToolPart (part : AgentContentPart) : Bool :=
  match part.content with
  | .tool tool state => (claxedoToolName toLowerCase tool state.input).getD "" ∈ ANSWER_TOOLS
  | _ => false

def isSubagentToolPart (part : AgentContentPart) : Bool :=
  match part.content with
  | .tool tool state => (tool ≠ "" && canonicalToolName toLowerCase tool = "task") || state.input.bind ToolInput.intent = some "task"
  | _ => false

def isContextGroupTool (part : AgentContentPart) : Bool :=
  match part.content with
  | .tool tool state =>
    canonicalToolName toLowerCase tool ∈ CONTEXT_GROUP_TOOLS && !part.isClaxedoToolPart toLowerCase && !producedImage state
  | _ => false

def isWorkGroupTool (part : AgentContentPart) : Bool :=
  match part.content with
  | .tool tool _ =>
    !(canonicalToolName toLowerCase tool ∈ CONTEXT_GROUP_TOOLS || part.isHiddenTool toLowerCase || part.isStandaloneTool toLowerCase) &&
      !part.isSubagentToolPart toLowerCase && !part.isClaxedoToolPart toLowerCase
  | _ => false

def spawnFailed (part : AgentContentPart) : Bool :=
  match part.content with
  | .tool _ state => state.status = .error
  | _ => false

def isTool (part : AgentContentPart) : Bool :=
  match part.content with
  | .tool .. => true
  | _ => false

def isReasoning (part : AgentContentPart) : Bool :=
  match part.content with
  | .reasoning => true
  | _ => false

def named (names : List String) (part : AgentContentPart) : Bool :=
  match part.content with
  | .tool tool _ => canonicalToolName toLowerCase tool ∈ names
  | _ => false

theorem isTool_of_isWorkGroupTool {part : AgentContentPart} (h : part.isWorkGroupTool toLowerCase = true) : part.isTool = true := by
  unfold isTool
  unfold isWorkGroupTool at h
  rcases hcontent : part.content with tool | _ | type
  · rfl
  · rw [hcontent] at h
    cases h
  · rw [hcontent] at h
    cases h

theorem isTool_of_isReasoning {part : AgentContentPart} (h : part.isReasoning = true) : part.isTool = false := by
  unfold isTool
  unfold isReasoning at h
  rcases hcontent : part.content with tool | _ | type
  · rw [hcontent] at h
    cases h
  · rfl
  · rfl

end AgentContentPart

end

/-! `groupParts`, as the source's one pass over the parts with the starts of its open runs, and the same pass over the runs
themselves. -/

inductive WorkGroupTool where
  | bash
  | edit
  | webfetch

inductive PartGroup where
  | part (key : String) (ref : PartRef) (answer : Bool)
  | context (key : String) (refs : List PartRef)
  | work (key : String) (tool : WorkGroupTool) (refs : List PartRef)
  | agents (key : String) (refs : List PartRef)

namespace PartGroup

def key : PartGroup → String
  | part key _ _ => key
  | context key _ => key
  | work key _ _ => key
  | agents key _ => key

def isPart : PartGroup → Bool
  | part .. => true
  | _ => false

end PartGroup

def groupMembers : PartGroup → List PartRef
  | .part _ ref _ => [ref]
  | .context _ refs => refs
  | .work _ _ refs => refs
  | .agents _ refs => refs

def partRef (item : GroupablePart) : PartRef := ⟨item.messageId, item.part.id⟩

/-- What names a part that stands alone. -/
def GroupablePart.joined (item : GroupablePart) : String := item.messageId ++ ":" ++ item.part.id

section
variable (toLowerCase : String → String)

def workGroupTool (slice : List GroupablePart) : WorkGroupTool :=
  if slice.any fun item => item.part.named toLowerCase EDIT_TOOL_NAMES then .edit
  else if slice.any fun item => item.part.named toLowerCase WEB_TOOL_NAMES then .webfetch
  else .bash

def partGroup (item : GroupablePart) : PartGroup :=
  .part ("part:" ++ item.joined) (partRef item) (item.part.isAnswerToolPart toLowerCase)

/-- What `groupParts` has made, and where its open runs started: the source's -1 is `none`. -/
structure Runs where
  result : List PartGroup := []
  contextStart : Option ℕ := none
  workStart : Option ℕ := none
  taskStart : Option ℕ := none
  thoughtStart : Option ℕ := none

/-- `parts.slice(start, stop)`. -/
def slice (parts : List GroupablePart) (start stop : ℕ) : List GroupablePart := (parts.take stop).drop start

namespace Runs

variable (parts : List GroupablePart)

/-! The source flushes up to an index, `stop` is the index after it. -/

def flushContext (stop : ℕ) (runs : Runs) : Runs :=
  match runs.contextStart with
  | none => runs
  | some start =>
    match parts[start]? with
    | none => { runs with contextStart := none }
    | some first =>
      { runs with
        result := runs.result ++ [.context ("context:" ++ first.part.id) ((slice parts start stop).map partRef)]
        contextStart := none }

def flushWork (stop : ℕ) (runs : Runs) : Runs :=
  match runs.workStart with
  | none => runs
  | some start =>
    match parts[start]? with
    | none => { runs with workStart := none }
    | some first =>
      let slice := slice parts start stop
      if 2 ≤ (slice.filter fun item => item.part.isTool).length then
        { runs with
          result := runs.result ++ [.work ("work:" ++ first.part.id) (workGroupTool toLowerCase slice) (slice.map partRef)]
          workStart := none }
      else { runs with result := runs.result ++ slice.map (partGroup toLowerCase), workStart := none }

def flushTask (stop : ℕ) (runs : Runs) : Runs :=
  match runs.taskStart with
  | none => runs
  | some start =>
    match parts[start]? with
    | none => { runs with taskStart := none }
    | some first =>
      { runs with
        result := runs.result ++ [.agents ("agents:" ++ first.part.id) ((slice parts start stop).map partRef)]
        taskStart := none }

def flushThoughts (stop : ℕ) (runs : Runs) : Runs :=
  match runs.thoughtStart with
  | none => runs
  | some start =>
    { runs with result := runs.result ++ (slice parts start stop).map (partGroup toLowerCase), thoughtStart := none }

/-- One part of the pass. -/
def visit (runs : Runs) (item : GroupablePart) (index : ℕ) : Runs :=
  if item.part.isReasoning then { runs with thoughtStart := runs.thoughtStart.or (some index) }
  else
    let runStart := runs.thoughtStart.getD index
    let isTask := !item.part.isClaxedoToolPart toLowerCase && item.part.isSubagentToolPart toLowerCase && !item.part.spawnFailed
    if item.part.isContextGroupTool toLowerCase then
      let runs := (runs.flushWork toLowerCase parts runStart).flushTask parts runStart
      { runs with contextStart := runs.contextStart.or (some runStart), thoughtStart := none }
    else if item.part.isWorkGroupTool toLowerCase then
      let runs := (runs.flushContext parts runStart).flushTask parts runStart
      { runs with workStart := runs.workStart.or (some runStart), thoughtStart := none }
    else
      let flushed := (runs.flushContext parts runStart).flushWork toLowerCase parts runStart
      let flushed := if !isTask || flushed.thoughtStart.isSome then flushed.flushTask parts runStart else flushed
      let flushed := flushed.flushThoughts toLowerCase parts index
      if isTask then { flushed with taskStart := flushed.taskStart.or (some index) }
      else { flushed with result := flushed.result ++ [partGroup toLowerCase item] }

/-- The runs that are open at the end. -/
def finish (runs : Runs) : List PartGroup :=
  let runEnd := runs.thoughtStart.getD parts.length
  ((((runs.flushContext parts runEnd).flushWork toLowerCase parts runEnd).flushTask parts runEnd).flushThoughts toLowerCase parts
    parts.length).result

end Runs

def groupParts (input : List GroupablePart) : List PartGroup :=
  let parts := input.filter fun item => !item.part.isPendingQuestion toLowerCase
  (parts.zipIdx.foldl (fun runs (item, index) => Runs.visit toLowerCase parts runs item index) {}).finish toLowerCase parts

/-! The same pass, on the runs themselves. -/

/-- What a part is to the pass. -/
inductive Kind where
  | thought
  | context
  | work
  | task
  | single
  deriving DecidableEq

def kind (item : GroupablePart) : Kind :=
  if item.part.isReasoning then .thought
  else if item.part.isContextGroupTool toLowerCase then .context
  else if item.part.isWorkGroupTool toLowerCase then .work
  else if !item.part.isClaxedoToolPart toLowerCase && item.part.isSubagentToolPart toLowerCase && !item.part.spawnFailed then .task
  else .single

/-- The groups made, the run that is open with what it is a run of, and the thoughts that may yet join a run. -/
structure Pass where
  result : List PartGroup := []
  opened : Kind := .single
  run : List GroupablePart := []
  thoughts : List GroupablePart := []

/-- What a run is grouped as. -/
def close : Kind → List GroupablePart → List PartGroup
  | .context, first :: rest => [.context ("context:" ++ first.part.id) ((first :: rest).map partRef)]
  | .work, first :: rest =>
    if 2 ≤ ((first :: rest).filter fun item => item.part.isTool).length then
      [.work ("work:" ++ first.part.id) (workGroupTool toLowerCase (first :: rest)) ((first :: rest).map partRef)]
    else (first :: rest).map (partGroup toLowerCase)
  | .task, first :: rest => [.agents ("agents:" ++ first.part.id) ((first :: rest).map partRef)]
  | _, _ => []

namespace Pass

def closed (pass : Pass) : List PartGroup := pass.result ++ close toLowerCase pass.opened pass.run

/-- A part joins the open run with the thoughts before it, or opens a run of its own with them. -/
def join (pass : Pass) (opened : Kind) (item : GroupablePart) : Pass :=
  if pass.opened = opened then { pass with run := pass.run ++ pass.thoughts ++ [item], thoughts := [] }
  else { result := pass.closed toLowerCase, opened := opened, run := pass.thoughts ++ [item], thoughts := [] }

def step (pass : Pass) (item : GroupablePart) : Pass :=
  match kind toLowerCase item with
  | .thought => { pass with thoughts := pass.thoughts ++ [item] }
  | .context => pass.join toLowerCase .context item
  | .work => pass.join toLowerCase .work item
  | .task =>
    if pass.opened = .task ∧ pass.thoughts = [] then { pass with run := pass.run ++ [item] }
    else { result := pass.closed toLowerCase ++ pass.thoughts.map (partGroup toLowerCase), opened := .task, run := [item] }
  | .single =>
    { result := pass.closed toLowerCase ++ pass.thoughts.map (partGroup toLowerCase) ++ [partGroup toLowerCase item] }

def finish (pass : Pass) : List PartGroup := pass.closed toLowerCase ++ pass.thoughts.map (partGroup toLowerCase)

end Pass

end

end Claxedo.Transcript
