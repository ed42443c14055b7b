import Claxedo.Presentation.State

/-! A tool call's part: how it is drawn, and what each kind of report keeps of the call and publishes. -/

namespace Claxedo.Presentation

open Claxedo.Lib

/-- What a part of a call is drawn from. -/
structure ToolReport where
  toolCallId : String
  tool : String
  stateInput : Record
  status : ToolStatus
  metadata : Record
  now : ℕ
  output : Option String := none
  error : Option String := none
  retracted : Option String := none

def attachmentParts (toolCallId : String) : State → ℕ → List RuntimeToolAttachment → State × List FilePart
  | ctx, _, [] => (ctx, [])
  | ctx, index, attachment :: rest =>
    let key := toolCallId ++ "-attachment-" ++ toString index
    let minted := seqId ctx key (ctx.assistantMsgId ++ "-" ++ key)
    let parts := attachmentParts toolCallId minted.1 (index + 1) rest
    (parts.1, ⟨minted.2, ctx.assistantMsgId, attachmentPart attachment⟩ :: parts.2)

def toolAttachments (ctx : State) (toolCallId : String) : State × List FilePart :=
  attachmentParts toolCallId ctx 0 ((Assoc.lookup toolCallId ctx.toolAttachmentsByCallId).getD [])

def toolState (input : ToolReport) (attachments : List FilePart) : ToolState :=
  match input.status with
  | .pending => .pending input.stateInput (Json.stringify (.obj input.stateInput))
  | .running => .running input.stateInput input.metadata input.now
  | .completed =>
    .completed input.stateInput (input.output.getD "") input.tool input.metadata input.now attachments
  | .error => .error input.stateInput (input.error.getD "tool failed") input.metadata input.now

def toolPart (ctx : State) (input : ToolReport) : State × ToolPart :=
  let minted := seqId ctx input.toolCallId (ctx.assistantMsgId ++ "-" ++ input.toolCallId)
  let attachments := toolAttachments minted.1 input.toolCallId
  (attachments.1,
   ⟨minted.2, ctx.assistantMsgId, input.toolCallId, input.tool, toolState input attachments.2, input.retracted⟩)

def toolEvent (ctx : State) (input : ToolReport) : State × Payload :=
  let part := toolPart ctx input
  (part.1, .partUpdated (.tool part.2) input.now)

/-- One part published, and `before` in front of it. -/
def publish (before : List Payload) (event : State × Payload) : State × List Payload := (event.1, before ++ [event.2])

def compatToolStatus : RuntimeToolStatus → ToolStatus
  | .pending => .pending
  | .running => .running
  | .completed => .completed
  | .failed => .error

def duplicateTerminalDiagnostic : Payload := .diagnostic "projection.client_presentation.duplicate_terminal_tool_update"

def TOOL_NAME_ALIASES : List (String × String) :=
  [("agent", "task"), ("subagent", "task"), ("spawn_agent", "task"), ("spawnagent", "task"), ("create_subagent", "task"),
   ("mcp__claxedo__create_subagent", "task"), ("claxedo_create_subagent", "task"), ("command", "bash"), ("shell", "bash"),
   ("local_shell", "bash"), ("read_file", "read"), ("write_file", "write"), ("edit_file", "edit"), ("ls", "list"),
   ("askuserquestion", "question"), ("createplan", "exitplanmode"), ("web_search", "websearch")]

def canonicalToolName (name : String) : String :=
  (Assoc.lookup name.toLower TOOL_NAME_ALIASES).getD name.toLower

def statusOf (ctx : State) (toolCallId : String) : Option ToolStatus := Assoc.lookup toolCallId ctx.toolStatusByCallId

def toolNameOf (ctx : State) (toolCallId : String) : String :=
  (Assoc.lookup toolCallId ctx.toolNamesByCallId).getD toolCallId

/-- What a report leaves known of its call. -/
structure Known where
  input : Record
  metadata : Record
  display : ToolDisplay

def mergedMetadata (ctx : State) (toolCallId : String) (metadata : Option Record) : Record :=
  mergeMetadata (Assoc.lookup toolCallId ctx.toolMetadataByCallId) metadata

def mergedDisplay (ctx : State) (toolCallId : String) (display : Option ToolDisplay) : ToolDisplay :=
  mergeDisplay (Assoc.lookup toolCallId ctx.toolDisplaysByCallId) display

def hydrated (ctx : State) (toolCallId tool : String) (metadata : Record) (display : ToolDisplay) : Known :=
  ⟨hydrateToolInput tool (Assoc.lookup toolCallId ctx.toolInputsByCallId) metadata (some display), metadata, display⟩

def keep (ctx : State) (toolCallId : String) (known : Known) : State :=
  { ctx with
    toolInputsByCallId := Assoc.assign toolCallId known.input ctx.toolInputsByCallId
    toolMetadataByCallId := Assoc.assign toolCallId known.metadata ctx.toolMetadataByCallId
    toolDisplaysByCallId := Assoc.assign toolCallId known.display ctx.toolDisplaysByCallId }

def setStatus (ctx : State) (toolCallId : String) (status : ToolStatus) : State :=
  { ctx with toolStatusByCallId := Assoc.assign toolCallId status ctx.toolStatusByCallId }

def setOutput (ctx : State) (toolCallId output : String) : State :=
  { ctx with toolOutputsByCallId := Assoc.assign toolCallId output ctx.toolOutputsByCallId }

def setError (ctx : State) (toolCallId error : String) : State :=
  { ctx with toolErrorsByCallId := Assoc.assign toolCallId error ctx.toolErrorsByCallId }

/-- An output without attachments leaves the ones that are kept. -/
def setAttachments (ctx : State) (toolCallId : String) (attachments : List RuntimeToolAttachment) : State :=
  if attachments.isEmpty then ctx
  else { ctx with toolAttachmentsByCallId := Assoc.assign toolCallId attachments ctx.toolAttachmentsByCallId }

/-- The output of a completed call as it was kept. -/
def keptOutput (ctx : State) (toolCallId : String) : String :=
  (Assoc.lookup toolCallId ctx.toolOutputsByCallId).getD ""

def keptError (ctx : State) (toolCallId : String) : String :=
  (Assoc.lookup toolCallId ctx.toolErrorsByCallId).getD "tool failed"

/-- The call as it is kept, published in a status: a completed call with its output, a failed one with its error. -/
def asKept (ctx : State) (toolCallId tool : String) (stateInput : Record) (status : ToolStatus) (metadata : Record)
    (now : ℕ) : State × Payload :=
  toolEvent ctx
    { toolCallId, tool, stateInput, status, metadata, now
      output := if status = .completed then some (keptOutput ctx toolCallId) else none
      error := if status = .error then some (keptError ctx toolCallId) else none }

def translateToolStart (ctx : State) (toolCallId toolName : String) (display metadata : Option Record) (now : ℕ) :
    State × List Payload :=
  let tool := if toolName = "" then toolCallId else canonicalToolName toolName
  let known := hydrated ctx toolCallId tool (mergedMetadata ctx toolCallId metadata) (mergedDisplay ctx toolCallId display)
  let ctx := keep { ctx with toolNamesByCallId := Assoc.assign toolCallId tool ctx.toolNamesByCallId } toolCallId known
  let status := (statusOf ctx toolCallId).getD .running
  if status.isTerminal then
    publish [.diagnostic "projection.client_presentation.tool_metadata_after_terminal"]
      (asKept ctx toolCallId tool known.input status known.metadata now)
  else
    publish [] (toolEvent (setStatus ctx toolCallId status)
      { toolCallId, tool, stateInput := known.input, status, metadata := known.metadata, now })

/-- What an input report leaves known of its call. -/
def inputKnown (ctx : State) (toolCallId : String) (input : Json) (display metadata : Option Record) : Known :=
  let raw : Record := (asRecord (some input)).getD [("raw", input)]
  let next := if raw.isEmpty then none else some (normalizeInputKeys raw)
  let merged := mergedMetadata ctx toolCallId metadata
  let shown := mergedDisplay ctx toolCallId display
  ⟨hydrateToolInput (toolNameOf ctx toolCallId)
    (some (mergeInput (Assoc.lookup toolCallId ctx.toolInputsByCallId) next)) merged (some shown), merged, shown⟩

def translateToolInput (ctx : State) (toolCallId : String) (input : Json) (display metadata : Option Record)
    (now : ℕ) : State × List Payload :=
  let tool := toolNameOf ctx toolCallId
  let known := inputKnown ctx toolCallId input display metadata
  if known.input.isEmpty && known.metadata.isEmpty then (ctx, [])
  else
    publish [] (toolEvent (setStatus (keep ctx toolCallId known) toolCallId .running)
      { toolCallId, tool, stateInput := known.input, status := .running, metadata := known.metadata, now })

def translateToolStatus (ctx : State) (toolCallId : String) (status : RuntimeToolStatus) (display metadata : Option Record)
    (now : ℕ) : State × List Payload :=
  let tool := toolNameOf ctx toolCallId
  let known := hydrated ctx toolCallId tool (mergedMetadata ctx toolCallId metadata) (mergedDisplay ctx toolCallId display)
  let status := compatToolStatus status
  publish [] (asKept (setStatus (keep ctx toolCallId known) toolCallId status) toolCallId tool known.input status
    known.metadata now)

def isDiffOrTerminal (content : Record) : Bool :=
  asString (content.field "type") = some "diff" || asString (content.field "type") = some "terminal"

def translateToolContent (ctx : State) (toolCallId : String) (content : Record) (display metadata : Option Record)
    (now : ℕ) : State × List Payload :=
  let tool := toolNameOf ctx toolCallId
  let reported := mergeMetadata metadata (some [("acp", .obj [("content", .arr [.obj content])])])
  let known := hydrated ctx toolCallId tool (mergedMetadata ctx toolCallId (some reported))
    (mergedDisplay ctx toolCallId display)
  let status := (statusOf ctx toolCallId).getD .running
  let contentText := toolContentText content
  let event := toolEvent (keep ctx toolCallId known)
    { toolCallId, tool, stateInput := known.input, status, metadata := known.metadata, now
      output := if status = .completed then contentText else none }
  if contentText.isSome || isDiffOrTerminal content then publish [] event
  else publish [.diagnostic "projection.client_presentation.lossy_runtime_event"] event

def isTerminal (ctx : State) (toolCallId : String) : Bool := (statusOf ctx toolCallId).any ToolStatus.isTerminal

/-- What an output report leaves known of its call. -/
def outputKnown (ctx : State) (toolCallId : String) (display metadata : Option Record) : Known :=
  hydrated ctx toolCallId (toolNameOf ctx toolCallId) (withoutOutputText (mergedMetadata ctx toolCallId metadata))
    (mergedDisplay ctx toolCallId display)

def formattedOutput (ctx : State) (toolCallId : String) (output : Json) (display metadata : Option Record) : Formatted :=
  let known := outputKnown ctx toolCallId display metadata
  formatToolOutput output known.input known.metadata

def translateToolOutput (ctx : State) (toolCallId : String) (output : Json) (attachments : List RuntimeToolAttachment)
    (display metadata : Option Record) (now : ℕ) : State × List Payload :=
  let tool := toolNameOf ctx toolCallId
  let known := outputKnown ctx toolCallId display metadata
  let formatted := formattedOutput ctx toolCallId output display metadata
  if isTerminal ctx toolCallId then (ctx, [duplicateTerminalDiagnostic])
  else
    let ctx := setOutput (setStatus (keep ctx toolCallId known) toolCallId .completed) toolCallId formatted.value
    let ctx := setAttachments ctx toolCallId attachments
    publish (if formatted.issues.isEmpty then [] else [.diagnostic "projection.client_presentation.unserializable_output"])
      (toolEvent ctx
        { toolCallId, tool, stateInput := known.input, status := .completed, metadata := known.metadata, now
          output := some formatted.value })

def translateToolError (ctx : State) (toolCallId error : String) (display metadata : Option Record) (now : ℕ) :
    State × List Payload :=
  let tool := toolNameOf ctx toolCallId
  let known := hydrated ctx toolCallId tool (mergedMetadata ctx toolCallId metadata) (mergedDisplay ctx toolCallId display)
  if isTerminal ctx toolCallId then (ctx, [duplicateTerminalDiagnostic])
  else
    let ctx := setError (setStatus (keep ctx toolCallId known) toolCallId .error) toolCallId error
    publish [] (toolEvent ctx
      { toolCallId, tool, stateInput := known.input, status := .error, metadata := known.metadata, now, error := some error })

def locationJson (location : ToolLocation) : Json :=
  .obj (("path", .str location.path) :: (location.line.map fun line => ("line", Json.num line)).toList)

def translateToolLocation (ctx : State) (toolCallId : String) (locations : List ToolLocation) (now : ℕ) :
    State × List Payload :=
  let tool := toolNameOf ctx toolCallId
  let input := normalizeLocationInput tool ((Assoc.lookup toolCallId ctx.toolInputsByCallId).getD []) locations
  let metadata := mergedMetadata ctx toolCallId
    (some [("acp", .obj [("locations", .arr (locations.map locationJson))])])
  let ctx := { ctx with
    toolInputsByCallId := Assoc.assign toolCallId input ctx.toolInputsByCallId
    toolMetadataByCallId := Assoc.assign toolCallId metadata ctx.toolMetadataByCallId }
  publish [] (toolEvent ctx { toolCallId, tool, stateInput := input, status := .running, metadata, now })

def translateToolTerminal (ctx : State) (toolCallId terminalId : String) (now : ℕ) : State × List Payload :=
  let tool := toolNameOf ctx toolCallId
  let input := (Assoc.lookup toolCallId ctx.toolInputsByCallId).getD []
  let metadata := mergedMetadata ctx toolCallId (some [("acp", .obj [("terminalId", .str terminalId)])])
  let status := (statusOf ctx toolCallId).getD .running
  let ctx := { ctx with toolMetadataByCallId := Assoc.assign toolCallId metadata ctx.toolMetadataByCallId }
  publish [] (asKept ctx toolCallId tool input status metadata now)

/-- The calls a retraction withdraws, and why. -/
structure Withdrawn where
  tools : List String
  reason : String

def isOpen : ToolStatus → Bool
  | .pending | .running => true
  | _ => false

def terminalizeTool (error : String) (now : ℕ) (withdrawn : Option Withdrawn) (ctx : State) (toolCallId : String) :
    State × Payload :=
  let tool := toolNameOf ctx toolCallId
  let metadata := (Assoc.lookup toolCallId ctx.toolMetadataByCallId).getD []
  let input := hydrateToolInput tool (Assoc.lookup toolCallId ctx.toolInputsByCallId) metadata
    (Assoc.lookup toolCallId ctx.toolDisplaysByCallId)
  let ctx := { ctx with toolInputsByCallId := Assoc.assign toolCallId input ctx.toolInputsByCallId }
  let ctx := setError (setStatus ctx toolCallId .error) toolCallId error
  toolEvent ctx
    { toolCallId, tool, stateInput := input, status := .error, metadata, now, error := some error
      retracted := withdrawn.map Withdrawn.reason }

def terminalizeEach (error : String) (now : ℕ) (withdrawn : Option Withdrawn) :
    State → List (String × ToolStatus) → State × List Payload
  | ctx, [] => (ctx, [])
  | ctx, (toolCallId, status) :: rest =>
    if !isOpen status || withdrawn.any (fun withdrawn => toolCallId ∉ withdrawn.tools) then
      terminalizeEach error now withdrawn ctx rest
    else
      let event := terminalizeTool error now withdrawn ctx toolCallId
      let events := terminalizeEach error now withdrawn event.1 rest
      (events.1, event.2 :: events.2)

def terminalizeOpenTools (ctx : State) (error : String) (now : ℕ) (withdrawn : Option Withdrawn) : State × List Payload :=
  terminalizeEach error now withdrawn ctx ctx.toolStatusByCallId

/-! A reply's text and reasoning parts, the responses that wrote them, its notices, and the row its parts hang from. -/

inductive DeltaKind where
  | text | reasoning
  deriving DecidableEq

def DeltaKind.name : DeltaKind → String
  | .text => "text"
  | .reasoning => "reasoning"

def partSeq (ctx : State) : DeltaKind → ℕ
  | .text => ctx.textPartSeq
  | .reasoning => ctx.reasoningPartSeq

def partKey (ctx : State) (kind : DeltaKind) : String :=
  ctx.assistantMsgId ++ "-" ++ kind.name ++ (if 0 < partSeq ctx kind then "-" ++ toString (partSeq ctx kind) else "")

/-- The parts go on as new ones. -/
def split (ctx : State) : State := { ctx with splitText := true, splitReasoning := true }

/-- The part a delta goes to, after a split a new one. -/
def splitPart (ctx : State) (kind : DeltaKind) : State :=
  let ahead := if seen ctx (partKey ctx kind) then 1 else 0
  match kind with
  | .text => { ctx with textPartSeq := ctx.textPartSeq + (if ctx.splitText then ahead else 0), splitText := false }
  | .reasoning =>
    { ctx with reasoningPartSeq := ctx.reasoningPartSeq + (if ctx.splitReasoning then ahead else 0), splitReasoning := false }

def emptyPart (ctx : State) (kind : DeltaKind) (id : String) (now : ℕ) : ContentPart :=
  match kind with
  | .text => .text id ctx.assistantMsgId ""
  | .reasoning => .reasoning id ctx.assistantMsgId "" now none

/-- The reasoning part still streaming, one delta later. -/
def stream (ctx : State) (id delta : String) (now : ℕ) : OpenReasoningPart :=
  match ctx.openReasoning with
  | some part =>
    if part.partId = id then { part with text := part.text ++ delta } else ⟨id, ctx.assistantMsgId, now, delta⟩
  | none => ⟨id, ctx.assistantMsgId, now, delta⟩

def deltaText (ctx : State) (kind : DeltaKind) (delta : String) (now : ℕ) : State × List Payload :=
  let ctx := splitPart ctx kind
  let key := partKey ctx kind
  let fresh := !seen ctx key
  let minted := seqId ctx key key
  let ctx := minted.1
  let id := minted.2
  let opened := if fresh then [.partUpdated (emptyPart ctx kind id now) now] else []
  let events := opened ++ [.partDelta ctx.assistantMsgId id delta]
  match kind with
  | .text => ({ ctx with accumulatedText := ctx.accumulatedText ++ delta }, events)
  | .reasoning =>
    ({ ctx with
        accumulatedThinkingText := ctx.accumulatedThinkingText ++ delta
        splitText := true
        openReasoning := some (stream ctx id delta now) }, events)

def endReasoning (ctx : State) (now : ℕ) : State × List Payload :=
  match ctx.openReasoning with
  | none => (ctx, [])
  | some part =>
    ({ ctx with openReasoning := none, splitReasoning := true },
     [.partUpdated (.reasoning part.partId part.messageId part.text part.start (some now)) now])

def RETAINED_RESPONSES_MAX : ℕ := 256

def WITHDRAWN_TOOL : String := "Withdrawn: the model refused this response"

/-- The oldest entries go until `max` stay. -/
def boundKeyedMap {ν : Type*} (map : List (String × ν)) (max : ℕ) : List (String × ν) := map.drop (map.length - max)

def currentMembers (ctx : State) : Option (String × ResponseMembers) :=
  ctx.responses.current.bind fun current =>
    (Assoc.lookup current ctx.responses.members).map fun members => (current, members)

def enterResponse (ctx : State) (responseId : String) : State :=
  let members := match Assoc.lookup responseId ctx.responses.members with
    | some _ => ctx.responses.members
    | none => Assoc.assign responseId ⟨[], []⟩ ctx.responses.members
  split { ctx with responses := ⟨some responseId, boundKeyedMap members RETAINED_RESPONSES_MAX⟩ }

/-- The text and reasoning parts an envelope publishes whole. -/
def writtenPart : Payload → Option PartRef
  | .partUpdated (.text id messageID _) _ => some ⟨messageID, id⟩
  | .partUpdated (.reasoning id messageID ..) _ => some ⟨messageID, id⟩
  | _ => none

def addPart (parts : List PartRef) (part : PartRef) : List PartRef :=
  if parts.any fun known => known.partID = part.partID then parts else parts ++ [part]

def addCall (calls : List String) (toolCallId : String) : List String :=
  if toolCallId ∈ calls then calls else calls ++ [toolCallId]

def startedCall : RuntimeEvent → List String
  | .toolStart toolCallId .. => [toolCallId]
  | _ => []

def recordResponseMembers (ctx : State) (event : RuntimeEvent) (envelopes : List Payload) : State :=
  match currentMembers ctx with
  | none => ctx
  | some (current, members) =>
    let recorded : ResponseMembers :=
      ⟨(envelopes.filterMap writtenPart).foldl addPart members.parts, (startedCall event).foldl addCall members.toolCallIds⟩
    { ctx with responses := { ctx.responses with members := Assoc.assign current recorded ctx.responses.members } }

/-- The members of the responses taken out, in the order they are named. -/
def takeOut : ResponseProjectionState → List String → ResponseProjectionState × List ResponseMembers
  | responses, [] => (responses, [])
  | responses, id :: ids =>
    let rest := takeOut ⟨if responses.current = some id then none else responses.current,
      Assoc.erase id responses.members⟩ ids
    (rest.1, (Assoc.lookup id responses.members).toList ++ rest.2)

def retractResponses (ctx : State) (responseIds : List String) (reason : String) (now : ℕ) : State × List Payload :=
  let taken := takeOut ctx.responses responseIds
  let withdrawn := taken.2
  let ctx := { ctx with responses := taken.1 }
  if withdrawn.isEmpty then (ctx, [])
  else
    let ctx := split ctx
    let parts := withdrawn.flatMap ResponseMembers.parts
    let marked : List Payload := if parts.isEmpty then [] else [.partRetracted reason parts]
    let tools := terminalizeOpenTools ctx WITHDRAWN_TOOL now (some ⟨withdrawn.flatMap ResponseMembers.toolCallIds, reason⟩)
    (tools.1, marked ++ tools.2)

def nextNoticePartId (ctx : State) : State × String :=
  let count := ctx.notices.noticeCount + 1
  let key := ctx.assistantMsgId ++ "-notice-" ++ toString count
  seqId { ctx with notices := { ctx.notices with noticeCount := count } } key key

def noticePart (ctx : State) (id : String) (notice : TranscriptNotice) (now : ℕ) : State × Payload :=
  (split ctx, .partUpdated (.notice id ctx.assistantMsgId notice now) now)

def eventNoticePartId (sessionId eventId : String) : String := sessionId ++ "-notice-" ++ eventId

def noticePartId (sessionId : String) (ctx : State) : Option String → State × String
  | some eventId => if eventId = "" then nextNoticePartId ctx else (ctx, eventNoticePartId sessionId eventId)
  | none => nextNoticePartId ctx

def appendNotice (sessionId : String) (ctx : State) (notice : TranscriptNotice) (now : ℕ) (eventId : Option String) :
    State × Payload :=
  let minted := noticePartId sessionId ctx eventId
  noticePart minted.1 minted.2 notice now

def projectHarnessNotice (sessionId : String) (ctx : State) (code message : String) (severity : Option NoticeSeverity)
    (eventId : Option String) (now : ℕ) : State × List Payload :=
  let severity := severity.getD .info
  if severity = .debug ∨ ctx.assistantMsgId = "" then (ctx, [.diagnostic code])
  else publish [] (appendNotice sessionId ctx (.harness code message severity) now eventId)

def projectAgentMessage (sessionId : String) (ctx : State) (notice : TranscriptNotice) (eventId : Option String) (now : ℕ) :
    State × List Payload :=
  if ctx.assistantMsgId = "" then (ctx, []) else publish [] (appendNotice sessionId ctx notice now eventId)

def compactionOutcome (aborted : Bool) (error : Option String) : TranscriptNotice :=
  if aborted then .compactionFailed "Compaction was stopped"
  else match error with
    | some error => .compactionFailed error
    | none => .compactionCompleted

def runningCompaction (ctx : State) (id : Option String) : State :=
  { ctx with notices := { ctx.notices with runningCompactionPartId := id } }

/-- The part of the compaction that runs, or a new one. -/
def compactionPartId (ctx : State) : State × String :=
  match ctx.notices.runningCompactionPartId with
  | some id => (ctx, id)
  | none => nextNoticePartId ctx

def projectCompaction (ctx : State) (started aborted : Bool) (error : Option String) (now : ℕ) : State × List Payload :=
  if ctx.assistantMsgId = "" then (ctx, [])
  else if started then
    let minted := nextNoticePartId ctx
    publish [] (noticePart (runningCompaction minted.1 (some minted.2)) minted.2 .compactionRunning now)
  else
    let minted := compactionPartId ctx
    let outcome := compactionOutcome aborted error
    let part := noticePart (runningCompaction minted.1 none) minted.2 outcome now
    (part.1, part.2 :: if outcome = .compactionCompleted then [.sessionCompacted] else [])

def projectRetry (ctx : State) (message : String) (attempt delayMs : Option ℕ) (now : ℕ) : State × List Payload :=
  ({ ctx with notices := { ctx.notices with retrying := true } },
   [.sessionStatus (.retry message attempt (delayMs.map (now + ·)))])

def TURN_REPLY_SUFFIX : String := "_r"

def userMessageIdForAssistantReply (assistantMessageId : String) : Option String :=
  let id := assistantMessageId.toList
  if TURN_REPLY_SUFFIX.toList.isSuffixOf id ∧ id.length ≠ 2 then some (String.ofList (id.take (id.length - 2))) else none

structure AnnouncedAssistantIdentity where
  agent : Option String
  modelID : String
  providerID : String
  variant : Option String

structure Options where
  sessionId : String
  assistantMessageId : String
  announcesAssistantMessage : Bool
  announceAssistantIdentity : AnnouncedAssistantIdentity

/-- A turn whose row another producer announces. -/
def Options.beside (sessionId assistantMessageId : String) : Options :=
  ⟨sessionId, assistantMessageId, false, ⟨none, "", "", none⟩⟩

def nonEmpty (text : String) : Option String := if text = "" then none else some text

def partBearingMessageId : Payload → Option String
  | .partUpdated part _ => nonEmpty part.messageID
  | .partDelta messageID .. => nonEmpty messageID
  | .messageCompleted messageID _ => nonEmpty messageID
  | _ => none

def announcedAssistantMessage (options : Options) (ctx : State) (now : ℕ) (parentID : String) : AssistantRow where
  id := ctx.assistantMsgId
  created := now
  parentID := parentID
  modelID := options.announceAssistantIdentity.modelID
  providerID := options.announceAssistantIdentity.providerID
  agent := options.announceAssistantIdentity.agent.getD ctx.agentId
  variant := options.announceAssistantIdentity.variant

def withAnnouncedAssistantMessage (options : Options) (now : ℕ) (event : State × List Payload) : State × List Payload :=
  let ctx := event.1
  let events := event.2
  if !options.announcesAssistantMessage || ctx.announcedAssistantMsgId = some ctx.assistantMsgId
      || !(events.any fun event => partBearingMessageId event = some ctx.assistantMsgId) then (ctx, events)
  else
    let ctx := { ctx with announcedAssistantMsgId := some ctx.assistantMsgId }
    match userMessageIdForAssistantReply options.assistantMessageId with
    | none => (ctx, .diagnostic "projection.opencode_compat.reply_id_outside_turn_convention" :: events)
    | some parentID => (ctx, .messageUpdated (announcedAssistantMessage options ctx now parentID) :: events)

end Claxedo.Presentation
