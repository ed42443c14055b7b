import Claxedo.Lib.Run
import Claxedo.Presentation.Replies

/-! The projection of a turn: each event of the runtime in, the envelopes of the transcript out. -/

namespace Claxedo.Presentation

open Claxedo.Lib

def SETTLES_STATUS : RuntimeEvent → Bool
  | .sessionStatus _ | .finish | .cancelled | .error _ => true
  | _ => false

def RESUMES_REPLY : RuntimeEvent → Bool
  | .textDelta _ | .thinkingDelta _ | .proposedPlanDelta _ | .toolStart .. | .imageDelta .. | .audioDelta ..
  | .resourceLinkDelta .. | .stepStart _ => true
  | .plain type => type = .fileDiff || type = .resourceDelta
  | _ => false

def REASONING_ENDS_ON : RuntimeEvent → Bool
  | .textDelta _ | .proposedPlanDelta _ | .proposedPlanComplete _ | .toolStart .. | .imageDelta .. | .audioDelta ..
  | .resourceLinkDelta .. | .stepStart _ | .responseStart _ | .finish | .cancelled | .error _ => true
  | .plain type => type = .fileDiff || type = .permissionRequest || type = .question
  | _ => false

def resumeAfterRetry (ctx : State) (event : RuntimeEvent) : State × List Payload :=
  if !ctx.notices.retrying then (ctx, [])
  else if RESUMES_REPLY event then
    ({ ctx with notices := { ctx.notices with retrying := false } }, [.sessionStatus (.plain .busy)])
  else ({ ctx with notices := { ctx.notices with retrying := !SETTLES_STATUS event } }, [])

/-- An event that publishes what it carries, and one of those after which the parts go on as new ones. -/
def translatePlain (ctx : State) (type : PlainEvent) : State × List Payload :=
  match type with
  | .fileDiff => (split ctx, [.plain type])
  | .thinkingAudioDelta | .thinkingResourceLinkDelta | .resourceDelta =>
    (split ctx, [.diagnostic "projection.client_presentation.lossy_runtime_event"])
  | .goalUpdated | .goalCleared | .inputIncorporated | .backgroundWork => (ctx, [])
  | _ => (ctx, [.plain type])

def filePart (ctx : State) (slot : String) (shown : FileShown) (now : ℕ) : State × List Payload :=
  let minted := seqId (split ctx) (ctx.assistantMsgId ++ slot) (ctx.assistantMsgId ++ slot)
  (minted.1, [.partUpdated (.file ⟨minted.2, ctx.assistantMsgId, shown⟩) now])

/-- The part of a plan that was not streamed. -/
def planDelta (ctx : State) (planMarkdown : String) : String :=
  if ctx.proposedPlanText.toList.isPrefixOf planMarkdown.toList then
    String.ofList (planMarkdown.toList.drop ctx.proposedPlanText.length)
  else planMarkdown

def stepStart (ctx : State) (newMessageId : String) : State :=
  { ctx with
    assistantMsgId := newMessageId
    accumulatedText := ""
    accumulatedThinkingText := ""
    proposedPlanText := ""
    textPartSeq := 0
    reasoningPartSeq := 0
    splitText := false
    splitReasoning := false }

def translateRuntimeEventToCompat (options : Options) (ctx : State) (event : RuntimeEvent) (now : ℕ) : State × List Payload :=
  match event with
  | .sessionStatus status => (ctx, if status = .error then [] else [.sessionStatus (.plain status)])
  | .sessionCompaction started aborted error => projectCompaction ctx started aborted error now
  | .harnessNotice code message severity eventId =>
    projectHarnessNotice options.sessionId ctx code message severity eventId now
  | .agentMessage eventId sender message senderName senderTaskId sourceSessionId =>
    projectAgentMessage options.sessionId ctx (.agentMessage sender message senderName senderTaskId sourceSessionId)
      (some eventId) now
  | .conversationReset trigger => projectAgentMessage options.sessionId ctx (.conversationReset trigger) none now
  | .sessionRetry message attempt delayMs => projectRetry ctx message attempt delayMs now
  | .responseStart responseId => (enterResponse ctx responseId, [])
  | .responseRetracted responseIds reason => retractResponses ctx responseIds reason now
  | .textDelta delta => deltaText ctx .text delta now
  | .thinkingDelta delta => deltaText ctx .reasoning delta now
  | .proposedPlanDelta delta => deltaText { ctx with proposedPlanText := ctx.proposedPlanText ++ delta } .text delta now
  | .proposedPlanComplete planMarkdown =>
    let delta := planDelta ctx planMarkdown
    let ctx := { ctx with proposedPlanText := planMarkdown }
    if delta = "" then (ctx, []) else deltaText ctx .text delta now
  | .toolStart toolCallId toolName display metadata =>
    translateToolStart (split ctx) toolCallId toolName display metadata now
  | .toolInput toolCallId input display metadata => translateToolInput (split ctx) toolCallId input display metadata now
  | .toolStatus toolCallId status display metadata => translateToolStatus (split ctx) toolCallId status display metadata now
  | .toolContent toolCallId content display metadata =>
    translateToolContent (split ctx) toolCallId content display metadata now
  | .toolOutput toolCallId output attachments display metadata =>
    translateToolOutput (split ctx) toolCallId output attachments display metadata now
  | .toolError toolCallId error display metadata => translateToolError (split ctx) toolCallId error display metadata now
  | .toolLocation toolCallId locations => translateToolLocation (split ctx) toolCallId locations now
  | .toolTerminal toolCallId terminalId => translateToolTerminal (split ctx) toolCallId terminalId now
  | .stepStart newMessageId => (stepStart ctx newMessageId, [.messageCompleted ctx.assistantMsgId false])
  | .finish => (ctx, [.messageCompleted ctx.assistantMsgId false])
  | .cancelled => (ctx, [.messageCompleted ctx.assistantMsgId true])
  | .error error => (ctx, [.sessionError error])
  | .imageDelta mimeType data =>
    filePart ctx "-image" ⟨mimeType, dataUrl mimeType data, some ("image." ++ extension mimeType), none⟩ now
  | .audioDelta mimeType data =>
    filePart ctx "-audio" ⟨mimeType, dataUrl mimeType data, some ("audio." ++ extension mimeType), none⟩ now
  | .resourceLinkDelta uri name mimeType =>
    filePart ctx "-resource-link" ⟨mimeType.getD "application/octet-stream", uri, nonEmpty name, none⟩ now
  | .sessionAgent agentId => ({ ctx with agentId := agentId }, [.sessionAgent agentId])
  | .plain type => translatePlain ctx type

/-- Per-call stores are keyed by wire ids; each is capped. -/
def boundRetainedState (state : State) : State :=
  { state with
    partIdMap := boundKeyedMap state.partIdMap RETAINED_PART_IDS_MAX
    toolNamesByCallId := boundKeyedMap state.toolNamesByCallId RETAINED_TOOL_CALLS_MAX
    toolInputsByCallId := boundKeyedMap state.toolInputsByCallId RETAINED_TOOL_CALLS_MAX
    toolDisplaysByCallId := boundKeyedMap state.toolDisplaysByCallId RETAINED_TOOL_CALLS_MAX
    toolMetadataByCallId := boundKeyedMap state.toolMetadataByCallId RETAINED_TOOL_CALLS_MAX
    toolStatusByCallId := boundKeyedMap state.toolStatusByCallId RETAINED_TOOL_CALLS_MAX
    toolOutputsByCallId := boundKeyedMap state.toolOutputsByCallId RETAINED_TOOL_CALLS_MAX
    toolAttachmentsByCallId := boundKeyedMap state.toolAttachmentsByCallId RETAINED_TOOL_CALLS_MAX
    toolErrorsByCallId := boundKeyedMap state.toolErrorsByCallId RETAINED_TOOL_CALLS_MAX }

def run (options : Options) (now : ℕ) (projected : State × List Payload) : State × List Payload :=
  let announced := withAnnouncedAssistantMessage options now projected
  (boundRetainedState announced.1, announced.2)

/-- What the retry, the reasoning an event ends and the event itself publish, in this order. -/
def projectEvent (options : Options) (state : State) (event : RuntimeEvent) (now : ℕ) : State × List Payload :=
  let resumed := resumeAfterRetry state event
  let ended := if REASONING_ENDS_ON event then endReasoning resumed.1 now else (resumed.1, [])
  let translated := translateRuntimeEventToCompat options ended.1 event now
  (translated.1, resumed.2 ++ ended.2 ++ translated.2)

def ingest (options : Options) (state : State) (event : RuntimeEvent) (now : ℕ) : State × List Payload :=
  let projected := projectEvent options state event now
  run options now (recordResponseMembers projected.1 event projected.2, projected.2)

def terminalize (options : Options) (state : State) (error : String) (now : ℕ) : State × List Payload :=
  let ended := endReasoning state now
  let swept := terminalizeOpenTools ended.1 error now none
  run options now (swept.1, ended.2 ++ swept.2)

/-- A call of the projection; `thrown` is one whose event cannot be read, which leaves the state as it was. -/
inductive Call where
  | ingest (event : RuntimeEvent) (now : ℕ)
  | thrown
  | terminalizeOpenTools (error : String) (now : ℕ)

def call (options : Options) (state : State) : Call → State × List Payload
  | .ingest event now => ingest options state event now
  | .thrown => (state, [.diagnostic "projection.client_presentation.error"])
  | .terminalizeOpenTools error now => terminalize options state error now

/-- A turn so far: the state, and every envelope it published. -/
structure Turn where
  state : State
  published : List Payload

def Turn.start (options : Options) : Turn := ⟨createClientPresentationProjectionState options.assistantMessageId, []⟩

def Turn.step (options : Options) (turn : Turn) (c : Call) : Turn :=
  let answered := call options turn.state c
  ⟨answered.1, turn.published ++ answered.2⟩

def turnOf (options : Options) (calls : List Call) : Turn := Lib.run (Turn.step options) (Turn.start options) calls

/-- The tool calls a run reports on. -/
def Call.toolCallId? : Call → Option String
  | .ingest event _ => event.toolCallId?
  | _ => none

def toolCalls (calls : List Call) : Finset String := (calls.filterMap Call.toolCallId?).toFinset

end Claxedo.Presentation
