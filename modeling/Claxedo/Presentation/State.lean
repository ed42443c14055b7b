import Claxedo.Lib.Json
import Claxedo.Lib.Table

/-! The input a tool call is shown with: what the harness sent as input, over what its metadata and its display tell of
it. -/

namespace Claxedo.Presentation

open Claxedo.Lib

abbrev ToolDisplay := Record

structure ToolLocation where
  path : String
  line : Option ℤ

def asText : Option Json → Option String
  | some (.str s) => if s = "" then none else some s
  | _ => none

/-- `_x` as `X`. -/
def camelChars : List Char → List Char
  | '_' :: c :: rest => if 'a' ≤ c ∧ c ≤ 'z' then c.toUpper :: camelChars rest else '_' :: camelChars (c :: rest)
  | c :: rest => c :: camelChars rest
  | [] => []

def camel (key : String) : String := String.ofList (camelChars key.toList)

-- Assigning to `__proto__` makes no own field.
def assigned (target : Record) (key : String) (value : Json) : Record :=
  if key = "__proto__" then target else target.set key value

def normalizeInputKeys (input : Record) : Record :=
  input.foldl (fun result pair =>
    let result := assigned result pair.1 pair.2
    if camel pair.1 = pair.1 then result else assigned result (camel pair.1) pair.2) []

def scalar : Option Json → Option Json
  | some (.str s) => some (.str s)
  | some (.num n) => some (.num n)
  | some (.bool b) => some (.bool b)
  | _ => none

def mergeInput : Option Record → Option Record → Record
  | none, right => right.getD []
  | some left, none => left
  | some left, some right => left.spread right

def mergeMetadata : Option Record → Option Record → Record
  | none, right => right.getD []
  | some left, none => left
  | some left, some right =>
    let item := left.spread right
    match asRecord (left.field "acp"), asRecord (right.field "acp") with
    | none, none => item
    | lhs, rhs => item.set "acp" (.obj ((lhs.getD []).spread (rhs.getD [])))

def setOption (target : Record) (key : String) (value : Option Json) : Record :=
  match value with
  | some value => target.set key value
  | none => target.filter fun pair => pair.1 ≠ key

/-- The value on the left of `??`. -/
def defined : Option Json → Option Json
  | some .null => none
  | value => value

def mergeDisplay : Option ToolDisplay → Option ToolDisplay → ToolDisplay
  | none, right => right.getD []
  | some left, none => left
  | some left, some right =>
    let item := (left.spread right).set "input"
      (.obj (mergeInput (asRecord (left.field "input")) (asRecord (right.field "input"))))
    let item := setOption item "files" ((defined (right.field "files")).or (left.field "files"))
    setOption item "locations" ((defined (right.field "locations")).or (left.field "locations"))

def copyScalar (target : Record) (source : Option Record) (key name : String) : Record :=
  match scalar (source.bind fun source => source.field key) with
  | some value => target.set name value
  | none => target

def copyScalars (target : Record) (source : Option Record) (keys : List (String × String)) : Record :=
  keys.foldl (fun target key => copyScalar target source key.1 key.2) target

def alike (keys : List String) : List (String × String) := keys.map fun key => (key, key)

/-- A list, copied where the source has one. -/
def copyList (target : Record) (source : Option Record) (key : String) : Record :=
  match source.bind fun source => source.field key with
  | some (.arr items) => target.set key (.arr items)
  | _ => target

def ACP_KEYS : List (String × String) :=
  alike ["intent", "kind", "mode", "summary", "description", "command", "filePath", "path", "pattern", "query", "url",
    "sourcePath", "targetPath", "subagentType", "agentId", "durationMs"] ++ [("title", "summary"), ("rawToolName", "toolName")]

def RAW_INPUT_KEYS : List (String × String) :=
  alike ["command", "path", "pattern", "query", "url", "offset", "limit", "old_string", "new_string", "replace_all",
    "description", "prompt", "subagent_type", "subagentType", "task_id", "agentId"] ++
    [("file_path", "file_path"), ("file_path", "filePath"), ("old_string", "oldString"), ("new_string", "newString"),
     ("subagent_type", "subagentType"), ("task_id", "taskId")]

def acpMetadataInput (metadata : Record) : Record :=
  match asRecord (metadata.field "acp") with
  | none => []
  | some acp =>
    let rawInput := asRecord (acp.field "rawInput")
    let input := copyScalars (copyScalars [] (some acp) ACP_KEYS) rawInput RAW_INPUT_KEYS
    normalizeInputKeys (copyList (copyList input (some acp) "files") rawInput "files")

def DISPLAY_KEYS : List String :=
  ["intent", "kind", "mode", "summary", "description", "command", "filePath", "path", "pattern", "query", "url",
   "sourcePath", "targetPath", "sessionId", "agentId", "durationMs"]

def displayInput (display : Option ToolDisplay) : Record :=
  let input := copyScalars [] display (alike DISPLAY_KEYS)
  let input := match display.bind fun display => display.field "subagentType" with
    | some value => input.set "subagentType" value
    | none => input
  let input := copyList input display "files"
  normalizeInputKeys (mergeInput (some input) (display.bind fun display => asRecord (display.field "input")))

def normalizeLocationInput (tool : String) (input : Record) (locations : List ToolLocation) : Record :=
  match locations.head? with
  | none => input
  | some first =>
    if first.path = "" then input
    else
      let intent := asString (input.field "intent")
      if (tool ∈ ["read", "lint"] ∨ intent ∈ ["read", "lint", "edit", "delete"].map some)
          ∧ asString (input.field "filePath") = none then
        input.set "filePath" (.str first.path)
      else if (tool ∈ ["list", "glob", "grep"] ∨ intent ∈ ["search", "list"].map some)
          ∧ asString (input.field "path") = none then
        input.set "path" (.str first.path)
      else input

def locationsFromList : Option Json → List ToolLocation
  | some (.arr items) => items.filterMap fun item => do
    let row ← asRecord (some item)
    let path ← asText (row.field "path")
    pure ⟨path, asNumber (row.field "line")⟩
  | _ => []

def locationsFromMetadata (metadata : Record) : List ToolLocation :=
  locationsFromList ((asRecord (metadata.field "acp")).bind fun acp => acp.field "locations")

def hydrateToolInput (tool : String) (current : Option Record) (metadata : Record) (display : Option ToolDisplay) : Record :=
  let input := mergeInput (some (mergeInput (some (acpMetadataInput metadata)) (some (displayInput display)))) current
  normalizeLocationInput tool input
    (locationsFromList (display.bind fun display => display.field "locations") ++ locationsFromMetadata metadata)

/-! The text a tool's output is shown as, and the text of one content report. -/

structure Formatted where
  value : String
  issues : List String

/-- A list of changed files. -/
def isDiff : Json → Bool
  | .arr items => !items.isEmpty && items.all fun item =>
    match item with
    | .obj row => ["path", "oldText", "newText"].any fun key => (Record.field row key).isSome
    | _ => false
  | _ => false

def isShell (input metadata : Record) : Bool :=
  match asString (input.field "intent") with
  | some intent => intent = "shell"
  | none => asString ((asRecord (metadata.field "acp")).bind fun acp => acp.field "intent") = some "shell"

def contentTextOf : Json → Option String
  | .str s => some s
  | .obj row => (asText (Record.field row "text")).or (asText (Record.field row "content"))
  | _ => none

def arrayContentText : Option Json → Option String
  | some (.arr items) => (items.mapM contentTextOf).map "\n".intercalate
  | _ => none

def isPlainScalar : Json → Bool
  | .null | .bool _ | .num _ | .str _ => true
  | _ => false

/-- The text an object carries in one of the fields that carry text. -/
def bodyText (row : Record) : Option String :=
  ["content", "text", "body", "stdout", "stderr"].findSome? fun key => asText (row.field key)

def formatRecord (row : Record) : Formatted :=
  match arrayContentText (row.field "content") with
  | some content => ⟨content, []⟩
  | none =>
    match bodyText row with
    | some body => ⟨body, []⟩
    | none => if row.all fun pair => isPlainScalar pair.2 then ⟨"", []⟩ else ⟨Json.stringify (.obj row), []⟩

def formatToolOutput (value : Json) (input metadata : Record) : Formatted :=
  match value with
  | .null => ⟨"", []⟩
  | .str s => ⟨s, []⟩
  | .obj row =>
    let streams := ["stdout", "stderr"].filterMap fun key => asText (Record.field row key)
    if isShell input metadata ∧ streams ≠ [] then ⟨"\n".intercalate streams, []⟩ else formatRecord row
  | value =>
    if isDiff value then ⟨"", []⟩
    else
      match arrayContentText (some value) with
      | some body => ⟨body, []⟩
      | none => ⟨value.stringify, []⟩

def toolContentText (content : Record) : Option String :=
  if asString (content.field "type") = some "content" then
    asText ((asRecord (content.field "content")).bind fun row => row.field "text")
  else none

def isTextContent : Json → Bool
  | .obj item =>
    asString (Record.field item "type") = some "content" &&
      asString ((asRecord (Record.field item "content")).bind fun row => row.field "type") = some "text"
  | _ => false

def withoutOutputText (metadata : Record) : Record :=
  match asRecord (metadata.field "acp") with
  | none => metadata
  | some acp =>
    match acp.field "content" with
    | some (.arr content) =>
      let rest : Record := acp.filter fun pair => pair.1 ≠ "content"
      let kept := content.filter fun item => !isTextContent item
      metadata.set "acp" (.obj (if kept.isEmpty then rest else rest.set "content" (.arr kept)))
    | _ => metadata

/-! What a turn's projection reads and publishes: the runtime's events, the envelopes of the transcript, and the state
kept between two events. An event that only tells the session's own surfaces something is `plain`. -/

inductive RuntimeToolStatus where
  | pending | running | completed | failed

inductive RuntimeStatus where
  | busy | idle | error
  deriving DecidableEq

inductive NoticeSeverity where
  | debug | info | warn | error
  deriving DecidableEq

/-- Where the bytes of a tool's attachment are. -/
inductive Held where
  | inline (url : String)
  | toolFile (path : String)
  | workspaceFile (path sourcePath : String)
  | unretained (sourcePath : Option String) (bytes : ℕ)

structure RuntimeToolAttachment where
  mime : String
  filename : Option String
  held : Held

inductive PlainEvent where
  | fileDiff | permissionRequest | question | questionAnswered | todoUpdate | thinkingAudioDelta
  | thinkingResourceLinkDelta | resourceDelta | availableCommandsUpdate | configUpdate | sessionInfo | sessionTitle | usage
  | subagentUpdated | goalUpdated | goalCleared | inputIncorporated | backgroundWork | authStatus | rateLimit
  | mcpServerStatus | diagnostic
  deriving DecidableEq

inductive RuntimeEvent where
  | textDelta (delta : String)
  | thinkingDelta (delta : String)
  | proposedPlanDelta (delta : String)
  | proposedPlanComplete (planMarkdown : String)
  | toolStart (toolCallId toolName : String) (display metadata : Option Record)
  | toolInput (toolCallId : String) (input : Json) (display metadata : Option Record)
  | toolStatus (toolCallId : String) (status : RuntimeToolStatus) (display metadata : Option Record)
  | toolContent (toolCallId : String) (content : Record) (display metadata : Option Record)
  | toolOutput (toolCallId : String) (output : Json) (attachments : List RuntimeToolAttachment)
      (display metadata : Option Record)
  | toolError (toolCallId error : String) (display metadata : Option Record)
  | toolLocation (toolCallId : String) (locations : List ToolLocation)
  | toolTerminal (toolCallId terminalId : String)
  | stepStart (newMessageId : String)
  | responseStart (responseId : String)
  | responseRetracted (responseIds : List String) (reason : String)
  | sessionStatus (status : RuntimeStatus)
  | sessionRetry (message : String) (attempt delayMs : Option ℕ)
  | sessionCompaction (started aborted : Bool) (error : Option String)
  | harnessNotice (code message : String) (severity : Option NoticeSeverity) (eventId : Option String)
  | agentMessage (eventId sender message : String) (senderName senderTaskId sourceSessionId : Option String)
  | conversationReset (trigger : String)
  | imageDelta (mimeType data : String)
  | audioDelta (mimeType data : String)
  | resourceLinkDelta (uri name : String) (mimeType : Option String)
  | sessionAgent (agentId : String)
  | finish
  | cancelled
  | error (error : String)
  | plain (type : PlainEvent)

/-- The call a report is about. -/
def RuntimeEvent.toolCallId? : RuntimeEvent → Option String
  | .toolStart c .. | .toolInput c .. | .toolStatus c .. | .toolContent c .. | .toolOutput c .. | .toolError c ..
  | .toolLocation c .. | .toolTerminal c .. => some c
  | _ => none

inductive FileLocation where
  | toolFile (path : String)
  | workspaceFile (path : String)
  | unretained (bytes : ℕ)
  deriving DecidableEq

/-- What a file part shows. -/
structure FileShown where
  mime : String
  url : String
  filename : Option String
  location : Option FileLocation
  deriving DecidableEq

structure FilePart where
  id : String
  messageID : String
  shown : FileShown

inductive ToolStatus where
  | pending | running | completed | error
  deriving DecidableEq

/-- A call in it is finished. -/
def ToolStatus.isTerminal : ToolStatus → Bool
  | .completed | .error => true
  | _ => false

inductive ToolState where
  | pending (input : Record) (raw : String)
  | running (input metadata : Record) (start : ℕ)
  | completed (input : Record) (output title : String) (metadata : Record) (ended : ℕ) (attachments : List FilePart)
  | error (input : Record) (error : String) (metadata : Record) (ended : ℕ)

structure ToolPart where
  id : String
  messageID : String
  callID : String
  tool : String
  state : ToolState
  retracted : Option String

inductive TranscriptNotice where
  | harness (code message : String) (severity : NoticeSeverity)
  | agentMessage (sender message : String) (senderName senderTaskId sourceSessionId : Option String)
  | compactionRunning
  | compactionCompleted
  | compactionFailed (error : String)
  | conversationReset (trigger : String)
  deriving DecidableEq

inductive ContentPart where
  | text (id messageID text : String)
  | reasoning (id messageID text : String) (start : ℕ) (ended : Option ℕ)
  | tool (part : ToolPart)
  | file (part : FilePart)
  | notice (id messageID : String) (notice : TranscriptNotice) (created : ℕ)

def ContentPart.messageID : ContentPart → String
  | .text _ m _ | .reasoning _ m .. | .notice _ m .. => m
  | .tool part => part.messageID
  | .file part => part.messageID

structure PartRef where
  messageID : String
  partID : String
  deriving DecidableEq

structure AssistantRow where
  id : String
  created : ℕ
  parentID : String
  modelID : String
  providerID : String
  agent : String
  variant : Option String

inductive ShownStatus where
  | plain (status : RuntimeStatus)
  | retry (message : String) (attempt next : Option ℕ)

inductive Payload where
  | messageUpdated (row : AssistantRow)
  | partUpdated (part : ContentPart) (time : ℕ)
  | partDelta (messageID partID delta : String)
  | partRetracted (reason : String) (parts : List PartRef)
  | messageCompleted (messageID : String) (cancelled : Bool)
  | sessionStatus (status : ShownStatus)
  | sessionError (error : String)
  | sessionCompacted
  | sessionAgent (agentId : String)
  | diagnostic (code : String)
  | plain (type : PlainEvent)

def RETAINED_TOOL_CALLS_MAX : ℕ := 256

def RETAINED_PART_IDS_MAX : ℕ := 1024

structure OpenReasoningPart where
  partId : String
  messageId : String
  start : ℕ
  text : String

structure NoticeProjectionState where
  noticeCount : ℕ
  runningCompactionPartId : Option String
  retrying : Bool

structure ResponseMembers where
  parts : List PartRef
  toolCallIds : List String

structure ResponseProjectionState where
  current : Option String
  members : List (String × ResponseMembers)

/-- The state between two events, and the context an event is translated in. -/
structure State where
  assistantMsgId : String
  announcedAssistantMsgId : Option String
  agentId : String
  accumulatedText : String
  accumulatedThinkingText : String
  proposedPlanText : String
  toolNamesByCallId : List (String × String)
  partIdMap : List (String × String)
  toolInputsByCallId : List (String × Record)
  toolDisplaysByCallId : List (String × ToolDisplay)
  toolMetadataByCallId : List (String × Record)
  toolStatusByCallId : List (String × ToolStatus)
  toolOutputsByCallId : List (String × String)
  toolAttachmentsByCallId : List (String × List RuntimeToolAttachment)
  toolErrorsByCallId : List (String × String)
  textPartSeq : ℕ
  reasoningPartSeq : ℕ
  splitText : Bool
  splitReasoning : Bool
  openReasoning : Option OpenReasoningPart
  notices : NoticeProjectionState
  responses : ResponseProjectionState

def createClientPresentationProjectionState (assistantMessageId : String) : State where
  assistantMsgId := assistantMessageId
  announcedAssistantMsgId := none
  agentId := ""
  accumulatedText := ""
  accumulatedThinkingText := ""
  proposedPlanText := ""
  toolNamesByCallId := []
  partIdMap := []
  toolInputsByCallId := []
  toolDisplaysByCallId := []
  toolMetadataByCallId := []
  toolStatusByCallId := []
  toolOutputsByCallId := []
  toolAttachmentsByCallId := []
  toolErrorsByCallId := []
  textPartSeq := 0
  reasoningPartSeq := 0
  splitText := false
  splitReasoning := false
  openReasoning := none
  notices := ⟨0, none, false⟩
  responses := ⟨none, []⟩

def padStart6 (text : String) : String := String.ofList (List.replicate (6 - text.length) '0') ++ text

/-- The part id minted the first time `key` is seen. -/
def seqId (ctx : State) (key name : String) : State × String :=
  match Assoc.lookup key ctx.partIdMap with
  | some id => (ctx, id)
  | none =>
    let id := padStart6 (toString ctx.partIdMap.length) ++ "_" ++ name
    ({ ctx with partIdMap := Assoc.assign key id ctx.partIdMap }, id)

def seen (ctx : State) (key : String) : Bool := (Assoc.lookup key ctx.partIdMap).isSome

def isUnreserved (c : Char) : Bool := c.isAlphanum || c ∈ ['-', '_', '.', '!', '~', '*', '\'', '(', ')']

def upperHexDigit (n : ℕ) : Char := if n < 10 then Char.ofNat (48 + n) else Char.ofNat (55 + n)

def encodeURIComponent (text : String) : String :=
  String.ofList (text.toList.flatMap fun c =>
    if isUnreserved c then [c]
    else (String.singleton c).toUTF8.toList.flatMap fun byte =>
      ['%', upperHexDigit (byte.toNat / 16), upperHexDigit (byte.toNat % 16)])

def dataUrl (mime data : String) : String :=
  if data.startsWith "data:" then data else "data:" ++ mime ++ ";base64," ++ data

/-- What follows the first slash of a media type, up to its parameters. -/
def subtypeOf (mime : String) : List Char :=
  ((mime.toList.dropWhile (· ≠ '/')).drop 1).takeWhile fun c => c ≠ '/' ∧ c ≠ ';'

def extension (mime : String) : String :=
  let subtype := subtypeOf mime
  if subtype = [] then "bin"
  else if subtype = "jpeg".toList then "jpg"
  else
    let kept := subtype.filter fun c => c.isAlphanum
    if kept = [] then "bin" else String.ofList kept

def attachmentFilename (attachment : RuntimeToolAttachment) : String :=
  match attachment.filename with
  | some name => if name = "" then unnamed else name
  | none => unnamed
where
  unnamed := (if attachment.mime.startsWith "image/" then "image" else "attachment") ++ "." ++ extension attachment.mime

def fileLocator (path : String) : String :=
  let encoded := "/".intercalate ((path.splitOn "/").map encodeURIComponent)
  if path.startsWith "/" then "file://" ++ encoded else encoded

/-- What the part of an attachment shows. -/
def attachmentPart (attachment : RuntimeToolAttachment) : FileShown :=
  let filename := some (attachmentFilename attachment)
  match attachment.held with
  | .inline url => ⟨attachment.mime, url, filename, none⟩
  | .toolFile path => ⟨attachment.mime, "", filename, some (.toolFile path)⟩
  | .workspaceFile path _ => ⟨attachment.mime, fileLocator path, filename, some (.workspaceFile path)⟩
  | .unretained sourcePath bytes =>
    ⟨attachment.mime, match sourcePath with
      | some path => if path = "" then "" else fileLocator path
      | none => "", filename, some (.unretained bytes)⟩

end Claxedo.Presentation
