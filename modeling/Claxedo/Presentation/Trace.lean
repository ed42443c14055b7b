import Claxedo.Presentation.Told

/-! A turn, seen from one of its tool calls: the reports its events make on the call, and that what the projection keeps
and publishes of the call is the run of the call on its own. -/

namespace Claxedo.Presentation

open Claxedo.Lib

/-- The records of all calls stay. -/
structure Keeps (s s' : State) : Prop where
  status : s'.toolStatusByCallId = s.toolStatusByCallId
  output : s'.toolOutputsByCallId = s.toolOutputsByCallId
  files : s'.toolAttachmentsByCallId = s.toolAttachmentsByCallId
  error : s'.toolErrorsByCallId = s.toolErrorsByCallId

section
variable {a b c s s' : State} {events : List Payload} {known : Finset String}

theorem Keeps.refl (s : State) : Keeps s s := ⟨rfl, rfl, rfl, rfl⟩

theorem Keeps.trans (h : Keeps a b) (h' : Keeps b c) : Keeps a c :=
  ⟨h'.status.trans h.status, h'.output.trans h.output, h'.files.trans h.files, h'.error.trans h.error⟩

theorem Mints.keeps (h : Mints s s') : Keeps s s' := by
  obtain ⟨ids, rfl⟩ := h
  exact ⟨rfl, rfl, rfl, rfl⟩

theorem Keeps.recordOf (h : Keeps s s') (d : String) : recordOf s' d = Presentation.recordOf s d := by
  simp only [Presentation.recordOf, statusOf, h.status, h.output, h.files, h.error]

theorem Keeps.within (h : Keeps s s') (hs : Within known s) : Within known s' := by
  refine ⟨?_, ?_, ?_, ?_⟩
  · rw [h.status]; exact hs.status
  · rw [h.output]; exact hs.output
  · rw [h.files]; exact hs.files
  · rw [h.error]; exact hs.error

/-- An answer that shows no call and keeps the records. -/
structure Silent (s : State) (answered : State × List Payload) : Prop where
  keeps : Keeps s answered.1
  shown : toolShown answered.2 = []

theorem Silent.tells {answered : State × List Payload} (h : Silent s answered) : Tells s answered fun _ => none :=
  Tells.nothing h.keeps.recordOf h.shown

end

section
variable (ctx : State) (now : ℕ)

theorem keeps_split : Keeps ctx (split ctx) := ⟨rfl, rfl, rfl, rfl⟩

theorem keeps_splitPart (kind : DeltaKind) : Keeps ctx (splitPart ctx kind) := by
  cases kind <;> exact ⟨rfl, rfl, rfl, rfl⟩

theorem silent_deltaText (kind : DeltaKind) (delta : String) : Silent ctx (deltaText ctx kind delta now) := by
  have hkeeps := (keeps_splitPart ctx kind).trans (mints_seqId (splitPart ctx kind) (partKey (splitPart ctx kind) kind)
    (partKey (splitPart ctx kind) kind)).keeps
  have hshown (fresh : Bool) (id messageID : String) (s : State) :
      toolShown ((if fresh = true then [.partUpdated (emptyPart s kind id now) now] else []) ++
        [.partDelta messageID id delta]) = [] := by
    cases kind <;> cases fresh <;> rfl
  unfold deltaText
  cases kind with
  | text => exact ⟨⟨hkeeps.status, hkeeps.output, hkeeps.files, hkeeps.error⟩, hshown _ _ _ _⟩
  | reasoning => exact ⟨⟨hkeeps.status, hkeeps.output, hkeeps.files, hkeeps.error⟩, hshown _ _ _ _⟩

theorem silent_endReasoning : Silent ctx (endReasoning ctx now) := by
  unfold endReasoning
  split
  · exact ⟨.refl _, rfl⟩
  · exact ⟨⟨rfl, rfl, rfl, rfl⟩, rfl⟩

theorem keeps_nextNoticePartId : Keeps ctx (nextNoticePartId ctx).1 := by
  unfold nextNoticePartId
  extract_lets count key
  have hcount : Keeps ctx { ctx with notices := { ctx.notices with noticeCount := count } } := ⟨rfl, rfl, rfl, rfl⟩
  exact hcount.trans (mints_seqId _ _ _).keeps

theorem keeps_noticePartId (sessionId : String) (eventId : Option String) : Keeps ctx (noticePartId sessionId ctx eventId).1 := by
  unfold noticePartId
  split
  · split_ifs
    · exact keeps_nextNoticePartId ctx
    · exact .refl ctx
  · exact keeps_nextNoticePartId ctx

theorem keeps_compactionPartId : Keeps ctx (compactionPartId ctx).1 := by
  unfold compactionPartId
  split
  · exact .refl ctx
  · exact keeps_nextNoticePartId ctx

theorem silent_noticePart {s : State} (id : String) (notice : TranscriptNotice) (after : List Payload)
    (hs : Keeps ctx s) (hafter : toolShown after = []) :
    Silent ctx ((noticePart s id notice now).1, (noticePart s id notice now).2 :: after) :=
  ⟨hs.trans (keeps_split s), hafter⟩

theorem silent_projectCompaction (started aborted : Bool) (error : Option String) :
    Silent ctx (projectCompaction ctx started aborted error now) := by
  unfold projectCompaction
  split_ifs
  · exact ⟨.refl ctx, rfl⟩
  · exact silent_noticePart ctx now _ _ [] ((keeps_nextNoticePartId ctx).trans ⟨rfl, rfl, rfl, rfl⟩) rfl
  · exact silent_noticePart ctx now _ _ _ ((keeps_compactionPartId ctx).trans ⟨rfl, rfl, rfl, rfl⟩) (by split_ifs <;> rfl)

theorem silent_projectHarnessNotice (sessionId code message : String) (severity : Option NoticeSeverity)
    (eventId : Option String) : Silent ctx (projectHarnessNotice sessionId ctx code message severity eventId now) := by
  unfold projectHarnessNotice
  extract_lets severity'
  split_ifs
  · exact ⟨.refl ctx, rfl⟩
  · exact silent_noticePart ctx now _ _ [] (keeps_noticePartId ctx sessionId eventId) rfl

theorem silent_projectAgentMessage (sessionId : String) (notice : TranscriptNotice) (eventId : Option String) :
    Silent ctx (projectAgentMessage sessionId ctx notice eventId now) := by
  unfold projectAgentMessage
  split_ifs
  · exact ⟨.refl ctx, rfl⟩
  · exact silent_noticePart ctx now _ _ [] (keeps_noticePartId ctx sessionId eventId) rfl

theorem silent_filePart (slot : String) (shown : FileShown) : Silent ctx (filePart ctx slot shown now) :=
  ⟨(keeps_split ctx).trans (mints_seqId _ _ _).keeps, rfl⟩

theorem silent_translatePlain (type : PlainEvent) : Silent ctx (translatePlain ctx type) := by
  cases type <;> exact ⟨⟨rfl, rfl, rfl, rfl⟩, rfl⟩

end

/-! ### What an event tells -/

/-- An input report that carries nothing is not published. -/
def carriesNothing (ctx : State) (c : String) (input : Json) (display metadata : Option Record) : Bool :=
  (inputKnown ctx c input display metadata).input.isEmpty && (inputKnown ctx c input display metadata).metadata.isEmpty

/-- The calls a retraction may withdraw. -/
def withdrawnBy (ctx : State) (responseIds : List String) (reason : String) : Withdrawn :=
  ⟨(takeOut ctx.responses responseIds).2.flatMap ResponseMembers.toolCallIds, reason⟩

def told (s : State) : RuntimeEvent → String → Option Report
  | .toolStart c .. => only c .start
  | .toolInput c input display metadata => if carriesNothing s c input display metadata then fun _ => none else only c .input
  | .toolStatus c status .. => only c (.status (compatToolStatus status))
  | .toolContent c content .. => only c (.content (toolContentText content))
  | .toolOutput c output attachments display metadata =>
    only c (.output (formattedOutput s c output display metadata).value (attachments.map attachmentPart))
  | .toolError c error .. => only c (.error error)
  | .toolLocation c _ => only c .location
  | .toolTerminal c _ => only c .terminal
  | .responseRetracted responseIds reason => sweeps WITHDRAWN_TOOL (some (withdrawnBy s responseIds reason))
  | _ => fun _ => none

theorem forall_only {c : String} {rep : Report} {P : String → Report → Prop} :
    (∀ d rep', only c rep d = some rep' → P d rep') ↔ P c rep := by
  constructor
  · intro h
    exact h c rep (if_pos rfl)
  · intro h d rep' hd
    unfold only at hd
    split_ifs at hd with heq
    obtain rfl := Option.some.inj hd
    rwa [← heq]

/-- What an answer tells, and the calls it keeps records of. -/
structure Answers (calls : Finset String) (s : State) (answered : State × List Payload) (told : String → Option Report) :
    Prop where
  tells : Tells s answered told
  within : Within calls answered.1

section
variable {calls : Finset String} {ctx s : State} {c : String} {rep : Report} {answered : State × List Payload}

theorem Silent.answers (h : Silent ctx answered) (hs : Within calls ctx) : Answers calls ctx answered fun _ => none :=
  ⟨h.tells, h.keeps.within hs⟩

theorem Reports.answers (h : Reports c rep ctx answered) (hs : Within calls ctx) (hc : c ∈ calls) :
    Answers calls ctx answered (only c rep) := ⟨h.tells, h.writes.within hs hc⟩

theorem Answers.congr {told told' : String → Option Report} (h : Answers calls ctx answered told)
    (hsame : ∀ c, told' c = told c) : Answers calls ctx answered told' :=
  ⟨h.tells.congr fun c => .inl (hsame c), h.within⟩

/-- What is told of a state is told of one with the same records. -/
theorem Answers.of_keeps {told : String → Option Report} (h : Answers calls s answered told) (hkeeps : Keeps ctx s) :
    Answers calls ctx answered told := by
  refine ⟨⟨fun c => ?_, fun c => ?_⟩, h.within⟩
  · rw [h.tells.record c, hkeeps.recordOf]
  · rw [h.tells.shown c, hkeeps.recordOf]

theorem answers_retractResponses (responseIds : List String) (reason : String) (now : ℕ) (hs : Within calls ctx) :
    Answers calls ctx (retractResponses ctx responseIds reason now)
      (sweeps WITHDRAWN_TOOL (some (withdrawnBy ctx responseIds reason))) := by
  unfold retractResponses
  extract_lets taken withdrawn taken' again parts marked tools
  have htaken : Keeps ctx taken' := ⟨rfl, rfl, rfl, rfl⟩
  split_ifs with hempty
  · refine ⟨htaken |> fun h => (Tells.nothing h.recordOf rfl).congr fun c => .inl ?_, htaken.within hs⟩
    have hnone : withdrawn = [] := List.isEmpty_iff.mp hempty
    simp [sweeps, withdrawnBy, show (takeOut ctx.responses responseIds).2 = [] from hnone]
  · have hagain : Keeps ctx again := htaken.trans (keeps_split _)
    have hwithin := hagain.within hs
    have htells := @tells_terminalizeOpenTools again WITHDRAWN_TOOL now
      (some ⟨withdrawn.flatMap ResponseMembers.toolCallIds, reason⟩) hwithin.status.1
    have hmarked : toolShown marked = [] := by
      cases hparts : parts.isEmpty <;> simp [marked, hparts, toolShown, toolParts, toolPartOf]
    refine Answers.of_keeps ⟨⟨htells.record, fun c => ?_⟩, within_terminalizeOpenTools _ _ _ hwithin⟩ hagain
    rw [shownOf_append, shownOf, hmarked, List.filter_nil, List.map_nil, List.nil_append]
    exact htells.shown c

theorem answers_translate (options : Options) (event : RuntimeEvent) (now : ℕ) (hs : Within calls ctx)
    (hevent : ∀ c, event.toolCallId? = some c → c ∈ calls) :
    Answers calls ctx (translateRuntimeEventToCompat options ctx event now) (told ctx event) := by
  have hsplit : Within calls (split ctx) := (keeps_split ctx).within hs
  cases event with
  | toolStart c toolName display metadata =>
    exact ((reports_start _ _ _ _).answers hsplit (hevent c rfl)).of_keeps (keeps_split ctx)
  | toolInput c input display metadata =>
    rcases hnothing : carriesNothing ctx c input display metadata with _ | _
    · have hreports : Reports c .input (split ctx) (translateToolInput (split ctx) c input display metadata now) :=
        reports_input input display metadata now hnothing
      refine ((hreports.answers hsplit (hevent c rfl)).of_keeps (keeps_split ctx)).congr fun d => ?_
      rw [told, hnothing]
      rfl
    · have hsilent : translateToolInput (split ctx) c input display metadata now = (split ctx, []) := if_pos hnothing
      have hanswers : Answers calls ctx (split ctx, []) fun _ => none := Silent.answers ⟨keeps_split ctx, rfl⟩ hs
      rw [translateRuntimeEventToCompat, hsilent]
      refine hanswers.congr fun d => ?_
      rw [told, hnothing]
      rfl
  | toolStatus c status display metadata =>
    exact ((reports_status _ _ _ _).answers hsplit (hevent c rfl)).of_keeps (keeps_split ctx)
  | toolContent c content display metadata =>
    exact ((reports_content _ _ _ _).answers hsplit (hevent c rfl)).of_keeps (keeps_split ctx)
  | toolOutput c output attachments display metadata =>
    exact ((reports_output _ _ _ _ _).answers hsplit (hevent c rfl)).of_keeps (keeps_split ctx)
  | toolError c error display metadata =>
    exact ((reports_error _ _ _ _).answers hsplit (hevent c rfl)).of_keeps (keeps_split ctx)
  | toolLocation c locations => exact ((reports_location _ _).answers hsplit (hevent c rfl)).of_keeps (keeps_split ctx)
  | toolTerminal c terminalId => exact ((reports_terminal _ _).answers hsplit (hevent c rfl)).of_keeps (keeps_split ctx)
  | responseRetracted responseIds reason => exact answers_retractResponses responseIds reason now hs
  | textDelta delta => exact (silent_deltaText ctx now .text delta).answers hs
  | thinkingDelta delta => exact (silent_deltaText ctx now .reasoning delta).answers hs
  | proposedPlanDelta delta =>
    have hplan : Keeps ctx { ctx with proposedPlanText := ctx.proposedPlanText ++ delta } := ⟨rfl, rfl, rfl, rfl⟩
    exact ((silent_deltaText _ now .text delta).answers (hplan.within hs)).of_keeps hplan
  | proposedPlanComplete planMarkdown =>
    have hplan : Keeps ctx { ctx with proposedPlanText := planMarkdown } := ⟨rfl, rfl, rfl, rfl⟩
    unfold translateRuntimeEventToCompat
    dsimp only
    split_ifs
    · exact Silent.answers ⟨hplan, rfl⟩ hs
    · exact ((silent_deltaText _ now .text _).answers (hplan.within hs)).of_keeps hplan
  | sessionCompaction => exact (silent_projectCompaction _ _ _ _ _).answers hs
  | harnessNotice => exact (silent_projectHarnessNotice _ _ _ _ _ _ _).answers hs
  | agentMessage | conversationReset => exact (silent_projectAgentMessage _ _ _ _ _).answers hs
  | imageDelta | audioDelta | resourceLinkDelta => exact (silent_filePart _ _ _ _).answers hs
  | plain type => exact (silent_translatePlain ctx type).answers hs
  | sessionStatus status =>
    refine Silent.answers ⟨.refl ctx, ?_⟩ hs
    dsimp only [translateRuntimeEventToCompat]
    split_ifs <;> rfl
  | _ => exact Silent.answers ⟨⟨rfl, rfl, rfl, rfl⟩, rfl⟩ hs

end

/-! ### A call of the projection -/

/-- What changes before an event is translated. -/
theorem entered_eq (state : State) (event : RuntimeEvent) (now : ℕ) :
    ∃ notices openReasoning splitReasoning,
      (if REASONING_ENDS_ON event then endReasoning (resumeAfterRetry state event).1 now
        else ((resumeAfterRetry state event).1, [])).1 =
        { state with notices := notices, openReasoning := openReasoning, splitReasoning := splitReasoning } := by
  have hresumed : ∃ notices, (resumeAfterRetry state event).1 = { state with notices := notices } := by
    unfold resumeAfterRetry
    split_ifs <;> exact ⟨_, rfl⟩
  obtain ⟨notices, hresumed⟩ := hresumed
  rw [hresumed]
  unfold endReasoning
  split_ifs
  · split <;> exact ⟨_, _, _, rfl⟩
  · exact ⟨_, _, _, rfl⟩

theorem told_congr (state : State) (event : RuntimeEvent) (notices : NoticeProjectionState)
    (openReasoning : Option OpenReasoningPart) (splitReasoning : Bool) :
    told { state with notices := notices, openReasoning := openReasoning, splitReasoning := splitReasoning } event =
      told state event := by
  cases event <;> rfl

theorem toolShown_resumed (state : State) (event : RuntimeEvent) : toolShown (resumeAfterRetry state event).2 = [] := by
  unfold resumeAfterRetry
  split_ifs <;> rfl

theorem keeps_recordResponseMembers (ctx : State) (event : RuntimeEvent) (envelopes : List Payload) :
    Keeps ctx (recordResponseMembers ctx event envelopes) := by
  unfold recordResponseMembers
  split <;> exact ⟨rfl, rfl, rfl, rfl⟩

theorem keeps_announced (options : Options) (now : ℕ) (event : State × List Payload) :
    Keeps event.1 (withAnnouncedAssistantMessage options now event).1 ∧
      toolShown (withAnnouncedAssistantMessage options now event).2 = toolShown event.2 := by
  unfold withAnnouncedAssistantMessage
  extract_lets ctx events announced
  split_ifs
  · exact ⟨.refl _, rfl⟩
  · split <;> exact ⟨⟨rfl, rfl, rfl, rfl⟩, rfl⟩

section
variable {calls : Finset String} {state : State}

theorem answers_run {answered : State × List Payload} {told : String → Option Report} (options : Options) (now : ℕ)
    (hcalls : calls.card ≤ RETAINED_TOOL_CALLS_MAX) (h : Answers calls state answered told) :
    Answers calls state (run options now answered) told := by
  obtain ⟨hkeeps, hshown⟩ := keeps_announced options now answered
  have hwithin := hkeeps.within h.within
  have hrun : run options now answered = (boundRetainedState (withAnnouncedAssistantMessage options now answered).1,
      (withAnnouncedAssistantMessage options now answered).2) := rfl
  rw [hrun]
  refine ⟨⟨fun c => ?_, fun c => ?_⟩, hwithin.bound⟩
  · rw [recordOf_bound hwithin hcalls, hkeeps.recordOf, h.tells.record]
  · rw [← h.tells.shown c, shownOf, hshown]
    rfl

theorem Answers.after {told : String → Option Report} {s : State} {before : List Payload} {answered : State × List Payload}
    (hbefore : Silent state (s, before)) (h : Answers calls s answered told) :
    Answers calls state (answered.1, before ++ answered.2) told := by
  refine Answers.of_keeps ⟨⟨h.tells.record, fun c => ?_⟩, h.within⟩ hbefore.keeps
  rw [shownOf_append, shownOf, hbefore.shown, List.filter_nil, List.map_nil, List.nil_append]
  exact h.tells.shown c

theorem silent_entered (state : State) (event : RuntimeEvent) (now : ℕ) :
    Silent state
      ((if REASONING_ENDS_ON event then endReasoning (resumeAfterRetry state event).1 now
        else ((resumeAfterRetry state event).1, [])).1,
       (resumeAfterRetry state event).2 ++ (if REASONING_ENDS_ON event then endReasoning (resumeAfterRetry state event).1 now
        else ((resumeAfterRetry state event).1, [])).2) := by
  refine ⟨?_, ?_⟩
  · obtain ⟨notices, openReasoning, splitReasoning, hentered⟩ := entered_eq state event now
    rw [hentered]
    exact ⟨rfl, rfl, rfl, rfl⟩
  · rw [toolShown_append, toolShown_resumed, List.nil_append]
    split_ifs
    · exact (silent_endReasoning _ now).shown
    · rfl

theorem answers_projectEvent (options : Options) (event : RuntimeEvent) (now : ℕ) (hs : Within calls state)
    (hevent : ∀ c, event.toolCallId? = some c → c ∈ calls) :
    Answers calls state (projectEvent options state event now) (told state event) := by
  have hsilent := silent_entered state event now
  obtain ⟨notices, openReasoning, splitReasoning, hentered⟩ := entered_eq state event now
  have htranslated := answers_translate options event now (hsilent.keeps.within hs) hevent
  have htold := told_congr state event notices openReasoning splitReasoning
  refine (Answers.after hsilent htranslated).congr fun c => ?_
  rw [← htold, ← hentered]

/-- What a call of the projection tells of each tool call. -/
def Call.told (s : State) : Call → String → Option Report
  | .ingest event _ => Presentation.told s event
  | .thrown => fun _ => none
  | .terminalizeOpenTools error _ => sweeps error none

theorem answers_call (options : Options) (cl : Call) (hcalls : calls.card ≤ RETAINED_TOOL_CALLS_MAX)
    (hs : Within calls state) (hcl : ∀ c, cl.toolCallId? = some c → c ∈ calls) :
    Answers calls state (call options state cl) (cl.told state) := by
  cases cl with
  | ingest event now =>
    have hprojected := answers_projectEvent options event now hs hcl
    have hrecorded := keeps_recordResponseMembers (projectEvent options state event now).1 event
      (projectEvent options state event now).2
    refine answers_run options now hcalls ⟨⟨fun c => ?_, hprojected.tells.shown⟩, hrecorded.within hprojected.within⟩
    rw [hrecorded.recordOf, hprojected.tells.record]
    rfl
  | thrown => exact Silent.answers ⟨.refl state, rfl⟩ hs
  | terminalizeOpenTools error now =>
    have hended := silent_endReasoning state now
    have hwithin := hended.keeps.within hs
    exact answers_run options now hcalls (Answers.after hended
      ⟨tells_terminalizeOpenTools error now none hwithin.status.1, within_terminalizeOpenTools error now none hwithin⟩)

end

/-! ### A turn -/

/-- A turn as one tool call has it. -/
def traceOf (turn : Turn) (c : String) : CallTrace := ⟨recordOf turn.state c, shownOf c turn.published⟩

/-- The reports a turn goes on to make on a call. -/
def reportsOf (options : Options) (c : String) : Turn → List Call → List Report
  | _, [] => []
  | turn, cl :: rest => (cl.told turn.state c).toList ++ reportsOf options c (turn.step options cl) rest

section
variable {options : Options} {calls : List Call} {known : Finset String} {turn : Turn} {c : String}

theorem traceOf_step (options : Options) (c : String) (cl : Call) (hknown : known.card ≤ RETAINED_TOOL_CALLS_MAX)
    (hs : Within known turn.state)
    (hcl : ∀ c, cl.toolCallId? = some c → c ∈ known) :
    Within known (turn.step options cl).state ∧
      traceOf (turn.step options cl) c = Lib.run CallTrace.step (traceOf turn c) (cl.told turn.state c).toList := by
  have hanswers := answers_call options cl hknown hs hcl
  refine ⟨hanswers.within, ?_⟩
  have hrecord := hanswers.tells.record c
  have hshown := hanswers.tells.shown c
  unfold traceOf Turn.step
  rw [shownOf_append, hshown, hrecord]
  rcases cl.told turn.state c with _ | rep
  · rw [Option.elim_none, Option.elim_none, List.append_nil]
    rfl
  · rfl

/-- A turn with no more tool calls than are retained runs each of them on its own. -/
theorem traceOf_run (hknown : known.card ≤ RETAINED_TOOL_CALLS_MAX) (hcalls : ∀ cl ∈ calls, ∀ c, cl.toolCallId? = some c → c ∈ known)
    (hs : Within known turn.state) :
    traceOf (Lib.run (Turn.step options) turn calls) c =
      Lib.run CallTrace.step (traceOf turn c) (reportsOf options c turn calls) := by
  induction calls generalizing turn with
  | nil => rfl
  | cons cl rest ih =>
    obtain ⟨hcl, hrest⟩ := List.forall_mem_cons.mp hcalls
    obtain ⟨hwithin, hstep⟩ := traceOf_step options c cl hknown hs hcl
    rw [run_cons, ih hrest hwithin, hstep, reportsOf, run_append]

/-- What is asked of the reports on a call, asked of a call of the projection. -/
def Allows (allowed : CallRecord → Report → Prop) (c : String) (turn : Turn) (cl : Call) : Prop :=
  ∀ rep, cl.told turn.state c = some rep → allowed (recordOf turn.state c) rep

theorem meets_reportsOf (allowed : CallRecord → Report → Prop) (hknown : known.card ≤ RETAINED_TOOL_CALLS_MAX)
    (hcalls : ∀ cl ∈ calls, ∀ c, cl.toolCallId? = some c → c ∈ known) (hs : Within known turn.state) :
    Meets CallTrace.step (fun t rep => allowed t.record rep) (traceOf turn c) (reportsOf options c turn calls) ↔
      Meets (Turn.step options) (Allows allowed c) turn calls := by
  induction calls generalizing turn with
  | nil => simp [Meets, reportsOf]
  | cons cl rest ih =>
    obtain ⟨hcl, hrest⟩ := List.forall_mem_cons.mp hcalls
    obtain ⟨hwithin, hstep⟩ := traceOf_step options c cl hknown hs hcl
    rw [reportsOf, meets_append, ← hstep, ih hrest hwithin, Meets, Allows]
    refine and_congr_left fun _ => ?_
    rcases cl.told turn.state c with _ | rep <;> simp [Meets, traceOf]

theorem within_start (known : Finset String) (options : Options) : Within known (Turn.start options).state :=
  ⟨.nil, .nil, .nil, .nil⟩

theorem mem_toolCalls : ∀ cl ∈ calls, ∀ c, cl.toolCallId? = some c → c ∈ toolCalls calls := by
  intro cl hcl c hc
  exact List.mem_toFinset.mpr (List.mem_filterMap.mpr ⟨cl, hcl, hc⟩)

theorem traceOf_turnOf (hcalls : (toolCalls calls).card ≤ RETAINED_TOOL_CALLS_MAX) (c : String) :
    traceOf (turnOf options calls) c =
      Lib.run CallTrace.step CallTrace.start (reportsOf options c (Turn.start options) calls) :=
  traceOf_run hcalls mem_toolCalls (within_start _ options)

/-- What is asked of the reports on every call is asked of the turn's calls as they come. -/
theorem meets_turnOf (allowed : CallRecord → Report → Prop) (hcalls : (toolCalls calls).card ≤ RETAINED_TOOL_CALLS_MAX) :
    (∀ c, Meets CallTrace.step (fun t rep => allowed t.record rep) CallTrace.start
      (reportsOf options c (Turn.start options) calls)) ↔
      Meets (Turn.step options) (fun turn cl => ∀ c, Allows allowed c turn cl) (Turn.start options) calls := by
  rw [← meets_forall]
  exact forall_congr' fun c => meets_reportsOf allowed hcalls mem_toolCalls (within_start _ options)

end

/-! A finished tool call, in all that is published of it later. -/

/-- What a part once showed its call to have come to, every later part of the call shows. -/
def FinishedStays (events : List Payload) : Prop :=
  (toolParts events).Pairwise fun p q => q.callID = p.callID → p.state.shown.finished = true → q.state.shown = p.state.shown

instance (events : List Payload) : Decidable (FinishedStays events) := inferInstanceAs (Decidable (List.Pairwise _ _))

/-- A report on a finished call is one of those that draw it as it is kept: no input that carries something, no location,
no other status, and no content but one that reads as the kept output or, of a failed call, as the error does. -/
def SparesFinished (s : State) : Call → Prop
  | .ingest (.toolInput c input display metadata) _ =>
    isTerminal s c = true → carriesNothing s c input display metadata = true
  | .ingest (.toolLocation c _) _ => isTerminal s c = false
  | .ingest (.toolStatus c status ..) _ => isTerminal s c = true → statusOf s c = some (compatToolStatus status)
  | .ingest (.toolContent c content ..) _ =>
    (statusOf s c = some .completed → (toolContentText content).getD "" = keptOutput s c) ∧
      (statusOf s c = some .error → keptError s c = "tool failed")
  | _ => True

theorem finishedStays_iff (events : List Payload) : FinishedStays events ↔ ∀ c, CallTrace.Stays (shownOf c events) := by
  unfold FinishedStays CallTrace.Stays shownOf toolShown
  simp only [List.pairwise_map, List.pairwise_filter, decide_eq_true_eq]
  simp only [List.pairwise_iff_forall_sublist]
  constructor
  · intro h c p q hsub hp hq hfin
    exact h hsub (hq.trans hp.symm) hfin
  · intro h p q hsub hcall hfin
    exact h p.callID hsub rfl hcall hfin

theorem spares_of_sweeps {s : State} {error : String} {withdrawn : Option Withdrawn} (c : String) (rep : Report)
    (h : sweeps error withdrawn c = some rep) : (recordOf s c).Spares rep := by
  unfold sweeps at h
  split_ifs at h
  obtain rfl := Option.some.inj h
  trivial

theorem sparesFinished_iff (s : State) (cl : Call) :
    (∀ c rep, cl.told s c = some rep → (recordOf s c).Spares rep) ↔ SparesFinished s cl := by
  cases cl with
  | thrown => simp [Call.told, SparesFinished]
  | terminalizeOpenTools error now => exact iff_of_true spares_of_sweeps trivial
  | ingest event now =>
    cases event with
    | toolStart | toolContent | toolOutput | toolError | toolTerminal =>
      exact forall_only
    | toolStatus | toolLocation =>
      rw [SparesFinished, isTerminal_recordOf]
      exact forall_only
    | toolInput c input display metadata =>
      rw [SparesFinished, isTerminal_recordOf]
      simp only [Call.told, told]
      cases carriesNothing s c input display metadata with
      | true => simp
      | false =>
        refine forall_only.trans ?_
        simp [CallRecord.Spares]
    | responseRetracted responseIds reason => exact iff_of_true spares_of_sweeps trivial
    | _ => simp [Call.told, told, SparesFinished]

/-- A finished tool call stays finished exactly as long as every report on one spares it. -/
theorem finishedStays_iff_spared (options : Options) (calls : List Call)
    (hcalls : (toolCalls calls).card ≤ RETAINED_TOOL_CALLS_MAX) :
    FinishedStays (turnOf options calls).published ↔
      Meets (Turn.step options) (fun turn cl => SparesFinished turn.state cl) (Turn.start options) calls := by
  have hspares (turn : Turn) (cl : Call) : (∀ c, Allows CallRecord.Spares c turn cl) ↔ SparesFinished turn.state cl :=
    sparesFinished_iff turn.state cl
  calc FinishedStays (turnOf options calls).published
      ↔ ∀ c, CallTrace.Stays (traceOf (turnOf options calls) c).shown := finishedStays_iff _
    _ ↔ ∀ c, Meets CallTrace.step (fun t rep => t.record.Spares rep) CallTrace.start
          (reportsOf options c (Turn.start options) calls) :=
        forall_congr' fun c => by rw [traceOf_turnOf hcalls]; exact CallTrace.stays_iff_meets _
    _ ↔ Meets (Turn.step options) (fun turn cl => ∀ c, Allows CallRecord.Spares c turn cl) (Turn.start options) calls :=
        meets_turnOf CallRecord.Spares hcalls
    _ ↔ Meets (Turn.step options) (fun turn cl => SparesFinished turn.state cl) (Turn.start options) calls :=
        meets_congr hspares

/-- A command that ran, and its status and its name once more. -/
def shownAgain : List Call :=
  [.ingest (.toolStart "tool-1" "bash" none none) 100, .ingest (.toolOutput "tool-1" (.str "done") [] none none) 100,
   .ingest (.toolStatus "tool-1" .completed none none) 101, .ingest (.toolStart "tool-1" "bash" none none) 102]

theorem finished_shownAgain : FinishedStays (turnOf (.beside "session-1" "msg_turn_1_r") shownAgain).published :=
  (finishedStays_iff_spared _ shownAgain (by decide)).mpr
    ⟨trivial, trivial, fun _ => by decide +kernel, trivial, trivial⟩

/-- A command that ran, and a place in a file it is about. -/
def locatedLate : List Call :=
  [.ingest (.toolStart "tool-1" "bash" none none) 100, .ingest (.toolOutput "tool-1" (.str "done") [] none none) 100,
   .ingest (.toolLocation "tool-1" [⟨"src/index.ts", some 3⟩]) 101]

theorem location_reopens_finished :
    ¬ ∀ (options : Options) (calls : List Call), (toolCalls calls).card ≤ RETAINED_TOOL_CALLS_MAX →
      FinishedStays (turnOf options calls).published :=
  fun h => absurd (h (.beside "session-1" "msg_turn_1_r") locatedLate (by decide)) (by decide +kernel)

end Claxedo.Presentation
