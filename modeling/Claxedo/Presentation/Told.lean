import Claxedo.Presentation.CallRecord
import Claxedo.Presentation.Projection

/-! What an event of the runtime tells of each tool call, and that the projection keeps and publishes of a call what the
call on its own would. -/

namespace Claxedo.Presentation

open Claxedo.Lib

def ToolState.shown : ToolState → Shown
  | .pending .. => .pending
  | .running .. => .running
  | .completed _ output _ _ _ attachments => .completed output (attachments.map FilePart.shown)
  | .error _ text .. => .error text

def toolPartOf : Payload → Option ToolPart
  | .partUpdated (.tool part) _ => some part
  | _ => none

def toolParts (events : List Payload) : List ToolPart := events.filterMap toolPartOf

/-- The calls shown, and what each is shown as. -/
def toolShown (events : List Payload) : List (String × Shown) :=
  (toolParts events).map fun part => (part.callID, part.state.shown)

def shownOf (c : String) (events : List Payload) : List Shown :=
  ((toolShown events).filter fun pair => pair.1 = c).map Prod.snd

def recordOf (s : State) (c : String) : CallRecord where
  status := statusOf s c
  output := Assoc.lookup c s.toolOutputsByCallId
  files := ((Assoc.lookup c s.toolAttachmentsByCallId).getD []).map attachmentPart
  error := Assoc.lookup c s.toolErrorsByCallId

@[simp] theorem toolShown_nil : toolShown [] = [] := rfl

theorem toolShown_append (a b : List Payload) : toolShown (a ++ b) = toolShown a ++ toolShown b := by
  simp [toolShown, toolParts, List.filterMap_append]

theorem shownOf_append (c : String) (a b : List Payload) : shownOf c (a ++ b) = shownOf c a ++ shownOf c b := by
  simp [shownOf, toolShown_append]

/-! ### Parts leave the records alone -/

/-- Nothing but part ids was minted. -/
def Mints (s s' : State) : Prop := ∃ ids, s' = { s with partIdMap := ids }

theorem Mints.trans {a b c : State} (h : Mints a b) (h' : Mints b c) : Mints a c := by
  obtain ⟨ids, rfl⟩ := h
  obtain ⟨ids', rfl⟩ := h'
  exact ⟨ids', rfl⟩

theorem mints_seqId (ctx : State) (key name : String) : Mints ctx (seqId ctx key name).1 := by
  unfold seqId
  split
  · exact ⟨ctx.partIdMap, rfl⟩
  · exact ⟨_, rfl⟩

theorem attachmentParts_spec (toolCallId : String) (attachments : List RuntimeToolAttachment) :
    ∀ (ctx : State) (index : ℕ), Mints ctx (attachmentParts toolCallId ctx index attachments).1 ∧
      (attachmentParts toolCallId ctx index attachments).2.map FilePart.shown = attachments.map attachmentPart := by
  induction attachments with
  | nil => exact fun ctx _ => ⟨⟨ctx.partIdMap, rfl⟩, rfl⟩
  | cons attachment rest ih =>
    intro ctx index
    obtain ⟨hmints, hshown⟩ := ih (seqId ctx (toolCallId ++ "-attachment-" ++ toString index)
      (ctx.assistantMsgId ++ "-" ++ (toolCallId ++ "-attachment-" ++ toString index))).1 (index + 1)
    exact ⟨(mints_seqId _ _ _).trans hmints, by rw [attachmentParts, List.map_cons, List.map_cons, hshown]⟩

theorem mints_toolEvent (ctx : State) (input : ToolReport) : Mints ctx (toolEvent ctx input).1 :=
  (mints_seqId _ _ _).trans (attachmentParts_spec _ _ _ _).1

theorem recordOf_of_mints {s s' : State} (h : Mints s s') (c : String) : recordOf s' c = recordOf s c := by
  obtain ⟨ids, rfl⟩ := h
  rfl

theorem shown_toolState (input : ToolReport) (attachments : List FilePart) :
    (toolState input attachments).shown =
      CallRecord.shownAs (input.output.getD "") (attachments.map FilePart.shown) (input.error.getD "tool failed")
        input.status := by
  unfold toolState
  cases input.status <;> rfl

theorem shown_toolEvent (ctx : State) (input : ToolReport) :
    toolShown [(toolEvent ctx input).2] = [(input.toolCallId,
      CallRecord.shownAs (input.output.getD "") (recordOf ctx input.toolCallId).files (input.error.getD "tool failed")
        input.status)] := by
  have hfiles := (attachmentParts_spec input.toolCallId
    ((Assoc.lookup input.toolCallId (seqId ctx input.toolCallId
      (ctx.assistantMsgId ++ "-" ++ input.toolCallId)).1.toolAttachmentsByCallId).getD []) (seqId ctx input.toolCallId
      (ctx.assistantMsgId ++ "-" ++ input.toolCallId)).1 0).2
  have hsame : recordOf (seqId ctx input.toolCallId (ctx.assistantMsgId ++ "-" ++ input.toolCallId)).1 input.toolCallId
      = recordOf ctx input.toolCallId := recordOf_of_mints (mints_seqId _ _ _) _
  rw [← hsame]
  exact congrArg (fun shown => [(input.toolCallId, shown)]) ((shown_toolState _ _).trans (by rw [toolAttachments, hfiles]; rfl))

/-! ### The maps of the calls -/

section
variable {ν : Type*} {known : Finset String} {m m' : List (String × ν)} {c d : String}

/-- One entry was assigned at most. -/
def Assigned (c : String) (m m' : List (String × ν)) : Prop := m' = m ∨ ∃ v, m' = Assoc.assign c v m

theorem Assigned.lookup_ne (h : Assigned c m m') (hne : c ≠ d) : Assoc.lookup d m' = Assoc.lookup d m := by
  rcases h with rfl | ⟨v, rfl⟩
  · rfl
  · rw [Assoc.lookup_assign, if_neg hne]

/-- One entry for each key, and keys from `known` alone. -/
def Keyed (known : Finset String) (m : List (String × ν)) : Prop :=
  (m.map Prod.fst).Nodup ∧ ∀ key ∈ m.map Prod.fst, key ∈ known

theorem Keyed.nil : Keyed known ([] : List (String × ν)) := ⟨List.nodup_nil, fun _ h => absurd h List.not_mem_nil⟩

theorem Keyed.assigned (h : Keyed known m) (hm : Assigned c m m') (hc : c ∈ known) : Keyed known m' := by
  rcases hm with rfl | ⟨v, rfl⟩
  · exact h
  · refine ⟨Table.nodup_keys_put h.1, fun key hkey => ?_⟩
    unfold Assoc.assign at hkey
    rw [Table.keys_put] at hkey
    split_ifs at hkey
    · exact h.2 key hkey
    · rcases List.mem_append.mp hkey with hkey | hkey
      · exact h.2 key hkey
      · obtain rfl := List.mem_singleton.mp hkey
        exact hc

theorem Keyed.bound (h : Keyed known m) (max : ℕ) : Keyed known (boundKeyedMap m max) := by
  have hsub : ((boundKeyedMap m max).map Prod.fst).Sublist (m.map Prod.fst) := (List.drop_sublist _ _).map _
  exact ⟨h.1.sublist hsub, fun key hkey => h.2 key (hsub.subset hkey)⟩

theorem Keyed.length_le (h : Keyed known m) : m.length ≤ known.card := by
  rw [← List.length_map Prod.fst, ← List.toFinset_card_of_nodup h.1]
  exact Finset.card_le_card fun key hkey => h.2 key (List.mem_toFinset.mp hkey)

theorem Keyed.bound_eq (h : Keyed known m) {max : ℕ} (hmax : known.card ≤ max) : boundKeyedMap m max = m := by
  have hlong := h.length_le
  rw [boundKeyedMap, Nat.sub_eq_zero_of_le (by omega), List.drop_zero]

end

/-- The maps a call's record is read from hold one entry for each call, and calls from `known` alone. -/
structure Within (known : Finset String) (s : State) : Prop where
  status : Keyed known s.toolStatusByCallId
  output : Keyed known s.toolOutputsByCallId
  files : Keyed known s.toolAttachmentsByCallId
  error : Keyed known s.toolErrorsByCallId

/-- One call's record was rewritten at most. -/
structure Writes (c : String) (s s' : State) : Prop where
  status : Assigned c s.toolStatusByCallId s'.toolStatusByCallId
  output : Assigned c s.toolOutputsByCallId s'.toolOutputsByCallId
  files : Assigned c s.toolAttachmentsByCallId s'.toolAttachmentsByCallId
  error : Assigned c s.toolErrorsByCallId s'.toolErrorsByCallId

section
variable {known : Finset String} {s s' s'' : State} {c d : String}

theorem Writes.mints (h : Writes c s s') (h' : Mints s' s'') : Writes c s s'' := by
  obtain ⟨ids, rfl⟩ := h'
  exact ⟨h.status, h.output, h.files, h.error⟩

theorem Writes.within (h : Writes c s s') (hs : Within known s) (hc : c ∈ known) : Within known s' :=
  ⟨hs.status.assigned h.status hc, hs.output.assigned h.output hc, hs.files.assigned h.files hc,
    hs.error.assigned h.error hc⟩

theorem Writes.recordOf_ne (h : Writes c s s') (hne : c ≠ d) : recordOf s' d = recordOf s d := by
  simp only [recordOf, statusOf, h.status.lookup_ne hne, h.output.lookup_ne hne, h.files.lookup_ne hne,
    h.error.lookup_ne hne]

theorem Within.bound (h : Within known s) : Within known (boundRetainedState s) := by
  have hstatus := h.status.bound RETAINED_TOOL_CALLS_MAX
  have houtput := h.output.bound RETAINED_TOOL_CALLS_MAX
  have hfiles := h.files.bound RETAINED_TOOL_CALLS_MAX
  have herror := h.error.bound RETAINED_TOOL_CALLS_MAX
  refine ⟨?_, ?_, ?_, ?_⟩ <;> simp only [boundRetainedState]
  · exact hstatus
  · exact houtput
  · exact hfiles
  · exact herror

/-- Where no more calls than are retained are known, none is forgotten. -/
theorem recordOf_bound (h : Within known s) (hknown : known.card ≤ RETAINED_TOOL_CALLS_MAX) (c : String) :
    recordOf (boundRetainedState s) c = recordOf s c := by
  simp only [recordOf, statusOf, boundRetainedState, h.status.bound_eq hknown, h.output.bound_eq hknown,
    h.files.bound_eq hknown, h.error.bound_eq hknown]

end

/-! ### What a report on one call does -/

/-- What is told of each call is what its record and what is shown of it come from. -/
structure Tells (ctx : State) (answered : State × List Payload) (told : String → Option Report) : Prop where
  record : ∀ c, recordOf answered.1 c = (told c).elim (recordOf ctx c) fun rep => ((recordOf ctx c).report rep).1
  shown : ∀ c, shownOf c answered.2 = (told c).elim [] fun rep => ((recordOf ctx c).report rep).2.toList

def only (c : String) (rep : Report) (d : String) : Option Report := if c = d then some rep else none

theorem shownOf_of_toolShown {c d : String} {events : List Payload} {x : Option Shown}
    (h : toolShown events = x.toList.map fun x => (c, x)) : shownOf d events = if c = d then x.toList else [] := by
  unfold shownOf
  rw [h]
  cases x <;> by_cases hd : c = d <;> simp [hd]

theorem tells_only {ctx : State} {answered : State × List Payload} {c : String} {rep : Report}
    (hwrites : Writes c ctx answered.1) (hrecord : recordOf answered.1 c = ((recordOf ctx c).report rep).1)
    (hshown : toolShown answered.2 = ((recordOf ctx c).report rep).2.toList.map fun x => (c, x)) :
    Tells ctx answered (only c rep) := by
  refine ⟨fun d => ?_, fun d => ?_⟩
  · by_cases hd : c = d
    · subst hd
      rw [hrecord, only, if_pos rfl]
      rfl
    · rw [hwrites.recordOf_ne hd, only, if_neg hd]
      rfl
  · rw [shownOf_of_toolShown hshown]
    by_cases hd : c = d
    · subst hd
      rw [only, if_pos rfl, if_pos rfl]
      rfl
    · rw [only, if_neg hd, if_neg hd]
      rfl

/-- What is told of a call changes nothing where it is told nothing else than it is. -/
theorem Tells.congr {ctx : State} {answered : State × List Payload} {told told' : String → Option Report}
    (h : Tells ctx answered told) (hsame : ∀ c, told' c = told c ∨
      told c = none ∧ ∃ rep, told' c = some rep ∧ (recordOf ctx c).report rep = (recordOf ctx c, none)) :
    Tells ctx answered told' := by
  refine ⟨fun c => ?_, fun c => ?_⟩
  · rcases hsame c with heq | ⟨hnone, rep, hsome, hrep⟩
    · rw [heq, h.record c]
    · rw [h.record c, hnone, hsome, Option.elim_none, Option.elim_some, hrep]
  · rcases hsame c with heq | ⟨hnone, rep, hsome, hrep⟩
    · rw [heq, h.shown c]
    · rw [h.shown c, hnone, hsome, Option.elim_none, Option.elim_some, hrep]
      rfl

theorem Tells.nothing {ctx s : State} {events : List Payload} (hrecord : ∀ c, recordOf s c = recordOf ctx c)
    (hevents : toolShown events = []) : Tells ctx (s, events) fun _ => none :=
  ⟨hrecord, fun c => by simp [shownOf, hevents]⟩

/-- Two answers in a row, of which no call is told twice. -/
theorem Tells.append {ctx : State} {a b : State × List Payload} {told told' : String → Option Report}
    (h : Tells ctx a told) (h' : Tells a.1 b told') (hdisjoint : ∀ c, told c = none ∨ told' c = none) :
    Tells ctx (b.1, a.2 ++ b.2) fun c => (told c).or (told' c) := by
  refine ⟨fun c => ?_, fun c => ?_⟩
  · rw [h'.record c, h.record c]
    rcases hdisjoint c with hc | hc <;> rw [hc]
    · rw [Option.none_or, Option.elim_none]
    · rw [Option.or_none, Option.elim_none]
  · rw [shownOf_append, h.shown c, h'.shown c, h.record c]
    rcases hdisjoint c with hc | hc <;> rw [hc]
    · rw [Option.none_or, Option.elim_none, Option.elim_none, List.nil_append]
    · rw [Option.or_none, Option.elim_none, List.append_nil]

section
variable {ctx s : State} {c d : String} {known : Known} {status : ToolStatus}

theorem recordOf_setStatus (ctx : State) (c : String) (status : ToolStatus) :
    recordOf (setStatus ctx c status) c = { recordOf ctx c with status := some status } := by
  simp [recordOf, statusOf, setStatus, Assoc.lookup_assign]

theorem recordOf_setOutput (ctx : State) (c output : String) :
    recordOf (setOutput ctx c output) c = { recordOf ctx c with output := some output } := by
  simp [recordOf, statusOf, setOutput, Assoc.lookup_assign]

theorem recordOf_setError (ctx : State) (c error : String) :
    recordOf (setError ctx c error) c = { recordOf ctx c with error := some error } := by
  simp [recordOf, statusOf, setError, Assoc.lookup_assign]

theorem recordOf_setAttachments (ctx : State) (c : String) (attachments : List RuntimeToolAttachment) :
    recordOf (setAttachments ctx c attachments) c = { recordOf ctx c with
      files := if attachments.map attachmentPart = [] then (recordOf ctx c).files else attachments.map attachmentPart } := by
  cases attachments <;> simp [recordOf, statusOf, setAttachments, Assoc.lookup_assign]

theorem toolShown_publish (before : List Payload) (input : ToolReport) (hbefore : toolShown before = []) :
    toolShown (publish before (toolEvent s input)).2 = [(input.toolCallId,
      CallRecord.shownAs (input.output.getD "") (recordOf s input.toolCallId).files (input.error.getD "tool failed")
        input.status)] := by
  rw [publish, toolShown_append, hbefore, shown_toolEvent, List.nil_append]

/-- The spec of a translator: one call's record is rewritten, and what is told is told of that call alone. -/
structure Reports (c : String) (rep : Report) (ctx : State) (answered : State × List Payload) : Prop where
  writes : Writes c ctx answered.1
  tells : Tells ctx answered (only c rep)

theorem reports_publish {rep : Report} {before : List Payload} {input : ToolReport} (hwrites : Writes c ctx s)
    (hcall : input.toolCallId = c) (hbefore : toolShown before = []) (hrecord : recordOf s c = ((recordOf ctx c).report rep).1)
    (hshown : ((recordOf ctx c).report rep).2 = some (CallRecord.shownAs (input.output.getD "") (recordOf s c).files
      (input.error.getD "tool failed") input.status)) : Reports c rep ctx (publish before (toolEvent s input)) := by
  have hmints := mints_toolEvent s input
  refine ⟨hwrites.mints hmints, tells_only (hwrites.mints hmints) ((recordOf_of_mints hmints c).trans hrecord) ?_⟩
  rw [toolShown_publish before input hbefore, hshown, hcall]
  rfl

theorem reports_nothing {rep : Report} {events : List Payload} (hevents : toolShown events = [])
    (h : (recordOf ctx c).report rep = (recordOf ctx c, none)) : Reports c rep ctx (ctx, events) := by
  have hwrites : Writes c ctx ctx := ⟨.inl rfl, .inl rfl, .inl rfl, .inl rfl⟩
  refine ⟨hwrites, tells_only hwrites (by rw [h]) ?_⟩
  rw [h, hevents]
  rfl

theorem shownAs_asKept (status : ToolStatus) :
    CallRecord.shownAs ((if status = .completed then some (keptOutput s c) else none : Option String).getD "")
      (recordOf s c).files ((if status = .error then some (keptError s c) else none : Option String).getD "tool failed")
      status = (recordOf s c).drawn status := by
  cases status <;> rfl

theorem reports_start (toolName : String) (display metadata : Option Record) (now : ℕ) :
    Reports c .start ctx (translateToolStart ctx c toolName display metadata now) := by
  unfold translateToolStart
  extract_lets tool known named status
  have hstatus : status = (recordOf ctx c).status.getD .running := rfl
  have hnamed : recordOf named c = recordOf ctx c := rfl
  clear_value status
  split_ifs with hend
  · refine reports_publish ⟨.inl rfl, .inl rfl, .inl rfl, .inl rfl⟩ rfl rfl ?_ ?_
    · have hkept : (recordOf ctx c).status = some status := by
        rcases hsome : (recordOf ctx c).status with _ | kept <;> simp_all
        cases hend
      rw [hnamed, CallRecord.report, ← hstatus, CallRecord.with_status hkept]
    · rw [shownAs_asKept, hnamed, CallRecord.report, hstatus]
  · refine reports_publish ⟨.inr ⟨_, rfl⟩, .inl rfl, .inl rfl, .inl rfl⟩ rfl rfl ?_ ?_
    · rw [recordOf_setStatus, hnamed, CallRecord.report, hstatus]
    · rw [recordOf_setStatus, hnamed, CallRecord.report, ← hstatus]
      cases status <;> first | rfl | exact absurd rfl hend

theorem reports_status (st : RuntimeToolStatus) (display metadata : Option Record) (now : ℕ) :
    Reports c (.status (compatToolStatus st)) ctx (translateToolStatus ctx c st display metadata now) := by
  refine reports_publish ⟨.inr ⟨_, rfl⟩, .inl rfl, .inl rfl, .inl rfl⟩ rfl rfl (recordOf_setStatus _ _ _) ?_
  rw [shownAs_asKept, recordOf_setStatus]
  rfl

theorem reports_input (input : Json) (display metadata : Option Record) (now : ℕ)
    (h : ((inputKnown ctx c input display metadata).input.isEmpty &&
      (inputKnown ctx c input display metadata).metadata.isEmpty) = false) :
    Reports c .input ctx (translateToolInput ctx c input display metadata now) := by
  unfold translateToolInput
  rw [if_neg (by rw [h]; exact Bool.false_ne_true)]
  refine reports_publish ⟨.inr ⟨_, rfl⟩, .inl rfl, .inl rfl, .inl rfl⟩ rfl rfl (recordOf_setStatus _ _ _) ?_
  rfl

theorem reports_content (content : Record) (display metadata : Option Record) (now : ℕ) :
    Reports c (.content (toolContentText content)) ctx (translateToolContent ctx c content display metadata now) := by
  unfold translateToolContent
  extract_lets tool reported known status contentText event
  have hshown : ((recordOf ctx c).report (.content contentText)).2 = some (CallRecord.shownAs
      ((if status = .completed then contentText else none : Option String).getD "") (recordOf ctx c).files "tool failed"
      status) := by
    change some (CallRecord.shownAs _ _ _ status) = _
    cases status <;> rfl
  split_ifs
  · exact reports_publish ⟨.inl rfl, .inl rfl, .inl rfl, .inl rfl⟩ rfl rfl rfl hshown
  · exact reports_publish ⟨.inl rfl, .inl rfl, .inl rfl, .inl rfl⟩ rfl rfl rfl hshown

theorem reports_location (locations : List ToolLocation) (now : ℕ) :
    Reports c .location ctx (translateToolLocation ctx c locations now) :=
  reports_publish ⟨.inl rfl, .inl rfl, .inl rfl, .inl rfl⟩ rfl rfl rfl rfl

theorem reports_terminal (terminalId : String) (now : ℕ) :
    Reports c .terminal ctx (translateToolTerminal ctx c terminalId now) := by
  refine reports_publish ⟨.inl rfl, .inl rfl, .inl rfl, .inl rfl⟩ rfl rfl rfl ?_
  rw [shownAs_asKept]
  rfl

theorem isTerminal_recordOf (ctx : State) (c : String) : isTerminal ctx c = (recordOf ctx c).isTerminal := by
  change (statusOf ctx c).any ToolStatus.isTerminal = (statusOf ctx c = some .completed || statusOf ctx c = some .error : Bool)
  rcases statusOf ctx c with _ | status
  · rfl
  · cases status <;> rfl

theorem reports_error (text : String) (display metadata : Option Record) (now : ℕ) :
    Reports c (.error text) ctx (translateToolError ctx c text display metadata now) := by
  unfold translateToolError
  extract_lets tool known
  have hkeep : recordOf (keep ctx c known) c = recordOf ctx c := rfl
  split_ifs with hend
  · rw [isTerminal_recordOf] at hend
    exact reports_nothing rfl (by simp [CallRecord.report, hend])
  · rw [isTerminal_recordOf] at hend
    refine reports_publish ⟨.inr ⟨_, rfl⟩, .inl rfl, .inl rfl, .inr ⟨_, rfl⟩⟩ rfl rfl ?_ ?_
    · rw [recordOf_setError, recordOf_setStatus, hkeep, CallRecord.report, if_neg hend]
    · rw [CallRecord.report, if_neg hend]
      rfl

theorem writes_output (output : String) (attachments : List RuntimeToolAttachment) :
    Writes c ctx (setAttachments (setOutput (setStatus (keep ctx c known) c status) c output) c attachments) := by
  unfold setAttachments
  split_ifs
  · exact ⟨.inr ⟨_, rfl⟩, .inr ⟨_, rfl⟩, .inl rfl, .inl rfl⟩
  · exact ⟨.inr ⟨_, rfl⟩, .inr ⟨_, rfl⟩, .inr ⟨_, rfl⟩, .inl rfl⟩

theorem reports_output (output : Json) (attachments : List RuntimeToolAttachment) (display metadata : Option Record)
    (now : ℕ) : Reports c (.output (formattedOutput ctx c output display metadata).value (attachments.map attachmentPart)) ctx
      (translateToolOutput ctx c output attachments display metadata now) := by
  unfold translateToolOutput
  extract_lets tool known formatted
  have hkeep : recordOf (keep ctx c known) c = recordOf ctx c := rfl
  by_cases hend : isTerminal ctx c = true
  · rw [if_pos hend]
    rw [isTerminal_recordOf] at hend
    exact reports_nothing rfl (by simp [CallRecord.report, hend])
  · rw [if_neg hend]
    rw [isTerminal_recordOf] at hend
    have hrecord : recordOf (setAttachments (setOutput (setStatus (keep ctx c known) c .completed) c formatted.value) c
        attachments) c = ((recordOf ctx c).report (.output formatted.value (attachments.map attachmentPart))).1 := by
      rw [recordOf_setAttachments, recordOf_setOutput, recordOf_setStatus, hkeep, CallRecord.report, if_neg hend]
    refine reports_publish (writes_output _ _) rfl (by split_ifs <;> rfl) hrecord ?_
    rw [hrecord, CallRecord.report, if_neg hend]
    rfl

/-! ### Sweeps -/

/-- The close a sweep tells of a call. -/
def sweeps (error : String) (withdrawn : Option Withdrawn) (c : String) : Option Report :=
  if withdrawn.all fun withdrawn => c ∈ withdrawn.tools then some (.close error) else none

theorem reports_close {error : String} (withdrawn : Option Withdrawn) (now : ℕ) (hopen : (recordOf ctx c).isOpen = true) :
    Reports c (.close error) ctx (publish [] (terminalizeTool error now withdrawn ctx c)) := by
  refine reports_publish ⟨.inr ⟨_, rfl⟩, .inl rfl, .inl rfl, .inr ⟨_, rfl⟩⟩ rfl rfl ?_ ?_
  · rw [recordOf_setError, recordOf_setStatus, CallRecord.report, if_pos hopen]
    rfl
  · rw [CallRecord.report, if_pos hopen]
    rfl

theorem not_isOpen_of_statusOf (hstatus : statusOf ctx c = some status) (h : isOpen status = false) :
    (recordOf ctx c).isOpen = false := by
  change (statusOf ctx c = some .pending || statusOf ctx c = some .running : Bool) = false
  rw [hstatus]
  cases status <;> first | rfl | cases h

theorem isOpen_of_statusOf (hstatus : statusOf ctx c = some status) (h : isOpen status = true) :
    (recordOf ctx c).isOpen = true := by
  change (statusOf ctx c = some .pending || statusOf ctx c = some .running : Bool) = true
  rw [hstatus]
  cases status <;> first | rfl | cases h

/-- The sweep of some entries closes the calls they are of. -/
theorem tells_terminalizeEach (error : String) (now : ℕ) (withdrawn : Option Withdrawn) (entries : List (String × ToolStatus)) :
    ∀ ctx : State, (entries.map Prod.fst).Nodup → (∀ entry ∈ entries, statusOf ctx entry.1 = some entry.2) →
      Tells ctx (terminalizeEach error now withdrawn ctx entries)
        fun c => if c ∈ entries.map Prod.fst then sweeps error withdrawn c else none := by
  induction entries with
  | nil => exact fun ctx _ _ => (Tells.nothing (fun _ => rfl) rfl).congr fun c => .inl (by simp)
  | cons entry rest ih =>
    obtain ⟨c, status⟩ := entry
    intro ctx hnodup hstatus
    rw [List.map_cons, List.nodup_cons] at hnodup
    obtain ⟨hc, hrest⟩ := List.forall_mem_cons.mp hstatus
    have hmem (d : String) : d ∈ ((c, status) :: rest).map Prod.fst ↔ d = c ∨ d ∈ rest.map Prod.fst := by
      rw [List.map_cons, List.mem_cons]
    unfold terminalizeEach
    split_ifs with hskip
    · refine (ih ctx hnodup.2 hrest).congr fun d => ?_
      by_cases hd : d = c
      · subst hd
        rw [if_neg hnodup.1, if_pos ((hmem d).mpr (.inl rfl))]
        rcases hsweeps : sweeps error withdrawn d with _ | rep
        · exact .inl rfl
        · refine .inr ⟨rfl, rep, rfl, ?_⟩
          unfold sweeps at hsweeps
          split_ifs at hsweeps with hall
          obtain rfl := Option.some.inj hsweeps
          have hclosed : isOpen status = false := by
            cases withdrawn <;> simp_all
          simp [CallRecord.report, not_isOpen_of_statusOf hc hclosed]
      · left
        have hiff := hmem d
        simp only [hd, false_or] at hiff
        simp only [hiff]
    · have hopen : isOpen status = true := by
        cases hopen : isOpen status <;> simp_all
      have hsweeps : sweeps error withdrawn c = some (.close error) := by
        unfold sweeps
        cases withdrawn <;> simp_all
      have hclose := @reports_close _ _ error withdrawn now (isOpen_of_statusOf hc hopen)
      have hothers : ∀ entry ∈ rest, statusOf (terminalizeTool error now withdrawn ctx c).1 entry.1 = some entry.2 := by
        intro entry hentry
        rw [← hrest entry hentry]
        have hkey : entry.1 ∈ rest.map Prod.fst := List.mem_map_of_mem hentry
        have hne : c ≠ entry.1 := fun h => hnodup.1 (h ▸ hkey)
        exact hclose.writes.status.lookup_ne hne
      refine (hclose.tells.append (ih _ hnodup.2 hothers) fun d => ?_).congr fun d => .inl ?_
      · by_cases hd : c = d
        · right
          rw [if_neg (hd ▸ hnodup.1)]
        · left
          rw [only, if_neg hd]
      · by_cases hd : c = d
        · subst hd
          rw [only, if_pos rfl, if_pos ((hmem c).mpr (.inl rfl)), hsweeps]
          rfl
        · have hiff := hmem d
          simp only [Ne.symm hd, false_or] at hiff
          rw [only, if_neg hd, Option.none_or]
          simp only [hiff]

theorem statusOf_entry {entry : String × ToolStatus} (hnodup : (ctx.toolStatusByCallId.map Prod.fst).Nodup)
    (h : entry ∈ ctx.toolStatusByCallId) : statusOf ctx entry.1 = some entry.2 := by
  unfold statusOf Assoc.lookup
  rw [Table.get_of_mem hnodup h]
  rfl

theorem statusOf_of_not_mem (h : c ∉ ctx.toolStatusByCallId.map Prod.fst) : statusOf ctx c = none := by
  unfold statusOf Assoc.lookup
  rw [Table.get_eq_none_iff.mpr, Option.map_none]
  rintro entry hentry rfl
  exact h (List.mem_map_of_mem hentry)

/-- The sweep closes every call it may, and is told nothing of the others. -/
theorem tells_terminalizeOpenTools (error : String) (now : ℕ) (withdrawn : Option Withdrawn)
    (hnodup : (ctx.toolStatusByCallId.map Prod.fst).Nodup) :
    Tells ctx (terminalizeOpenTools ctx error now withdrawn) (sweeps error withdrawn) := by
  refine (tells_terminalizeEach error now withdrawn _ ctx hnodup fun entry hentry => statusOf_entry hnodup hentry).congr ?_
  intro d
  by_cases hd : d ∈ ctx.toolStatusByCallId.map Prod.fst
  · rw [if_pos hd]
    exact .inl rfl
  · rw [if_neg hd]
    rcases hsweeps : sweeps error withdrawn d with _ | rep
    · exact .inl rfl
    · refine .inr ⟨rfl, rep, rfl, ?_⟩
      unfold sweeps at hsweeps
      split_ifs at hsweeps
      obtain rfl := Option.some.inj hsweeps
      have hnone : (recordOf ctx d).status = none := statusOf_of_not_mem hd
      simp [CallRecord.report, CallRecord.isOpen, hnone]

theorem writes_terminalizeTool (error : String) (now : ℕ) (withdrawn : Option Withdrawn) :
    Writes c ctx (terminalizeTool error now withdrawn ctx c).1 := by
  unfold terminalizeTool
  extract_lets tool metadata input hydrated closed
  have hclosed : Writes c ctx closed := ⟨.inr ⟨_, rfl⟩, .inl rfl, .inl rfl, .inr ⟨_, rfl⟩⟩
  exact hclosed.mints (mints_toolEvent _ _)

theorem within_terminalizeEach {calls : Finset String} (error : String) (now : ℕ) (withdrawn : Option Withdrawn)
    (entries : List (String × ToolStatus)) : ∀ ctx : State, (∀ entry ∈ entries, entry.1 ∈ calls) → Within calls ctx →
      Within calls (terminalizeEach error now withdrawn ctx entries).1 := by
  induction entries with
  | nil => exact fun ctx _ h => h
  | cons entry rest ih =>
    obtain ⟨c, status⟩ := entry
    intro ctx hknown h
    obtain ⟨hc, hrest⟩ := List.forall_mem_cons.mp hknown
    unfold terminalizeEach
    split_ifs
    · exact ih ctx hrest h
    · exact ih _ hrest ((writes_terminalizeTool error now withdrawn).within h hc)

theorem within_terminalizeOpenTools {calls : Finset String} (error : String) (now : ℕ) (withdrawn : Option Withdrawn)
    (h : Within calls ctx) : Within calls (terminalizeOpenTools ctx error now withdrawn).1 :=
  within_terminalizeEach error now withdrawn _ ctx (fun _ hentry => h.status.2 _ (List.mem_map_of_mem hentry)) h

end

end Claxedo.Presentation
