import Claxedo.Presentation.Drawn

/-! What each event of the runtime draws, and how the map of part ids grows by it. -/

namespace Claxedo.Presentation

open Claxedo.Lib

/-! ### The map of part ids -/

/-- Each key once, its id numbered by its place. -/
structure SoundIds (ids : List (String × String)) : Prop where
  nodup : (ids.map Prod.fst).Nodup
  numbered : ∀ i entry, ids[i]? = some entry → ∃ name, entry.2 = numberedId i name

/-- Ids were minted, none was changed. -/
structure Grows (ids ids' : List (String × String)) : Prop where
  added : ids <+: ids'
  sound : SoundIds ids → SoundIds ids'

section
variable {ids ids' ids'' : List (String × String)} {key id : String}

theorem Grows.refl (ids : List (String × String)) : Grows ids ids := ⟨List.prefix_rfl, id⟩

theorem Grows.trans (h : Grows ids ids') (h' : Grows ids' ids'') : Grows ids ids'' :=
  ⟨h.added.trans h'.added, fun hs => h'.sound (h.sound hs)⟩

theorem Grows.lookup (h : Grows ids ids') (hid : Assoc.lookup key ids = some id) : Assoc.lookup key ids' = some id := by
  obtain ⟨added, rfl⟩ := h.added
  unfold Assoc.lookup at hid ⊢
  rw [Table.get_append]
  cases hget : Table.get Prod.fst key ids with
  | none => rw [hget] at hid; cases hid
  | some entry => rw [hget] at hid; exact hid

theorem SoundIds.key_unique (h : SoundIds ids) {key' : String} (hkey : Assoc.lookup key ids = some id)
    (hkey' : Assoc.lookup key' ids = some id) : key = key' := by
  have hentry {key : String} (hlookup : Assoc.lookup key ids = some id) : ∃ i : ℕ, ids[i]? = some (key, id) := by
    unfold Assoc.lookup at hlookup
    obtain ⟨entry, hget, hid⟩ := Option.map_eq_some_iff.mp hlookup
    obtain ⟨hmem, hfst⟩ := Table.mem_of_get hget
    obtain ⟨i, hi⟩ := List.mem_iff_getElem?.mp hmem
    exact ⟨i, by rw [hi, ← hfst, ← hid]⟩
  obtain ⟨i, hi⟩ := hentry hkey
  obtain ⟨j, hj⟩ := hentry hkey'
  obtain ⟨name, hname⟩ := h.numbered i _ hi
  obtain ⟨name', hname'⟩ := h.numbered j _ hj
  obtain rfl : i = j := numberedId_inj (hname.symm.trans hname')
  exact congrArg Prod.fst (Option.some.inj (hi.symm.trans hj))

theorem SoundIds.numbered_lookup (h : SoundIds ids) (hkey : Assoc.lookup key ids = some id) :
    ∃ n name, id = numberedId n name := by
  unfold Assoc.lookup at hkey
  obtain ⟨entry, hget, hid⟩ := Option.map_eq_some_iff.mp hkey
  obtain ⟨i, hi⟩ := List.mem_iff_getElem?.mp (Table.mem_of_get hget).1
  obtain ⟨name, hname⟩ := h.numbered i entry hi
  exact ⟨i, name, hid ▸ hname⟩

theorem SoundIds.append (h : SoundIds ids) (hkey : Assoc.lookup key ids = none) (name : String) :
    SoundIds (ids ++ [(key, numberedId ids.length name)]) := by
  have hfresh : key ∉ ids.map Prod.fst := by
    intro hmem
    obtain ⟨entry, hentry, hfst⟩ := List.mem_map.mp hmem
    exact Table.get_eq_none_iff.mp (Option.map_eq_none_iff.mp hkey) entry hentry hfst
  refine ⟨?_, fun i entry hi => ?_⟩
  · rw [List.map_append, List.map_singleton]
    exact List.nodup_append.mpr ⟨h.nodup, List.nodup_singleton _, fun a ha b hb hab => by
      rw [hab, List.mem_singleton.mp hb] at ha
      exact hfresh ha⟩
  · rw [List.getElem?_append] at hi
    split_ifs at hi with hlt
    · exact h.numbered i entry hi
    · obtain ⟨hzero, rfl⟩ := List.getElem?_eq_some_iff.mp hi
      have hi : i = ids.length := by
        simp only [List.length_singleton] at hzero
        omega
      subst hi
      exact ⟨name, by simp⟩

end

section
variable (ctx : State) (key name : String)

theorem seqId_grows : Grows ctx.partIdMap (seqId ctx key name).1.partIdMap ∧
    Assoc.lookup key (seqId ctx key name).1.partIdMap = some (seqId ctx key name).2 := by
  unfold seqId
  split
  · rename_i id hid
    exact ⟨.refl _, hid⟩
  · rename_i hnone
    have hassign : Assoc.assign key (numberedId ctx.partIdMap.length name) ctx.partIdMap =
        ctx.partIdMap ++ [(key, numberedId ctx.partIdMap.length name)] :=
      Table.put_of_get_none (Option.map_eq_none_iff.mp hnone)
    refine ⟨⟨?_, fun h => ?_⟩, ?_⟩
    · exact ⟨_, hassign.symm⟩
    · exact (congrArg SoundIds hassign).mpr (h.append hnone name)
    · exact (Assoc.lookup_assign _ _ _ _).trans (if_pos rfl)

end

/-! ### What text goes by -/

/-- What the parts of text and reasoning, and a compaction, go by is as it was. -/
structure Frame (s s' : State) : Prop where
  message : s'.assistantMsgId = s.assistantMsgId
  textSeq : s'.textPartSeq = s.textPartSeq
  reasoningSeq : s'.reasoningPartSeq = s.reasoningPartSeq
  splitText : s'.splitText = s.splitText
  splitReasoning : s'.splitReasoning = s.splitReasoning
  reasoning : s'.openReasoning = s.openReasoning
  running : s'.notices.runningCompactionPartId = s.notices.runningCompactionPartId

section
variable {a b c : State}

theorem Frame.refl (a : State) : Frame a a := ⟨rfl, rfl, rfl, rfl, rfl, rfl, rfl⟩

theorem Frame.trans (h : Frame a b) (h' : Frame b c) : Frame a c :=
  ⟨h'.message.trans h.message, h'.textSeq.trans h.textSeq, h'.reasoningSeq.trans h.reasoningSeq,
    h'.splitText.trans h.splitText, h'.splitReasoning.trans h.splitReasoning, h'.reasoning.trans h.reasoning,
    h'.running.trans h.running⟩

theorem Mints.frame (h : Mints a b) : Frame a b := by
  obtain ⟨ids, rfl⟩ := h
  exact ⟨rfl, rfl, rfl, rfl, rfl, rfl, rfl⟩

end

/-! ### Reports on a call -/

/-- A part asked for under a key. -/
structure Ask where
  key : PartKey
  content : Content
  messageID : String

/-- The ask is drawn as `d`. -/
structure Ask.Fills (a : Ask) (ids : List (String × String)) (d : Drawn) : Prop where
  content : d.content = a.content
  messageID : d.messageID = a.messageID
  partID : Assoc.lookup a.key.text ids = some d.partID

def callAsk (m c : String) : Ask := ⟨.call c, .call c, m⟩

def attachmentAsk (m c : String) (i : ℕ) : Ask := ⟨.attachment c i, .attachment c i, m⟩

/-- The parts a report on a call with `n` attachments asks for. -/
def callAsks (m c : String) (n : ℕ) : List Ask := callAsk m c :: (List.range n).map (attachmentAsk m c)

/-- The call's part is among what was drawn. -/
def DrawnCall (drawn : List Drawn) (c : String) : Prop := ∃ d ∈ drawn, d.content = .call c

/-- A key that was minted, where it is a call's id with the call's part. -/
def Minted (drawn : List Drawn) (key : String) : Prop :=
  ∃ k : PartKey, k.text = key ∧ k.isProse = false ∧ ∀ c, k = .call c → DrawnCall drawn c

/-- An answer draws what is asked for, and mints for nothing else but attachments. -/
structure Draws (l : Labels) (asks : List Ask) (s : State) (answered : State × List Payload) : Prop where
  frame : Frame s answered.1
  grows : Grows s.partIdMap answered.1.partIdMap
  drawn : ∀ d ∈ drawnAll l answered.2, ∃ a ∈ asks, a.Fills answered.1.partIdMap d
  keys : ∀ key, seen answered.1 key = true → seen s key = true ∨ Minted (drawnAll l answered.2) key
  statuses : ∀ c, (statusOf answered.1 c).isSome = true → (statusOf s c).isSome = true ∨ DrawnCall (drawnAll l answered.2) c

section
variable {ctx s : State} {l : Labels} {c : String} {asks : List Ask} {answered : State × List Payload}

theorem Ask.Fills.mono {a : Ask} {ids ids' : List (String × String)} {d : Drawn} (h : a.Fills ids d) (hgrows : Grows ids ids') :
    a.Fills ids' d := ⟨h.content, h.messageID, hgrows.lookup h.partID⟩

theorem drawnAll_append (l : Labels) (a b : List Payload) : drawnAll l (a ++ b) = drawnAll l a ++ drawnAll l b :=
  List.flatMap_append

theorem seen_congr {s s' : State} (h : s'.partIdMap = s.partIdMap) (key : String) : seen s' key = seen s key := by
  rw [seen, h, seen]

theorem seen_seqId (ctx : State) (key name key' : String) (h : seen (seqId ctx key name).1 key' = true) :
    seen ctx key' = true ∨ key' = key := by
  unfold seqId at h
  split at h
  · exact .inl h
  · rw [seen, Assoc.lookup_assign] at h
    split_ifs at h with hkey
    · exact .inr hkey.symm
    · exact .inl h

theorem DrawnCall.mono {drawn drawn' : List Drawn} (h : DrawnCall drawn c) (hsub : ∀ d ∈ drawn, d ∈ drawn') : DrawnCall drawn' c := by
  obtain ⟨d, hd, hc⟩ := h
  exact ⟨d, hsub d hd, hc⟩

theorem Minted.mono {drawn drawn' : List Drawn} {key : String} (h : Minted drawn key) (hsub : ∀ d ∈ drawn, d ∈ drawn') :
    Minted drawn' key := by
  obtain ⟨k, htext, hprose, hcall⟩ := h
  exact ⟨k, htext, hprose, fun c hc => (hcall c hc).mono hsub⟩

theorem draws_nothing (hframe : Frame s answered.1) (hids : answered.1.partIdMap = s.partIdMap)
    (hstatuses : answered.1.toolStatusByCallId = s.toolStatusByCallId) (hdrawn : drawnAll l answered.2 = []) :
    Draws l asks s answered := by
  refine ⟨hframe, hids ▸ .refl _, fun _ hd => absurd (hdrawn ▸ hd) List.not_mem_nil, fun key h => .inl ?_, fun c h => .inl ?_⟩
  · rw [← seen_congr hids]
    exact h
  · rw [statusOf, hstatuses] at h
    exact h

theorem attachmentParts_draws (c : String) (attachments : List RuntimeToolAttachment) : ∀ (ctx : State) (index : ℕ),
    Grows ctx.partIdMap (attachmentParts c ctx index attachments).1.partIdMap ∧
    (∀ d ∈ drawnAttachments c index (attachmentParts c ctx index attachments).2,
      ∃ i, i < index + attachments.length ∧ (attachmentAsk ctx.assistantMsgId c i).Fills
        (attachmentParts c ctx index attachments).1.partIdMap d) ∧
    ∀ key, seen (attachmentParts c ctx index attachments).1 key = true →
      seen ctx key = true ∨ ∃ i, (PartKey.attachment c i).text = key := by
  induction attachments with
  | nil => exact fun ctx _ => ⟨.refl _, nofun, fun key h => .inl h⟩
  | cons attachment rest ih =>
    intro ctx index
    obtain ⟨hgrows, hkey⟩ := seqId_grows ctx (c ++ "-attachment-" ++ toString index)
      (ctx.assistantMsgId ++ "-" ++ (c ++ "-attachment-" ++ toString index))
    obtain ⟨hrest, hdrawn, hkeys⟩ := ih (seqId ctx (c ++ "-attachment-" ++ toString index)
      (ctx.assistantMsgId ++ "-" ++ (c ++ "-attachment-" ++ toString index))).1 (index + 1)
    have hmessage := (mints_seqId ctx (c ++ "-attachment-" ++ toString index)
      (ctx.assistantMsgId ++ "-" ++ (c ++ "-attachment-" ++ toString index))).frame.message
    refine ⟨hgrows.trans hrest, fun d hd => ?_, fun key h => ?_⟩
    · rw [attachmentParts, drawnAttachments, List.zipIdx_cons, List.map_cons] at hd
      rcases List.mem_cons.mp hd with rfl | hd
      · exact ⟨index, by simp, rfl, rfl, hrest.lookup hkey⟩
      · obtain ⟨i, hi, hfills⟩ := hdrawn d hd
        rw [hmessage] at hfills
        exact ⟨i, by rw [List.length_cons]; omega, hfills⟩
    · rcases hkeys key h with hseen | hattachment
      · exact (seen_seqId _ _ _ _ hseen).imp_right fun hkey => ⟨index, hkey.symm⟩
      · exact .inr hattachment

/-- The attachments a call shows in a status. -/
def shownAttachments (s : State) (c : String) (status : ToolStatus) : ℕ :=
  if status = .completed then keptAttachments s c else 0

theorem draws_toolEvent (l : Labels) (ctx : State) (input : ToolReport) :
    Draws l (callAsks ctx.assistantMsgId input.toolCallId (shownAttachments ctx input.toolCallId input.status)) ctx
      ((toolEvent ctx input).1, [(toolEvent ctx input).2]) := by
  obtain ⟨hgrows, hkey⟩ := seqId_grows ctx input.toolCallId (ctx.assistantMsgId ++ "-" ++ input.toolCallId)
  have hmints := mints_seqId ctx input.toolCallId (ctx.assistantMsgId ++ "-" ++ input.toolCallId)
  have hattachments := attachmentParts_draws input.toolCallId
    ((Assoc.lookup input.toolCallId (seqId ctx input.toolCallId
      (ctx.assistantMsgId ++ "-" ++ input.toolCallId)).1.toolAttachmentsByCallId).getD []) (seqId ctx input.toolCallId
      (ctx.assistantMsgId ++ "-" ++ input.toolCallId)).1 0
  rw [hmints.frame.message] at hattachments
  have hkept : keptAttachments (seqId ctx input.toolCallId (ctx.assistantMsgId ++ "-" ++ input.toolCallId)).1 input.toolCallId =
      keptAttachments ctx input.toolCallId := by
    obtain ⟨ids, hids⟩ := hmints
    rw [hids]
    rfl
  have hcall : DrawnCall (drawnAll l [(toolEvent ctx input).2]) input.toolCallId :=
    ⟨_, List.mem_append_left _ List.mem_cons_self, rfl⟩
  refine ⟨(mints_toolEvent ctx input).frame, hgrows.trans hattachments.1, fun d hd => ?_, fun key h => ?_, fun c h => .inl ?_⟩
  rotate_left
  · rcases hattachments.2.2 key h with hseen | ⟨i, htext⟩
    · refine (seen_seqId _ _ _ _ hseen).imp_right fun hkey => ⟨.call input.toolCallId, hkey.symm, rfl, fun c hc => ?_⟩
      exact PartKey.call.inj hc ▸ hcall
    · exact .inr ⟨_, htext, rfl, nofun⟩
  · obtain ⟨ids, hids⟩ := mints_toolEvent ctx input
    rw [hids] at h
    exact h
  rw [drawnAll, List.flatMap_singleton] at hd
  rcases List.mem_cons.mp hd with rfl | hd
  · exact ⟨_, List.mem_cons_self, rfl, rfl, hattachments.1.lookup hkey⟩
  · by_cases hstatus : input.status = .completed
    · have hshown : (toolPart ctx input).2.state.attachments = (toolAttachments (seqId ctx input.toolCallId
          (ctx.assistantMsgId ++ "-" ++ input.toolCallId)).1 input.toolCallId).2 := by
        simp [toolPart, toolState, hstatus, ToolState.attachments]
      obtain ⟨i, hi, hfills⟩ := hattachments.2.1 d (hshown ▸ hd)
      refine ⟨_, List.mem_cons_of_mem _ (List.mem_map_of_mem (List.mem_range.mpr ?_)), hfills⟩
      rw [shownAttachments, if_pos hstatus, ← hkept]
      rw [Nat.zero_add] at hi
      exact hi
    · have hnone : (toolPart ctx input).2.state.attachments = [] := by
        unfold toolPart toolState
        rcases hcase : input.status <;> first | exact absurd hcase hstatus | rfl
      rw [hnone] at hd
      cases hd

theorem callAsks_mono {m : String} {n n' : ℕ} (h : n ≤ n') {a : Ask} (ha : a ∈ callAsks m c n) : a ∈ callAsks m c n' := by
  rcases List.mem_cons.mp ha with rfl | ha
  · exact List.mem_cons_self
  · obtain ⟨i, hi, rfl⟩ := List.mem_map.mp ha
    exact List.mem_cons_of_mem _ (List.mem_map_of_mem (List.mem_range.mpr ((List.mem_range.mp hi).trans_le h)))

theorem shownAttachments_le (s : State) (c : String) (status : ToolStatus) : shownAttachments s c status ≤ keptAttachments s c := by
  unfold shownAttachments
  split_ifs
  · exact Nat.le_refl _
  · exact Nat.zero_le _

theorem statusOf_assigned (h : s.toolStatusByCallId = ctx.toolStatusByCallId ∨
      ∃ status, s.toolStatusByCallId = Assoc.assign c status ctx.toolStatusByCallId) {c' : String}
    (hs : (statusOf s c').isSome = true) : (statusOf ctx c').isSome = true ∨ c = c' := by
  rcases h with hsame | ⟨status, hassign⟩
  · rw [statusOf, hsame] at hs
    exact .inl hs
  · rw [statusOf, hassign, Assoc.lookup_assign] at hs
    split_ifs at hs with hsame
    · exact .inr hsame
    · exact .inl hs

theorem draws_publish {before : List Payload} {n : ℕ} (input : ToolReport) (hc : input.toolCallId = c) (hframe : Frame ctx s)
    (hids : s.partIdMap = ctx.partIdMap) (hkept : keptAttachments s c ≤ n)
    (hstatuses : s.toolStatusByCallId = ctx.toolStatusByCallId ∨
      ∃ status, s.toolStatusByCallId = Assoc.assign c status ctx.toolStatusByCallId)
    (hbefore : drawnAll l before = []) :
    Draws l (callAsks ctx.assistantMsgId c n) ctx (publish before (toolEvent s input)) := by
  have h := draws_toolEvent l s input
  rw [hc] at h
  have hdrawn : drawnAll l (publish before (toolEvent s input)).2 = drawnAll l [(toolEvent s input).2] := by
    rw [publish, drawnAll_append, hbefore, List.nil_append]
  refine ⟨hframe.trans h.frame, hids ▸ h.grows, fun d hd => ?_, fun key hkey => ?_, fun c' hc' => ?_⟩ <;> rw [hdrawn] at *
  · obtain ⟨a, ha, hfills⟩ := h.drawn d hd
    rw [hframe.message] at ha
    exact ⟨a, callAsks_mono ((shownAttachments_le _ _ _).trans hkept) ha, hfills⟩
  · rw [← seen_congr hids]
    exact h.keys key hkey
  · rcases h.statuses c' hc' with hs | hdrawn'
    · refine (statusOf_assigned hstatuses hs).imp_right fun hsame => ?_
      exact ⟨_, List.mem_append_left _ List.mem_cons_self, congrArg Content.call (hc.trans hsame)⟩
    · exact .inr hdrawn'

/-- The parts a report asks for. -/
def reportAsks (ctx : State) (event : RuntimeEvent) : List Ask :=
  (reportedCall ctx event).elim [] fun c => callAsks ctx.assistantMsgId c (max (keptAttachments ctx c) (brought ctx event))

theorem setAttachments_spec (s : State) (c : String) (attachments : List RuntimeToolAttachment) :
    Frame s (setAttachments s c attachments) ∧ (setAttachments s c attachments).partIdMap = s.partIdMap ∧
      (setAttachments s c attachments).toolStatusByCallId = s.toolStatusByCallId ∧
      keptAttachments (setAttachments s c attachments) c ≤ max (keptAttachments s c) attachments.length := by
  unfold setAttachments
  split_ifs
  · exact ⟨.refl _, rfl, rfl, le_max_left _ _⟩
  · refine ⟨⟨rfl, rfl, rfl, rfl, rfl, rfl, rfl⟩, rfl, rfl, ?_⟩
    simp [keptAttachments, Assoc.lookup_assign]

section
variable (ctx : State) (c : String) (display metadata : Option Record) (now : ℕ)

theorem draws_toolStart (toolName : String) : Draws l (callAsks ctx.assistantMsgId c (keptAttachments ctx c)) ctx
    (translateToolStart ctx c toolName display metadata now) := by
  unfold translateToolStart
  extract_lets tool known named status
  split_ifs
  · exact draws_publish _ rfl ⟨rfl, rfl, rfl, rfl, rfl, rfl, rfl⟩ rfl le_rfl (.inl rfl) rfl
  · exact draws_publish _ rfl ⟨rfl, rfl, rfl, rfl, rfl, rfl, rfl⟩ rfl le_rfl (.inr ⟨_, rfl⟩) rfl

theorem draws_toolInput (input : Json) : Draws l ((reportedCall ctx (.toolInput c input display metadata)).elim []
    fun c => callAsks ctx.assistantMsgId c (keptAttachments ctx c)) ctx (translateToolInput ctx c input display metadata now) := by
  unfold translateToolInput reportedCall
  dsimp only
  split_ifs
  · exact draws_nothing (.refl _) rfl rfl rfl
  · exact draws_publish _ rfl ⟨rfl, rfl, rfl, rfl, rfl, rfl, rfl⟩ rfl le_rfl (.inr ⟨_, rfl⟩) rfl

theorem draws_toolContent (content : Record) : Draws l (callAsks ctx.assistantMsgId c (keptAttachments ctx c)) ctx
    (translateToolContent ctx c content display metadata now) := by
  unfold translateToolContent
  extract_lets tool reported known status contentText event
  split_ifs
  · exact draws_publish _ rfl ⟨rfl, rfl, rfl, rfl, rfl, rfl, rfl⟩ rfl le_rfl (.inl rfl) rfl
  · exact draws_publish _ rfl ⟨rfl, rfl, rfl, rfl, rfl, rfl, rfl⟩ rfl le_rfl (.inl rfl) rfl

theorem draws_toolError (text : String) : Draws l ((reportedCall ctx (.toolError c text display metadata)).elim []
    fun c => callAsks ctx.assistantMsgId c (keptAttachments ctx c)) ctx (translateToolError ctx c text display metadata now) := by
  unfold translateToolError reportedCall
  dsimp only
  split_ifs
  · exact draws_nothing (.refl _) rfl rfl rfl
  · exact draws_publish _ rfl ⟨rfl, rfl, rfl, rfl, rfl, rfl, rfl⟩ rfl le_rfl (.inr ⟨_, rfl⟩) rfl

theorem draws_toolOutput (output : Json) (attachments : List RuntimeToolAttachment) :
    Draws l (reportAsks ctx (.toolOutput c output attachments display metadata)) ctx
      (translateToolOutput ctx c output attachments display metadata now) := by
  unfold translateToolOutput reportAsks reportedCall brought
  dsimp only
  by_cases hend : isTerminal ctx c = true
  · rw [if_pos hend, if_pos hend, if_pos hend]
    exact draws_nothing (.refl _) rfl rfl rfl
  · obtain ⟨hframe, hids, hstatuses, hkept⟩ := setAttachments_spec
      (setOutput (setStatus (keep ctx c (outputKnown ctx c display metadata)) c .completed) c
        (formattedOutput ctx c output display metadata).value) c attachments
    rw [if_neg hend, if_neg hend, if_neg hend, Option.elim_some]
    refine draws_publish _ ?_ (Frame.trans ⟨?_, ?_, ?_, ?_, ?_, ?_, ?_⟩ hframe) hids hkept (.inr ⟨_, hstatuses⟩) ?_
    all_goals try rfl
    split_ifs <;> rfl

end

theorem Draws.mono {asks' : List Ask} (h : Draws l asks s answered) (hasks : ∀ a ∈ asks, a ∈ asks') : Draws l asks' s answered := by
  refine ⟨h.frame, h.grows, fun d hd => ?_, h.keys, h.statuses⟩
  obtain ⟨a, ha, hfills⟩ := h.drawn d hd
  exact ⟨a, hasks a ha, hfills⟩

theorem mem_reportAsks {event : RuntimeEvent} {a : Ask} (ha : a ∈ (reportedCall ctx event).elim [] fun c =>
    callAsks ctx.assistantMsgId c (keptAttachments ctx c)) : a ∈ reportAsks ctx event := by
  unfold reportAsks
  rcases hcall : reportedCall ctx event with _ | c <;> rw [hcall] at ha
  · exact ha
  · exact callAsks_mono (le_max_left _ _) ha

theorem draws_report (l : Labels) (options : Options) (ctx : State) (event : RuntimeEvent) (now : ℕ)
    (htool : event.toolCallId?.isSome = true) :
    Draws l (reportAsks (split ctx) event) (split ctx) (translateRuntimeEventToCompat options ctx event now) := by
  cases event with
  | toolStart c toolName display metadata =>
    exact (draws_toolStart (split ctx) c display metadata now toolName).mono fun a ha => mem_reportAsks ha
  | toolInput c input display metadata =>
    exact (draws_toolInput (split ctx) c display metadata now input).mono fun a ha => mem_reportAsks ha
  | toolContent c content display metadata =>
    exact (draws_toolContent (split ctx) c display metadata now content).mono fun a ha => mem_reportAsks ha
  | toolError c error display metadata =>
    exact (draws_toolError (split ctx) c display metadata now error).mono fun a ha => mem_reportAsks ha
  | toolOutput c output attachments display metadata =>
    exact draws_toolOutput (split ctx) c display metadata now output attachments
  | toolStatus c status display metadata =>
    exact draws_publish _ rfl ⟨rfl, rfl, rfl, rfl, rfl, rfl, rfl⟩ rfl (le_max_left _ _) (.inr ⟨_, rfl⟩) rfl
  | toolLocation c locations =>
    exact draws_publish _ rfl ⟨rfl, rfl, rfl, rfl, rfl, rfl, rfl⟩ rfl (le_max_left _ _) (.inl rfl) rfl
  | toolTerminal c terminalId =>
    exact draws_publish _ rfl ⟨rfl, rfl, rfl, rfl, rfl, rfl, rfl⟩ rfl (le_max_left _ _) (.inl rfl) rfl
  | _ => cases htool

/-! ### A sweep -/

theorem draws_terminalizeTool (l : Labels) (error : String) (now : ℕ) (withdrawn : Option Withdrawn) (ctx : State) (c : String) :
    Draws l [callAsk ctx.assistantMsgId c] ctx ((terminalizeTool error now withdrawn ctx c).1,
      [(terminalizeTool error now withdrawn ctx c).2]) := by
  unfold terminalizeTool
  extract_lets tool metadata input hydrated closed
  have h := draws_toolEvent l closed
    { toolCallId := c, tool, stateInput := input, status := .error, metadata, now, error := some error
      retracted := withdrawn.map Withdrawn.reason }
  refine ⟨.trans (b := closed) ⟨rfl, rfl, rfl, rfl, rfl, rfl, rfl⟩ h.frame, h.grows, h.drawn, h.keys, fun c' hc' => ?_⟩
  rcases h.statuses c' hc' with hs | hdrawn
  · refine (statusOf_assigned (.inr ⟨_, rfl⟩) hs).imp_right fun hsame => ?_
    exact ⟨_, List.mem_append_left _ List.mem_cons_self, congrArg Content.call hsame⟩
  · exact .inr hdrawn

theorem draws_terminalizeEach (l : Labels) (error : String) (now : ℕ) (withdrawn : Option Withdrawn)
    (entries : List (String × ToolStatus)) : ∀ ctx : State,
    Draws l ((entries.filter (closes withdrawn)).map fun entry => callAsk ctx.assistantMsgId entry.1) ctx
      (terminalizeEach error now withdrawn ctx entries) := by
  induction entries with
  | nil => exact fun ctx => draws_nothing (.refl _) rfl rfl rfl
  | cons entry rest ih =>
    obtain ⟨c, status⟩ := entry
    intro ctx
    unfold terminalizeEach
    rw [closes_eq]
    rcases hcloses : closes withdrawn (c, status) with _ | _
    · have hskipped : ¬ closes withdrawn (c, status) = true := by rw [hcloses]; exact Bool.false_ne_true
      rw [Bool.not_false, if_pos rfl, List.filter_cons_of_neg hskipped]
      exact ih ctx
    · rw [Bool.not_true, if_neg Bool.false_ne_true, List.filter_cons_of_pos hcloses, List.map_cons]
      have h := draws_terminalizeTool l error now withdrawn ctx c
      have hrest := ih (terminalizeTool error now withdrawn ctx c).1
      rw [h.frame.message] at hrest
      have hdrawn : drawnAll l ((terminalizeTool error now withdrawn ctx c).2 ::
          (terminalizeEach error now withdrawn (terminalizeTool error now withdrawn ctx c).1 rest).2) =
          drawnAll l [(terminalizeTool error now withdrawn ctx c).2] ++
            drawnAll l (terminalizeEach error now withdrawn (terminalizeTool error now withdrawn ctx c).1 rest).2 :=
        drawnAll_append l [_] _
      refine ⟨h.frame.trans hrest.frame, h.grows.trans hrest.grows, fun d hd => ?_, fun key hkey => ?_, fun c' hc' => ?_⟩ <;>
        dsimp only at * <;> rw [hdrawn] at *
      · rcases List.mem_append.mp hd with hd | hd
        · obtain ⟨a, ha, hfills⟩ := h.drawn d hd
          exact ⟨a, List.mem_singleton.mp ha ▸ List.mem_cons_self, hfills.mono hrest.grows⟩
        · obtain ⟨a, ha, hfills⟩ := hrest.drawn d hd
          exact ⟨a, List.mem_cons_of_mem _ ha, hfills⟩
      · rcases hrest.keys key hkey with hseen | hminted
        · exact (h.keys key hseen).imp_right fun hminted => hminted.mono fun d hd => List.mem_append_left _ hd
        · exact .inr (hminted.mono fun d hd => List.mem_append_right _ hd)
      · rcases hrest.statuses c' hc' with hs | hcall
        · exact (h.statuses c' hs).imp_right fun hcall => hcall.mono fun d hd => List.mem_append_left _ hd
        · exact .inr (hcall.mono fun d hd => List.mem_append_right _ hd)

theorem draws_terminalizeOpenTools (l : Labels) (ctx : State) (error : String) (now : ℕ) (withdrawn : Option Withdrawn) :
    Draws l ((swept ctx withdrawn).map (callAsk ctx.assistantMsgId)) ctx (terminalizeOpenTools ctx error now withdrawn) := by
  have h := draws_terminalizeEach l error now withdrawn ctx.toolStatusByCallId ctx
  rw [swept, List.map_map]
  exact h

theorem draws_retractResponses (l : Labels) (ctx : State) (ids : List String) (reason : String) (now : ℕ) :
    Draws l ((swept ctx (some ⟨withdrawnCalls ctx ids, reason⟩)).map (callAsk ctx.assistantMsgId)) ctx
        (retractResponses ctx ids reason now) ∨
      Draws l ((swept ctx (some ⟨withdrawnCalls ctx ids, reason⟩)).map (callAsk ctx.assistantMsgId)) (split ctx)
        (retractResponses ctx ids reason now) := by
  unfold retractResponses
  extract_lets taken withdrawn taken' ctx' parts marked tools
  split_ifs
  · exact .inl (draws_nothing ⟨rfl, rfl, rfl, rfl, rfl, rfl, rfl⟩ rfl rfl rfl)
  · have h := draws_terminalizeOpenTools l ctx' WITHDRAWN_TOOL now (some ⟨withdrawn.flatMap ResponseMembers.toolCallIds, reason⟩)
    have hmarked : drawnAll l (marked ++ tools.2) = drawnAll l tools.2 := by
      rw [drawnAll_append, show drawnAll l marked = [] by unfold marked; split_ifs <;> rfl, List.nil_append]
    refine .inr ⟨.trans (b := ctx') ⟨rfl, rfl, rfl, rfl, rfl, rfl, rfl⟩ h.frame, h.grows, ?_, ?_, ?_⟩ <;> rw [hmarked]
    · exact h.drawn
    · exact h.keys
    · exact h.statuses

end

/-! ### Notices and files -/

section
variable {ctx s : State} {l : Labels}

def fileAsk (l : Labels) (m : String) (slot : Slot) : Ask := ⟨.file m slot, l.file, m⟩

def noticeAsk (l : Labels) (m : String) (count : ℕ) : Ask := ⟨.notice m count, l.notice, m⟩

theorem draws_filePart (slot : Slot) (shown : FileShown) (now : ℕ) :
    Draws l [fileAsk l ctx.assistantMsgId slot] (split ctx) (filePart ctx slot.suffix shown now) := by
  obtain ⟨hgrows, hkey⟩ := seqId_grows (split ctx) (ctx.assistantMsgId ++ slot.suffix) (ctx.assistantMsgId ++ slot.suffix)
  refine ⟨(mints_seqId _ _ _).frame, hgrows, fun d hd => ?_, fun key h => ?_, fun c h => .inl ?_⟩
  · obtain rfl := List.mem_singleton.mp hd
    exact ⟨_, List.mem_singleton_self _, rfl, rfl, hkey⟩
  · exact (seen_seqId _ _ _ _ h).imp_right fun hsame => ⟨.file ctx.assistantMsgId slot, hsame.symm, rfl, nofun⟩
  · obtain ⟨ids, hids⟩ := mints_seqId (split ctx) (ctx.assistantMsgId ++ slot.suffix) (ctx.assistantMsgId ++ slot.suffix)
    rw [filePart, hids] at h
    exact h

theorem nextNoticePartId_draws (ctx : State) : Frame ctx (nextNoticePartId ctx).1 ∧
    Grows ctx.partIdMap (nextNoticePartId ctx).1.partIdMap ∧
    Assoc.lookup (PartKey.notice ctx.assistantMsgId (ctx.notices.noticeCount + 1)).text (nextNoticePartId ctx).1.partIdMap =
      some (nextNoticePartId ctx).2 ∧
    (∀ key, seen (nextNoticePartId ctx).1 key = true → seen ctx key = true ∨
      key = (PartKey.notice ctx.assistantMsgId (ctx.notices.noticeCount + 1)).text) ∧
    (nextNoticePartId ctx).1.toolStatusByCallId = ctx.toolStatusByCallId := by
  unfold nextNoticePartId
  extract_lets count key
  obtain ⟨hgrows, hkey⟩ := seqId_grows { ctx with notices := { ctx.notices with noticeCount := count } } key key
  refine ⟨.trans (b := { ctx with notices := { ctx.notices with noticeCount := count } }) ⟨rfl, rfl, rfl, rfl, rfl, rfl, rfl⟩
    (mints_seqId _ _ _).frame, hgrows, hkey, seen_seqId _ _ _, ?_⟩
  obtain ⟨ids, hids⟩ := mints_seqId { ctx with notices := { ctx.notices with noticeCount := count } } key key
  rw [hids]

/-- The frame of a state both of whose kinds of text go on as new parts. -/
theorem Frame.split (h : Frame ctx s) : Frame (Presentation.split ctx) (Presentation.split s) :=
  ⟨h.message, h.textSeq, h.reasoningSeq, rfl, rfl, h.reasoning, h.running⟩

theorem draws_numbered (notice : TranscriptNotice) (now : ℕ) :
    Draws l [noticeAsk l ctx.assistantMsgId (ctx.notices.noticeCount + 1)] (split ctx)
      (publish [] (noticePart (nextNoticePartId ctx).1 (nextNoticePartId ctx).2 notice now)) := by
  obtain ⟨hframe, hgrows, hkey, hseen, hstatuses⟩ := nextNoticePartId_draws ctx
  refine ⟨hframe.split, hgrows, fun d hd => ?_, fun key h => ?_, fun c h => .inl ?_⟩
  · obtain rfl := List.mem_singleton.mp hd
    exact ⟨_, List.mem_singleton_self _, rfl, hframe.message, hkey⟩
  · exact (hseen key h).imp_right fun hsame => ⟨.notice ctx.assistantMsgId (ctx.notices.noticeCount + 1), hsame.symm, rfl, nofun⟩
  · have h : (Assoc.lookup c (nextNoticePartId ctx).1.toolStatusByCallId).isSome = true := h
    rw [hstatuses] at h
    exact h

/-- What a notice about a durable event draws. -/
def durable (l : Labels) (sessionId m eventId : String) : Drawn := ⟨l.notice, eventNoticePartId sessionId eventId, m⟩

theorem noticePartId_eq (sessionId : String) (ctx : State) (eventId : Option String) :
    noticePartId sessionId ctx eventId = match eventId.bind nonEmpty with
      | some eventId => (ctx, eventNoticePartId sessionId eventId)
      | none => nextNoticePartId ctx := by
  cases eventId with
  | none => rfl
  | some eventId =>
    unfold noticePartId nonEmpty
    dsimp only [Option.bind_some]
    split_ifs <;> rfl

end

/-! ### Text and reasoning -/

def proseAsk (s : State) (kind : DeltaKind) : Ask :=
  ⟨.prose s.assistantMsgId kind (partSeq (splitPart s kind) kind), .prose kind, s.assistantMsgId⟩

theorem text_proseAsk (s : State) (kind : DeltaKind) : (proseAsk s kind).key.text = targetKey s kind := by
  cases kind <;> rfl

/-- The reasoning part that is open after a delta. -/
def reasoningAfter (s : State) (kind : DeltaKind) (delta : String) (now : ℕ) : Option OpenReasoningPart :=
  match kind with
  | .text => s.openReasoning
  | .reasoning => some (stream s (targetId s .reasoning) delta now)

/-- A delta goes to its part, which it opens where it is new. -/
structure Brings (s : State) (kind : DeltaKind) (delta : String) (now : ℕ) (answered : State × List Payload) : Prop where
  message : answered.1.assistantMsgId = s.assistantMsgId
  running : answered.1.notices.runningCompactionPartId = s.notices.runningCompactionPartId
  grows : Grows s.partIdMap answered.1.partIdMap
  key : Assoc.lookup (targetKey s kind) answered.1.partIdMap = some (targetId s kind)
  events : answered.2 = (if seen s (targetKey s kind) then [] else [.partUpdated (emptyPart s kind (targetId s kind) now) now]) ++
    [.partDelta s.assistantMsgId (targetId s kind) delta]
  textSeq : answered.1.textPartSeq = (splitPart s kind).textPartSeq
  reasoningSeq : answered.1.reasoningPartSeq = (splitPart s kind).reasoningPartSeq
  splitText : answered.1.splitText = decide (kind = .reasoning)
  splitReasoning : answered.1.splitReasoning = (splitPart s kind).splitReasoning
  reasoning : answered.1.openReasoning = reasoningAfter s kind delta now

theorem seen_splitPart (s : State) (kind : DeltaKind) (key : String) : seen (splitPart s kind) key = seen s key := by
  unfold seen
  rw [partIdMap_splitPart]

theorem message_splitPart (s : State) (kind : DeltaKind) : (splitPart s kind).assistantMsgId = s.assistantMsgId := by
  cases kind <;> rfl

theorem emptyPart_congr {s s' : State} (h : s'.assistantMsgId = s.assistantMsgId) (kind : DeltaKind) (id : String) (now : ℕ) :
    emptyPart s' kind id now = emptyPart s kind id now := by
  cases kind <;> simp [emptyPart, h]

theorem stream_congr {s s' : State} (hreasoning : s'.openReasoning = s.openReasoning) (hmessage : s'.assistantMsgId = s.assistantMsgId)
    (id delta : String) (now : ℕ) : stream s' id delta now = stream s id delta now := by
  unfold stream
  rw [hreasoning, hmessage]

theorem brings_deltaText (s : State) (kind : DeltaKind) (delta : String) (now : ℕ) :
    Brings s kind delta now (deltaText s kind delta now) := by
  obtain ⟨hgrows, hkey⟩ := seqId_grows (splitPart s kind) (targetKey s kind) (targetKey s kind)
  have hframe := (mints_seqId (splitPart s kind) (targetKey s kind) (targetKey s kind)).frame
  have hid := targetId_eq s kind
  have hmessage := hframe.message.trans (message_splitPart s kind)
  have hevents : (if (!seen (splitPart s kind) (targetKey s kind)) = true then
        [Payload.partUpdated (emptyPart (seqId (splitPart s kind) (targetKey s kind) (targetKey s kind)).1 kind
          (seqId (splitPart s kind) (targetKey s kind) (targetKey s kind)).2 now) now] else []) ++
      [.partDelta (seqId (splitPart s kind) (targetKey s kind) (targetKey s kind)).1.assistantMsgId
        (seqId (splitPart s kind) (targetKey s kind) (targetKey s kind)).2 delta] =
      (if seen s (targetKey s kind) then [] else [.partUpdated (emptyPart s kind (targetId s kind) now) now]) ++
        [.partDelta s.assistantMsgId (targetId s kind) delta] := by
    rw [hid, hmessage, emptyPart_congr hmessage, seen_splitPart]
    cases seen s (targetKey s kind) <;> rfl
  rw [partIdMap_splitPart] at hgrows
  rw [hid] at hkey
  cases kind with
  | text =>
    exact ⟨hmessage, hframe.running, hgrows, hkey, hevents, hframe.textSeq, hframe.reasoningSeq, hframe.splitText,
      hframe.splitReasoning, hframe.reasoning⟩
  | reasoning =>
    refine ⟨hmessage, hframe.running, hgrows, hkey, hevents, hframe.textSeq, hframe.reasoningSeq, rfl, hframe.splitReasoning, ?_⟩
    rw [reasoningAfter, ← hid]
    exact congrArg some (stream_congr hframe.reasoning hmessage _ delta now)

/-! ### In front of an event -/

/-- The reasoning part as it is ended. -/
def closing (now : ℕ) (part : OpenReasoningPart) : Payload :=
  .partUpdated (.reasoning part.partId part.messageId part.text part.start (some now)) now

/-- What comes before an event is translated ends the reasoning, where the event does, and else is no content. -/
structure Prefaces (s : State) (event : RuntimeEvent) (now : ℕ) (retrying splits : Bool) (statuses : List Payload) : Prop where
  state : (preface s event now).1 = aside s s.proposedPlanText { s.notices with retrying := retrying }
    (if REASONING_ENDS_ON event then none else s.openReasoning) splits
  splits : splits = (s.splitReasoning || REASONING_ENDS_ON event && s.openReasoning.isSome)
  events : (preface s event now).2 = statuses ++
    (if REASONING_ENDS_ON event then (s.openReasoning.map (closing now)).toList else [])
  statuses : ∀ status ∈ statuses, status = Payload.sessionStatus (.plain .busy)

theorem prefaces (s : State) (event : RuntimeEvent) (now : ℕ) : ∃ retrying splits statuses,
    Prefaces s event now retrying splits statuses := by
  have hresumed : ∃ retrying, (resumeAfterRetry s event).1 = { s with notices := { s.notices with retrying := retrying } } := by
    unfold resumeAfterRetry
    split_ifs <;> exact ⟨_, rfl⟩
  have hstatuses : ∀ status ∈ (resumeAfterRetry s event).2, status = Payload.sessionStatus (.plain .busy) := by
    unfold resumeAfterRetry
    split_ifs
    · nofun
    · exact fun status h => List.mem_singleton.mp h
    · nofun
  obtain ⟨retrying, hstate⟩ := hresumed
  refine ⟨retrying, _, (resumeAfterRetry s event).2, ?_, rfl, ?_, hstatuses⟩
  · unfold preface endReasoning
    dsimp only
    rw [hstate]
    rcases REASONING_ENDS_ON event with _ | _
    · simp [aside]
    · rcases s.openReasoning with _ | part <;> simp [aside]
  · unfold preface endReasoning
    dsimp only
    rw [hstate]
    rcases REASONING_ENDS_ON event with _ | _
    · simp
    · rcases s.openReasoning with _ | part <;> simp [closing]

/-! ### Behind an event -/

/-- What recording an event's members, announcing the turn's row and capping the state leave. -/
structure Settles (s : State) (answered : State × List Payload) (events : List Payload) : Prop where
  ids : s.partIdMap.length ≤ RETAINED_PART_IDS_MAX → answered.1.partIdMap = s.partIdMap
  frame : Frame s answered.1
  events : ∃ row : List Payload, answered.2 = row ++ events ∧ ∀ p ∈ row, ∀ l, drawnOf l p = []

theorem boundKeyedMap_of_le {ν : Type*} {map : List (String × ν)} {max : ℕ} (h : map.length ≤ max) : boundKeyedMap map max = map := by
  rw [boundKeyedMap, Nat.sub_eq_zero_of_le h, List.drop_zero]

theorem boundRetainedState_rest (s : State) : (boundRetainedState s).partIdMap = boundKeyedMap s.partIdMap RETAINED_PART_IDS_MAX ∧
    Frame s (boundRetainedState s) := by
  simp only [boundRetainedState]
  exact ⟨trivial, ⟨rfl, rfl, rfl, rfl, rfl, rfl, rfl⟩⟩

theorem settles_run (options : Options) (now : ℕ) (s : State) (events : List Payload) :
    Settles s (run options now (s, events)) events := by
  have hannounced : (withAnnouncedAssistantMessage options now (s, events)).1.partIdMap = s.partIdMap ∧
      Frame s (withAnnouncedAssistantMessage options now (s, events)).1 ∧
      ∃ row : List Payload, (withAnnouncedAssistantMessage options now (s, events)).2 = row ++ events ∧
        ∀ p ∈ row, ∀ l, drawnOf l p = [] := by
    unfold withAnnouncedAssistantMessage
    extract_lets ctx events announced
    split_ifs
    · exact ⟨rfl, .refl _, [], rfl, nofun⟩
    · split
      · exact ⟨rfl, ⟨rfl, rfl, rfl, rfl, rfl, rfl, rfl⟩, [_], rfl, fun p hp l => List.mem_singleton.mp hp ▸ rfl⟩
      · exact ⟨rfl, ⟨rfl, rfl, rfl, rfl, rfl, rfl, rfl⟩, [_], rfl, fun p hp l => List.mem_singleton.mp hp ▸ rfl⟩
  obtain ⟨hids, hframe, hevents⟩ := hannounced
  have hrun : run options now (s, events) = (boundRetainedState (withAnnouncedAssistantMessage options now (s, events)).1,
      (withAnnouncedAssistantMessage options now (s, events)).2) := rfl
  rw [hrun]
  generalize withAnnouncedAssistantMessage options now (s, events) = announced at *
  obtain ⟨hbound, hrest⟩ := boundRetainedState_rest announced.1
  refine ⟨fun hle => ?_, hframe.trans hrest, hevents⟩
  rw [← hids] at hle ⊢
  exact Eq.trans hbound (boundKeyedMap_of_le hle)

theorem recordResponseMembers_rest (ctx : State) (event : RuntimeEvent) (envelopes : List Payload) :
    (recordResponseMembers ctx event envelopes).partIdMap = ctx.partIdMap ∧ Frame ctx (recordResponseMembers ctx event envelopes) := by
  unfold recordResponseMembers
  split
  · exact ⟨rfl, .refl _⟩
  · exact ⟨rfl, ⟨rfl, rfl, rfl, rfl, rfl, rfl, rfl⟩⟩

/-- What is left of a call's answer: the state but for its capped maps, and the envelopes behind the turn's row. -/
theorem settles_ingest (options : Options) (s : State) (event : RuntimeEvent) (now : ℕ) :
    Settles (projectEvent options s event now).1 (ingest options s event now) (projectEvent options s event now).2 := by
  obtain ⟨hids, hframe⟩ := recordResponseMembers_rest (projectEvent options s event now).1 event (projectEvent options s event now).2
  have h := settles_run options now (recordResponseMembers (projectEvent options s event now).1 event
    (projectEvent options s event now).2) (projectEvent options s event now).2
  exact ⟨fun hle => (h.ids (hids ▸ hle)).trans hids, hframe.trans h.frame, h.events⟩

theorem settles_terminalize (options : Options) (s : State) (error : String) (now : ℕ) :
    Settles (terminalizeOpenTools (endReasoning s now).1 error now none).1 (terminalize options s error now)
      ((s.openReasoning.map (closing now)).toList ++ (terminalizeOpenTools (endReasoning s now).1 error now none).2) := by
  have hended : (endReasoning s now).2 = (s.openReasoning.map (closing now)).toList := by
    unfold endReasoning
    rcases s.openReasoning with _ | part <;> rfl
  rw [← hended]
  exact settles_run options now _ _

theorem endReasoning_state (s : State) (now : ℕ) : (endReasoning s now).1 =
    aside s s.proposedPlanText s.notices none (s.splitReasoning || s.openReasoning.isSome) := by
  unfold endReasoning
  rcases hopen : s.openReasoning with _ | part
  · have heta : s = { s with openReasoning := none } := by rw [← hopen]
    simpa [aside] using heta
  · simp [aside]

theorem drawnAll_row {l : Labels} {row : List Payload} (h : ∀ p ∈ row, ∀ l, drawnOf l p = []) : drawnAll l row = [] :=
  List.flatMap_eq_nil_iff.mpr fun p hp => h p hp l

end Claxedo.Presentation
