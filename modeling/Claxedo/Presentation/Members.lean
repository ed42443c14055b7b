import Claxedo.Presentation.Swept

/-! What the projection records of a response, event by event. -/

namespace Claxedo.Presentation

open Claxedo.Lib

/-! ### Lists without repetition -/

section
variable {l as : List String} {a b : String}

theorem mem_addCall : a ∈ addCall l b ↔ a ∈ l ∨ a = b := by
  unfold addCall
  split_ifs with h
  · constructor
    · exact .inl
    · rintro (ha | rfl)
      · exact ha
      · exact h
  · rw [List.mem_append, List.mem_singleton]

theorem nodup_addCall (h : l.Nodup) : (addCall l b).Nodup := by
  unfold addCall
  split_ifs with hb
  · exact h
  · exact List.nodup_append.mpr ⟨h, List.nodup_singleton b, fun x hx y hy hxy => by
      rw [List.mem_singleton.mp hy] at hxy
      exact hb (hxy ▸ hx)⟩

theorem mem_foldl_addCall : a ∈ as.foldl addCall l ↔ a ∈ l ∨ a ∈ as := by
  induction as generalizing l with
  | nil => simp
  | cons b as ih => rw [List.foldl_cons, ih, mem_addCall, List.mem_cons, or_assoc]

theorem nodup_foldl_addCall (h : l.Nodup) : (as.foldl addCall l).Nodup := by
  induction as generalizing l with
  | nil => exact h
  | cons b as ih => exact ih (nodup_addCall h)

theorem map_addPart (parts : List PartRef) (part : PartRef) :
    (addPart parts part).map PartRef.partID = addCall (parts.map PartRef.partID) part.partID := by
  unfold addPart addCall
  have hiff : (parts.any fun known => decide (known.partID = part.partID)) = true ↔
      part.partID ∈ parts.map PartRef.partID := by
    simp [List.mem_map]
  by_cases h : part.partID ∈ parts.map PartRef.partID
  · rw [if_pos h, if_pos (hiff.mpr h)]
  · rw [if_neg h, if_neg (fun hany => h (hiff.mp hany)), List.map_append, List.map_singleton]

theorem map_foldl_addPart (added parts : List PartRef) :
    (added.foldl addPart parts).map PartRef.partID = (added.map PartRef.partID).foldl addCall (parts.map PartRef.partID) := by
  induction added generalizing parts with
  | nil => rfl
  | cons part added ih => rw [List.foldl_cons, ih, map_addPart, List.map_cons, List.foldl_cons]

end

/-! ### The members of a response -/

/-- The text and reasoning parts some envelopes publish whole. -/
def written (events : List Payload) : List String := (events.filterMap writtenPart).map PartRef.partID

theorem written_append (a b : List Payload) : written (a ++ b) = written a ++ written b := by
  simp [written, List.filterMap_append]

section
variable {ctx : State} {r : String}

theorem currentMembers_eq (h : ctx.responses.current = some r) {members : ResponseMembers}
    (hmembers : Assoc.lookup r ctx.responses.members = some members) : currentMembers ctx = some (r, members) := by
  unfold currentMembers
  rw [h, Option.bind_some, hmembers]
  rfl

theorem currentMembers_none (h : ctx.responses.current = none) : currentMembers ctx = none := by
  unfold currentMembers
  rw [h]
  rfl

/-- What an event wrote goes to the response it came under. -/
theorem record_spec (event : RuntimeEvent) (envelopes : List Payload)
    (hkept : ∀ r, ctx.responses.current = some r → (Assoc.lookup r ctx.responses.members).isSome = true) :
    (∀ r, partsOf (recordResponseMembers ctx event envelopes) r =
      if ctx.responses.current = some r then (written envelopes).foldl addCall (partsOf ctx r) else partsOf ctx r) ∧
    (∀ r, callsOf (recordResponseMembers ctx event envelopes) r =
      if ctx.responses.current = some r then (startedCall event).foldl addCall (callsOf ctx r) else callsOf ctx r) ∧
    (recordResponseMembers ctx event envelopes).responses.current = ctx.responses.current ∧
    (recordResponseMembers ctx event envelopes).openReasoning = ctx.openReasoning ∧
    (∀ r, (Assoc.lookup r ctx.responses.members).isSome = true →
      (Assoc.lookup r (recordResponseMembers ctx event envelopes).responses.members).isSome = true) ∧
    ∀ known : Finset String, Keyed known ctx.responses.members →
      Keyed known (recordResponseMembers ctx event envelopes).responses.members := by
  rcases hcurrent : ctx.responses.current with _ | current
  · unfold recordResponseMembers
    rw [currentMembers_none hcurrent]
    exact ⟨fun r => by simp, fun r => by simp, hcurrent, rfl, fun r h => h, fun known h => h⟩
  · obtain ⟨members, hmembers⟩ := Option.isSome_iff_exists.mp (hkept current hcurrent)
    unfold recordResponseMembers
    rw [currentMembers_eq hcurrent hmembers]
    refine ⟨fun r => ?_, fun r => ?_, hcurrent, rfl, fun r hr => ?_, fun known h => ?_⟩
    · simp only [partsOf, Assoc.lookup_assign, Option.some.injEq]
      split_ifs with h
      · subst h
        rw [hmembers, Option.map_some, Option.getD_some, Option.map_some, Option.getD_some, map_foldl_addPart]
        rfl
      · rfl
    · simp only [callsOf, Assoc.lookup_assign, Option.some.injEq]
      split_ifs with h
      · subst h
        rw [hmembers, Option.map_some, Option.getD_some, Option.map_some, Option.getD_some]
      · rfl
    · simp only [Assoc.lookup_assign]
      split_ifs
      · rfl
      · exact hr
    · refine h.assigned (.inr ⟨_, rfl⟩) (h.2 current ?_)
      have hrow : Table.get Prod.fst current ctx.responses.members ≠ none := by
        intro hnone
        simp [Assoc.lookup, hnone] at hmembers
      obtain ⟨row, hrow⟩ := Option.ne_none_iff_exists'.mp hrow
      obtain ⟨hmem, hkey⟩ := Table.mem_of_get hrow
      exact hkey ▸ List.mem_map_of_mem hmem

/-! ### Entering and taking out -/

theorem enter_spec (r : String) {known : Finset String} (hmembers : Keyed known ctx.responses.members) (hr : r ∈ known)
    (hknown : known.card ≤ RETAINED_RESPONSES_MAX) :
    (∀ r', partsOf (enterResponse ctx r) r' = partsOf ctx r') ∧ (∀ r', callsOf (enterResponse ctx r) r' = callsOf ctx r') ∧
    (enterResponse ctx r).responses.current = some r ∧ (enterResponse ctx r).openReasoning = ctx.openReasoning ∧
    Keyed known (enterResponse ctx r).responses.members ∧
    (Assoc.lookup r (enterResponse ctx r).responses.members).isSome = true := by
  unfold enterResponse
  rcases hlookup : Assoc.lookup r ctx.responses.members with _ | found
  · have hkeyed : Keyed known (Assoc.assign r (⟨[], []⟩ : ResponseMembers) ctx.responses.members) :=
      hmembers.assigned (.inr ⟨_, rfl⟩) hr
    have hlook (r' : String) : Assoc.lookup r' (Assoc.assign r (⟨[], []⟩ : ResponseMembers) ctx.responses.members) =
        if r = r' then some ⟨[], []⟩ else Assoc.lookup r' ctx.responses.members := Assoc.lookup_assign _ _ _ _
    simp only [partsOf, callsOf, split, hkeyed.bound_eq hknown, hlook]
    refine ⟨fun r' => ?_, fun r' => ?_, trivial, trivial, hkeyed, by simp⟩
    all_goals
      by_cases h : r = r'
      · subst h
        simp [hlookup]
      · simp [h]
  · simp only [partsOf, callsOf, split, hmembers.bound_eq hknown]
    exact ⟨fun _ => trivial, fun _ => trivial, trivial, trivial, hmembers, by simp [hlookup]⟩

theorem takeOut_spec (ids : List String) : ∀ responses : ResponseProjectionState,
    (takeOut responses ids).1.current = responses.current.filter (fun current => current ∉ ids) ∧
    (∀ r, Assoc.lookup r (takeOut responses ids).1.members = if r ∈ ids then none else Assoc.lookup r responses.members) ∧
    (takeOut responses ids).2 = (firsts ids).filterMap (fun id => Assoc.lookup id responses.members) ∧
    ∀ known : Finset String, Keyed known responses.members → Keyed known (takeOut responses ids).1.members := by
  induction ids with
  | nil =>
    intro responses
    refine ⟨?_, fun r => by simp [takeOut], rfl, fun known h => h⟩
    simp only [takeOut, List.not_mem_nil, not_false_eq_true, decide_true]
    cases responses.current <;> rfl
  | cons id ids ih =>
    intro responses
    obtain ⟨hcurrent, hlookup, htaken, hkeyed⟩ := ih ⟨if responses.current = some id then none else responses.current,
      Assoc.erase id responses.members⟩
    refine ⟨?_, fun r => ?_, ?_, fun known h => hkeyed known ?_⟩
    · rw [takeOut, hcurrent]
      rcases responses.current with _ | current
      · rfl
      · by_cases h : current = id <;> simp [h, Option.filter_some]
    · rw [takeOut, hlookup, Assoc.lookup_erase]
      by_cases h : id = r
      · simp [h]
      · simp [h, Ne.symm h]
    · rw [takeOut, htaken, firsts, List.filterMap_cons]
      have hrest : (firsts ids).filterMap (fun id' => Assoc.lookup id' (Assoc.erase id responses.members)) =
          ((firsts ids).filter (· ≠ id)).filterMap (fun id' => Assoc.lookup id' responses.members) := by
        rw [List.filterMap_filter]
        refine List.filterMap_congr fun id' _ => ?_
        rw [Assoc.lookup_erase]
        by_cases h : id = id'
        · simp [h]
        · simp [h, Ne.symm h]
      rw [hrest]
      rcases Assoc.lookup id responses.members with _ | members <;> rfl
    · have hsub : ((Assoc.erase id responses.members).map Prod.fst).Sublist (responses.members.map Prod.fst) :=
        List.filter_sublist.map _
      exact ⟨h.1.sublist hsub, fun key hkey => h.2 key (hsub.subset hkey)⟩

end

/-! ### What an event writes -/

/-- The parts an envelope brings a delta of. -/
def deltas (events : List Payload) : List String := events.filterMap Ledger.deltaOf

theorem deltas_append (a b : List Payload) : deltas (a ++ b) = deltas a ++ deltas b := by
  simp [deltas, List.filterMap_append]

/-- Nothing was written, and the responses and the open reasoning are as they were. -/
structure Quiet (s : State) (answered : State × List Payload) : Prop where
  responses : answered.1.responses = s.responses
  reasoning : answered.1.openReasoning = s.openReasoning
  written : written answered.2 = []
  deltas : deltas answered.2 = []

section
variable {ctx s : State} {answered : State × List Payload}

theorem Mints.responses {s' : State} (h : Mints s s') : s'.responses = s.responses ∧ s'.openReasoning = s.openReasoning := by
  obtain ⟨ids, rfl⟩ := h
  exact ⟨rfl, rfl⟩

theorem quiet_publish {before : List Payload} (input : ToolReport) (hresponses : s.responses = ctx.responses)
    (hreasoning : s.openReasoning = ctx.openReasoning) (hwritten : Presentation.written before = [])
    (hdeltas : Presentation.deltas before = []) : Quiet ctx (publish before (toolEvent s input)) := by
  have hmints := (mints_toolEvent s input).responses
  refine ⟨hmints.1.trans hresponses, hmints.2.trans hreasoning, ?_, ?_⟩
  · rw [publish, written_append, hwritten]
    rfl
  · rw [publish, deltas_append, hdeltas]
    rfl

theorem Quiet.of_split (h : Quiet (split ctx) answered) : Quiet ctx answered := ⟨h.responses, h.reasoning, h.written, h.deltas⟩

variable (c : String) (display metadata : Option Record) (now : ℕ)

theorem quiet_toolStart (toolName : String) : Quiet ctx (translateToolStart ctx c toolName display metadata now) := by
  unfold translateToolStart
  extract_lets tool known named status
  split_ifs
  · exact quiet_publish _ rfl rfl rfl rfl
  · exact quiet_publish _ rfl rfl rfl rfl

theorem quiet_toolInput (input : Json) : Quiet ctx (translateToolInput ctx c input display metadata now) := by
  unfold translateToolInput
  extract_lets tool known
  split_ifs
  · exact ⟨rfl, rfl, rfl, rfl⟩
  · exact quiet_publish _ rfl rfl rfl rfl

theorem quiet_toolContent (content : Record) : Quiet ctx (translateToolContent ctx c content display metadata now) := by
  unfold translateToolContent
  extract_lets tool reported known status contentText event
  split_ifs
  · exact quiet_publish _ rfl rfl rfl rfl
  · exact quiet_publish _ rfl rfl rfl rfl

theorem quiet_toolError (text : String) : Quiet ctx (translateToolError ctx c text display metadata now) := by
  unfold translateToolError
  extract_lets tool known
  split_ifs
  · exact ⟨rfl, rfl, rfl, rfl⟩
  · exact quiet_publish _ rfl rfl rfl rfl

theorem quiet_toolOutput (output : Json) (attachments : List RuntimeToolAttachment) :
    Quiet ctx (translateToolOutput ctx c output attachments display metadata now) := by
  have hset (s : State) (attachments : List RuntimeToolAttachment) : (setAttachments s c attachments).responses = s.responses ∧
      (setAttachments s c attachments).openReasoning = s.openReasoning := by
    unfold setAttachments
    split_ifs <;> exact ⟨rfl, rfl⟩
  unfold translateToolOutput
  extract_lets tool known formatted
  by_cases hend : isTerminal ctx c = true
  · rw [if_pos hend]
    exact ⟨rfl, rfl, rfl, rfl⟩
  · rw [if_neg hend]
    exact quiet_publish _ (hset _ attachments).1 (hset _ attachments).2 (by split_ifs <;> rfl) (by split_ifs <;> rfl)

theorem quiet_noticePart (id : String) (notice : TranscriptNotice) (after : List Payload) (hresponses : s.responses = ctx.responses)
    (hreasoning : s.openReasoning = ctx.openReasoning) (hwritten : Presentation.written after = [])
    (hdeltas : Presentation.deltas after = []) :
    Quiet ctx ((noticePart s id notice now).1, (noticePart s id notice now).2 :: after) :=
  ⟨hresponses, hreasoning, hwritten, hdeltas⟩

theorem nextNoticePartId_rest (ctx : State) : (nextNoticePartId ctx).1.responses = ctx.responses ∧
    (nextNoticePartId ctx).1.openReasoning = ctx.openReasoning := by
  unfold nextNoticePartId
  extract_lets count key
  exact (mints_seqId _ _ _).responses

theorem noticePartId_rest (sessionId : String) (ctx : State) (eventId : Option String) :
    (noticePartId sessionId ctx eventId).1.responses = ctx.responses ∧
      (noticePartId sessionId ctx eventId).1.openReasoning = ctx.openReasoning := by
  unfold noticePartId
  split
  · split_ifs
    · exact nextNoticePartId_rest ctx
    · exact ⟨rfl, rfl⟩
  · exact nextNoticePartId_rest ctx

theorem compactionPartId_rest (ctx : State) : (compactionPartId ctx).1.responses = ctx.responses ∧
    (compactionPartId ctx).1.openReasoning = ctx.openReasoning := by
  unfold compactionPartId
  split
  · exact ⟨rfl, rfl⟩
  · exact nextNoticePartId_rest ctx

theorem quiet_projectCompaction (started aborted : Bool) (error : Option String) :
    Quiet ctx (projectCompaction ctx started aborted error now) := by
  unfold projectCompaction
  split_ifs
  · exact ⟨rfl, rfl, rfl, rfl⟩
  · exact quiet_noticePart now _ _ [] (nextNoticePartId_rest ctx).1 (nextNoticePartId_rest ctx).2 rfl rfl
  · exact quiet_noticePart now _ _ _ (compactionPartId_rest ctx).1 (compactionPartId_rest ctx).2
      (by split_ifs <;> rfl) (by split_ifs <;> rfl)

theorem quiet_projectHarnessNotice (sessionId code message : String) (severity : Option NoticeSeverity)
    (eventId : Option String) : Quiet ctx (projectHarnessNotice sessionId ctx code message severity eventId now) := by
  unfold projectHarnessNotice
  extract_lets severity'
  split_ifs
  · exact ⟨rfl, rfl, rfl, rfl⟩
  · exact quiet_noticePart now _ _ [] (noticePartId_rest sessionId ctx eventId).1 (noticePartId_rest sessionId ctx eventId).2 rfl rfl

theorem quiet_projectAgentMessage (sessionId : String) (notice : TranscriptNotice) (eventId : Option String) :
    Quiet ctx (projectAgentMessage sessionId ctx notice eventId now) := by
  unfold projectAgentMessage
  split_ifs
  · exact ⟨rfl, rfl, rfl, rfl⟩
  · exact quiet_noticePart now _ _ [] (noticePartId_rest sessionId ctx eventId).1 (noticePartId_rest sessionId ctx eventId).2 rfl rfl

theorem quiet_filePart (slot : String) (shown : FileShown) : Quiet ctx (filePart ctx slot shown now) :=
  ⟨(mints_seqId _ _ _).responses.1, (mints_seqId _ _ _).responses.2, rfl, rfl⟩

end

/-! ### Deltas -/

/-- The part a delta goes to. -/
def targets (s : State) : Option DeltaKind → List String
  | some kind => [targetId s kind]
  | none => []

/-- The part a delta opens. -/
def opens (s : State) : Option DeltaKind → List String
  | some kind => if seen s (targetKey s kind) then [] else [targetId s kind]
  | none => []

/-- The reasoning part that is open after a delta. -/
def reasons (s : State) (now : Option OpenReasoningPart) : Option DeltaKind → Prop
  | some .reasoning => ∃ part, now = some part ∧ part.partId = targetId s .reasoning
  | _ => now = s.openReasoning

/-- What an event that brings a delta of `kind`, or none, writes. -/
structure Wrote (s : State) (kind : Option DeltaKind) (answered : State × List Payload) : Prop where
  responses : answered.1.responses = s.responses
  reasoning : reasons s answered.1.openReasoning kind
  written : written answered.2 = opens s kind
  deltas : deltas answered.2 = targets s kind

theorem Quiet.wrote {s : State} {answered : State × List Payload} (h : Quiet s answered) : Wrote s none answered :=
  ⟨h.responses, h.reasoning, h.written, h.deltas⟩

theorem seqId_snd (ctx : State) (key name : String) :
    (seqId ctx key name).2 =
      (Assoc.lookup key ctx.partIdMap).getD (padStart6 (toString ctx.partIdMap.length) ++ "_" ++ name) := by
  unfold seqId
  split <;> simp_all

theorem partIdMap_splitPart (s : State) (kind : DeltaKind) : (splitPart s kind).partIdMap = s.partIdMap := by
  cases kind <;> rfl

theorem targetId_eq (s : State) (kind : DeltaKind) :
    (seqId (splitPart s kind) (targetKey s kind) (targetKey s kind)).2 = targetId s kind := by
  rw [targetId, seqId_snd, seqId_snd, partIdMap_splitPart]

theorem stream_partId (s : State) (id delta : String) (now : ℕ) : (stream s id delta now).partId = id := by
  unfold stream
  split
  · split_ifs with h
    · exact h
    · rfl
  · rfl

theorem written_opened (s : State) (kind : DeltaKind) (messageID id delta : String) (now : ℕ) (fresh : Bool) :
    written ((if fresh then [.partUpdated (emptyPart s kind id now) now] else []) ++ [.partDelta messageID id delta]) =
      (if fresh then [id] else []) ∧
    deltas ((if fresh then [.partUpdated (emptyPart s kind id now) now] else []) ++ [.partDelta messageID id delta]) = [id] := by
  cases fresh <;> cases kind <;> exact ⟨rfl, rfl⟩

theorem deltaText_snd (s : State) (kind : DeltaKind) (delta : String) (now : ℕ) :
    written (deltaText s kind delta now).2 = (if seen s (targetKey s kind) then [] else [targetId s kind]) ∧
    deltas (deltaText s kind delta now).2 = [targetId s kind] := by
  have hseen : seen (splitPart s kind) (targetKey s kind) = seen s (targetKey s kind) := by
    unfold seen
    rw [partIdMap_splitPart]
  have hwritten := written_opened (seqId (splitPart s kind) (targetKey s kind) (targetKey s kind)).1 kind
    (seqId (splitPart s kind) (targetKey s kind) (targetKey s kind)).1.assistantMsgId
    (seqId (splitPart s kind) (targetKey s kind) (targetKey s kind)).2 delta now (!seen (splitPart s kind) (targetKey s kind))
  have hfresh : (if (!seen s (targetKey s kind)) = true then [targetId s kind] else []) =
      if seen s (targetKey s kind) = true then [] else [targetId s kind] := by
    cases seen s (targetKey s kind) <;> rfl
  rw [targetId_eq, hseen, hfresh] at hwritten
  unfold deltaText
  extract_lets ctx key fresh minted ctx' id opened events
  have hid : id = targetId s kind := targetId_eq s kind
  have hevents : written events = (if seen s (targetKey s kind) then [] else [targetId s kind]) ∧
      deltas events = [targetId s kind] := by
    rw [show events = (if fresh then [.partUpdated (emptyPart ctx' kind id now) now] else []) ++
      [.partDelta ctx'.assistantMsgId id delta] from rfl, hid]
    rw [show fresh = !seen s (targetKey s kind) from congrArg (! ·) hseen]
    exact hwritten
  cases kind with
  | text => exact hevents
  | reasoning => exact hevents

theorem wrote_deltaText (s : State) (kind : DeltaKind) (delta : String) (now : ℕ) :
    Wrote s (some kind) (deltaText s kind delta now) := by
  have hmints := mints_seqId (splitPart s kind) (targetKey s kind) (targetKey s kind)
  obtain ⟨hwritten, hdeltas⟩ := deltaText_snd s kind delta now
  cases kind with
  | text => exact ⟨hmints.responses.1, hmints.responses.2, hwritten, hdeltas⟩
  | reasoning =>
    exact ⟨hmints.responses.1, ⟨_, rfl, (stream_partId _ _ _ _).trans (targetId_eq s .reasoning)⟩, hwritten, hdeltas⟩

/-! ### Where a delta goes -/

section
variable (s : State) (plan : String) (notices : NoticeProjectionState) (reasoning : Option OpenReasoningPart) (splits : Bool)

/-- A state that differs in what text does not go by. -/
def aside (s : State) (plan : String) (notices : NoticeProjectionState) (reasoning : Option OpenReasoningPart)
    (splits : Bool) : State :=
  { s with proposedPlanText := plan, notices := notices, openReasoning := reasoning, splitReasoning := splits }

theorem targetKey_aside {kind : DeltaKind} (h : kind = .text ∨ splits = s.splitReasoning) :
    targetKey (aside s plan notices reasoning splits) kind = targetKey s kind := by
  cases kind with
  | text => rfl
  | reasoning =>
    rcases h with h | rfl
    · cases h
    · rfl

theorem target_aside {kind : Option DeltaKind} (h : kind ≠ some .reasoning ∨ splits = s.splitReasoning) :
    targets (aside s plan notices reasoning splits) kind = targets s kind ∧
      opens (aside s plan notices reasoning splits) kind = opens s kind := by
  rcases kind with _ | kind
  · exact ⟨rfl, rfl⟩
  · have hkey : targetKey (aside s plan notices reasoning splits) kind = targetKey s kind := by
      refine targetKey_aside s plan notices reasoning splits (h.imp_left fun hne => ?_)
      cases kind with
      | text => rfl
      | reasoning => exact absurd rfl hne
    have hid : targetId (aside s plan notices reasoning splits) kind = targetId s kind := by
      rw [targetId, targetId, hkey, seqId_snd, seqId_snd]
      rfl
    have hseen : seen (aside s plan notices reasoning splits) (targetKey s kind) = seen s (targetKey s kind) := rfl
    simp only [targets, opens, hkey, hid, hseen, and_self]

end

theorem quiet_translatePlain (ctx : State) (type : PlainEvent) : Quiet ctx (translatePlain ctx type) := by
  cases type <;> exact ⟨rfl, rfl, rfl, rfl⟩

theorem wrote_plan (ctx : State) (plan delta : String) (now : ℕ) :
    Wrote ctx (some .text) (deltaText { ctx with proposedPlanText := plan } .text delta now) := by
  have h := wrote_deltaText { ctx with proposedPlanText := plan } .text delta now
  have htext : some DeltaKind.text ≠ some .reasoning := by decide
  obtain ⟨htargets, hopens⟩ := target_aside ctx plan ctx.notices ctx.openReasoning ctx.splitReasoning (.inl htext)
  exact ⟨h.responses, h.reasoning, h.written.trans hopens, h.deltas.trans htargets⟩

/-- An event writes the part its delta goes to, and nothing else. -/
theorem wrote_translate (options : Options) (ctx : State) (event : RuntimeEvent) (now : ℕ)
    (hstart : ∀ r, event ≠ .responseStart r) (hretracted : ∀ rs reason, event ≠ .responseRetracted rs reason) :
    Wrote ctx (deltaKind ctx event) (translateRuntimeEventToCompat options ctx event now) := by
  cases event with
  | responseStart r => exact absurd rfl (hstart r)
  | responseRetracted rs reason => exact absurd rfl (hretracted rs reason)
  | textDelta delta => exact wrote_deltaText ctx .text delta now
  | thinkingDelta delta => exact wrote_deltaText ctx .reasoning delta now
  | proposedPlanDelta delta =>
    exact wrote_plan ctx (ctx.proposedPlanText ++ delta) delta now
  | proposedPlanComplete planMarkdown =>
    unfold translateRuntimeEventToCompat deltaKind
    dsimp only
    split_ifs with hempty
    · exact ⟨rfl, rfl, rfl, rfl⟩
    · exact wrote_plan ctx planMarkdown (planDelta ctx planMarkdown) now
  | toolStart c toolName display metadata => exact (quiet_toolStart c display metadata now toolName).of_split.wrote
  | toolInput c input display metadata => exact (quiet_toolInput c display metadata now input).of_split.wrote
  | toolContent c content display metadata => exact (quiet_toolContent c display metadata now content).of_split.wrote
  | toolError c error display metadata => exact (quiet_toolError c display metadata now error).of_split.wrote
  | toolOutput c output attachments display metadata =>
    exact (quiet_toolOutput c display metadata now output attachments).of_split.wrote
  | toolStatus | toolLocation | toolTerminal =>
    refine Quiet.wrote (quiet_publish _ ?_ ?_ ?_ ?_) <;> rfl
  | sessionCompaction => exact (quiet_projectCompaction _ _ _ _).wrote
  | harnessNotice => exact (quiet_projectHarnessNotice _ _ _ _ _ _).wrote
  | agentMessage | conversationReset => exact (quiet_projectAgentMessage _ _ _ _).wrote
  | imageDelta | audioDelta | resourceLinkDelta => exact (quiet_filePart _ _ _).wrote
  | plain type => exact (quiet_translatePlain ctx type).wrote
  | sessionStatus status =>
    refine Quiet.wrote ⟨rfl, rfl, ?_, ?_⟩ <;> dsimp only [translateRuntimeEventToCompat] <;> split_ifs <;> rfl
  | _ => exact Quiet.wrote ⟨rfl, rfl, rfl, rfl⟩

/-! ### A call of the projection -/

/-- The reasoning parts an event ends. -/
def endedBy (s : State) (event : RuntimeEvent) : List String :=
  if REASONING_ENDS_ON event then (s.openReasoning.map OpenReasoningPart.partId).toList else []

/-- The reasoning part that is open after an event. -/
def reasonsAfter (s : State) (event : RuntimeEvent) (now : Option OpenReasoningPart) : Prop :=
  match deltaKind s event with
  | some .reasoning => ∃ part, now = some part ∧ part.partId = targetId s .reasoning
  | _ => now = if REASONING_ENDS_ON event then none else s.openReasoning

/-- The envelopes in front of what an event publishes itself. -/
def preface (s : State) (event : RuntimeEvent) (now : ℕ) : State × List Payload :=
  let resumed := resumeAfterRetry s event
  let ended := if REASONING_ENDS_ON event then endReasoning resumed.1 now else (resumed.1, [])
  (ended.1, resumed.2 ++ ended.2)

theorem projectEvent_eq (options : Options) (s : State) (event : RuntimeEvent) (now : ℕ) :
    projectEvent options s event now =
      ((translateRuntimeEventToCompat options (preface s event now).1 event now).1,
       (preface s event now).2 ++ (translateRuntimeEventToCompat options (preface s event now).1 event now).2) := rfl

theorem preface_spec (s : State) (event : RuntimeEvent) (now : ℕ) :
    (∃ notices splits, (preface s event now).1 = aside s s.proposedPlanText notices
        (if REASONING_ENDS_ON event then none else s.openReasoning) splits ∧
      (REASONING_ENDS_ON event = false → splits = s.splitReasoning)) ∧
    written (preface s event now).2 = endedBy s event ∧ deltas (preface s event now).2 = [] := by
  have hresumed : (∃ notices, (resumeAfterRetry s event).1 = { s with notices := notices }) ∧
      written (resumeAfterRetry s event).2 = [] ∧ deltas (resumeAfterRetry s event).2 = [] := by
    unfold resumeAfterRetry
    split_ifs <;> exact ⟨⟨_, rfl⟩, rfl, rfl⟩
  obtain ⟨⟨notices, hstate⟩, hwritten, hdeltas⟩ := hresumed
  unfold preface
  extract_lets resumed ended
  have hended : (∃ splits, ended.1 = aside s s.proposedPlanText notices
        (if REASONING_ENDS_ON event then none else s.openReasoning) splits ∧
      (REASONING_ENDS_ON event = false → splits = s.splitReasoning)) ∧ written ended.2 = endedBy s event ∧ deltas ended.2 = [] := by
    rw [show ended = if REASONING_ENDS_ON event then endReasoning { s with notices := notices } now
      else ({ s with notices := notices }, []) by rw [← hstate]]
    unfold endedBy endReasoning
    rcases REASONING_ENDS_ON event with _ | _
    · exact ⟨⟨s.splitReasoning, rfl, fun _ => rfl⟩, rfl, rfl⟩
    · rcases hopen : s.openReasoning with _ | part
      · exact ⟨⟨s.splitReasoning, by simp [aside], fun h => by cases h⟩, by simp [written], by simp [deltas]⟩
      · exact ⟨⟨true, by simp [aside], fun h => by cases h⟩, by simp [written, writtenPart],
          by simp [deltas, Ledger.deltaOf]⟩
  obtain ⟨⟨splits, hsplit, hsame⟩, hwrites, hnone⟩ := hended
  refine ⟨⟨notices, splits, hsplit, hsame⟩, ?_, ?_⟩
  · rw [written_append, hwritten, hwrites, List.nil_append]
  · rw [deltas_append, hdeltas, hnone, List.append_nil]

theorem deltaKind_aside (s : State) (notices : NoticeProjectionState) (reasoning : Option OpenReasoningPart) (splits : Bool)
    (event : RuntimeEvent) : deltaKind (aside s s.proposedPlanText notices reasoning splits) event = deltaKind s event := by
  cases event <;> rfl

theorem deltaKind_ends {s : State} {event : RuntimeEvent} (h : deltaKind s event = some .reasoning) :
    REASONING_ENDS_ON event = false := by
  cases event with
  | thinkingDelta => rfl
  | proposedPlanComplete planMarkdown =>
    dsimp only [deltaKind] at h
    split_ifs at h
    cases h
  | _ => cases h

/-- An event writes the reasoning it ends and the part its delta goes to. -/
structure Projects (s : State) (event : RuntimeEvent) (answered : State × List Payload) : Prop where
  responses : answered.1.responses = s.responses
  reasoning : reasonsAfter s event answered.1.openReasoning
  written : written answered.2 = endedBy s event ++ opens s (deltaKind s event)
  deltas : deltas answered.2 = targets s (deltaKind s event)

theorem projects (options : Options) (s : State) (event : RuntimeEvent) (now : ℕ)
    (hstart : ∀ r, event ≠ .responseStart r) (hretracted : ∀ rs reason, event ≠ .responseRetracted rs reason) :
    Projects s event (projectEvent options s event now) := by
  obtain ⟨⟨notices, splits, hstate, hsplits⟩, hprefaced, hnone⟩ := preface_spec s event now
  have hwrote := wrote_translate options (preface s event now).1 event now hstart hretracted
  rw [projectEvent_eq]
  rw [hstate] at hwrote ⊢
  rw [deltaKind_aside] at hwrote
  obtain ⟨htargets, hopens⟩ := @target_aside s s.proposedPlanText notices
    (if REASONING_ENDS_ON event then none else s.openReasoning) splits (deltaKind s event) (by
      rcases hends : REASONING_ENDS_ON event with _ | _
      · exact .inr (hsplits hends)
      · exact .inl fun hkind => by rw [deltaKind_ends hkind] at hends; cases hends)
  refine ⟨hwrote.responses, ?_, ?_, ?_⟩
  · have hreasons := hwrote.reasoning
    unfold reasonsAfter
    rcases hkind : deltaKind s event with _ | _ | _ <;> rw [hkind] at hreasons
    · exact hreasons
    · exact hreasons
    · obtain ⟨part, hpart, hid⟩ := hreasons
      rw [hkind] at htargets
      exact ⟨part, hpart, hid.trans (List.head_eq_of_cons_eq htargets)⟩
  · rw [written_append, hprefaced, hwrote.written, hopens]
  · rw [deltas_append, hnone, hwrote.deltas, htargets, List.nil_append]

/-- The row a turn is announced with, and what stays. -/
theorem run_spec (options : Options) (now : ℕ) (s : State) (events : List Payload) :
    (run options now (s, events)).1.responses = s.responses ∧ (run options now (s, events)).1.openReasoning = s.openReasoning ∧
    ∃ row : List Payload, (run options now (s, events)).2 = row ++ events ∧
      deltas row = [] ∧ toolParts row = [] ∧ retractions row = [] ∧ written row = [] := by
  have hannounced : (withAnnouncedAssistantMessage options now (s, events)).1.responses = s.responses ∧
      (withAnnouncedAssistantMessage options now (s, events)).1.openReasoning = s.openReasoning ∧
      ∃ row : List Payload, (withAnnouncedAssistantMessage options now (s, events)).2 = row ++ events ∧
        deltas row = [] ∧ toolParts row = [] ∧ retractions row = [] ∧ written row = [] := by
    unfold withAnnouncedAssistantMessage
    extract_lets ctx events announced
    split_ifs
    · exact ⟨rfl, rfl, [], rfl, rfl, rfl, rfl, rfl⟩
    · split <;> exact ⟨rfl, rfl, [_], rfl, rfl, rfl, rfl, rfl⟩
  simp only [run, boundRetainedState]
  exact hannounced

/-- A call of the projection that is not about a response as such. -/
structure Records (s : State) (event : RuntimeEvent) (answered : State × List Payload) : Prop where
  current : answered.1.responses.current = s.responses.current
  parts : ∀ r, partsOf answered.1 r = if s.responses.current = some r
    then (endedBy s event ++ opens s (deltaKind s event)).foldl addCall (partsOf s r) else partsOf s r
  calls : ∀ r, callsOf answered.1 r = if s.responses.current = some r
    then (startedCall event).foldl addCall (callsOf s r) else callsOf s r
  reasoning : reasonsAfter s event answered.1.openReasoning
  deltas : deltas answered.2 = targets s (deltaKind s event)
  kept : ∀ r, (Assoc.lookup r s.responses.members).isSome = true →
    (Assoc.lookup r answered.1.responses.members).isSome = true
  keyed : ∀ known : Finset String, Keyed known s.responses.members → Keyed known answered.1.responses.members

theorem partsOf_congr {s s' : State} (h : s'.responses = s.responses) (r : String) : partsOf s' r = partsOf s r := by
  simp only [partsOf, h]

theorem callsOf_congr {s s' : State} (h : s'.responses = s.responses) (r : String) : callsOf s' r = callsOf s r := by
  simp only [callsOf, h]

theorem records_ingest (options : Options) (s : State) (event : RuntimeEvent) (now : ℕ)
    (hstart : ∀ r, event ≠ .responseStart r) (hretracted : ∀ rs reason, event ≠ .responseRetracted rs reason)
    (hkept : ∀ r, s.responses.current = some r → (Assoc.lookup r s.responses.members).isSome = true) :
    Records s event (ingest options s event now) := by
  have hprojects := projects options s event now hstart hretracted
  have hsame := hprojects.responses
  obtain ⟨hparts, hcalls, hcurrent, hreasoning, hmembers, hkeyed⟩ :=
    @record_spec (projectEvent options s event now).1 event (projectEvent options s event now).2 (by rw [hsame]; exact hkept)
  obtain ⟨hresponses, hopen, row, hrow, hdeltas, -⟩ := run_spec options now
    (recordResponseMembers (projectEvent options s event now).1 event (projectEvent options s event now).2)
    (projectEvent options s event now).2
  refine ⟨?_, fun r => ?_, fun r => ?_, ?_, ?_, fun r h => ?_, fun known h => ?_⟩
  · rw [ingest, hresponses, hcurrent, hsame]
  · rw [ingest, partsOf_congr hresponses, hparts, hsame, hprojects.written, partsOf_congr hsame]
  · rw [ingest, callsOf_congr hresponses, hcalls, hsame, callsOf_congr hsame]
  · rw [ingest, hopen, hreasoning]
    exact hprojects.reasoning
  · rw [ingest, hrow, deltas_append, hdeltas, List.nil_append, hprojects.deltas]
  · rw [ingest, hresponses]
    exact hmembers r (hsame ▸ h)
  · rw [ingest, hresponses]
    exact hkeyed known (hsame ▸ h)

/-- What the start of a response makes of the state. -/
structure Starts (s : State) (r : String) (answered : State × List Payload) : Prop where
  current : answered.1.responses.current = some r
  parts : ∀ r', partsOf answered.1 r' =
    if r = r' then (s.openReasoning.map OpenReasoningPart.partId).toList.foldl addCall (partsOf s r') else partsOf s r'
  calls : ∀ r', callsOf answered.1 r' = callsOf s r'
  reasoning : answered.1.openReasoning = none
  kept : (Assoc.lookup r answered.1.responses.members).isSome = true

theorem starts_ingest (options : Options) (s : State) (r : String) (now : ℕ) {known : Finset String}
    (hmembers : Keyed known s.responses.members) (hr : r ∈ known) (hknown : known.card ≤ RETAINED_RESPONSES_MAX) :
    Starts s r (ingest options s (.responseStart r) now) ∧
      Keyed known (ingest options s (.responseStart r) now).1.responses.members := by
  obtain ⟨⟨notices, splits, hstate, -⟩, hprefaced, -⟩ := preface_spec s (.responseStart r) now
  have hentered : (preface s (.responseStart r) now).1 = aside s s.proposedPlanText notices none splits := hstate
  have hprojected : projectEvent options s (.responseStart r) now =
      (enterResponse (aside s s.proposedPlanText notices none splits) r, (preface s (.responseStart r) now).2) := by
    rw [projectEvent_eq, hentered]
    exact congrArg (Prod.mk _) (List.append_nil _)
  obtain ⟨hparts, hcalls, hcurrent, hopen, hkeyed, hkept⟩ :=
    @enter_spec (aside s s.proposedPlanText notices none splits) r _ hmembers hr hknown
  obtain ⟨hparts', hcalls', hcurrent', hopen', hmembers', hkeyed'⟩ :=
    @record_spec (enterResponse (aside s s.proposedPlanText notices none splits) r) (.responseStart r)
    (preface s (.responseStart r) now).2 (fun r' h => by rw [hcurrent] at h; exact Option.some.inj h ▸ hkept)
  obtain ⟨hresponses, hreasoning, -⟩ := run_spec options now
    (recordResponseMembers (enterResponse (aside s s.proposedPlanText notices none splits) r) (.responseStart r)
      (preface s (.responseStart r) now).2) (preface s (.responseStart r) now).2
  have hingest : ingest options s (.responseStart r) now = run options now
      (recordResponseMembers (enterResponse (aside s s.proposedPlanText notices none splits) r) (.responseStart r)
        (preface s (.responseStart r) now).2, (preface s (.responseStart r) now).2) := by
    rw [ingest, hprojected]
  rw [hingest]
  refine ⟨⟨?_, fun r' => ?_, fun r' => ?_, ?_, ?_⟩, ?_⟩
  · rw [hresponses, hcurrent', hcurrent]
  · rw [partsOf_congr hresponses, hparts', hcurrent, hparts, hprefaced]
    simp only [Option.some.injEq]
    rfl
  · have hnone : startedCall (.responseStart r) = [] := rfl
    rw [callsOf_congr hresponses, hcalls', hcalls, hnone, List.foldl_nil, ite_self]
    rfl
  · rw [hreasoning, hopen', hopen]
    rfl
  · rw [hresponses]
    exact hmembers' r hkept
  · rw [hresponses]
    exact hkeyed' known hkeyed

end Claxedo.Presentation
