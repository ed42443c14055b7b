import Claxedo.Presentation.Deltas

/-! Streamed text is whole in every turn whose deltas find a part of their own, and every reasoning part is ended once. -/

namespace Claxedo.Presentation

open Claxedo.Lib Claxedo.Lib.Table

/-! ### Notices -/

/-- An id for a notice, minted or told. -/
structure Identifies (drawn : List Drawn) (s : State) (minted : State × String) : Prop where
  frame : Frame s minted.1
  grows : Grows s.partIdMap minted.1.partIdMap
  keys : ∀ key, seen minted.1 key = true → seen s key = true ∨ Minted drawn key
  statuses : minted.1.toolStatusByCallId = s.toolStatusByCallId
  id : (∃ key, Assoc.lookup key minted.1.partIdMap = some minted.2) ∨ ∀ n name, minted.2 ≠ numberedId n name

section
variable {s : State} {drawn : List Drawn} {left : List String} {told : List (DeltaKind × String)} {P : List Payload}
  {minted : State × String}

theorem identifies_next (drawn : List Drawn) (s : State) : Identifies drawn s (nextNoticePartId s) := by
  obtain ⟨hframe, hgrows, hkey, hseen, hstatuses⟩ := nextNoticePartId_draws s
  refine ⟨hframe, hgrows, fun key h => (hseen key h).imp_right ?_, hstatuses, .inl ⟨_, hkey⟩⟩
  rintro rfl
  exact ⟨_, rfl, rfl, nofun⟩

theorem identifies_told (drawn : List Drawn) {id : String}
    (h : (∃ key, Assoc.lookup key s.partIdMap = some id) ∨ ∀ n name, id ≠ numberedId n name) : Identifies drawn s (s, id) :=
  ⟨.refl s, .refl _, fun _ hkey => .inl hkey, rfl, h⟩

theorem Streaming.notice (h : Streaming s drawn left told P) (hminted : Identifies drawn s minted) (running : Option String)
    (hrunning : ∀ id, running = some id → s.notices.runningCompactionPartId = some id ∨ id = minted.2)
    (notice : TranscriptNotice) (now : ℕ) {tail : List Payload} (htail : ∀ p ∈ tail, p = Payload.sessionCompacted) :
    Streaming (noticePart (runningCompaction minted.1 running) minted.2 notice now).1 drawn left told
      (P ++ (noticePart (runningCompaction minted.1 running) minted.2 notice now).2 :: tail) := by
  have hstays := hminted.frame.stays
  have hshown : allShown ((noticePart (runningCompaction minted.1 running) minted.2 notice now).2 :: tail) = [minted.2] := by
    have hnone : allShown tail = [] := List.flatMap_eq_nil_iff.mpr fun p hp => htail p hp ▸ rfl
    rw [allShown, List.flatMap_cons, ← allShown, hnone]
    rfl
  refine h.hushed ⟨hstays.message, fun kind => ?_, hstays.reasoning⟩ hminted.grows hminted.keys (fun c hc => .inl ?_) (fun id hid => ?_)
    (fun p hp => ?_) ?_ (.inl fun kind => by cases kind <;> rfl)
  · rw [← hstays.seq kind]
    cases kind <;> rfl
  · have hc : (Assoc.lookup c minted.1.toolStatusByCallId).isSome = true := hc
    rwa [hminted.statuses] at hc
  · refine (hrunning id hid).imp_right fun hsame => ?_
    rw [hshown, hsame]
    exact List.mem_singleton_self _
  · rcases List.mem_cons.mp hp with rfl | hp
    · exact ⟨rfl, rfl, rfl⟩
    · exact htail p hp ▸ ⟨rfl, rfl, rfl⟩
  · rw [hshown]
    intro id hid
    obtain rfl := List.mem_singleton.mp hid
    exact hminted.id

theorem Streaming.appendNotice (h : Streaming s drawn left told P) (sessionId : String) (notice : TranscriptNotice) (now : ℕ)
    (eventId : Option String)
    (hdurable : ∀ e, eventId.bind nonEmpty = some e → ∀ n name, eventNoticePartId sessionId e ≠ numberedId n name) :
    Streaming (publish [] (appendNotice sessionId s notice now eventId)).1 drawn left told
      (P ++ (publish [] (appendNotice sessionId s notice now eventId)).2) := by
  have hminted : Identifies drawn s (noticePartId sessionId s eventId) := by
    rw [noticePartId_eq]
    rcases hevent : eventId.bind nonEmpty with _ | e
    · exact identifies_next drawn s
    · exact identifies_told drawn (.inr (hdurable e hevent))
  exact h.notice hminted (noticePartId sessionId s eventId).1.notices.runningCompactionPartId
    (fun id hid => .inl (hminted.frame.running ▸ hid)) notice now nofun

theorem Streaming.compaction (h : Streaming s drawn left told P) (started aborted : Bool) (error : Option String) (now : ℕ) :
    Streaming (projectCompaction s started aborted error now).1 drawn left told
      (P ++ (projectCompaction s started aborted error now).2) := by
  unfold projectCompaction
  split_ifs with hempty hstarted
  · exact (List.append_nil P).symm ▸ h
  · exact h.notice (identifies_next drawn s) (some (nextNoticePartId s).2) (fun id hid => .inr (Option.some.inj hid).symm)
      .compactionRunning now nofun
  · have hminted : Identifies drawn s (compactionPartId s) := by
      unfold compactionPartId
      rcases hrunning : s.notices.runningCompactionPartId with _ | id
      · exact identifies_next drawn s
      · exact identifies_told drawn (h.shown id (h.running id hrunning))
    refine h.notice hminted none nofun (compactionOutcome aborted error) now fun p hp => ?_
    split_ifs at hp
    · exact List.mem_singleton.mp hp
    · cases hp

end

/-! ### An event -/

section
variable {s s' : State} {drawn : List Drawn} {left : List String} {told : List (DeltaKind × String)} {P Q : List Payload}

theorem Streaming.split (h : Streaming s drawn left told P) : Streaming (split s) drawn left told P := by
  have hsplit := h.hushed (Q := []) (stays_split s) (.refl _) (fun key hkey => .inl hkey) (fun c hc => .inl hc)
    (fun id hid => .inl hid) nofun nofun (.inl (splits_split s))
  rwa [List.append_nil] at hsplit

/-- Envelopes that show nothing, in a state whose text goes on as it was. -/
theorem Streaming.quiet (h : Streaming s drawn left told P) (hframe : Frame s s') (hids : s'.partIdMap = s.partIdMap)
    (hstatuses : s'.toolStatusByCallId = s.toolStatusByCallId) (hQ : ∀ p ∈ Q, ∀ l, drawnOf l p = []) :
    Streaming s' drawn left told (P ++ Q) := by
  refine (h.beside hQ).same hframe hids fun c hc => ?_
  rwa [statusOf, hstatuses] at hc

theorem Streaming.quiet_nil (h : Streaming s drawn left told P) (hframe : Frame s s') (hids : s'.partIdMap = s.partIdMap)
    (hstatuses : s'.toolStatusByCallId = s.toolStatusByCallId) : Streaming s' drawn left told P :=
  h.same hframe hids fun c hc => by rwa [statusOf, hstatuses] at hc

/-- A message is left; what is written under the next is new. -/
theorem Streaming.stepStart (h : Streaming s drawn left told P) (hopen : s.openReasoning = none) (newMessageId : String) :
    Streaming (Presentation.stepStart s newMessageId) drawn (left ++ [s.assistantMsgId]) told
      (P ++ [.messageCompleted s.assistantMsgId false]) := by
  have hwritten {key id m : String} {kind : DeltaKind} {n : ℕ} (hw : Written s left P key id m kind n) :
      m ∈ left ++ [s.assistantMsgId] := by
    rcases hw.within with hm | ⟨hm, -⟩
    · exact List.mem_append_left _ hm
    · exact List.mem_append_right _ (List.mem_singleton.mpr hm)
  have hbeside := h.beside (Q := [.messageCompleted s.assistantMsgId false]) fun p hp l => List.mem_singleton.mp hp ▸ rfl
  refine { hbeside with keys := ?_, top := ?_, reasoning := ?_, ended := ?_ }
  · intro key id hid
    refine (hbeside.keys key id hid).imp_right ?_
    rintro ⟨m, kind, n, hw⟩
    refine ⟨m, kind, n, hw.text, .inl ?_, hw.opened⟩
    rcases hw.within with hm | ⟨hm, -⟩
    · exact List.mem_append_left _ hm
    · exact List.mem_append_right _ (List.mem_singleton.mpr hm)
  · intro kind _ hleft hfree id hid
    rcases h.keys _ id hid with hminted | ⟨m, kind', n, hw⟩
    · exact (hminted.not_free hfree).elim
    · obtain ⟨rfl, -, -⟩ := PartKey.prose.inj (PartKey.text_inj rfl rfl hw.text)
      exact absurd (hwritten hw) hleft
  · intro part hpart
    have hpart : s.openReasoning = some part := hpart
    rw [hopen] at hpart
    cases hpart
  · exact hbeside.ended

theorem drawnOf_plain {type : PlainEvent} : ∀ p ∈ (translatePlain s type).2, ∀ l, drawnOf l p = [] := by
  intro p hp l
  unfold translatePlain at hp
  split at hp
  all_goals first
    | exact List.mem_singleton.mp hp ▸ rfl
    | cases hp

theorem Streaming.plain (h : Streaming s drawn left told P) (type : PlainEvent) :
    Streaming (translatePlain s type).1 drawn left told (P ++ (translatePlain s type).2) := by
  have hstate : (translatePlain s type).1 = s ∨ (translatePlain s type).1 = Presentation.split s := by
    cases type <;> first | exact .inl rfl | exact .inr rfl
  rcases hstate with hstate | hstate <;> rw [hstate]
  · exact h.beside drawnOf_plain
  · exact h.split.beside drawnOf_plain

theorem Streaming.retractResponses (h : Streaming s drawn left told P) {l : Labels} (ids : List String) (reason : String) (now : ℕ)
    (hdrawn : ∀ d ∈ drawnAll l (Presentation.retractResponses s ids reason now).2, d ∈ drawn) :
    Streaming (Presentation.retractResponses s ids reason now).1 drawn left told
      (P ++ (Presentation.retractResponses s ids reason now).2) := by
  rcases draws_retractResponses l s ids reason now with hdraws | hdraws
  · exact h.sweep hdraws hdrawn
  · exact h.apart hdraws (aside_sweep _ _) hdrawn

/-- What an event needs for its deltas to find a part of their own. -/
structure Streamable (options : Options) (s : State) (drawn : List Drawn) (left : List String) (event : RuntimeEvent) : Prop where
  ends : REASONING_ENDS_ON event = true → s.openReasoning = none
  goesOn : ∀ kind, deltaKind s event = some kind → seen s (targetKey s kind) = true →
    Free drawn (targetKey s kind) ∧ s.assistantMsgId ∉ left
  reasons : deltaKind s event = some .reasoning → s.openReasoning = none ∨ s.splitReasoning = false
  durable : appendsNotice event = true → ∀ eventId, noticeEvent event = some eventId →
    ∀ n name, eventNoticePartId options.sessionId eventId ≠ numberedId n name

def leftBy (s : State) : RuntimeEvent → List String
  | .stepStart _ => [s.assistantMsgId]
  | _ => []

theorem Streaming.translate (hbefore : Streaming s drawn left told P) (options : Options) (event : RuntimeEvent) (now : ℕ)
    {drawn' : List Drawn} {l : Labels} (hfile : ∃ n, l.file = .file n) (hcond : Streamable options s drawn left event)
    (hsub : ∀ d ∈ drawn, d ∈ drawn')
    (hdrawn : ∀ d ∈ drawnAll l (translateRuntimeEventToCompat options s event now).2, d ∈ drawn') :
    Streaming (translateRuntimeEventToCompat options s event now).1 drawn' (left ++ leftBy s event)
      (told ++ (toldDelta s event).toList) (P ++ (translateRuntimeEventToCompat options s event now).2) := by
  have h := hbefore.mono hsub
  have hdelta (plan : String) (kind : DeltaKind) (delta : String) (hkind : deltaKind s event = some kind) :
      Streaming (Presentation.deltaText { s with proposedPlanText := plan } kind delta now).1 drawn' left (told ++ [(kind, delta)])
        (P ++ (Presentation.deltaText { s with proposedPlanText := plan } kind delta now).2) := by
    have hplan : Streaming { s with proposedPlanText := plan } drawn left told P :=
      hbefore.quiet_nil ⟨rfl, rfl, rfl, rfl, rfl, rfl, rfl⟩ rfl rfl
    have htarget : targetKey { s with proposedPlanText := plan } kind = targetKey s kind := by cases kind <;> rfl
    refine (hplan.deltaText kind delta now (fun hseen => ?_) ?_).mono hsub
    · rw [htarget] at hseen ⊢
      exact hcond.goesOn kind hkind hseen
    · cases kind with
      | text => exact .inl (hcond.ends (by cases event <;> first | rfl | cases hkind))
      | reasoning => exact (hcond.reasons hkind).imp_right fun hsplits => ⟨rfl, hsplits⟩
  have hnone (hleft : leftBy s event = []) (htold : toldDelta s event = none)
      (hrest : Streaming (translateRuntimeEventToCompat options s event now).1 drawn' left told
        (P ++ (translateRuntimeEventToCompat options s event now).2)) :
      Streaming (translateRuntimeEventToCompat options s event now).1 drawn' (left ++ leftBy s event)
        (told ++ (toldDelta s event).toList) (P ++ (translateRuntimeEventToCompat options s event now).2) := by
    rwa [hleft, htold, Option.toList_none, List.append_nil, List.append_nil]
  have hone {kind : DeltaKind} {delta : String} (hleft : leftBy s event = []) (htold : toldDelta s event = some (kind, delta))
      (hrest : Streaming (translateRuntimeEventToCompat options s event now).1 drawn' left (told ++ [(kind, delta)])
        (P ++ (translateRuntimeEventToCompat options s event now).2)) :
      Streaming (translateRuntimeEventToCompat options s event now).1 drawn' (left ++ leftBy s event)
        (told ++ (toldDelta s event).toList) (P ++ (translateRuntimeEventToCompat options s event now).2) := by
    rwa [hleft, htold, Option.toList_some, List.append_nil]
  have hfiles (slot : Slot) : Aside [fileAsk l s.assistantMsgId slot] := by
    intro a ha
    obtain rfl := List.mem_singleton.mp ha
    obtain ⟨n, hn⟩ := hfile
    dsimp only [fileAsk]
    rw [hn]
    exact ⟨nofun, nofun⟩
  cases event with
  | textDelta delta => exact hone rfl rfl (hdelta s.proposedPlanText .text delta rfl)
  | thinkingDelta delta => exact hone rfl rfl (hdelta s.proposedPlanText .reasoning delta rfl)
  | proposedPlanDelta delta => exact hone rfl rfl (hdelta (s.proposedPlanText ++ delta) .text delta rfl)
  | proposedPlanComplete planMarkdown =>
    by_cases hempty : planDelta s planMarkdown = ""
    · refine hnone rfl (if_pos hempty) ?_
      dsimp only [translateRuntimeEventToCompat]
      rw [if_pos hempty]
      exact h.quiet ⟨rfl, rfl, rfl, rfl, rfl, rfl, rfl⟩ rfl rfl nofun
    · refine hone rfl (if_neg hempty) ?_
      dsimp only [translateRuntimeEventToCompat]
      rw [if_neg hempty]
      exact hdelta planMarkdown .text _ (if_neg hempty)
  | toolStart | toolInput | toolStatus | toolContent | toolOutput | toolError | toolLocation | toolTerminal =>
    exact hnone rfl rfl (h.apart (draws_report l options s _ now rfl) (aside_reportAsks _ _) hdrawn)
  | stepStart newMessageId =>
    have hstep := h.stepStart (hcond.ends rfl) newMessageId
    rwa [← List.append_nil told] at hstep
  | responseStart r =>
    refine hnone rfl rfl (h.split.quiet ?_ rfl rfl nofun)
    exact ⟨rfl, rfl, rfl, rfl, rfl, rfl, rfl⟩
  | responseRetracted ids reason => exact hnone rfl rfl (h.retractResponses ids reason now hdrawn)
  | sessionStatus status =>
    refine hnone rfl rfl (h.beside fun p hp l => ?_)
    dsimp only [translateRuntimeEventToCompat] at hp
    split_ifs at hp
    · cases hp
    · exact List.mem_singleton.mp hp ▸ rfl
  | sessionCompaction started aborted error => exact hnone rfl rfl (h.compaction started aborted error now)
  | harnessNotice code message severity eventId =>
    refine hnone rfl rfl ?_
    dsimp only [translateRuntimeEventToCompat]
    unfold projectHarnessNotice
    extract_lets severity'
    split_ifs with hskip
    · exact h.beside fun p hp l => List.mem_singleton.mp hp ▸ rfl
    · exact h.appendNotice _ _ now eventId (hcond.durable (decide_eq_true (not_or.mp hskip).1))
  | agentMessage eventId sender message senderName senderTaskId sourceSessionId =>
    refine hnone rfl rfl ?_
    dsimp only [translateRuntimeEventToCompat]
    unfold projectAgentMessage
    split_ifs
    · exact (List.append_nil P).symm ▸ h
    · exact h.appendNotice _ _ now (some eventId) (hcond.durable rfl)
  | conversationReset trigger =>
    refine hnone rfl rfl ?_
    dsimp only [translateRuntimeEventToCompat]
    unfold projectAgentMessage
    split_ifs
    · exact (List.append_nil P).symm ▸ h
    · exact h.appendNotice _ _ now none nofun
  | imageDelta mimeType data => exact hnone rfl rfl (h.apart (draws_filePart .image _ now) (hfiles .image) hdrawn)
  | audioDelta mimeType data => exact hnone rfl rfl (h.apart (draws_filePart .audio _ now) (hfiles .audio) hdrawn)
  | resourceLinkDelta uri name mimeType =>
    exact hnone rfl rfl (h.apart (draws_filePart .resourceLink _ now) (hfiles .resourceLink) hdrawn)
  | plain type => exact hnone rfl rfl (h.plain type)
  | _ =>
    refine hnone rfl rfl (h.quiet ⟨rfl, rfl, rfl, rfl, rfl, rfl, rfl⟩ rfl rfl fun p hp l => ?_)
    exact List.mem_singleton.mp hp ▸ rfl

end

/-! ### A turn -/

section
variable {s : State} {drawn : List Drawn} {left : List String} {told : List (DeltaKind × String)} {P : List Payload}

/-- What comes before an event is translated leaves no reasoning open that the event ends. -/
theorem Streaming.prefaced (h : Streaming s drawn left told P) {event : RuntimeEvent} {now : ℕ} {retrying splits : Bool}
    {statuses : List Payload} (hprefaces : Prefaces s event now retrying splits statuses) :
    Streaming (preface s event now).1 drawn left told (P ++ (preface s event now).2) := by
  have hquiet : ∀ status ∈ statuses, ∀ l, drawnOf l status = [] := fun status hmem l => hprefaces.statuses status hmem ▸ rfl
  rw [hprefaces.state, hprefaces.events, ← List.append_assoc, hprefaces.splits]
  rcases REASONING_ENDS_ON event with _ | _
  · rw [Bool.false_and, Bool.or_false, if_neg Bool.false_ne_true, if_neg Bool.false_ne_true, List.append_nil]
    exact h.quiet ⟨rfl, rfl, rfl, rfl, rfl, rfl, rfl⟩ rfl rfl hquiet
  · rw [Bool.true_and, if_pos rfl, if_pos rfl]
    rcases hopen : s.openReasoning with _ | part
    · rw [Option.isSome_none, Bool.or_false, Option.map_none, Option.toList_none, List.append_nil]
      exact h.quiet ⟨rfl, rfl, rfl, rfl, rfl, hopen.symm, rfl⟩ rfl rfl hquiet
    · rw [Option.isSome_some, Bool.or_true, Option.map_some, Option.toList_some]
      exact ((h.beside hquiet).closed hopen now).quiet_nil ⟨rfl, rfl, rfl, rfl, rfl, rfl, rfl⟩ rfl rfl

theorem statusOf_run {options : Options} {now : ℕ} {projected : State × List Payload} {c : String}
    (h : (statusOf (run options now projected).1 c).isSome = true) : (statusOf projected.1 c).isSome = true := by
  have hannounced : (withAnnouncedAssistantMessage options now projected).1.toolStatusByCallId = projected.1.toolStatusByCallId := by
    unfold withAnnouncedAssistantMessage
    extract_lets ctx events announced
    split_ifs
    · rfl
    · split <;> rfl
  have hcapped : (statusOf (run options now projected).1 c) = Assoc.lookup c (boundKeyedMap
      (withAnnouncedAssistantMessage options now projected).1.toolStatusByCallId RETAINED_TOOL_CALLS_MAX) := by
    simp only [statusOf, run, boundRetainedState]
  rw [hcapped, hannounced] at h
  unfold Assoc.lookup at h
  rw [Option.isSome_map] at h
  obtain ⟨entry, hentry⟩ := Option.isSome_iff_exists.mp h
  obtain ⟨hmem, hkey⟩ := Table.mem_of_get hentry
  have hmem := List.mem_of_mem_drop hmem
  rw [statusOf, Assoc.lookup, Option.isSome_map, Option.isSome_iff_ne_none]
  exact fun hnone => Table.get_eq_none_iff.mp hnone entry hmem hkey

theorem statusOf_terminalize {options : Options} {error : String} {now : ℕ} {c : String}
    (h : (statusOf (terminalize options s error now).1 c).isSome = true) :
    (statusOf (terminalizeOpenTools (endReasoning s now).1 error now none).1 c).isSome = true := by
  have hrun : terminalize options s error now = run options now ((terminalizeOpenTools (endReasoning s now).1 error now none).1,
      (endReasoning s now).2 ++ (terminalizeOpenTools (endReasoning s now).1 error now none).2) := rfl
  rw [hrun] at h
  have hstatus := statusOf_run h
  exact hstatus

end

section
variable {options : Options} {r : Reading}

/-- The text of the turn is whole so far. -/
def Reading.Kept (r : Reading) : Prop := Streaming r.state r.gallery.drawn r.left r.told r.gallery.turn.published

theorem Reading.streamable {event : RuntimeEvent} (hcond : r.StreamsOn options event) {now : ℕ}
    {retrying splits : Bool} {statuses : List Payload} (hprefaces : Prefaces r.state event now retrying splits statuses) :
    Streamable options (preface r.state event now).1 r.gallery.drawn r.left event := by
  have hends (hkind : deltaKind r.state event = some .reasoning) : splits = r.state.splitReasoning := by
    rw [hprefaces.splits, deltaKind_ends hkind, Bool.false_and, Bool.or_false]
  rw [hprefaces.state]
  refine ⟨fun hends => if_pos hends, fun kind hkind hseen => ?_, fun hkind => ?_, hcond.durable⟩
  · rw [deltaKind_aside] at hkind
    have htarget : targetKey (aside r.state r.state.proposedPlanText { r.state.notices with retrying := retrying }
        (if REASONING_ENDS_ON event = true then none else r.state.openReasoning) splits) kind = targetKey r.state kind := by
      refine targetKey_aside _ _ _ _ _ ?_
      cases kind with
      | text => exact .inl rfl
      | reasoning => exact .inr (hends hkind)
    rw [htarget] at hseen ⊢
    obtain ⟨hfree, hleft⟩ := hcond.goesOn kind hkind hseen
    rw [Gallery.Unclaimed, text_proseAsk] at hfree
    exact ⟨hfree, hleft⟩
  · rw [deltaKind_aside] at hkind
    have hreasons := hcond.reasons hkind
    dsimp only [aside]
    rwa [deltaKind_ends hkind, if_neg Bool.false_ne_true, hends hkind]

theorem Reading.kept_ingest (h : r.Kept) (event : RuntimeEvent) (now : ℕ) (hcond : r.StreamsOn options event)
    (hids : KeepsIds options r.state (.ingest event now)) : (r.step options (.ingest event now)).Kept := by
  obtain ⟨retrying, splits, statuses, hprefaces⟩ := prefaces r.state event now
  have hsettles := settles_ingest options r.state event now
  obtain ⟨row, hrow, hnone⟩ := hsettles.events
  have hbefore := (Streaming.beside h hnone).prefaced hprefaces
  have hlabel : ∃ n, (r.gallery.labels (.ingest event now)).file = .file n := ⟨_, rfl⟩
  have hleft : leftBy (preface r.state event now).1 event = r.leaves (.ingest event now) := by
    have hmessage : (preface r.state event now).1.assistantMsgId = r.state.assistantMsgId := by rw [hprefaces.state]; rfl
    cases event <;> first | rfl | exact congrArg (fun m => [m]) hmessage
  have htold : toldDelta (preface r.state event now).1 event = toldDelta r.state event := by
    rw [hprefaces.state]
    cases event <;> rfl
  have hsub : ∀ d ∈ r.gallery.drawn, d ∈ r.gallery.drawn ++
      drawnAll (r.gallery.labels (.ingest event now)) (ingest options r.state event now).2 := fun d hd => List.mem_append_left _ hd
  have htranslated := hbefore.translate options event now hlabel (streamable hcond hprefaces) hsub fun d hd => by
    refine List.mem_append_right _ ?_
    rw [hrow, projectEvent_eq, drawnAll_append, drawnAll_append]
    exact List.mem_append_right _ (List.mem_append_right _ hd)
  have hpublished : row ++ ((preface r.state event now).2 ++
      (translateRuntimeEventToCompat options (preface r.state event now).1 event now).2) = (ingest options r.state event now).2 :=
    hrow.symm
  rw [hleft, htold, List.append_assoc, List.append_assoc, hpublished] at htranslated
  unfold Reading.Kept Reading.step Reading.state Gallery.step Turn.step call
  dsimp only
  refine Streaming.same htranslated hsettles.frame (hsettles.ids hids) fun c hc => ?_
  · have hrecorded : (recordResponseMembers (projectEvent options r.state event now).1 event
        (projectEvent options r.state event now).2).toolStatusByCallId =
            (projectEvent options r.state event now).1.toolStatusByCallId := by
      unfold recordResponseMembers
      split <;> rfl
    have hrun : (statusOf (recordResponseMembers (projectEvent options r.state event now).1 event
        (projectEvent options r.state event now).2) c).isSome = true := statusOf_run hc
    rwa [statusOf, hrecorded] at hrun

theorem Reading.kept_terminalize (h : r.Kept) (error : String) (now : ℕ)
    (hids : KeepsIds options r.state (.terminalizeOpenTools error now)) : (r.step options (.terminalizeOpenTools error now)).Kept := by
  have hsettles := settles_terminalize options r.state error now
  obtain ⟨row, hrow, hnone⟩ := hsettles.events
  have hbefore : Streaming (endReasoning r.state now).1 r.gallery.drawn r.left r.told
      (r.gallery.turn.published ++ row ++ (r.state.openReasoning.map (closing now)).toList) := by
    rw [endReasoning_state]
    rcases hopen : r.state.openReasoning with _ | part
    · rw [Option.map_none, Option.toList_none, List.append_nil, Option.isSome_none, Bool.or_false]
      exact (Streaming.beside h hnone).quiet_nil ⟨rfl, rfl, rfl, rfl, rfl, hopen.symm, rfl⟩ rfl rfl
    · rw [Option.map_some, Option.toList_some, Option.isSome_some, Bool.or_true]
      exact ((Streaming.beside h hnone).closed hopen now).quiet_nil ⟨rfl, rfl, rfl, rfl, rfl, rfl, rfl⟩ rfl rfl
  have hsub : ∀ d ∈ r.gallery.drawn, d ∈ r.gallery.drawn ++ drawnAll (r.gallery.labels (.terminalizeOpenTools error now))
      (terminalize options r.state error now).2 := fun d hd => List.mem_append_left _ hd
  have hswept := (hbefore.mono hsub).sweep (draws_terminalizeOpenTools (r.gallery.labels (.terminalizeOpenTools error now))
    (endReasoning r.state now).1 error now none) fun d hd => by
      refine List.mem_append_right _ ?_
      rw [hrow, drawnAll_append, drawnAll_append]
      exact List.mem_append_right _ (List.mem_append_right _ hd)
  have hpublished : row ++ ((r.state.openReasoning.map (closing now)).toList ++
      (terminalizeOpenTools (endReasoning r.state now).1 error now none).2) = (terminalize options r.state error now).2 := hrow.symm
  rw [List.append_assoc, List.append_assoc, hpublished] at hswept
  unfold Reading.Kept Reading.step Reading.state Gallery.step Turn.step call Reading.tells Reading.leaves
  dsimp only
  rw [List.append_nil, List.append_nil]
  exact Streaming.same hswept hsettles.frame (hsettles.ids hids) fun c hc => statusOf_terminalize hc

theorem Reading.kept_start (options : Options) : (Reading.start options).Kept := streaming_start options

theorem Reading.kept_step (h : r.Kept) (cl : Call) (hcond : r.StreamsApart options cl) (hids : KeepsIds options r.state cl) :
    (r.step options cl).Kept := by
  cases cl with
  | ingest event now => exact kept_ingest h event now hcond hids
  | thrown =>
    have hbeside := Streaming.beside h (Q := [.diagnostic "projection.client_presentation.error"])
      fun p hp l => List.mem_singleton.mp hp ▸ rfl
    unfold Reading.Kept Reading.step Reading.tells Reading.leaves
    rw [List.append_nil, List.append_nil]
    exact hbeside.mono fun d hd => List.mem_append_left _ hd
  | terminalizeOpenTools error now => exact kept_terminalize h error now hids

theorem Reading.concluded (r : Reading) {cl : Call} (h : cl.concludes = true) : (r.step options cl).state.openReasoning = none := by
  cases cl with
  | ingest event now =>
    obtain ⟨retrying, splits, statuses, hprefaces⟩ := prefaces r.state event now
    have hprojected : (ingest options r.state event now).1.openReasoning = (projectEvent options r.state event now).1.openReasoning :=
      (settles_ingest options r.state event now).frame.reasoning
    have hopen (hends : REASONING_ENDS_ON event = true) : (preface r.state event now).1.openReasoning = none := by
      rw [hprefaces.state]
      exact if_pos hends
    refine hprojected.trans ?_
    cases event with
    | finish => exact hopen rfl
    | cancelled => exact hopen rfl
    | error => exact hopen rfl
    | _ => cases h
  | thrown => cases h
  | terminalizeOpenTools error now =>
    have hsettled : (terminalize options r.state error now).1.openReasoning =
        (terminalizeOpenTools (endReasoning r.state now).1 error now none).1.openReasoning :=
      (settles_terminalize options r.state error now).frame.reasoning
    refine hsettled.trans ?_
    rw [(draws_terminalizeOpenTools ⟨.file 0, .notice 0, .text⟩ (endReasoning r.state now).1 error now none).frame.reasoning,
      endReasoning_state]
    rfl

theorem Streaming.whole {s : State} {drawn : List Drawn} {left : List String} {told : List (DeltaKind × String)}
    {P : List Payload} (h : Streaming s drawn left told P) (hopen : s.openReasoning = none) : StreamsWhole told P where
  delivered := h.delivered
  once := h.once
  onTop := h.onTop
  closed := fun ref href => (h.ended ref href).resolve_left fun ⟨part, hpart, _⟩ => by
    rw [hopen] at hpart
    cases hpart
  silent := h.silent

end

/-- In a turn that forgets no part id and whose deltas find a part of their own, once it is over streamed text is whole and
every reasoning part was ended once. -/
theorem streamsWhole_readingOf (options : Options) (calls : List Call) (last : Call) (hlast : last.concludes = true)
    (h : Meets (Reading.step options) (fun r cl => KeepsIds options r.state cl ∧ r.StreamsApart options cl)
      (Reading.start options) (calls ++ [last])) :
    StreamsWhole (readingOf options (calls ++ [last])).told (readingOf options (calls ++ [last])).gallery.turn.published := by
  have hkept : (readingOf options (calls ++ [last])).Kept :=
    invariant_of_meets Reading.Kept (fun _ cl hkept hcond => Reading.kept_step hkept cl hcond.2 hcond.1) (Reading.kept_start options) h
  refine hkept.whole ?_
  rw [readingOf, run_snoc]
  exact Reading.concluded _ hlast

instance (g : Gallery) (key : PartKey) : Decidable (g.Unclaimed key) :=
  inferInstanceAs (Decidable (∀ d ∈ g.drawn, d.content ≠ .call key.text))

/-- Reasoning in two deltas. -/
def reasoned : List Call := [.ingest (.thinkingDelta "The test fails") 100, .ingest (.thinkingDelta " on an empty list.") 101]

theorem streamsOn_finish {options : Options} {r : Reading} : r.StreamsOn options .finish := ⟨nofun, nofun, nofun⟩

theorem whole_reasoned :
    StreamsWhole (readingOf (.beside "session-1" "msg_turn_1_r") (reasoned ++ [.ingest .finish 102])).told
      (readingOf (.beside "session-1" "msg_turn_1_r") (reasoned ++ [.ingest .finish 102])).gallery.turn.published :=
  streamsWhole_readingOf (.beside "session-1" "msg_turn_1_r") reasoned (.ingest .finish 102) rfl
    ⟨⟨by decide +kernel, fun kind hkind hseen => absurd hseen (by cases kind <;> decide +kernel), fun _ => .inl rfl, nofun⟩,
      ⟨by decide +kernel, fun kind hkind _ => by
        obtain rfl := Option.some.inj hkind
        exact ⟨by decide +kernel, by decide +kernel⟩, fun _ => .inr (by decide +kernel), nofun⟩,
      ⟨by decide +kernel, streamsOn_finish⟩, trivial⟩

/-- A notice of the harness between the two. -/
def interrupted : List Call :=
  [.ingest (.thinkingDelta "The test fails") 100, .ingest (.harnessNotice "rate_limit" "Waiting for capacity" none none) 101,
   .ingest (.thinkingDelta " on an empty list.") 102]

theorem interrupted_reasoning_stays_open : ¬ ∀ (options : Options) (calls : List Call) (last : Call), last.concludes = true →
    Meets (Reading.step options) (fun r cl => KeepsIds options r.state cl) (Reading.start options) (calls ++ [last]) →
      StreamsWhole (readingOf options (calls ++ [last])).told (readingOf options (calls ++ [last])).gallery.turn.published := by
  intro h
  have hwhole := h (.beside "session-1" "msg_turn_1_r") interrupted (.ingest .finish 103) rfl (by decide +kernel)
  have hclosed := hwhole.closed ⟨"msg_turn_1_r", "000000_msg_turn_1_r-reasoning"⟩
    (show (_, _) ∈ List.filterMap openedPart _ by decide +kernel)
  exact absurd hclosed (by decide +kernel)

end Claxedo.Presentation
