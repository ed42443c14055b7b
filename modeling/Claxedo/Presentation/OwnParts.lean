import Claxedo.Presentation.Draws

/-! Different content is never under one part, and a part under one message, in every turn whose events keep their keys
apart. -/

namespace Claxedo.Presentation

open Claxedo.Lib

/-! ### The catalogue -/

/-- The key is one of this content's. -/
def PartKey.Names : PartKey → Content → String → Prop
  | .call c, content, _ => content = .call c
  | .attachment c i, content, _ => content = .attachment c i
  | .prose m kind _, content, messageID => content = .prose kind ∧ messageID = m
  | .file .., content, _ => ∃ nth, content = .file nth
  | .notice .., content, _ => ∃ nth, content = .notice nth

/-- A notice about a durable event; its id is no numbered one. -/
structure Durable (sessionId : String) (d : Drawn) (eventId : String) : Prop where
  content : d.content = .event eventId
  partID : d.partID = eventNoticePartId sessionId eventId
  unnumbered : ∀ n name, d.partID ≠ numberedId n name

/-- What was drawn, each under a key of its own. -/
structure Catalogued (sessionId : String) (ids : List (String × String)) (drawn : List Drawn) : Prop where
  sound : SoundIds ids
  keyed : ∀ d ∈ drawn, (∃ eventId, Durable sessionId d eventId) ∨
    ∃ k : PartKey, k.Names d.content d.messageID ∧ Assoc.lookup k.text ids = some d.partID
  apart : PartsApart drawn

/-- What is asked for has a key of its own, or goes on with what was drawn under it. -/
structure Ask.Fits (ids : List (String × String)) (drawn : List Drawn) (a : Ask) : Prop where
  names : a.key.Names a.content a.messageID
  same : ∀ d ∈ drawn, Assoc.lookup a.key.text ids = some d.partID → d.content = a.content ∧ d.messageID = a.messageID

/-- Two asks of one key are for the same. -/
def Agree (asks : List Ask) : Prop :=
  ∀ a ∈ asks, ∀ a' ∈ asks, a.key.text = a'.key.text → a.content = a'.content ∧ a.messageID = a'.messageID

section
variable {sessionId : String} {ids ids' : List (String × String)} {drawn new : List Drawn} {asks : List Ask}

theorem catalogued_start (sessionId : String) : Catalogued sessionId [] [] := by
  refine ⟨⟨List.nodup_nil, ?_⟩, nofun, nofun⟩
  intro i entry h
  cases h

theorem eventNoticePartId_inj {e e' : String} (h : eventNoticePartId sessionId e = eventNoticePartId sessionId e') : e = e' := by
  have hlists := congrArg String.toList h
  simp only [eventNoticePartId, String.toList_append] at hlists
  exact String.toList_injective (List.append_cancel_left hlists)

theorem Catalogued.mono (h : Catalogued sessionId ids drawn) (hgrows : Grows ids ids') : Catalogued sessionId ids' drawn := by
  refine ⟨hgrows.sound h.sound, fun d hd => (h.keyed d hd).imp_right ?_, h.apart⟩
  rintro ⟨k, hnames, hkey⟩
  exact ⟨k, hnames, hgrows.lookup hkey⟩

theorem PartsApart.append (h : PartsApart drawn) (hnew : PartsApart new)
    (hcross : ∀ d ∈ drawn, ∀ d' ∈ new, d.partID = d'.partID → d.content = d'.content ∧ d.messageID = d'.messageID) :
    PartsApart (drawn ++ new) := by
  intro d hd d' hd' hid
  rcases List.mem_append.mp hd with hd | hd <;> rcases List.mem_append.mp hd' with hd' | hd'
  · exact h d hd d' hd' hid
  · exact hcross d hd d' hd' hid
  · obtain ⟨hcontent, hmessage⟩ := hcross d' hd' d hd hid.symm
    exact ⟨hcontent.symm, hmessage.symm⟩
  · exact hnew d hd d' hd' hid

/-- What is asked for under fitting keys is drawn apart. -/
theorem Catalogued.asked (h : Catalogued sessionId ids drawn) (hgrows : Grows ids ids')
    (hfits : ∀ a ∈ asks, a.Fits ids drawn) (hagree : Agree asks)
    (hnew : ∀ d ∈ new, d ∈ drawn ∨ ∃ a ∈ asks, a.Fills ids' d) : Catalogued sessionId ids' (drawn ++ new) := by
  have hsound := hgrows.sound h.sound
  have hcross : ∀ d ∈ drawn, ∀ d' ∈ new, d.partID = d'.partID → d.content = d'.content ∧ d.messageID = d'.messageID := by
    intro d hd d' hd' hid
    rcases hnew d' hd' with hold | ⟨a, ha, hfills⟩
    · exact h.apart d hd d' hold hid
    · rw [hfills.content, hfills.messageID]
      rcases h.keyed d hd with ⟨eventId, hdurable⟩ | ⟨k, -, hkey⟩
      · obtain ⟨n, name, hnumbered⟩ := hsound.numbered_lookup hfills.partID
        exact absurd (hid.trans hnumbered) (hdurable.unnumbered n name)
      · have htext : k.text = a.key.text := hsound.key_unique (hgrows.lookup hkey) (hid ▸ hfills.partID)
        exact (hfits a ha).same d hd (htext ▸ hkey)
  refine ⟨hsound, fun d hd => ?_, h.apart.append (fun d hd d' hd' hid => ?_) hcross⟩
  · rcases List.mem_append.mp hd with hd | hd
    · exact (h.mono hgrows).keyed d hd
    · rcases hnew d hd with hold | ⟨a, ha, hfills⟩
      · exact (h.mono hgrows).keyed d hold
      · refine .inr ⟨a.key, ?_, hfills.partID⟩
        rw [hfills.content, hfills.messageID]
        exact (hfits a ha).names
  · rcases hnew d hd with hold | ⟨a, ha, hfills⟩
    · exact hcross d hold d' hd' hid
    · rcases hnew d' hd' with hold' | ⟨a', ha', hfills'⟩
      · obtain ⟨hcontent, hmessage⟩ := hcross d' hold' d hd hid.symm
        exact ⟨hcontent.symm, hmessage.symm⟩
      · rw [hfills.content, hfills.messageID, hfills'.content, hfills'.messageID]
        exact hagree a ha a' ha' (hsound.key_unique hfills.partID (hid ▸ hfills'.partID))

/-- A notice about a durable event is drawn apart where the same event was drawn under the same message. -/
theorem Catalogued.durable (h : Catalogued sessionId ids drawn) {d : Drawn} {eventId : String}
    (hdurable : Durable sessionId d eventId) (hmessage : ∀ d' ∈ drawn, d'.content = .event eventId → d'.messageID = d.messageID) :
    Catalogued sessionId ids (drawn ++ [d]) := by
  refine ⟨h.sound, fun d' hd' => ?_, h.apart.append ?_ ?_⟩
  · rcases List.mem_append.mp hd' with hd' | hd'
    · exact h.keyed d' hd'
    · exact .inl ⟨eventId, List.mem_singleton.mp hd' ▸ hdurable⟩
  · intro a ha b hb _
    rw [List.mem_singleton.mp ha, List.mem_singleton.mp hb]
    exact ⟨rfl, rfl⟩
  · intro a ha b hb hid
    obtain rfl := List.mem_singleton.mp hb
    rcases h.keyed a ha with ⟨eventId', hdurable'⟩ | ⟨k, -, hkey⟩
    · obtain rfl := eventNoticePartId_inj (hdurable'.partID.symm.trans (hid.trans hdurable.partID))
      exact ⟨hdurable'.content.trans hdurable.content.symm, hmessage a ha hdurable'.content⟩
    · obtain ⟨n, name, hnumbered⟩ := h.sound.numbered_lookup hkey
      exact absurd (hid.symm.trans hnumbered) (hdurable.unnumbered n name)

end

/-! ### Keys that fit -/

section
variable {sessionId : String} {g : Gallery} {c : String} {n : ℕ}

theorem PartKey.Names.of_call {k : PartKey} {m : String} (h : k.Names (.call c) m) : k = .call c := by
  cases k with
  | call c' => exact congrArg PartKey.call (Content.call.inj h).symm
  | attachment => cases h
  | prose => cases h.1
  | file =>
    obtain ⟨nth, h⟩ := h
    cases h
  | notice =>
    obtain ⟨nth, h⟩ := h
    cases h

theorem fits_call (h : Catalogued sessionId g.turn.state.partIdMap g.drawn) (hcall : g.DrawsCall c n) :
    (callAsk g.messageID c).Fits g.turn.state.partIdMap g.drawn := by
  refine ⟨rfl, fun d hd hkey => ?_⟩
  by_cases hdrawn : ∀ d ∈ g.drawn, d.content ≠ .call c
  · have hseen := hcall.fresh hdrawn
    rw [seen, show Assoc.lookup c g.turn.state.partIdMap = some d.partID from hkey] at hseen
    cases hseen
  · simp only [not_forall, not_not] at hdrawn
    obtain ⟨d', hd', hcontent⟩ := hdrawn
    have hid : d.partID = d'.partID := by
      rcases h.keyed d' hd' with ⟨eventId, hdurable⟩ | ⟨k, hnames, hkey'⟩
      · rw [hdurable.content] at hcontent
        cases hcontent
      · rw [hcontent] at hnames
        rw [hnames.of_call] at hkey'
        exact Option.some.inj (hkey.symm.trans hkey')
    have hc : d.content = .call c := (h.apart d hd d' hd' hid).1.trans hcontent
    exact ⟨hc, hcall.message d hd (by rw [hc]; rfl)⟩

/-- A key of the turn's own that no call claims was minted for what it names. -/
theorem Catalogued.named (h : Catalogued sessionId g.turn.state.partIdMap g.drawn) {key : PartKey} (hown : key.isCall = false)
    (hunclaimed : g.Unclaimed key) {d : Drawn} (hd : d ∈ g.drawn)
    (hkey : Assoc.lookup key.text g.turn.state.partIdMap = some d.partID) : key.Names d.content d.messageID := by
  rcases h.keyed d hd with ⟨eventId, hdurable⟩ | ⟨k, hnames, hkey'⟩
  · obtain ⟨m, name, hnumbered⟩ := h.sound.numbered_lookup hkey
    exact absurd hnumbered (hdurable.unnumbered m name)
  · have htext := h.sound.key_unique hkey' hkey
    rcases hcall : k.isCall with _ | _
    · exact PartKey.text_inj hcall hown htext ▸ hnames
    · cases k with
      | call c' => exact absurd (hnames.trans (congrArg Content.call htext)) (hunclaimed d hd)
      | _ => cases hcall

theorem fits_attachment (h : Catalogued sessionId g.turn.state.partIdMap g.drawn) (hcall : g.DrawsCall c n) {i : ℕ} (hi : i < n) :
    (attachmentAsk g.messageID c i).Fits g.turn.state.partIdMap g.drawn := by
  refine ⟨rfl, fun d hd hkey => ?_⟩
  have hc : d.content = .attachment c i := h.named rfl (hcall.attachments i hi) hd hkey
  exact ⟨hc, hcall.message d hd (by rw [hc]; rfl)⟩

theorem fits_callAsks (h : Catalogued sessionId g.turn.state.partIdMap g.drawn) (hcall : g.DrawsCall c n) :
    ∀ a ∈ callAsks g.messageID c n, a.Fits g.turn.state.partIdMap g.drawn := by
  intro a ha
  rcases List.mem_cons.mp ha with rfl | ha
  · exact fits_call h hcall
  · obtain ⟨i, hi, rfl⟩ := List.mem_map.mp ha
    exact fits_attachment h hcall (List.mem_range.mp hi)

theorem attachment_text_ne (c : String) (i : ℕ) : (PartKey.attachment c i).text ≠ c := by
  intro h
  have hlength := congrArg String.length h
  simp only [PartKey.text, String.length_append] at hlength
  have hword : "-attachment-".length = 12 := rfl
  omega

theorem agree_callAsks (m c : String) (n : ℕ) : Agree (callAsks m c n) := by
  intro a ha a' ha' htext
  rcases List.mem_cons.mp ha with rfl | ha <;> rcases List.mem_cons.mp ha' with rfl | ha'
  · exact ⟨rfl, rfl⟩
  · obtain ⟨i, -, rfl⟩ := List.mem_map.mp ha'
    exact absurd htext.symm (attachment_text_ne c i)
  · obtain ⟨i, -, rfl⟩ := List.mem_map.mp ha
    exact absurd htext (attachment_text_ne c i)
  · obtain ⟨i, -, rfl⟩ := List.mem_map.mp ha
    obtain ⟨j, -, rfl⟩ := List.mem_map.mp ha'
    have hij : PartKey.attachment c i = .attachment c j := PartKey.text_inj rfl rfl htext
    obtain rfl := (PartKey.attachment.inj hij).2
    exact ⟨rfl, rfl⟩

theorem agree_sweep (m : String) (cs : List String) : Agree (cs.map (callAsk m)) := by
  intro a ha a' ha' htext
  obtain ⟨c, -, rfl⟩ := List.mem_map.mp ha
  obtain ⟨c', -, rfl⟩ := List.mem_map.mp ha'
  have hc : c = c' := htext
  rw [hc]
  exact ⟨rfl, rfl⟩

theorem fits_sweep (h : Catalogued sessionId g.turn.state.partIdMap g.drawn) {cs : List String}
    (hcalls : ∀ c ∈ cs, g.DrawsCall c 0) : ∀ a ∈ cs.map (callAsk g.messageID), a.Fits g.turn.state.partIdMap g.drawn := by
  intro a ha
  obtain ⟨c, hc, rfl⟩ := List.mem_map.mp ha
  exact fits_call h (hcalls c hc)

theorem agree_single (a : Ask) : Agree [a] := by
  intro b hb b' hb' _
  rw [List.mem_singleton.mp hb, List.mem_singleton.mp hb']
  exact ⟨rfl, rfl⟩

theorem fits_unseen {a : Ask} (hnames : a.key.Names a.content a.messageID) (hseen : seen g.turn.state a.key.text = false) :
    ∀ b ∈ [a], b.Fits g.turn.state.partIdMap g.drawn := by
  intro b hb
  obtain rfl := List.mem_singleton.mp hb
  refine ⟨hnames, fun d _ hkey => ?_⟩
  rw [seen, hkey] at hseen
  cases hseen

theorem fits_prose (h : Catalogued sessionId g.turn.state.partIdMap g.drawn) {kind : DeltaKind}
    (hunclaimed : g.Unclaimed (.prose g.messageID kind (partSeq (splitPart g.turn.state kind) kind))) :
    ∀ a ∈ [proseAsk g.turn.state kind], a.Fits g.turn.state.partIdMap g.drawn := by
  intro a ha
  obtain rfl := List.mem_singleton.mp ha
  exact ⟨⟨rfl, rfl⟩, fun d hd hkey => h.named rfl hunclaimed hd hkey⟩

end

/-! ### A call of the projection -/

/-- What was drawn is catalogued, with the reasoning that is open and the compaction that runs. -/
structure Holds (sessionId : String) (s : State) (compaction : Option ℕ) (drawn : List Drawn) : Prop where
  catalogued : Catalogued sessionId s.partIdMap drawn
  reasoning : ∀ part, s.openReasoning = some part → ⟨.prose .reasoning, part.partId, part.messageId⟩ ∈ drawn
  running : ∀ id, s.notices.runningCompactionPartId = some id →
    ∃ k m, compaction = some k ∧ (⟨.notice k, id, m⟩ : Drawn) ∈ drawn

section
variable {sessionId : String} {s ctx : State} {compaction : Option ℕ} {drawn before : List Drawn} {l : Labels} {asks : List Ask}
  {answered : State × List Payload}

/-- What an event is translated in: the state it came on, but for what the preface changes. -/
structure Entered (s ctx : State) : Prop where
  ids : ctx.partIdMap = s.partIdMap
  reasoning : ∀ part, ctx.openReasoning = some part → s.openReasoning = some part
  running : ctx.notices.runningCompactionPartId = s.notices.runningCompactionPartId

theorem Entered.split (h : Entered s ctx) : Entered s (split ctx) := ⟨h.ids, h.reasoning, h.running⟩

theorem Holds.draws (h : Holds sessionId s compaction drawn) (hentered : Entered s ctx) (hdraws : Draws l asks ctx answered)
    (hfits : ∀ a ∈ asks, a.Fits s.partIdMap drawn) (hagree : Agree asks) (hbefore : ∀ d ∈ before, d ∈ drawn) :
    Holds sessionId answered.1 compaction (drawn ++ (before ++ drawnAll l answered.2)) := by
  refine ⟨h.catalogued.asked (hentered.ids ▸ hdraws.grows) hfits hagree fun d hd => ?_, fun part hpart => ?_, fun id hid => ?_⟩
  · rcases List.mem_append.mp hd with hd | hd
    · exact .inl (hbefore d hd)
    · exact .inr (hdraws.drawn d hd)
  · rw [hdraws.frame.reasoning] at hpart
    exact List.mem_append_left _ (h.reasoning part (hentered.reasoning part hpart))
  · rw [hdraws.frame.running, hentered.running] at hid
    obtain ⟨k, m, hk, hmem⟩ := h.running id hid
    exact ⟨k, m, hk, List.mem_append_left _ hmem⟩

/-- Nothing but what is drawn already, in a state as before. -/
theorem Holds.same (h : Holds sessionId s compaction drawn) (hentered : Entered s ctx) (hbefore : ∀ d ∈ before, d ∈ drawn) :
    Holds sessionId ctx compaction (drawn ++ before) := by
  have hdraws : Draws ⟨.file 0, .notice 0, .text⟩ [] ctx (ctx, []) := draws_nothing (.refl _) rfl rfl rfl
  have := h.draws hentered hdraws nofun nofun hbefore
  rwa [show drawnAll ⟨.file 0, .notice 0, .text⟩ (ctx, ([] : List Payload)).2 = [] from rfl, List.append_nil] at this

theorem drawn_brings {kind : DeltaKind} {delta : String} {now : ℕ} (hbrings : Brings ctx kind delta now answered)
    (hkind : l.delta = kind) : (⟨.prose kind, targetId ctx kind, ctx.assistantMsgId⟩ : Drawn) ∈ drawnAll l answered.2 ∧
    ∀ d ∈ drawnAll l answered.2, d = ⟨.prose kind, targetId ctx kind, ctx.assistantMsgId⟩ := by
  rw [hbrings.events, drawnAll_append]
  have hdelta : drawnAll l [.partDelta ctx.assistantMsgId (targetId ctx kind) delta] =
      [⟨.prose kind, targetId ctx kind, ctx.assistantMsgId⟩] := by
    rw [← hkind]
    rfl
  have hopened : ∀ d ∈ drawnAll l (if seen ctx (targetKey ctx kind) then [] else
      [.partUpdated (emptyPart ctx kind (targetId ctx kind) now) now]),
      d = ⟨.prose kind, targetId ctx kind, ctx.assistantMsgId⟩ := by
    intro d hd
    split_ifs at hd
    · cases hd
    · cases kind <;> exact List.mem_singleton.mp hd
  rw [hdelta]
  refine ⟨List.mem_append_right _ (List.mem_singleton_self _), fun d hd => ?_⟩
  rcases List.mem_append.mp hd with hd | hd
  · exact hopened d hd
  · exact List.mem_singleton.mp hd

theorem Holds.brings {kind : DeltaKind} {delta : String} {now : ℕ} (h : Holds sessionId s compaction drawn)
    (hentered : Entered s ctx) (hbrings : Brings ctx kind delta now answered) (hkind : l.delta = kind)
    (hfits : ∀ a ∈ [proseAsk ctx kind], a.Fits s.partIdMap drawn) (hbefore : ∀ d ∈ before, d ∈ drawn) :
    Holds sessionId answered.1 compaction (drawn ++ (before ++ drawnAll l answered.2)) := by
  obtain ⟨hdelta, hall⟩ := drawn_brings hbrings hkind
  refine ⟨h.catalogued.asked (hentered.ids ▸ hbrings.grows) hfits (agree_single _) fun d hd => ?_, fun part hpart => ?_,
    fun id hid => ?_⟩
  · rcases List.mem_append.mp hd with hd | hd
    · exact .inl (hbefore d hd)
    · rw [hall d hd]
      exact .inr ⟨_, List.mem_singleton_self _, rfl, rfl, text_proseAsk ctx kind ▸ hbrings.key⟩
  · rw [hbrings.reasoning] at hpart
    cases kind with
    | text => exact List.mem_append_left _ (h.reasoning part (hentered.reasoning part hpart))
    | reasoning =>
      have hnew : (⟨.prose .reasoning, targetId ctx .reasoning, ctx.assistantMsgId⟩ : Drawn) ∈
          drawn ++ (before ++ drawnAll l answered.2) := List.mem_append_right _ (List.mem_append_right _ hdelta)
      obtain rfl := Option.some.inj hpart
      unfold stream
      split
      · rename_i part hopen
        split_ifs
        · exact List.mem_append_left _ (h.reasoning part (hentered.reasoning part hopen))
        · exact hnew
      · exact hnew
  · rw [hbrings.running, hentered.running] at hid
    obtain ⟨k, m, hk, hmem⟩ := h.running id hid
    exact ⟨k, m, hk, List.mem_append_left _ hmem⟩

end

section
variable {options : Options} {g : Gallery} {ctx : State} {l : Labels} {before : List Drawn} {event : RuntimeEvent}
  {answered : State × List Payload}

/-- The gallery is catalogued. -/
def Gallery.Kept (options : Options) (g : Gallery) : Prop := Holds options.sessionId g.turn.state g.compaction g.drawn

/-- What is published besides what was drawn already leaves the gallery catalogued. -/
theorem kept_quiet (h : g.Kept options) (hentered : Entered g.turn.state answered.1) (hbefore : ∀ d ∈ before, d ∈ g.drawn)
    (hdrawn : drawnAll l answered.2 = []) :
    Holds options.sessionId answered.1 g.compaction (g.drawn ++ (before ++ drawnAll l answered.2)) := by
  rw [hdrawn, List.append_nil]
  exact h.same hentered hbefore

theorem kept_report (h : g.Kept options) (hentered : Entered g.turn.state ctx) (hcond : g.DrawsEvent options event)
    (hbefore : ∀ d ∈ before, d ∈ g.drawn) (hdraws : Draws l (reportAsks g.turn.state event) ctx answered) :
    Holds options.sessionId answered.1 g.compaction (g.drawn ++ (before ++ drawnAll l answered.2)) := by
  unfold reportAsks at hdraws
  rcases hcall : reportedCall g.turn.state event with _ | c <;> rw [hcall] at hdraws
  · exact h.draws hentered hdraws nofun nofun hbefore
  · exact h.draws hentered hdraws (fits_callAsks h.catalogued (hcond.call c hcall)) (agree_callAsks _ _ _) hbefore

section
variable (h : g.Kept options) (hentered : Entered g.turn.state ctx) (hmessage : ctx.assistantMsgId = g.messageID)
  (hcount : ctx.notices.noticeCount = g.turn.state.notices.noticeCount)
include h hentered hmessage hcount

theorem kept_numbered (hseen : seen g.turn.state g.numbered.text = false) {nth : ℕ} (hlabel : l.notice = .notice nth)
    (hbefore : ∀ d ∈ before, d ∈ g.drawn) (notice : TranscriptNotice) (now : ℕ) :
    Holds options.sessionId (publish [] (noticePart (nextNoticePartId ctx).1 (nextNoticePartId ctx).2 notice now)).1 g.compaction
      (g.drawn ++ (before ++ drawnAll l (publish [] (noticePart (nextNoticePartId ctx).1 (nextNoticePartId ctx).2 notice now)).2)) := by
  have hdraws := @draws_numbered ctx l notice now
  rw [hmessage, hcount] at hdraws
  exact h.draws hentered.split hdraws (fits_unseen ⟨nth, hlabel⟩ hseen) (agree_single _) hbefore

theorem kept_notice (hcond : g.DrawsEvent options event) (hnonempty : g.messageID ≠ "") (happends : appendsNotice event = true) {nth : ℕ}
    (hlabel : l.notice = (noticeEvent event).elim (.notice nth) .event) {eventId : Option String}
    (hevent : eventId.bind nonEmpty = noticeEvent event) (hbefore : ∀ d ∈ before, d ∈ g.drawn) (notice : TranscriptNotice) (now : ℕ) :
    Holds options.sessionId (publish [] (appendNotice options.sessionId ctx notice now eventId)).1 g.compaction
      (g.drawn ++ (before ++ drawnAll l (publish [] (appendNotice options.sessionId ctx notice now eventId)).2)) := by
  unfold appendNotice
  rw [noticePartId_eq, hevent]
  rcases hnotice : noticeEvent event with _ | e <;> rw [hnotice] at hlabel
  · exact kept_numbered h hentered hmessage hcount (hcond.notice hnonempty happends hnotice) hlabel hbefore notice now
  · obtain ⟨hsame, hunnumbered⟩ := hcond.durable hnonempty happends e hnotice
    have hkept := h.same hentered.split hbefore
    have hdrawn : drawnAll l (publish [] (noticePart ctx (eventNoticePartId options.sessionId e) notice now)).2 =
        [durable l options.sessionId ctx.assistantMsgId e] := rfl
    dsimp only
    rw [hdrawn, ← List.append_assoc]
    refine ⟨hkept.catalogued.durable ⟨hlabel, rfl, hunnumbered⟩ fun d hd hcontent => ?_, fun part hpart => ?_, fun id hid => ?_⟩
    · have hmem : d ∈ g.drawn := by
        rcases List.mem_append.mp hd with hd | hd
        · exact hd
        · exact hbefore d hd
      exact (hsame d hmem hcontent).trans hmessage.symm
    · exact List.mem_append_left _ (hkept.reasoning part hpart)
    · obtain ⟨k, m, hk, hmem⟩ := hkept.running id hid
      exact ⟨k, m, hk, List.mem_append_left _ hmem⟩

theorem kept_agentMessage (hcond : g.DrawsEvent options event) (happends : appendsNotice event = true) {nth : ℕ}
    (hlabel : l.notice = (noticeEvent event).elim (.notice nth) .event) {eventId : Option String}
    (hevent : eventId.bind nonEmpty = noticeEvent event) (hbefore : ∀ d ∈ before, d ∈ g.drawn) (notice : TranscriptNotice) (now : ℕ) :
    Holds options.sessionId (projectAgentMessage options.sessionId ctx notice eventId now).1 g.compaction
      (g.drawn ++ (before ++ drawnAll l (projectAgentMessage options.sessionId ctx notice eventId now).2)) := by
  unfold projectAgentMessage
  split_ifs with hempty
  · exact kept_quiet h hentered hbefore rfl
  · exact kept_notice h hentered hmessage hcount hcond (hmessage ▸ hempty) happends hlabel hevent hbefore notice now

theorem kept_harnessNotice (code message : String) (severity : Option NoticeSeverity)
    (eventId : Option String) (hcond : g.DrawsEvent options (.harnessNotice code message severity eventId))
    (hbefore : ∀ d ∈ before, d ∈ g.drawn) (now : ℕ) :
    Holds options.sessionId (projectHarnessNotice options.sessionId ctx code message severity eventId now).1 g.compaction
      (g.drawn ++ (before ++ drawnAll (g.labels (.ingest (.harnessNotice code message severity eventId) now))
        (projectHarnessNotice options.sessionId ctx code message severity eventId now).2)) := by
  unfold projectHarnessNotice
  extract_lets severity'
  split_ifs with hskip
  · exact kept_quiet h hentered hbefore rfl
  · obtain ⟨hdebug, hempty⟩ := not_or.mp hskip
    refine @kept_notice _ _ _ _ _ _ h hentered hmessage hcount hcond (hmessage ▸ hempty) ?_ g.count ?_ _ rfl hbefore _ now
    · exact decide_eq_true hdebug
    · dsimp only [Gallery.labels]
      rcases noticeEvent (.harnessNotice code message severity eventId) <;> rfl

/-- A compaction that is not drawn yet takes a number; one that is drawn goes on under its message. -/
theorem kept_compaction (started aborted : Bool) (error : Option String)
    (hcond : g.DrawsEvent options (.sessionCompaction started aborted error)) (hbefore : ∀ d ∈ before, d ∈ g.drawn) (now : ℕ) :
    Holds options.sessionId (projectCompaction ctx started aborted error now).1
      (g.compactionAfter (.ingest (.sessionCompaction started aborted error) now))
      (g.drawn ++ (before ++ drawnAll (g.labels (.ingest (.sessionCompaction started aborted error) now))
        (projectCompaction ctx started aborted error now).2)) := by
  have hafter (hne : g.messageID ≠ "") : g.compactionAfter (.ingest (.sessionCompaction started aborted error) now) =
      if started then some g.count else none := if_neg hne
  have hnumber (id : Option String) (notice : TranscriptNotice) (tail : List Payload)
      (htail : drawnAll (g.labels (.ingest (.sessionCompaction started aborted error) now)) tail = []) (hne : g.messageID ≠ "")
      (hseen : seen g.turn.state g.numbered.text = false)
      (hid : id = none ∨ started = true ∧ id = some (nextNoticePartId ctx).2) :
      Holds options.sessionId (noticePart (runningCompaction (nextNoticePartId ctx).1 id) (nextNoticePartId ctx).2 notice now).1
        (g.compactionAfter (.ingest (.sessionCompaction started aborted error) now))
        (g.drawn ++ (before ++ drawnAll (g.labels (.ingest (.sessionCompaction started aborted error) now))
          ((noticePart (runningCompaction (nextNoticePartId ctx).1 id) (nextNoticePartId ctx).2 notice now).2 :: tail))) := by
    have hlabel : ∃ nth, (g.labels (.ingest (.sessionCompaction started aborted error) now)).notice = .notice nth := by
      cases started <;> exact ⟨_, rfl⟩
    obtain ⟨nth, hlabel⟩ := hlabel
    have hkept := kept_numbered h hentered hmessage hcount hseen hlabel hbefore notice now
    have hdrawn : drawnAll (g.labels (.ingest (.sessionCompaction started aborted error) now))
        ((noticePart (runningCompaction (nextNoticePartId ctx).1 id) (nextNoticePartId ctx).2 notice now).2 :: tail) =
        drawnAll (g.labels (.ingest (.sessionCompaction started aborted error) now))
          (publish [] (noticePart (nextNoticePartId ctx).1 (nextNoticePartId ctx).2 notice now)).2 := by
      rw [drawnAll, List.flatMap_cons, ← drawnAll, htail, List.append_nil]
      rfl
    rw [hdrawn]
    refine ⟨hkept.catalogued, hkept.reasoning, fun id' hid' => ?_⟩
    rcases hid with rfl | ⟨rfl, rfl⟩
    · cases hid'
    · obtain rfl := Option.some.inj hid'
      exact ⟨g.count, _, hafter hne, List.mem_append_right _ (List.mem_append_right _ (List.mem_singleton_self _))⟩
  unfold projectCompaction
  by_cases hempty : ctx.assistantMsgId = ""
  · rw [if_pos hempty]
    have hsame : g.compactionAfter (.ingest (.sessionCompaction started aborted error) now) = g.compaction :=
      if_pos (hmessage.symm.trans hempty)
    rw [hsame]
    exact (List.append_nil before).symm ▸ h.same hentered hbefore
  · have hne : g.messageID ≠ "" := hmessage ▸ hempty
    have hcase := hcond.compaction hne started aborted error rfl
    rw [if_neg hempty]
    cases started with
    | true =>
      rw [if_pos (.inl rfl)] at hcase
      exact hnumber (some (nextNoticePartId ctx).2) .compactionRunning [] rfl hne hcase (.inr ⟨rfl, rfl⟩)
    | false =>
      rw [if_neg Bool.false_ne_true]
      unfold compactionPartId
      rcases hrunning : ctx.notices.runningCompactionPartId with _ | id
      · rw [if_pos (.inr (hentered.running.symm.trans hrunning))] at hcase
        exact hnumber none (compactionOutcome aborted error) _ (by split_ifs <;> rfl) hne hcase (.inl rfl)
      · have hrun : g.turn.state.notices.runningCompactionPartId = some id := hentered.running.symm.trans hrunning
        rw [if_neg (by simp [hrun])] at hcase
        obtain ⟨k, m, hk, hmem⟩ := h.running id hrun
        have hm : m = ctx.assistantMsgId := (hcase _ hmem (by rw [hk]; rfl)).trans hmessage.symm
        have hdrawn (tail : List Payload) (htail : drawnAll (g.labels (.ingest (.sessionCompaction false aborted error) now)) tail = []) :
            drawnAll (g.labels (.ingest (.sessionCompaction false aborted error) now))
              ((noticePart (runningCompaction ctx none) id (compactionOutcome aborted error) now).2 :: tail) =
              [⟨.notice k, id, m⟩] := by
          rw [drawnAll, List.flatMap_cons, ← drawnAll, htail, List.append_nil, hm]
          have hlabel : (g.labels (.ingest (.sessionCompaction false aborted error) now)).notice = .notice k := by
            simp [Gallery.labels, noticeEvent, hk]
          exact congrArg (fun content => [(⟨content, id, ctx.assistantMsgId⟩ : Drawn)]) hlabel
        dsimp only
        rw [hdrawn _ (by split_ifs <;> rfl)]
        have hkept := @Holds.same _ _ _ _ _ (before ++ [⟨.notice k, id, m⟩]) h hentered fun d hd => by
          rcases List.mem_append.mp hd with hd | hd
          · exact hbefore d hd
          · exact List.mem_singleton.mp hd ▸ hmem
        exact ⟨hkept.catalogued, hkept.reasoning, by rintro _ ⟨⟩⟩

end

theorem drawnAll_plain (l : Labels) (ctx : State) (type : PlainEvent) : drawnAll l (translatePlain ctx type).2 = [] := by
  cases type <;> rfl

theorem entered_plain (h : Entered g.turn.state ctx) (type : PlainEvent) : Entered g.turn.state (translatePlain ctx type).1 := by
  cases type <;> first | exact h.split | exact h

theorem entered_enterResponse (h : Entered g.turn.state ctx) (r : String) : Entered g.turn.state (enterResponse ctx r) := by
  unfold enterResponse
  exact ⟨h.ids, h.reasoning, h.running⟩

section
variable (options) (now : ℕ) (retrying splits : Bool) (reasoning : Option OpenReasoningPart)

theorem reportAsks_aside (s : State) (plan : String) (notices : NoticeProjectionState) (event : RuntimeEvent) :
    reportAsks (split (aside s plan notices reasoning splits)) event = reportAsks s event := by
  cases event <;> rfl

/-- An event is drawn apart, in whatever state its preface left. -/
theorem kept_translate (h : g.Kept options) (hcond : g.DrawsEvent options event) (hbefore : ∀ d ∈ before, d ∈ g.drawn)
    (hreasoning : ∀ part, reasoning = some part → g.turn.state.openReasoning = some part)
    (hsplits : REASONING_ENDS_ON event = false → splits = g.turn.state.splitReasoning) :
    Holds options.sessionId (translateRuntimeEventToCompat options (aside g.turn.state g.turn.state.proposedPlanText
        { g.turn.state.notices with retrying := retrying } reasoning splits) event now).1
      (g.compactionAfter (.ingest event now))
      (g.drawn ++ (before ++ drawnAll (g.labels (.ingest event now))
        (translateRuntimeEventToCompat options (aside g.turn.state g.turn.state.proposedPlanText
          { g.turn.state.notices with retrying := retrying } reasoning splits) event now).2)) := by
  have hentered (plan : String) : Entered g.turn.state (aside g.turn.state plan
      { g.turn.state.notices with retrying := retrying } reasoning splits) := ⟨rfl, hreasoning, rfl⟩
  have hbrings (plan : String) (kind : DeltaKind) (delta : String) (hkind : deltaKind g.turn.state event = some kind)
      (hlabel : (g.labels (.ingest event now)).delta = kind) :
      Holds options.sessionId (deltaText (aside g.turn.state plan { g.turn.state.notices with retrying := retrying } reasoning splits)
          kind delta now).1 g.compaction
        (g.drawn ++ (before ++ drawnAll (g.labels (.ingest event now)) (deltaText (aside g.turn.state plan
          { g.turn.state.notices with retrying := retrying } reasoning splits) kind delta now).2)) := by
    refine h.brings (hentered plan) (brings_deltaText _ kind delta now) hlabel ?_ hbefore
    have hask : proseAsk (aside g.turn.state plan { g.turn.state.notices with retrying := retrying } reasoning splits) kind =
        proseAsk g.turn.state kind := by
      cases kind with
      | text => rfl
      | reasoning => rw [hsplits (deltaKind_ends hkind)]; rfl
    rw [hask]
    exact fits_prose h.catalogued (hcond.delta kind hkind)
  have hplan := hentered g.turn.state.proposedPlanText
  have hreport (htool : event.toolCallId?.isSome = true) := draws_report (g.labels (.ingest event now)) options
    (aside g.turn.state g.turn.state.proposedPlanText { g.turn.state.notices with retrying := retrying } reasoning splits)
    event now htool
  rw [reportAsks_aside] at hreport
  cases event with
  | textDelta delta => exact hbrings _ .text delta rfl rfl
  | thinkingDelta delta => exact hbrings _ .reasoning delta rfl rfl
  | proposedPlanDelta delta => exact hbrings _ .text delta rfl rfl
  | proposedPlanComplete planMarkdown =>
    unfold translateRuntimeEventToCompat
    dsimp only
    split_ifs with hempty
    · exact kept_quiet h (hentered planMarkdown) hbefore rfl
    · exact hbrings planMarkdown .text _ (if_neg hempty) rfl
  | toolStart | toolInput | toolStatus | toolContent | toolOutput | toolError | toolLocation | toolTerminal =>
    exact kept_report h hplan.split hcond hbefore (hreport rfl)
  | stepStart newMessageId => exact kept_quiet h ⟨rfl, hreasoning, rfl⟩ hbefore rfl
  | responseStart r => exact kept_quiet h (entered_enterResponse hplan r) hbefore rfl
  | responseRetracted ids reason =>
    have hfits := fits_sweep h.catalogued (hcond.withdrawn ids reason rfl)
    rcases draws_retractResponses (g.labels (.ingest (.responseRetracted ids reason) now)) (aside g.turn.state
      g.turn.state.proposedPlanText { g.turn.state.notices with retrying := retrying } reasoning splits) ids reason now
      with hdraws | hdraws
    · exact h.draws hplan hdraws hfits (agree_sweep _ _) hbefore
    · exact h.draws hplan.split hdraws hfits (agree_sweep _ _) hbefore
  | sessionStatus status =>
    refine kept_quiet h hplan hbefore ?_
    dsimp only [translateRuntimeEventToCompat]
    split_ifs <;> rfl
  | sessionRetry message attempt delayMs => exact kept_quiet h ⟨rfl, hreasoning, rfl⟩ hbefore rfl
  | sessionCompaction started aborted error => exact kept_compaction h hplan rfl rfl started aborted error hcond hbefore now
  | harnessNotice code message severity eventId =>
    exact kept_harnessNotice h hplan rfl rfl code message severity eventId hcond hbefore now
  | agentMessage eventId sender message senderName senderTaskId sourceSessionId =>
    refine @kept_agentMessage _ _ _ _ _ _ h hplan rfl rfl hcond rfl g.count ?_ _ rfl hbefore _ now
    dsimp only [Gallery.labels]
    rcases noticeEvent (.agentMessage eventId sender message senderName senderTaskId sourceSessionId) <;> rfl
  | conversationReset trigger => exact @kept_agentMessage _ _ _ _ _ _ h hplan rfl rfl hcond rfl g.count rfl _ rfl hbefore _ now
  | imageDelta mimeType data =>
    exact h.draws hplan.split (draws_filePart .image _ now) (fits_unseen ⟨g.count, rfl⟩ (hcond.file .image rfl))
        (agree_single _) hbefore
  | audioDelta mimeType data =>
    exact h.draws hplan.split (draws_filePart .audio _ now) (fits_unseen ⟨g.count, rfl⟩ (hcond.file .audio rfl))
        (agree_single _) hbefore
  | resourceLinkDelta uri name mimeType =>
    exact h.draws hplan.split (draws_filePart .resourceLink _ now) (fits_unseen ⟨g.count, rfl⟩ (hcond.file .resourceLink rfl))
      (agree_single _) hbefore
  | plain type => exact kept_quiet h (entered_plain hplan type) hbefore (drawnAll_plain _ _ type)
  | _ => exact kept_quiet h ⟨rfl, hreasoning, rfl⟩ hbefore rfl

end

end

/-! ### A turn -/

section
variable {options : Options} {g : Gallery}

theorem Holds.settled {sessionId : String} {s : State} {compaction : Option ℕ} {drawn : List Drawn} {answered : State × List Payload}
    {events : List Payload} (h : Holds sessionId s compaction drawn) (hsettles : Settles s answered events)
    (hids : s.partIdMap.length ≤ RETAINED_PART_IDS_MAX) : Holds sessionId answered.1 compaction drawn := by
  refine ⟨?_, fun part hpart => h.reasoning part ?_, fun id hid => h.running id ?_⟩
  · rw [hsettles.ids hids]
    exact h.catalogued
  · rw [← hsettles.frame.reasoning]
    exact hpart
  · rw [← hsettles.frame.running]
    exact hid

theorem Gallery.kept_start (options : Options) : (Gallery.start options).Kept options :=
  ⟨catalogued_start _, nofun, nofun⟩

/-- The reasoning an event ends was drawn when it was opened. -/
theorem drawn_closing (h : g.Kept options) (l : Labels) (now : ℕ) (ends : Bool) :
    ∀ d ∈ drawnAll l (if ends then (g.turn.state.openReasoning.map (closing now)).toList else []), d ∈ g.drawn := by
  intro d hd
  rcases ends with _ | _
  · cases hd
  · rcases hopen : g.turn.state.openReasoning with _ | part <;> rw [hopen] at hd
    · cases hd
    · exact List.mem_singleton.mp hd ▸ h.reasoning part hopen

theorem drawnAll_statuses (l : Labels) {statuses : List Payload}
    (h : ∀ status ∈ statuses, status = Payload.sessionStatus (.plain .busy)) : drawnAll l statuses = [] :=
  List.flatMap_eq_nil_iff.mpr fun status hstatus => h status hstatus ▸ rfl

theorem Gallery.kept_ingest (h : g.Kept options) (event : RuntimeEvent) (now : ℕ) (hcond : g.DrawsEvent options event)
    (hids : KeepsIds options g.turn.state (.ingest event now)) : (g.step options (.ingest event now)).Kept options := by
  obtain ⟨retrying, splits, statuses, hprefaces⟩ := prefaces g.turn.state event now
  have hsettles := settles_ingest options g.turn.state event now
  have hprojected : Holds options.sessionId (projectEvent options g.turn.state event now).1
      (g.compactionAfter (.ingest event now))
      (g.drawn ++ drawnAll (g.labels (.ingest event now)) (projectEvent options g.turn.state event now).2) := by
    rw [projectEvent_eq, hprefaces.state, hprefaces.events, drawnAll_append, drawnAll_append, drawnAll_statuses _ hprefaces.statuses,
      List.nil_append]
    refine kept_translate options now retrying splits _ h hcond (drawn_closing h _ now _) ?_ ?_
    · intro part hpart
      split_ifs at hpart
      exact hpart
    · intro hends
      simp [hprefaces.splits, hends]
  obtain ⟨row, hrow, hnone⟩ := hsettles.events
  have hpublished : drawnAll (g.labels (.ingest event now)) (ingest options g.turn.state event now).2 =
      drawnAll (g.labels (.ingest event now)) (projectEvent options g.turn.state event now).2 := by
    rw [hrow, drawnAll_append, drawnAll_row hnone, List.nil_append]
  unfold Gallery.Kept Gallery.step call
  dsimp only
  rw [hpublished]
  exact hprojected.settled hsettles hids

theorem Gallery.kept_terminalize (h : g.Kept options) (error : String) (now : ℕ)
    (hcond : ∀ c ∈ swept g.turn.state none, g.DrawsCall c 0)
    (hids : KeepsIds options g.turn.state (.terminalizeOpenTools error now)) :
    (g.step options (.terminalizeOpenTools error now)).Kept options := by
  have hsettles := settles_terminalize options g.turn.state error now
  have hdraws := draws_terminalizeOpenTools (g.labels (.terminalizeOpenTools error now)) (endReasoning g.turn.state now).1
    error now none
  have hentered : Entered g.turn.state (endReasoning g.turn.state now).1 := by
    rw [endReasoning_state]
    exact ⟨rfl, nofun, rfl⟩
  have hasks : (swept (endReasoning g.turn.state now).1 none).map (callAsk (endReasoning g.turn.state now).1.assistantMsgId) =
      (swept g.turn.state none).map (callAsk g.messageID) := by
    rw [endReasoning_state]
    rfl
  rw [hasks] at hdraws
  have hprojected := h.draws hentered hdraws (fits_sweep h.catalogued hcond) (agree_sweep _ _)
    (drawn_closing h (g.labels (.terminalizeOpenTools error now)) now true)
  obtain ⟨row, hrow, hnone⟩ := hsettles.events
  have hpublished : drawnAll (g.labels (.terminalizeOpenTools error now)) (terminalize options g.turn.state error now).2 =
      drawnAll (g.labels (.terminalizeOpenTools error now)) (g.turn.state.openReasoning.map (closing now)).toList ++
        drawnAll (g.labels (.terminalizeOpenTools error now))
            (terminalizeOpenTools (endReasoning g.turn.state now).1 error now none).2 := by
    rw [hrow, drawnAll_append, drawnAll_row hnone, List.nil_append, drawnAll_append]
  unfold Gallery.Kept Gallery.step call
  dsimp only
  rw [hpublished]
  exact hprojected.settled hsettles hids

theorem Gallery.kept_step (h : g.Kept options) (cl : Call) (hcond : g.DrawsApart options cl)
    (hids : KeepsIds options g.turn.state cl) : (g.step options cl).Kept options := by
  cases cl with
  | ingest event now => exact kept_ingest h event now hcond hids
  | thrown =>
    unfold Gallery.Kept Gallery.step
    exact (List.append_nil g.drawn).symm ▸ h
  | terminalizeOpenTools error now => exact kept_terminalize h error now hcond hids

end

/-- In a turn that keeps its keys apart and forgets no part id, different content is never under one part, and a part never
under two messages. -/
theorem partsApart_galleryOf (options : Options) (calls : List Call)
    (h : Meets (Gallery.step options) (fun g cl => KeepsIds options g.turn.state cl ∧ g.DrawsApart options cl)
      (Gallery.start options) calls) : PartsApart (galleryOf options calls).drawn :=
  (invariant_of_meets (Gallery.Kept options) (fun _ cl hkept hcond => Gallery.kept_step hkept cl hcond.2 hcond.1)
    (Gallery.kept_start options) h).catalogued.apart

theorem drawsEvent_image {options : Options} {g : Gallery} (mimeType data : String)
    (h : seen g.turn.state (PartKey.file g.messageID .image).text = false) : g.DrawsEvent options (.imageDelta mimeType data) := by
  refine ⟨nofun, nofun, fun slot hslot => ?_, nofun, nofun, nofun, nofun⟩
  rw [← Option.some.inj hslot]
  exact h

theorem drawsEvent_step {options : Options} {g : Gallery} (newMessageId : String) : g.DrawsEvent options (.stepStart newMessageId) :=
  ⟨nofun, nofun, nofun, nofun, nofun, nofun, nofun⟩

/-- A picture in each of two messages. -/
def pictured : List Call :=
  [.ingest (.imageDelta "image/png" "iVBORw0K") 100, .ingest (.stepStart "msg_turn_2_r") 101,
   .ingest (.imageDelta "image/png" "R0lGODlh") 102]

theorem apart_pictured : PartsApart (galleryOf (.beside "session-1" "msg_turn_1_r") pictured).drawn :=
  partsApart_galleryOf (.beside "session-1" "msg_turn_1_r") pictured
    ⟨⟨by decide +kernel, drawsEvent_image _ _ (by decide +kernel)⟩, ⟨by decide +kernel, drawsEvent_step _⟩,
      ⟨by decide +kernel, drawsEvent_image _ _ (by decide +kernel)⟩, trivial⟩

/-- Two pictures in one message. -/
def picturedTwice : List Call :=
  [.ingest (.imageDelta "image/png" "iVBORw0K") 100, .ingest (.imageDelta "image/png" "R0lGODlh") 101]

theorem second_picture_takes_part : ¬ ∀ (options : Options) (calls : List Call),
    Meets (Gallery.step options) (fun g cl => KeepsIds options g.turn.state cl) (Gallery.start options) calls →
      PartsApart (galleryOf options calls).drawn := by
  intro h
  exact absurd (h (.beside "session-1" "msg_turn_1_r") picturedTwice (by decide +kernel)) (by decide +kernel)

end Claxedo.Presentation
