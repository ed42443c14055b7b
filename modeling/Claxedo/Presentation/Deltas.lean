import Claxedo.Presentation.Streaming

/-! A delta goes to the part opened last, or opens its own. -/

namespace Claxedo.Presentation

open Claxedo.Lib Claxedo.Lib.Table

section
variable {s s' : State} {drawn : List Drawn} {left : List String} {told : List (DeltaKind × String)} {P Q : List Payload}
  {kind : DeltaKind} {id delta : String} {now : ℕ} {answered : State × List Payload}

theorem text_currentKey (s : State) (kind : DeltaKind) : (currentKey s kind).text = partKey s kind := by cases kind <;> rfl

theorem partSeq_splitPart (s : State) (kind : DeltaKind) : partSeq (splitPart s kind) kind =
    partSeq s kind + if splits s kind = true ∧ seen s (partKey s kind) = true then 1 else 0 := by
  cases kind <;>
  · simp only [splitPart, partSeq, splits]
    split_ifs <;> first | rfl | simp_all

/-- A delta's key was minted before only where its kind goes on with its part. -/
theorem Streaming.goes_on (h : Streaming s drawn left told P) (hseen : seen s (targetKey s kind) = true)
    (hfree : Free drawn (targetKey s kind)) (hleft : s.assistantMsgId ∉ left) :
    splits s kind = false ∧ targetKey s kind = (currentKey s kind).text := by
  have htext := text_proseAsk s kind
  have hseq := partSeq_splitPart s kind
  have hsame (hstays : ¬ (splits s kind = true ∧ seen s (partKey s kind) = true)) : targetKey s kind = (currentKey s kind).text := by
    rw [← htext, proseAsk, hseq, if_neg hstays, Nat.add_zero, currentKey]
  have hstays : ¬ (splits s kind = true ∧ seen s (partKey s kind) = true) := by
    intro hahead
    obtain ⟨id, hid⟩ := Option.isSome_iff_exists.mp hseen
    rcases h.keys _ id hid with hminted | ⟨m, kind', n, hwritten⟩
    · rw [← htext] at hminted hfree
      exact hminted.not_free hfree
    · have hkey := PartKey.text_inj rfl rfl (hwritten.text.trans htext.symm)
      obtain ⟨rfl, rfl, rfl⟩ := PartKey.prose.inj hkey
      rcases hwritten.within with hm | ⟨-, hn⟩
      · exact hleft hm
      · rw [hseq, if_pos hahead] at hn
        omega
  refine ⟨?_, hsame hstays⟩
  rcases hsplits : splits s kind with _ | _
  · rfl
  · refine absurd ⟨hsplits, ?_⟩ hstays
    rw [← text_currentKey, ← hsame hstays]
    exact hseen

/-- A delta's part, after it was opened where it is new: the last one, and the one reasoning streams in. -/
structure Takes (s : State) (P Q : List Payload) (kind : DeltaKind) (id delta : String) (now : ℕ) : Prop where
  hushed : ∀ p ∈ Q, deltaTo p = none ∧ endedPart p = none
  shown : ∀ id' ∈ allShown Q, id' = id
  once : (((P ++ Q).filterMap openedPart).map fun opened => opened.2.partID).Nodup
  opened : ∃ messageID, Opened (P ++ Q) kind ⟨messageID, id⟩
  last : (openedIds (P ++ Q)).getLast? = some id
  others : ∀ kind' ref, Opened Q kind' ref → ref.partID = id
  unended : endings id P = []
  text : kind = .text → s.openReasoning = none
  reasoning : kind = .reasoning → ∃ part, reasoningAfter s kind delta now = some part ∧ part.partId = id ∧
    Opened (P ++ Q) .reasoning ⟨part.messageId, id⟩ ∧ part.text = streamed id P ++ delta ∧
    ∀ part', s.openReasoning = some part' → part'.partId = id

theorem streamed_delta (id : String) (P : List Payload) (hQ : ∀ p ∈ Q, deltaTo p = none ∧ endedPart p = none)
    (messageID id' delta : String) : streamed id (P ++ (Q ++ [.partDelta messageID id' delta])) =
      if id' = id then streamed id P ++ delta else streamed id P := by
  have hnone : Q.filterMap deltaTo = [] := List.filterMap_eq_nil_iff.mpr fun p hp => (hQ p hp).1
  rw [streamed_append, List.filterMap_append, hnone, List.nil_append]
  by_cases hid : id' = id
  · simp [deltaTo, hid]
  · simp [deltaTo, hid]

theorem partSeq_brings (h : Brings s kind delta now answered) (kind' : DeltaKind) :
    partSeq answered.1 kind' = partSeq (splitPart s kind) kind' := by
  cases kind'
  exacts [h.textSeq, h.reasoningSeq]

theorem partSeq_le_splitPart (s : State) (kind kind' : DeltaKind) : partSeq s kind' ≤ partSeq (splitPart s kind) kind' := by
  cases kind <;> cases kind' <;> simp [partSeq, splitPart]

/-- A delta is brought to a part that takes it. -/
theorem Streaming.brings (h : Streaming s drawn left told P) (hbrings : Brings s kind delta now answered)
    (hadded : ∀ key, seen answered.1 key = true → seen s key = true ∨ key = targetKey s kind)
    (hstatuses : answered.1.toolStatusByCallId = s.toolStatusByCallId) (htakes : Takes s P Q kind (targetId s kind) delta now) :
    Streaming answered.1 drawn left (told ++ [(kind, delta)])
      (P ++ (Q ++ [.partDelta s.assistantMsgId (targetId s kind) delta])) := by
  obtain ⟨hushed, hshown, honce, hopened, hlast, hothers, hopen, htext, hreasoning⟩ := htakes
  have hkey := hbrings.key
  have htarget := text_proseAsk s kind
  have hcurrent : (currentKey answered.1 kind).text = targetKey s kind := by
    rw [← htarget, proseAsk, currentKey, hbrings.message, partSeq_brings hbrings]
  generalize targetId s kind = id at *
  have hmono {kind' : DeltaKind} {ref : PartRef} (href : Opened (P ++ Q) kind' ref) :
      Opened (P ++ (Q ++ [.partDelta s.assistantMsgId id delta])) kind' ref := by
    rw [← List.append_assoc]
    exact opened_append.mpr (.inl href)
  have hback {kind' : DeltaKind} {ref : PartRef} (href : Opened (P ++ (Q ++ [.partDelta s.assistantMsgId id delta])) kind' ref) :
      Opened (P ++ Q) kind' ref := by
    rw [← List.append_assoc] at href
    rcases opened_append.mp href with href | href
    · exact href
    · cases href
  have hold {key id' : String} (hid : Assoc.lookup key answered.1.partIdMap = some id') :
      Assoc.lookup key s.partIdMap = some id' ∨ key = targetKey s kind ∧ id' = id := by
    by_cases hsame : key = targetKey s kind
    · rw [hsame, hkey] at hid
      exact .inr ⟨hsame, (Option.some.inj hid).symm⟩
    · refine .inl ?_
      obtain ⟨id'', hid''⟩ := Option.isSome_iff_exists.mp ((hadded key (by rw [seen, hid]; rfl)).resolve_right hsame)
      rw [hid'', ← hid, hbrings.grows.lookup hid'']
  have hallShown : allShown (P ++ (Q ++ [.partDelta s.assistantMsgId id delta])) = allShown P ++ allShown Q := by
    rw [← List.append_assoc, allShown_append, allShown_append]
    exact List.append_nil _
  have hopenedIds : openedIds (P ++ (Q ++ [.partDelta s.assistantMsgId id delta])) = openedIds (P ++ Q) := by
    rw [openedIds, hallShown, openedIds, allShown_append]
  have hendings (id' : String) : endings id' (P ++ (Q ++ [.partDelta s.assistantMsgId id delta])) = endings id' P := by
    have hnone : Q.filterMap endedPart = [] := List.filterMap_eq_nil_iff.mpr fun p hp => (hushed p hp).2
    simp [endings, List.filterMap_append, hnone, endedPart]
  have hstreamed (id' : String) := streamed_delta id' P hushed s.assistantMsgId id delta
  refine ⟨hbrings.grows.sound h.sound, fun id' hid => ?_, fun key id' hid => ?_, fun c hc => ?_,
    fun kind' hsplit hleft hfree id' hid => ?_, fun part hpart => ?_, fun ref href => ?_, fun p hp ended hended => ?_,
    fun id' hid => ?_, fun p hp delta' hdelta => ?_, ?_, ?_, ?_, ?_⟩
  · rw [hallShown] at hid
    rcases List.mem_append.mp hid with hid | hid
    · exact (h.shown id' hid).imp_left fun hkey => hkey.imp fun key hkey => hbrings.grows.lookup hkey
    · rw [hshown id' hid]
      exact .inl ⟨_, hkey⟩
  · rcases hold hid with hid | ⟨rfl, rfl⟩
    · refine (h.keys key id' hid).imp_right ?_
      rintro ⟨m, kind', n, hwritten⟩
      refine ⟨m, kind', n, hwritten.mono hbrings.message ?_ _⟩
      rw [partSeq_brings hbrings]
      exact partSeq_le_splitPart s kind kind'
    · refine .inr ⟨_, _, _, htarget, .inr ⟨hbrings.message.symm, ?_⟩, hopened.imp fun messageID hopened => hmono hopened⟩
      rw [partSeq_brings hbrings]
  · rw [statusOf, hstatuses] at hc
    obtain ⟨id', hid, hlookup⟩ := h.statuses c hc
    rw [hallShown]
    exact ⟨id', List.mem_append_left _ hid, hbrings.grows.lookup hlookup⟩
  · rw [hopenedIds]
    by_cases hkind : kind' = kind
    · subst hkind
      rw [hcurrent, hkey] at hid
      obtain rfl := Option.some.inj hid
      refine ⟨hlast, fun hreason => ?_⟩
      obtain ⟨part, hpart, hpartId, -⟩ := hreasoning hreason
      exact ⟨part, by rw [hbrings.reasoning, hpart], hpartId⟩
    · cases kind with
      | reasoning =>
        cases kind' with
        | text =>
          have hsplit : answered.1.splitText = false := hsplit
          rw [hbrings.splitText] at hsplit
          cases hsplit
        | reasoning => exact absurd rfl hkind
      | text =>
        cases kind' with
        | text => exact absurd rfl hkind
        | reasoning =>
          have hsame : currentKey answered.1 .reasoning = currentKey s .reasoning := by
            rw [currentKey, currentKey, hbrings.message, partSeq_brings hbrings]
            rfl
          have hsplit : s.splitReasoning = false := hbrings.splitReasoning.symm.trans hsplit
          rw [hsame] at hfree hid
          rw [hbrings.message] at hleft
          rcases hold hid with hid | ⟨hkey', -⟩
          · obtain ⟨-, hreason⟩ := h.top .reasoning hsplit hleft hfree id' hid
            obtain ⟨part, hpart, -⟩ := hreason rfl
            rw [htext rfl] at hpart
            cases hpart
          · have hprose := PartKey.text_inj rfl rfl (hkey'.trans htarget.symm)
            cases (PartKey.prose.inj hprose).2.1
  · rw [hbrings.reasoning] at hpart
    cases kind with
    | text =>
      rw [reasoningAfter, htext rfl] at hpart
      cases hpart
    | reasoning =>
      obtain ⟨part', hpart', rfl, hopen', htext', -⟩ := hreasoning rfl
      rw [hpart'] at hpart
      obtain rfl := Option.some.inj hpart
      rw [hendings, hstreamed, if_pos rfl, hcurrent]
      exact ⟨hkey, hmono hopen', hopen, htext'⟩
  · by_cases hid : ref.partID = id
    · cases kind with
      | text =>
        obtain ⟨messageID, hopened⟩ := hopened
        cases (opened_unique honce (hback href) hopened hid).1
      | reasoning =>
        obtain ⟨part, hpart, hpartId, -⟩ := hreasoning rfl
        exact .inl ⟨part, by rw [hbrings.reasoning, hpart], hpartId.trans hid.symm⟩
    · have href' : Opened P .reasoning ref := by
        rcases opened_append.mp (hback href) with href | href
        · exact href
        · exact absurd (hothers _ _ href) hid
      rw [hendings, hstreamed, if_neg (Ne.symm hid)]
      rcases h.ended ref href' with ⟨part, hpart, hpartId⟩ | hended
      · cases kind with
        | text =>
          rw [htext rfl] at hpart
          cases hpart
        | reasoning =>
          obtain ⟨-, -, -, -, -, hsame⟩ := hreasoning rfl
          exact absurd (hpartId.symm.trans (hsame part hpart)) hid
      · exact .inr hended
  · rcases List.mem_append.mp hp with hp | hp
    · exact hmono (opened_append.mpr (.inl (h.ends p hp ended hended)))
    · rcases List.mem_append.mp hp with hp | hp
      · rw [(hushed p hp).2] at hended
        cases hended
      · obtain rfl := List.mem_singleton.mp hp
        cases hended
  · rw [hbrings.running] at hid
    rw [hallShown]
    exact List.mem_append_left _ (h.running id' hid)
  · rw [hallShown]
    rcases List.mem_append.mp hp with hp | hp
    · exact List.mem_append_left _ (h.known p hp delta' hdelta)
    · rcases List.mem_append.mp hp with hp | hp
      · rw [(hushed p hp).1] at hdelta
        cases hdelta
      · obtain rfl := List.mem_singleton.mp hp
        obtain rfl := Option.some.inj hdelta
        obtain ⟨messageID, hopened⟩ := hopened
        rw [← allShown_append]
        exact shown_of_opened hopened
  · have hnone : Q.filterMap deltaTo = [] := List.filterMap_eq_nil_iff.mpr fun p hp => (hushed p hp).1
    rw [List.filterMap_append, List.filterMap_append, hnone, List.nil_append]
    refine List.rel_append ?_ (.cons ⟨rfl, hopened.imp fun messageID hopened => hmono hopened⟩ .nil)
    refine h.delivered.imp fun delta' t hdelta => ⟨hdelta.1, ?_⟩
    exact hdelta.2.imp fun messageID hopened => hmono (opened_append.mpr (.inl hopened))
  · rw [← List.append_assoc, List.filterMap_append]
    exact (congrArg (fun opened => (List.map (fun opened : DeltaKind × PartRef => opened.2.partID) opened).Nodup)
      (List.append_nil _)).mpr honce
  · refine onTop_append h.onTop fun before messageID id' delta' after hbefore => ?_
    rcases List.append_eq_append_iff.mp hbefore with ⟨rest, rfl, hrest⟩ | ⟨rest, hQ, hrest⟩
    · cases rest with
      | nil =>
        obtain ⟨hdelta, -⟩ := List.cons.inj hrest
        obtain ⟨-, rfl, -⟩ := Payload.partDelta.inj hdelta
        rw [List.append_nil]
        exact hlast
      | cons p rest => simp at hrest
    · cases rest with
      | nil =>
        obtain ⟨hdelta, -⟩ := List.cons.inj hrest
        obtain ⟨-, rfl, -⟩ := Payload.partDelta.inj hdelta
        rw [List.append_nil] at hQ
        rw [← hQ]
        exact hlast
      | cons p rest =>
        obtain ⟨rfl, -⟩ := List.cons.inj hrest
        cases (hushed (.partDelta messageID id' delta') (hQ ▸ List.mem_append_right _ List.mem_cons_self)).1
  · refine List.pairwise_append.mpr ⟨h.silent, ?_, fun p hp q hq ended hended delta' hdelta => ?_⟩
    · refine List.pairwise_iff_forall_sublist.mpr fun {p q} hsub ended hended => ?_
      rcases List.mem_append.mp (hsub.subset List.mem_cons_self) with hp | hp
      · rw [(hushed p hp).2] at hended
        cases hended
      · obtain rfl := List.mem_singleton.mp hp
        cases hended
    · rcases List.mem_append.mp hq with hq | hq
      · rw [(hushed q hq).1] at hdelta
        cases hdelta
      · obtain rfl := List.mem_singleton.mp hq
        obtain rfl := Option.some.inj hdelta
        rintro rfl
        have hmem : (ended.1.messageID, ended.2) ∈ endings ended.1.partID P :=
          List.mem_filterMap.mpr ⟨ended, List.mem_filterMap.mpr ⟨p, hp, hended⟩, if_pos rfl⟩
        rw [hopen] at hmem
        cases hmem

/-- A delta goes on with the part opened last. -/
theorem Streaming.takes_seen (h : Streaming s drawn left told P) (hseen : seen s (targetKey s kind) = true)
    (hfree : Free drawn (targetKey s kind)) (hleft : s.assistantMsgId ∉ left)
    (htext : kind = .text → s.openReasoning = none) (delta : String) (now : ℕ) :
    Takes s P [] kind (targetId s kind) delta now := by
  obtain ⟨hsplits, hcurrent⟩ := h.goes_on hseen hfree hleft
  obtain ⟨id, hid⟩ := Option.isSome_iff_exists.mp hseen
  have htarget : targetId s kind = id := by
    rw [targetId, seqId_snd, hid]
    rfl
  obtain ⟨hlast, hreason⟩ := h.top kind hsplits hleft (hcurrent ▸ hfree) id (hcurrent ▸ hid)
  have hopened : ∃ messageID, Opened P kind ⟨messageID, id⟩ := by
    rw [hcurrent] at hid hfree
    rcases h.keys _ id hid with hminted | ⟨m, kind', n, hwritten⟩
    · exact (hminted.not_free hfree).elim
    · obtain ⟨-, rfl, -⟩ := PartKey.prose.inj (PartKey.text_inj rfl rfl hwritten.text)
      exact hwritten.opened
  rw [htarget]
  refine ⟨fun p hp => absurd hp List.not_mem_nil, fun p hp => absurd hp List.not_mem_nil, ?_, ?_, ?_, ?_, ?_, htext, ?_⟩
  · exact (List.append_nil P).symm ▸ h.once
  · exact (List.append_nil P).symm ▸ hopened
  · exact (List.append_nil P).symm ▸ hlast
  · rintro _ _ ⟨_, ⟨⟩⟩
  · cases kind with
    | text =>
      refine List.filterMap_eq_nil_iff.mpr fun ended hended => if_neg fun hsame => ?_
      obtain ⟨p, hp, hp'⟩ := List.mem_filterMap.mp hended
      obtain ⟨messageID, hopened⟩ := hopened
      cases (opened_unique h.once hopened (h.ends p hp ended hp') hsame.symm).1
    | reasoning =>
      obtain ⟨part, hpart, rfl⟩ := hreason rfl
      exact (h.reasoning part hpart).2.2.1
  · rintro rfl
    obtain ⟨part, hpart, rfl⟩ := hreason rfl
    obtain ⟨-, hopened', -, htext'⟩ := h.reasoning part hpart
    have hstream : stream s part.partId delta now = { part with text := part.text ++ delta } := by
      unfold stream
      rw [hpart]
      exact if_pos rfl
    rw [reasoningAfter, htarget, hstream, List.append_nil]
    refine ⟨_, rfl, rfl, hopened', congrArg (· ++ delta) htext', fun part' hpart' => ?_⟩
    rw [hpart] at hpart'
    rw [Option.some.inj hpart']

/-- A delta opens a part of its own. -/
theorem Streaming.takes_fresh (h : Streaming s drawn left told P) (hbrings : Brings s kind delta now answered)
    (hseen : seen s (targetKey s kind) = false) (hopen : s.openReasoning = none) :
    Takes s P [.partUpdated (emptyPart s kind (targetId s kind) now) now] kind (targetId s kind) delta now := by
  have hkey := hbrings.key
  have hsound := hbrings.grows.sound h.sound
  have hstreams : kind = .reasoning → reasoningAfter s kind delta now = some ⟨targetId s kind, s.assistantMsgId, now, delta⟩ := by
    rintro rfl
    rw [reasoningAfter, stream, hopen]
  have hunshown : targetId s kind ∉ allShown P := by
    intro hmem
    rcases h.shown _ hmem with ⟨key, hid⟩ | hunnumbered
    · have hsame := hsound.key_unique (hbrings.grows.lookup hid) hkey
      rw [seen, ← hsame, hid] at hseen
      cases hseen
    · obtain ⟨n, name, hnumbered⟩ := hsound.numbered_lookup hkey
      exact hunnumbered n name hnumbered
  generalize targetId s kind = id at *
  have hopened : [Payload.partUpdated (emptyPart s kind id now) now].filterMap openedPart = [(kind, ⟨s.assistantMsgId, id⟩)] := by
    cases kind <;> rfl
  have hshown : allShown [Payload.partUpdated (emptyPart s kind id now) now] = [id] := by
    cases kind <;> rfl
  have hnew : Opened (P ++ [Payload.partUpdated (emptyPart s kind id now) now]) kind ⟨s.assistantMsgId, id⟩ := by
    refine opened_append.mpr (.inr ?_)
    rw [Opened, hopened]
    exact List.mem_singleton_self _
  refine ⟨fun p hp => ?_, fun id' hid => ?_, ?_, ⟨_, hnew⟩, ?_, fun kind' ref href => ?_, endings_eq_nil hunshown, fun _ => hopen,
    ?_⟩
  · obtain rfl := List.mem_singleton.mp hp
    cases kind <;> exact ⟨rfl, rfl⟩
  · rw [hshown] at hid
    exact List.mem_singleton.mp hid
  · rw [List.filterMap_append, hopened, List.map_append]
    refine List.nodup_append.mpr ⟨h.once, List.nodup_singleton _, fun id' hid' id'' hid'' hsame => ?_⟩
    obtain ⟨opened, hmem, rfl⟩ := List.mem_map.mp hid'
    have hshown : opened.2.partID ∈ allShown P := shown_of_opened hmem
    have hid : opened.2.partID = id := hsame.trans (List.mem_singleton.mp hid'')
    exact hunshown (hid ▸ hshown)
  · rw [openedIds, allShown_append, hshown, firsts_snoc, if_neg hunshown]
    exact List.getLast?_concat
  · rw [Opened, hopened] at href
    obtain ⟨rfl, rfl⟩ := Prod.mk.inj (List.mem_singleton.mp href)
    rfl
  · rintro rfl
    have hnone : streamed id P = "" := by
      have hfilter : (P.filterMap deltaTo).filter (fun delta => decide (delta.1 = id)) = [] := by
        refine List.filter_eq_nil_iff.mpr fun delta' hdelta hsame => hunshown ?_
        obtain ⟨p, hp, hp'⟩ := List.mem_filterMap.mp hdelta
        exact of_decide_eq_true hsame ▸ h.known p hp delta' hp'
      rw [streamed, hfilter]
      rfl
    refine ⟨_, hstreams rfl, rfl, hnew, ?_, fun part' hpart' => ?_⟩
    · rw [hnone, String.empty_append]
    · rw [hopen] at hpart'
      cases hpart'

theorem seen_deltaText (s : State) (kind : DeltaKind) (delta : String) (now : ℕ) (key : String)
    (h : seen (deltaText s kind delta now).1 key = true) : seen s key = true ∨ key = targetKey s kind := by
  have hids : (deltaText s kind delta now).1.partIdMap =
      (seqId (splitPart s kind) (targetKey s kind) (targetKey s kind)).1.partIdMap := by
    cases kind <;> rfl
  rw [seen_congr hids] at h
  rw [← seen_splitPart s kind]
  exact seen_seqId _ _ _ _ h

theorem statuses_deltaText (s : State) (kind : DeltaKind) (delta : String) (now : ℕ) :
    (deltaText s kind delta now).1.toolStatusByCallId = s.toolStatusByCallId := by
  obtain ⟨ids, hids⟩ := mints_seqId (splitPart s kind) (targetKey s kind) (targetKey s kind)
  have hsame : (deltaText s kind delta now).1.toolStatusByCallId =
      (seqId (splitPart s kind) (targetKey s kind) (targetKey s kind)).1.toolStatusByCallId := by
    cases kind <;> rfl
  rw [hsame, hids]
  cases kind <;> rfl

/-- A delta comes where its part goes on, or as a new one with no reasoning open. -/
theorem Streaming.deltaText (h : Streaming s drawn left told P) (kind : DeltaKind) (delta : String) (now : ℕ)
    (hgoes : seen s (targetKey s kind) = true → Free drawn (targetKey s kind) ∧ s.assistantMsgId ∉ left)
    (hopen : s.openReasoning = none ∨ kind = .reasoning ∧ s.splitReasoning = false) :
    Streaming (Presentation.deltaText s kind delta now).1 drawn left (told ++ [(kind, delta)])
      (P ++ (Presentation.deltaText s kind delta now).2) := by
  have hbrings := brings_deltaText s kind delta now
  rw [hbrings.events]
  refine h.brings hbrings (seen_deltaText s kind delta now) (statuses_deltaText s kind delta now) ?_
  rcases hseen : seen s (targetKey s kind) with _ | _
  · refine h.takes_fresh hbrings hseen ?_
    rcases hopen with hopen | ⟨rfl, hsplits⟩
    · exact hopen
    · rcases hpart : s.openReasoning with _ | part
      · rfl
      · have hseq := partSeq_splitPart s .reasoning
        have hcurrent : targetKey s .reasoning = (currentKey s .reasoning).text := by
          rw [← text_proseAsk, proseAsk, hseq, if_neg (by simp [splits, hsplits]), Nat.add_zero, currentKey]
        rw [seen, hcurrent, (h.reasoning part hpart).1] at hseen
        cases hseen
  · obtain ⟨hfree, hleft⟩ := hgoes hseen
    refine h.takes_seen hseen hfree hleft ?_ delta now
    rintro rfl
    exact hopen.resolve_right fun hreason => by cases hreason.1

end

end Claxedo.Presentation
