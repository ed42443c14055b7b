import Claxedo.Presentation.OwnParts

/-! Text that streams: the deltas a turn is told and the parts they go to, from what it published alone. -/

namespace Claxedo.Presentation

open Claxedo.Lib Claxedo.Lib.Table

/-- The delta an event brings; of a plan what was not streamed yet. -/
def toldDelta (s : State) : RuntimeEvent → Option (DeltaKind × String)
  | .textDelta delta | .proposedPlanDelta delta => some (.text, delta)
  | .thinkingDelta delta => some (.reasoning, delta)
  | .proposedPlanComplete planMarkdown =>
    if planDelta s planMarkdown = "" then none else some (.text, planDelta s planMarkdown)
  | _ => none

/-- The part an envelope brings a delta, and the delta. -/
def deltaTo : Payload → Option (String × String)
  | .partDelta _ partID delta => some (partID, delta)
  | _ => none

/-- The text or reasoning part an envelope opens. -/
def openedPart : Payload → Option (DeltaKind × PartRef)
  | .partUpdated (.text id messageID _) _ => some (.text, ⟨messageID, id⟩)
  | .partUpdated (.reasoning id messageID _ _ none) _ => some (.reasoning, ⟨messageID, id⟩)
  | _ => none

/-- The reasoning part an envelope ends, and the text it ends with. -/
def endedPart : Payload → Option (PartRef × String)
  | .partUpdated (.reasoning id messageID text _ (some _)) _ => some (⟨messageID, id⟩, text)
  | _ => none

/-- The parts an envelope shows, a call's attachments with it. -/
def shownIds : Payload → List String
  | .partUpdated (.text id ..) _ | .partUpdated (.reasoning id ..) _ | .partUpdated (.notice id ..) _ => [id]
  | .partUpdated (.file part) _ => [part.id]
  | .partUpdated (.tool part) _ => part.id :: part.state.attachments.map FilePart.id
  | _ => []

def allShown (events : List Payload) : List String := events.flatMap shownIds

/-- The parts in the order they were opened. -/
def openedIds (events : List Payload) : List String := firsts (allShown events)

/-- The deltas a part was brought. -/
def streamed (id : String) (events : List Payload) : String :=
  (((events.filterMap deltaTo).filter fun delta => delta.1 = id).map Prod.snd).foldl (· ++ ·) ""

/-- The messages and texts a reasoning part was ended with. -/
def endings (id : String) (events : List Payload) : List (String × String) :=
  (events.filterMap endedPart).filterMap fun ended => if ended.1.partID = id then some (ended.1.messageID, ended.2) else none

def Opened (events : List Payload) (kind : DeltaKind) (ref : PartRef) : Prop := (kind, ref) ∈ events.filterMap openedPart

/-- A delta goes to the part opened last before it. -/
def DeltasOnTop (events : List Payload) : Prop :=
  ∀ before messageID id delta after, events = before ++ .partDelta messageID id delta :: after →
    (openedIds before).getLast? = some id

/-- Every delta goes, as it was told and in order, to a part of its kind, opened once and last; a reasoning part is ended
once, with its message and all its deltas, and has none afterwards. -/
structure StreamsWhole (told : List (DeltaKind × String)) (events : List Payload) : Prop where
  delivered : List.Forall₂ (fun delta t => delta.2 = t.2 ∧ ∃ messageID, Opened events t.1 ⟨messageID, delta.1⟩)
    (events.filterMap deltaTo) told
  once : ((events.filterMap openedPart).map fun opened => opened.2.partID).Nodup
  onTop : DeltasOnTop events
  closed : ∀ ref, Opened events .reasoning ref → endings ref.partID events = [(ref.messageID, streamed ref.partID events)]
  silent : events.Pairwise fun p q => ∀ ended, endedPart p = some ended → ∀ delta, deltaTo q = some delta → delta.1 ≠ ended.1.partID

/-- A turn with what was drawn in it, the deltas it was told and the messages it left. -/
structure Reading where
  gallery : Gallery
  told : List (DeltaKind × String)
  left : List String

namespace Reading

def start (options : Options) : Reading := ⟨.start options, [], []⟩

def state (r : Reading) : State := r.gallery.turn.state

def tells (r : Reading) : Call → List (DeltaKind × String)
  | .ingest event _ => (toldDelta r.state event).toList
  | _ => []

def leaves (r : Reading) : Call → List String
  | .ingest (.stepStart _) _ => [r.state.assistantMsgId]
  | _ => []

def step (options : Options) (r : Reading) (cl : Call) : Reading :=
  ⟨r.gallery.step options cl, r.told ++ r.tells cl, r.left ++ r.leaves cl⟩

/-- A delta goes on with a part only where the part's key is no call's id and its message was not left; reasoning comes
while none is open, or goes on with the open one; and the id of a notice about a durable event is no numbered one. -/
structure StreamsOn (options : Options) (r : Reading) (event : RuntimeEvent) : Prop where
  goesOn : ∀ kind, deltaKind r.state event = some kind → seen r.state (targetKey r.state kind) = true →
    r.gallery.Unclaimed (proseAsk r.state kind).key ∧ r.state.assistantMsgId ∉ r.left
  reasons : deltaKind r.state event = some .reasoning → r.state.openReasoning = none ∨ r.state.splitReasoning = false
  durable : appendsNotice event = true → ∀ eventId, noticeEvent event = some eventId →
    ∀ n name, eventNoticePartId options.sessionId eventId ≠ numberedId n name

def StreamsApart (options : Options) (r : Reading) : Call → Prop
  | .ingest event _ => r.StreamsOn options event
  | _ => True

end Reading

def readingOf (options : Options) (calls : List Call) : Reading := Lib.run (Reading.step options) (Reading.start options) calls

/-- A call that ends the reasoning of a turn that is over. -/
def Call.concludes : Call → Bool
  | .ingest .finish _ | .ingest .cancelled _ | .ingest (.error _) _ | .terminalizeOpenTools .. => true
  | _ => false

/-! Streamed text is whole, and every reasoning part is closed once, in every turn whose deltas find a part of their own. -/

/-! ### Envelopes that bring no text -/

/-- No envelope opens or ends a part of text, or brings it a delta. -/
def Hushed (events : List Payload) : Prop := ∀ p ∈ events, deltaTo p = none ∧ openedPart p = none ∧ endedPart p = none

section
variable {P Q : List Payload}

theorem allShown_append (P Q : List Payload) : allShown (P ++ Q) = allShown P ++ allShown Q := List.flatMap_append

theorem firsts_append_of_subset {as bs : List String} (h : ∀ b ∈ bs, b ∈ as) : firsts (as ++ bs) = firsts as := by
  induction bs using List.reverseRecOn with
  | nil => rw [List.append_nil]
  | append_singleton bs b ih =>
    have hb : b ∈ as ++ bs := List.mem_append_left _ (h b (by simp))
    rw [← List.append_assoc, firsts_snoc, if_pos hb, ih fun b' hb' => h b' (List.mem_append_left _ hb')]

theorem openedIds_append_of_subset (h : ∀ id ∈ allShown Q, id ∈ allShown P) : openedIds (P ++ Q) = openedIds P := by
  rw [openedIds, allShown_append, firsts_append_of_subset h, openedIds]

theorem Hushed.filterMap_deltaTo (h : Hushed Q) : Q.filterMap deltaTo = [] :=
  List.filterMap_eq_nil_iff.mpr fun p hp => (h p hp).1

theorem Hushed.filterMap_openedPart (h : Hushed Q) : Q.filterMap openedPart = [] :=
  List.filterMap_eq_nil_iff.mpr fun p hp => (h p hp).2.1

theorem Hushed.filterMap_endedPart (h : Hushed Q) : Q.filterMap endedPart = [] :=
  List.filterMap_eq_nil_iff.mpr fun p hp => (h p hp).2.2

theorem streamed_append (id : String) (P Q : List Payload) : streamed id (P ++ Q) =
    (((Q.filterMap deltaTo).filter fun delta => delta.1 = id).map Prod.snd).foldl (· ++ ·) (streamed id P) := by
  simp only [streamed, List.filterMap_append, List.filter_append, List.map_append, List.foldl_append]

theorem endings_append (id : String) (P Q : List Payload) : endings id (P ++ Q) = endings id P ++ endings id Q := by
  simp only [endings, List.filterMap_append]

theorem opened_append {kind : DeltaKind} {ref : PartRef} :
    Opened (P ++ Q) kind ref ↔ Opened P kind ref ∨ Opened Q kind ref := by
  simp only [Opened, List.filterMap_append, List.mem_append]

theorem onTop_append (h : DeltasOnTop P)
    (hQ : ∀ before messageID id delta after, Q = before ++ .partDelta messageID id delta :: after →
      (openedIds (P ++ before)).getLast? = some id) : DeltasOnTop (P ++ Q) := by
  intro before messageID id delta after heq
  rcases List.append_eq_append_iff.mp heq with ⟨rest, rfl, hrest⟩ | ⟨rest, hP, hrest⟩
  · exact hQ rest messageID id delta after hrest
  · cases rest with
    | nil =>
      rw [List.append_nil] at hP
      have := hQ [] messageID id delta after hrest.symm
      rwa [List.append_nil, hP] at this
    | cons p rest =>
      obtain ⟨rfl, -⟩ := List.cons.inj hrest
      exact h before messageID id delta rest hP

theorem drawn_of_shown (l : Labels) {p : Payload} {id : String} (h : id ∈ shownIds p) : ∃ d ∈ drawnOf l p, d.partID = id := by
  cases p with
  | partUpdated part time =>
    cases part with
    | tool part =>
      rcases List.mem_cons.mp h with rfl | h
      · exact ⟨_, List.mem_cons_self, rfl⟩
      · obtain ⟨file, hfile, rfl⟩ := List.mem_map.mp h
        obtain ⟨i, hi⟩ := List.mem_iff_getElem?.mp hfile
        have hentry : (file, i) ∈ part.state.attachments.zipIdx 0 := List.mem_zipIdx_iff_getElem?.mpr hi
        exact ⟨_, List.mem_cons_of_mem _ (List.mem_map.mpr ⟨(file, i), hentry, rfl⟩), rfl⟩
    | _ =>
      obtain rfl := List.mem_singleton.mp h
      exact ⟨_, List.mem_singleton_self _, rfl⟩
  | _ => cases h

theorem shown_of_drawn {l : Labels} {d : Drawn} (hQ : Hushed Q) (h : d ∈ drawnAll l Q) (hc : ∃ c, d.content = .call c) :
    d.partID ∈ allShown Q := by
  obtain ⟨c, hc⟩ := hc
  obtain ⟨p, hp, h⟩ := List.mem_flatMap.mp h
  refine List.mem_flatMap.mpr ⟨p, hp, ?_⟩
  cases p with
  | partUpdated part time =>
    cases part with
    | tool part =>
      rcases List.mem_cons.mp h with rfl | h
      · exact List.mem_cons_self
      · obtain ⟨entry, -, rfl⟩ := List.mem_map.mp h
        cases hc
    | _ =>
      obtain rfl := List.mem_singleton.mp h
      exact List.mem_singleton_self _
  | partDelta messageID id delta => cases (hQ _ hp).1
  | _ => cases h

theorem shown_of_opened {kind : DeltaKind} {ref : PartRef} (h : Opened P kind ref) : ref.partID ∈ allShown P := by
  obtain ⟨p, hp, hopened⟩ := List.mem_filterMap.mp h
  refine List.mem_flatMap.mpr ⟨p, hp, ?_⟩
  unfold openedPart at hopened
  split at hopened
  · cases hopened
    exact List.mem_singleton_self _
  · cases hopened
    exact List.mem_singleton_self _
  · cases hopened

theorem shown_of_ended {p : Payload} {ended : PartRef × String} (hp : p ∈ P) (h : endedPart p = some ended) :
    ended.1.partID ∈ allShown P := by
  refine List.mem_flatMap.mpr ⟨p, hp, ?_⟩
  unfold endedPart at h
  split at h
  · cases h
    exact List.mem_singleton_self _
  · cases h

theorem endings_eq_nil {id : String} (h : id ∉ allShown P) : endings id P = [] := by
  refine List.filterMap_eq_nil_iff.mpr fun ended hended => if_neg ?_
  rintro rfl
  obtain ⟨p, hp, hp'⟩ := List.mem_filterMap.mp hended
  exact h (shown_of_ended hp hp')

theorem opened_unique (h : ((P.filterMap openedPart).map fun opened => opened.2.partID).Nodup) {kind kind' : DeltaKind}
    {ref ref' : PartRef} (hopened : Opened P kind ref) (hopened' : Opened P kind' ref') (hid : ref.partID = ref'.partID) :
    kind = kind' ∧ ref = ref' :=
  Prod.mk.inj (List.inj_on_of_nodup_map h hopened hopened' hid)

theorem hushed_of_drawn (l : Labels) (h : ∀ d ∈ drawnAll l Q, ∀ kind, d.content ≠ .prose kind) : Hushed Q := by
  intro p hp
  have hnone : ∀ d ∈ drawnOf l p, ∀ kind, d.content ≠ .prose kind := fun d hd => h d (List.mem_flatMap.mpr ⟨p, hp, hd⟩)
  cases p with
  | partUpdated part time =>
    cases part with
    | text => exact absurd rfl (hnone _ (List.mem_singleton_self _) .text)
    | reasoning => exact absurd rfl (hnone _ (List.mem_singleton_self _) .reasoning)
    | _ => exact ⟨rfl, rfl, rfl⟩
  | partDelta => exact absurd rfl (hnone _ (List.mem_singleton_self _) _)
  | _ => exact ⟨rfl, rfl, rfl⟩

end

/-! ### The invariant -/

/-- The key of the part that deltas of a kind go on with. -/
def currentKey (s : State) (kind : DeltaKind) : PartKey := .prose s.assistantMsgId kind (partSeq s kind)

def splits (s : State) : DeltaKind → Bool
  | .text => s.splitText
  | .reasoning => s.splitReasoning

/-- No call was drawn under this id. -/
def Free (drawn : List Drawn) (key : String) : Prop := ∀ d ∈ drawn, d.content ≠ .call key

/-- A key a text part was minted under: of a message that was left, or no further than the one now written. -/
structure Written (s : State) (left : List String) (P : List Payload) (key id : String) (m : String) (kind : DeltaKind)
    (n : ℕ) : Prop where
  text : (PartKey.prose m kind n).text = key
  within : m ∈ left ∨ m = s.assistantMsgId ∧ n ≤ partSeq s kind
  opened : ∃ messageID, Opened P kind ⟨messageID, id⟩

/-- Where the text of a turn stands. -/
structure Streaming (s : State) (drawn : List Drawn) (left : List String) (told : List (DeltaKind × String)) (P : List Payload) :
    Prop where
  sound : SoundIds s.partIdMap
  shown : ∀ id ∈ allShown P, (∃ key, Assoc.lookup key s.partIdMap = some id) ∨ ∀ n name, id ≠ numberedId n name
  keys : ∀ key id, Assoc.lookup key s.partIdMap = some id → Minted drawn key ∨ ∃ m kind n, Written s left P key id m kind n
  statuses : ∀ c, (statusOf s c).isSome = true → ∃ id ∈ allShown P, Assoc.lookup c s.partIdMap = some id
  top : ∀ kind, splits s kind = false → s.assistantMsgId ∉ left → Free drawn (currentKey s kind).text →
    ∀ id, Assoc.lookup (currentKey s kind).text s.partIdMap = some id →
      (openedIds P).getLast? = some id ∧ (kind = .reasoning → ∃ part, s.openReasoning = some part ∧ part.partId = id)
  reasoning : ∀ part, s.openReasoning = some part →
    Assoc.lookup (currentKey s .reasoning).text s.partIdMap = some part.partId ∧
      Opened P .reasoning ⟨part.messageId, part.partId⟩ ∧ endings part.partId P = [] ∧ part.text = streamed part.partId P
  ended : ∀ ref, Opened P .reasoning ref → (∃ part, s.openReasoning = some part ∧ part.partId = ref.partID) ∨
    endings ref.partID P = [(ref.messageID, streamed ref.partID P)]
  ends : ∀ p ∈ P, ∀ ended, endedPart p = some ended → Opened P .reasoning ended.1
  running : ∀ id, s.notices.runningCompactionPartId = some id → id ∈ allShown P
  known : ∀ p ∈ P, ∀ delta, deltaTo p = some delta → delta.1 ∈ allShown P
  delivered : List.Forall₂ (fun delta t => delta.2 = t.2 ∧ ∃ messageID, Opened P t.1 ⟨messageID, delta.1⟩) (P.filterMap deltaTo) told
  once : ((P.filterMap openedPart).map fun opened => opened.2.partID).Nodup
  onTop : DeltasOnTop P
  silent : P.Pairwise fun p q => ∀ ended, endedPart p = some ended → ∀ delta, deltaTo q = some delta → delta.1 ≠ ended.1.partID

theorem streaming_start (options : Options) :
    Streaming (createClientPresentationProjectionState options.assistantMessageId) [] [] [] [] where
  sound := ⟨List.nodup_nil, nofun⟩
  shown := nofun
  keys := nofun
  statuses := nofun
  top := nofun
  reasoning := nofun
  ended := nofun
  ends := nofun
  running := nofun
  known := nofun
  delivered := .nil
  once := List.nodup_nil
  onTop := fun before messageID id delta after h => by simp at h
  silent := .nil

/-! ### Envelopes beside the text -/

/-- What the deltas go by is as it was. -/
structure Stays (s s' : State) : Prop where
  message : s'.assistantMsgId = s.assistantMsgId
  seq : ∀ kind, partSeq s' kind = partSeq s kind
  reasoning : s'.openReasoning = s.openReasoning

section
variable {s s' : State} {drawn drawn' : List Drawn} {left : List String} {told : List (DeltaKind × String)} {P Q : List Payload}

theorem Frame.stays (h : Frame s s') : Stays s s' :=
  ⟨h.message, fun kind => by cases kind; exacts [h.textSeq, h.reasoningSeq], h.reasoning⟩

theorem Frame.splits (h : Frame s s') (kind : DeltaKind) : splits s' kind = splits s kind := by
  cases kind
  exacts [h.splitText, h.splitReasoning]

theorem Stays.currentKey (h : Stays s s') (kind : DeltaKind) : currentKey s' kind = currentKey s kind := by
  rw [Presentation.currentKey, h.message, h.seq, Presentation.currentKey]

theorem Written.mono {key id m : String} {kind : DeltaKind} {n : ℕ} (h : Written s left P key id m kind n)
    (hmessage : s'.assistantMsgId = s.assistantMsgId) (hseq : partSeq s kind ≤ partSeq s' kind) (Q : List Payload) :
    Written s' left (P ++ Q) key id m kind n := by
  refine ⟨h.text, h.within.imp_right fun hcurrent => ⟨hcurrent.1.trans hmessage.symm, hcurrent.2.trans hseq⟩, ?_⟩
  obtain ⟨messageID, hopened⟩ := h.opened
  exact ⟨messageID, opened_append.mpr (.inl hopened)⟩

/-- A key of text was minted for no other part, unless a call drawn before has it for its id. -/
theorem Minted.not_free {m : String} {kind : DeltaKind} {n : ℕ} (h : Minted drawn (PartKey.prose m kind n).text)
    (hfree : Free drawn (PartKey.prose m kind n).text) : False := by
  obtain ⟨k, htext, hprose, hcall⟩ := h
  rcases hk : k.isCall with _ | _
  · rw [PartKey.text_inj hk rfl htext] at hprose
    cases hprose
  · cases k with
    | call c =>
      obtain ⟨d, hd, hc⟩ := hcall c rfl
      obtain rfl : c = _ := htext
      exact hfree d hd hc
    | _ => cases hk

theorem Streaming.mono (h : Streaming s drawn left told P) (hsub : ∀ d ∈ drawn, d ∈ drawn') : Streaming s drawn' left told P :=
  { h with
    keys := fun key id hid => (h.keys key id hid).imp_left fun hminted => hminted.mono hsub
    top := fun kind hsplit hleft hfree => h.top kind hsplit hleft fun d hd => hfree d (hsub d hd) }

/-- Envelopes that bring no text, in a state whose text goes on as it was, or as new parts. -/
theorem Streaming.hushed (h : Streaming s drawn left told P) (hstays : Stays s s') (hgrows : Grows s.partIdMap s'.partIdMap)
    (hkeys : ∀ key, seen s' key = true → seen s key = true ∨ Minted drawn key)
    (hstatuses : ∀ c, (statusOf s' c).isSome = true → (statusOf s c).isSome = true ∨
      ∃ id ∈ allShown Q, Assoc.lookup c s'.partIdMap = some id)
    (hrunning : ∀ id, s'.notices.runningCompactionPartId = some id →
      s.notices.runningCompactionPartId = some id ∨ id ∈ allShown Q)
    (hQ : Hushed Q)
    (hshown : ∀ id ∈ allShown Q, (∃ key, Assoc.lookup key s'.partIdMap = some id) ∨ ∀ n name, id ≠ numberedId n name)
    (hsplits : (∀ kind, splits s' kind = true) ∨
      (∀ kind, splits s' kind = splits s kind) ∧ ∀ id ∈ allShown Q, id ∈ allShown P) :
    Streaming s' drawn left told (P ++ Q) := by
  have hendings (id : String) : endings id (P ++ Q) = endings id P := by
    rw [endings_append, endings, endings, hQ.filterMap_endedPart, List.filterMap_nil, List.append_nil]
  have hstreamed (id : String) : streamed id (P ++ Q) = streamed id P := by
    rw [streamed_append, hQ.filterMap_deltaTo]
    rfl
  have hold {key id : String} (hid : Assoc.lookup key s'.partIdMap = some id) :
      Assoc.lookup key s.partIdMap = some id ∨ Minted drawn key := by
    refine (hkeys key (by rw [seen, hid]; rfl)).imp_left fun hseen => ?_
    obtain ⟨id', hid'⟩ := Option.isSome_iff_exists.mp hseen
    rw [hid', ← hid, hgrows.lookup hid']
  refine ⟨hgrows.sound h.sound, fun id hid => ?_, fun key id hid => ?_, fun c hc => ?_, ?_, fun part hpart => ?_, fun ref href => ?_,
    fun p hp ended hended => ?_, fun id hid => ?_, fun p hp delta hdelta => ?_, ?_, ?_, ?_, ?_⟩
  · rw [allShown_append] at hid
    rcases List.mem_append.mp hid with hid | hid
    · exact (h.shown id hid).imp_left fun hkey => hkey.imp fun key hkey => hgrows.lookup hkey
    · exact hshown id hid
  · rcases hold hid with hid | hminted
    · refine (h.keys key id hid).imp_right ?_
      rintro ⟨m, kind, n, hwritten⟩
      exact ⟨m, kind, n, hwritten.mono hstays.message (hstays.seq kind).ge Q⟩
    · exact .inl hminted
  · rw [allShown_append]
    rcases hstatuses c hc with hc | ⟨id, hid, hkey⟩
    · obtain ⟨id, hid, hkey⟩ := h.statuses c hc
      exact ⟨id, List.mem_append_left _ hid, hgrows.lookup hkey⟩
    · exact ⟨id, List.mem_append_right _ hid, hkey⟩
  · intro kind hsplit hleft hfree id hid
    rcases hsplits with hsplits | ⟨hsplits, hsub⟩
    · rw [hsplits] at hsplit
      cases hsplit
    · rw [hstays.currentKey] at hfree hid
      rw [hstays.message] at hleft
      rw [openedIds_append_of_subset hsub, hstays.reasoning]
      rcases hold hid with hid | hminted
      · exact h.top kind (hsplits kind ▸ hsplit) hleft hfree id hid
      · exact (hminted.not_free hfree).elim
  · rw [hstays.reasoning] at hpart
    obtain ⟨hkey, hopened, hnone, htext⟩ := h.reasoning part hpart
    rw [hstays.currentKey, hendings, hstreamed]
    exact ⟨hgrows.lookup hkey, opened_append.mpr (.inl hopened), hnone, htext⟩
  · rw [hstays.reasoning, hendings, hstreamed]
    rcases opened_append.mp href with href | href
    · exact h.ended ref href
    · rw [Opened, hQ.filterMap_openedPart] at href
      cases href
  · rcases List.mem_append.mp hp with hp | hp
    · exact opened_append.mpr (.inl (h.ends p hp ended hended))
    · rw [(hQ p hp).2.2] at hended
      cases hended
  · rw [allShown_append]
    rcases hrunning id hid with hid | hid
    · exact List.mem_append_left _ (h.running id hid)
    · exact List.mem_append_right _ hid
  · rw [allShown_append]
    rcases List.mem_append.mp hp with hp | hp
    · exact List.mem_append_left _ (h.known p hp delta hdelta)
    · rw [(hQ p hp).1] at hdelta
      cases hdelta
  · rw [List.filterMap_append, hQ.filterMap_deltaTo, List.append_nil]
    refine h.delivered.imp fun delta t hdelta => ⟨hdelta.1, ?_⟩
    exact hdelta.2.imp fun messageID hopened => opened_append.mpr (.inl hopened)
  · rw [List.filterMap_append, hQ.filterMap_openedPart, List.append_nil]
    exact h.once
  · refine onTop_append h.onTop fun before messageID id delta after hbefore => ?_
    have hnone := (hQ (.partDelta messageID id delta) (hbefore ▸ List.mem_append_right _ List.mem_cons_self)).1
    cases hnone
  · refine List.pairwise_append.mpr ⟨h.silent, ?_, fun p hp q hq ended hended delta hdelta => ?_⟩
    · refine List.pairwise_iff_forall_sublist.mpr fun hsub ended hended => ?_
      rw [(hQ _ (hsub.subset List.mem_cons_self)).2.2] at hended
      cases hended
    · rw [(hQ q hq).1] at hdelta
      cases hdelta

/-- Nothing was published, and nothing the text goes by changed. -/
theorem Streaming.same (h : Streaming s drawn left told P) (hframe : Frame s s') (hids : s'.partIdMap = s.partIdMap)
    (hstatuses : ∀ c, (statusOf s' c).isSome = true → (statusOf s c).isSome = true) : Streaming s' drawn left told P := by
  have hsame := h.hushed (Q := []) hframe.stays (hids ▸ .refl _) (fun key hkey => .inl (by rwa [← seen_congr hids]))
    (fun c hc => .inl (hstatuses c hc)) (fun id hid => .inl (by rwa [← hframe.running])) nofun nofun
    (.inr ⟨hframe.splits, nofun⟩)
  rwa [List.append_nil] at hsame

/-- Envelopes that show nothing, in the same state. -/
theorem Streaming.beside (h : Streaming s drawn left told P) (hQ : ∀ p ∈ Q, ∀ l, drawnOf l p = []) :
    Streaming s drawn left told (P ++ Q) := by
  have hnothing : allShown Q = [] := by
    refine List.flatMap_eq_nil_iff.mpr fun p hp => List.eq_nil_iff_forall_not_mem.mpr fun id hid => ?_
    obtain ⟨d, hd, -⟩ := drawn_of_shown ⟨.file 0, .notice 0, .text⟩ hid
    rw [hQ p hp] at hd
    cases hd
  have hhushed : Hushed Q := by
    refine hushed_of_drawn ⟨.file 0, .notice 0, .text⟩ fun d hd => ?_
    obtain ⟨p, hp, hd⟩ := List.mem_flatMap.mp hd
    rw [hQ p hp] at hd
    cases hd
  refine h.hushed (Frame.refl s).stays (.refl _) (fun key hkey => .inl hkey) (fun c hc => .inl hc) (fun id hid => .inl hid) hhushed
    ?_ (.inr ⟨fun _ => rfl, ?_⟩) <;> rw [hnothing] <;> nofun

/-- The open reasoning is ended. -/
theorem Streaming.closed (h : Streaming s drawn left told P) {part : OpenReasoningPart} (hopen : s.openReasoning = some part)
    (now : ℕ) : Streaming { s with openReasoning := none, splitReasoning := true } drawn left told (P ++ [closing now part]) := by
  obtain ⟨hkey, hopened, hnone, htext⟩ := h.reasoning part hopen
  have hshown := shown_of_opened hopened
  have hsub : ∀ id ∈ allShown [closing now part], id ∈ allShown P := by
    intro id hid
    obtain rfl := List.mem_singleton.mp hid
    exact hshown
  have hstreamed (id : String) : streamed id (P ++ [closing now part]) = streamed id P := streamed_append id P _
  have hseen {kind : DeltaKind} {ref : PartRef} (href : Opened (P ++ [closing now part]) kind ref) : Opened P kind ref := by
    rcases opened_append.mp href with href | href
    · exact href
    · cases href
  have hmono {kind : DeltaKind} {ref : PartRef} (href : Opened P kind ref) : Opened (P ++ [closing now part]) kind ref :=
    opened_append.mpr (.inl href)
  refine ⟨h.sound, fun id hid => ?_, fun key id hid => ?_, fun c hc => ?_, fun kind hsplit hleft hfree id hid => ?_, nofun,
    fun ref href => .inr ?_, fun p hp ended hended => ?_, fun id hid => ?_, fun p hp delta hdelta => ?_, ?_, ?_, ?_, ?_⟩
  · rw [allShown_append] at hid
    rcases List.mem_append.mp hid with hid | hid
    · exact h.shown id hid
    · exact h.shown id (hsub id hid)
  · refine (h.keys key id hid).imp_right ?_
    rintro ⟨m, kind, n, hwritten⟩
    refine ⟨m, kind, n, hwritten.mono ?_ ?_ _⟩
    · rfl
    · cases kind <;> exact Nat.le_refl _
  · rw [allShown_append]
    obtain ⟨id, hid, hkey⟩ := h.statuses c hc
    exact ⟨id, List.mem_append_left _ hid, hkey⟩
  · cases kind with
    | text =>
      rw [openedIds_append_of_subset hsub]
      exact ⟨(h.top .text hsplit hleft hfree id hid).1, nofun⟩
    | reasoning => cases hsplit
  · rw [hstreamed, endings_append]
    by_cases hsame : part.partId = ref.partID
    · obtain ⟨-, rfl⟩ := opened_unique h.once hopened (hseen href) hsame
      rw [hnone, ← htext]
      simp [endings, endedPart, closing]
    · have hother : endings ref.partID [closing now part] = [] := by simp [endings, endedPart, closing, hsame]
      rw [hother, List.append_nil]
      rcases h.ended ref (hseen href) with ⟨part', hpart', hid⟩ | hended
      · rw [hopen] at hpart'
        exact absurd ((congrArg OpenReasoningPart.partId (Option.some.inj hpart')).trans hid) hsame
      · exact hended
  · rcases List.mem_append.mp hp with hp | hp
    · exact hmono (h.ends p hp ended hended)
    · obtain rfl := List.mem_singleton.mp hp
      obtain rfl := Option.some.inj hended
      exact hmono hopened
  · rw [allShown_append]
    exact List.mem_append_left _ (h.running id hid)
  · rw [allShown_append]
    rcases List.mem_append.mp hp with hp | hp
    · exact List.mem_append_left _ (h.known p hp delta hdelta)
    · obtain rfl := List.mem_singleton.mp hp
      cases hdelta
  · rw [List.filterMap_append, show [closing now part].filterMap deltaTo = [] from rfl, List.append_nil]
    exact h.delivered.imp fun delta t hdelta => ⟨hdelta.1, hdelta.2.imp fun messageID hopened => hmono hopened⟩
  · rw [List.filterMap_append, show [closing now part].filterMap openedPart = [] from rfl, List.append_nil]
    exact h.once
  · refine onTop_append h.onTop fun before messageID id delta after hbefore => ?_
    have hmem : Payload.partDelta messageID id delta ∈ [closing now part] := hbefore ▸ List.mem_append_right _ List.mem_cons_self
    cases List.mem_singleton.mp hmem
  · refine List.pairwise_append.mpr ⟨h.silent, List.pairwise_singleton _ _, fun p hp q hq ended hended delta hdelta => ?_⟩
    obtain rfl := List.mem_singleton.mp hq
    cases hdelta

/-! ### Calls, files and notices -/

/-- What is asked for is a part of its own, and no text. -/
def Aside (asks : List Ask) : Prop :=
  ∀ a ∈ asks, (∀ kind, a.content ≠ .prose kind) ∧ ∀ c, a.content = .call c → a.key.text = c

variable {l : Labels} {asks : List Ask} {answered : State × List Payload}

theorem Draws.hushed (h : Draws l asks s answered) (hasks : Aside asks) : Hushed answered.2 := by
  refine hushed_of_drawn l fun d hd kind => ?_
  obtain ⟨a, ha, hfills⟩ := h.drawn d hd
  rw [hfills.content]
  exact (hasks a ha).1 kind

theorem Draws.shown (h : Draws l asks s answered) {id : String} (hid : id ∈ allShown answered.2) :
    ∃ a ∈ asks, Assoc.lookup a.key.text answered.1.partIdMap = some id := by
  obtain ⟨p, hp, hid⟩ := List.mem_flatMap.mp hid
  obtain ⟨d, hd, rfl⟩ := drawn_of_shown l hid
  obtain ⟨a, ha, hfills⟩ := h.drawn d (List.mem_flatMap.mpr ⟨p, hp, hd⟩)
  exact ⟨a, ha, hfills.partID⟩

/-- An answer that draws parts of their own, with the text going on as it was, or as new parts. -/
theorem Streaming.draws (h : Streaming s drawn left told P) (hdraws : Draws l asks s' answered) (hasks : Aside asks)
    (hstays : Stays s s') (hids : s'.partIdMap = s.partIdMap) (hstatus : s'.toolStatusByCallId = s.toolStatusByCallId)
    (hrunning : s'.notices.runningCompactionPartId = s.notices.runningCompactionPartId)
    (hdrawn : ∀ d ∈ drawnAll l answered.2, d ∈ drawn)
    (hsplits : (∀ kind, splits s' kind = true) ∨
      (∀ kind, splits s' kind = splits s kind) ∧ ∀ a ∈ asks, ∃ c, a.key.text = c ∧ (statusOf s c).isSome = true) :
    Streaming answered.1 drawn left told (P ++ answered.2) := by
  have hhushed := hdraws.hushed hasks
  have hframe := hdraws.frame.stays
  refine h.hushed ⟨hframe.message.trans hstays.message, fun kind => (hframe.seq kind).trans (hstays.seq kind),
    hframe.reasoning.trans hstays.reasoning⟩ (hids ▸ hdraws.grows) (fun key hkey => ?_) (fun c hc => ?_) (fun id hid => .inl ?_)
    hhushed (fun id hid => .inl ?_) ?_
  · rw [← seen_congr hids]
    exact (hdraws.keys key hkey).imp_right fun hminted => hminted.mono hdrawn
  · rw [statusOf, ← hstatus]
    refine (hdraws.statuses c hc).imp_right fun hcall => ?_
    obtain ⟨d, hd, hcontent⟩ := hcall
    obtain ⟨a, ha, hfills⟩ := hdraws.drawn d hd
    refine ⟨d.partID, shown_of_drawn hhushed hd ⟨c, hcontent⟩, ?_⟩
    rw [← (hasks a ha).2 c (hfills.content ▸ hcontent)]
    exact hfills.partID
  · rw [← hrunning, ← hdraws.frame.running]
    exact hid
  · obtain ⟨a, -, hkey⟩ := hdraws.shown hid
    exact ⟨_, hkey⟩
  · refine hsplits.imp (fun hsplits kind => (hdraws.frame.splits kind).trans (hsplits kind)) ?_
    rintro ⟨hsplits, hopen⟩
    refine ⟨fun kind => (hdraws.frame.splits kind).trans (hsplits kind), fun id hid => ?_⟩
    obtain ⟨a, ha, hkey⟩ := hdraws.shown hid
    obtain ⟨c, hc, hstatus⟩ := hopen a ha
    obtain ⟨id', hid', hkey'⟩ := h.statuses c hstatus
    have hkept := hdraws.grows.lookup (hids ▸ hkey')
    rw [← hc, hkey] at hkept
    exact Option.some.inj hkept ▸ hid'

theorem splits_split (s : State) (kind : DeltaKind) : splits (split s) kind = true := by cases kind <;> rfl

theorem stays_split (s : State) : Stays s (split s) := ⟨rfl, fun kind => by cases kind <;> rfl, rfl⟩

/-- An answer after which text goes on as new parts. -/
theorem Streaming.apart (h : Streaming s drawn left told P) (hdraws : Draws l asks (split s) answered) (hasks : Aside asks)
    (hdrawn : ∀ d ∈ drawnAll l answered.2, d ∈ drawn) : Streaming answered.1 drawn left told (P ++ answered.2) :=
  h.draws hdraws hasks (stays_split s) rfl rfl rfl hdrawn (.inl (splits_split s))

theorem aside_callAsks (m c : String) (n : ℕ) : Aside (callAsks m c n) := by
  intro a ha
  rcases List.mem_cons.mp ha with rfl | ha
  · exact ⟨nofun, fun c' hc' => Content.call.inj hc'⟩
  · obtain ⟨i, -, rfl⟩ := List.mem_map.mp ha
    exact ⟨nofun, nofun⟩

theorem aside_reportAsks (ctx : State) (event : RuntimeEvent) : Aside (reportAsks ctx event) := by
  unfold reportAsks
  rcases reportedCall ctx event with _ | c
  · exact nofun
  · exact aside_callAsks _ _ _

theorem aside_sweep (m : String) (cs : List String) : Aside (cs.map (callAsk m)) := by
  intro a ha
  obtain ⟨c, -, rfl⟩ := List.mem_map.mp ha
  exact ⟨nofun, fun c' hc' => Content.call.inj hc'⟩

theorem status_of_swept {withdrawn : Option Withdrawn} {c : String} (hc : c ∈ swept s withdrawn) : (statusOf s c).isSome = true := by
  obtain ⟨entry, hentry, rfl⟩ := List.mem_map.mp hc
  have hmem := (List.mem_filter.mp hentry).1
  rw [statusOf, Assoc.lookup, Option.isSome_map, Option.isSome_iff_ne_none]
  exact fun hnone => Table.get_eq_none_iff.mp hnone entry hmem rfl

theorem Streaming.sweep (h : Streaming s drawn left told P) {withdrawn : Option Withdrawn} {m : String}
    (hdraws : Draws l ((swept s withdrawn).map (callAsk m)) s answered)
    (hdrawn : ∀ d ∈ drawnAll l answered.2, d ∈ drawn) : Streaming answered.1 drawn left told (P ++ answered.2) := by
  refine h.draws hdraws (aside_sweep _ _) (Frame.refl s).stays rfl rfl rfl hdrawn (.inr ⟨fun _ => rfl, fun a ha => ?_⟩)
  obtain ⟨c, hc, rfl⟩ := List.mem_map.mp ha
  exact ⟨c, rfl, status_of_swept hc⟩

end

end Claxedo.Presentation
