import Claxedo.Lib.JsText
import Claxedo.Lib.Run
import Claxedo.Lib.Table

/-! `streamRuntimeReplies`: what a turn's events tell a chat. A reply is one text, which full updates of parts write anew and
streamed deltas are added to; it is the assistant's text as long as neither meets what the other wrote. -/

namespace Claxedo.Channels

open Claxedo.Lib

/-- A message's part; a field that holds no text is none. -/
structure MessagePart where
  type : Option String
  id : Option String
  messageID : Option String
  text : Option String

/-- A message; the id of it is not read. -/
structure MessageInfo where
  id : Option String
  role : Option String

/-- What a `permission.asked` holds; of the patterns those that are texts. -/
structure PermissionAsked where
  id : Option String
  permission : Option String
  tool : Option String
  metadataTitle : Option String
  title : Option String
  description : Option String
  patterns : List String

/-- An event by its `type`, with what the sink could read of it. -/
inductive RuntimeEvent where
  | textDelta (delta : Option String)
  | messageUpdated (info : Option MessageInfo) (parts : Option (List MessagePart))
  | messagePartUpdated (part : Option MessagePart)
  | messagePartDelta (messageID partID delta : Option String)
  | permissionAsked (properties : Option PermissionAsked)
  | sessionStatus (status : Option String)
  | finish
  | cancelled
  | error (error : Option String)
  | elsewhere (type : Option String)

inductive StatusPhase where
  | running
  | done
  | failed
  deriving DecidableEq

structure ApprovalRequest where
  callId : String
  tool : String
  summary : String
  sessionId : String
  threadKey : Option String
  token : Option String := none
  requestee : Option String

inductive OutboundChunk where
  | text (text : String) (final : Bool)
  | approval (request : ApprovalRequest)
  | status (phase : StatusPhase) (sessionId : String) (appUrl : Option String)

/-- `approvals` answers the chunk that asks for an approval. -/
structure ReplyInput where
  sessionId : String
  threadKey : Option String := none
  appUrl : Option String := none
  requestee : Option String := none
  approvals : Option (ApprovalRequest → OutboundChunk) := none

/-- A string with visible content. -/
def filled (s : Option String) : Option String := s.filter fun s => s.toList.any fun c => !NumberText.isSpace c

def nonEmpty (s : Option String) : Option String := s.filter (· ≠ "")

def textFromPart (part : MessagePart) : Option String := if part.type = some "text" then part.text else none

def textFromMessageUpdated (info : Option MessageInfo) (parts : Option (List MessagePart)) : Option String :=
  if info.bind MessageInfo.role ≠ some "assistant" then none
  else parts.map fun parts => String.join (parts.filterMap textFromPart)

def textPartUpdate : RuntimeEvent → Option (String × String)
  | .messagePartUpdated (some part) =>
    if part.type = some "text" then part.text.map fun text => (part.id.getD "part", text) else none
  | _ => none

def textFromRuntimeEvent : RuntimeEvent → Option String
  | .textDelta delta => delta
  | .messageUpdated info parts => textFromMessageUpdated info parts
  | .messagePartDelta _ _ delta => delta
  | _ => none

def statusFromRuntimeEvent : RuntimeEvent → Option StatusPhase
  | .sessionStatus (some "busy") => some .running
  | .sessionStatus (some "idle") => some .done
  | .sessionStatus (some "error") => some .failed
  | .finish | .cancelled => some .done
  | .error _ => some .failed
  | _ => none

def approvalFromRuntimeEvent (input : ReplyInput) : RuntimeEvent → Option ApprovalRequest
  | .permissionAsked (some properties) => properties.id.map fun id =>
    let patterns := properties.patterns.filterMap fun pattern => filled (some pattern)
    let title := ((filled properties.metadataTitle).or (filled properties.title)).or (filled properties.description)
    { callId := id
      tool := ((filled properties.permission).or (filled properties.tool)).getD "tool"
      summary := title.getD (if patterns ≠ [] then "Permission is required for " ++ String.intercalate ", " patterns ++ "."
        else "Permission is required to continue.")
      sessionId := input.sessionId
      threadKey := nonEmpty input.threadKey
      requestee := nonEmpty input.requestee }
  | _ => none

/-- What the loop carries, with the chunks it has replied, oldest first. -/
structure ReplyState where
  emittedText : Bool := false
  failed : Bool := false
  failureText : Option String := none
  accumulated : String := ""
  parts : List (String × String) := []
  replied : List OutboundChunk

namespace ReplyState

def reply (s : ReplyState) (chunk : OutboundChunk) : ReplyState := { s with replied := s.replied ++ [chunk] }

def replyStatus (s : ReplyState) (input : ReplyInput) (phase : StatusPhase) : ReplyState :=
  s.reply (.status phase input.sessionId (nonEmpty input.appUrl))

def replyText (s : ReplyState) (accumulated : String) : ReplyState :=
  { s with accumulated, emittedText := true }.reply (.text accumulated false)

end ReplyState

/-- The status an event brings. -/
def takeStatus (input : ReplyInput) (s : ReplyState) (event : RuntimeEvent) : ReplyState :=
  match statusFromRuntimeEvent event with
  | none => s
  | some phase =>
    { s with
      failed := s.failed || phase = StatusPhase.failed
      failureText := match event with
        | .error (some error) => some error
        | _ => s.failureText }.replyStatus input phase

/-- The text an event brings. -/
def takeText (s : ReplyState) (event : RuntimeEvent) : ReplyState :=
  match textPartUpdate event with
  | some (id, text) =>
    let parts := Assoc.assign id text s.parts
    { s with parts }.replyText (String.join (parts.map Prod.snd))
  | none =>
    match nonEmpty (textFromRuntimeEvent event) with
    | none => s
    | some text => s.replyText (match event with
      | .messageUpdated _ _ => text
      | _ => s.accumulated ++ text)

/-- One pass of the loop. -/
def takeEvent (input : ReplyInput) (s : ReplyState) (event : RuntimeEvent) : ReplyState :=
  match approvalFromRuntimeEvent input event, input.approvals with
  | some approval, some request => s.reply (request approval)
  | _, _ => takeText (takeStatus input s event) event

def replyStart (input : ReplyInput) : ReplyState :=
  { replied := [.status .running input.sessionId (nonEmpty input.appUrl)] }

/-- The chunks of a turn whose events have ended. -/
def streamRuntimeReplies (input : ReplyInput) (events : List RuntimeEvent) : List OutboundChunk :=
  let s := run (takeEvent input) (replyStart input) events
  let replied := if s.emittedText then s.replied else s.replied ++ [.text ("Session " ++ input.sessionId ++ " updated.") false]
  replied ++ [.text
    (if s.failed then
      match nonEmpty s.failureText with
      | some error => "Run failed: " ++ error
      | none => "Run failed."
    else match nonEmpty input.appUrl with
      | some appUrl => "Open: " ++ appUrl
      | none => "Done.") true]

/-! What the reply should say. -/

/-- Whose a turn's messages are, and what its parts are and belong to, whatever order the events come in. -/
structure Turn where
  role : String → String
  message : String → String
  type : String → String

namespace Turn

/-- The part is text of the assistant's. -/
def IsReply (turn : Turn) (id : String) : Prop := turn.type id = "text" ∧ turn.role (turn.message id) = "assistant"

instance (turn : Turn) (id : String) : Decidable (turn.IsReply id) := inferInstanceAs (Decidable (_ ∧ _))

/-- The turn's presentation events: an update of a message, of a part with all its fields, or a delta of a part. -/
inductive Has (turn : Turn) : RuntimeEvent → Prop
  | messageUpdated (id : String) : Has turn (.messageUpdated (some ⟨some id, some (turn.role id)⟩) none)
  | textUpdated (id text : String) (h : turn.type id = "text") :
      Has turn (.messagePartUpdated (some ⟨some "text", some id, some (turn.message id), some text⟩))
  | otherUpdated (id : String) (text : Option String) (h : turn.type id ≠ "text") :
      Has turn (.messagePartUpdated (some ⟨some (turn.type id), some id, some (turn.message id), text⟩))
  | messagePartDelta (id delta : String) : Has turn (.messagePartDelta (some (turn.message id)) (some id) (some delta))

end Turn

/-- A text part of the assistant's that has appeared: its last full update, and the deltas received for it since. -/
structure ReplyPart where
  id : String
  updated : Option String := none
  since : String := ""

def ReplyPart.text (part : ReplyPart) : String := part.updated.getD "" ++ part.since

namespace Turn

def appear (turn : Turn) (shown : List ReplyPart) : RuntimeEvent → List ReplyPart
  | .messagePartUpdated (some ⟨_, some id, _, some text⟩) =>
    if turn.IsReply id then Table.put ReplyPart.id { id, updated := some text } shown else shown
  | .messagePartDelta _ (some id) (some delta) =>
    if turn.IsReply id then
      let part := (Table.get ReplyPart.id id shown).getD { id }
      Table.put ReplyPart.id { part with since := part.since ++ delta } shown
    else shown
  | _ => shown

/-- The assistant's text parts in the order of their first appearance. -/
def replyText (turn : Turn) (events : List RuntimeEvent) : String := String.join ((run turn.appear [] events).map ReplyPart.text)

/-- A text part is updated only if it is the assistant's, and no other has had deltas since its last update; and a delta is for a
text part of the assistant's that is new, or has no text after it. -/
def Apart (turn : Turn) (shown : List ReplyPart) : RuntimeEvent → Prop
  | .messagePartUpdated (some ⟨some "text", some id, _, _⟩) =>
    turn.IsReply id ∧ ∀ other ∈ shown, other.id ≠ id → other.since = ""
  | .messagePartDelta _ (some id) (some delta) =>
    ¬ turn.IsReply id ∧ delta = "" ∨ turn.IsReply id ∧ ((∀ part ∈ shown, part.id ≠ id) ∧ delta ≠ "" ∨
      ∃ before part after, shown = before ++ part :: after ∧ part.id = id ∧ ∀ other ∈ after, other.text = "")
  | _ => True

end Turn

/-- The text of the last chunk that is a text and not the final one. -/
def lastText (replied : List OutboundChunk) : Option String :=
  (replied.filterMap fun chunk => match chunk with
    | .text text false => some text
    | _ => none).getLast?

/-- After each event the reply is the assistant's text, and whatever was sent on the way was it at its time. -/
structure RepliesAssistant (input : ReplyInput) (turn : Turn) (events : List RuntimeEvent) : Prop where
  last : ∀ before, before <+: events →
    (lastText (run (takeEvent input) (replyStart input) before).replied).getD "" = turn.replyText before
  only : ∀ text, .text text false ∈ (run (takeEvent input) (replyStart input) events).replied →
    ∃ before, before <+: events ∧ text = turn.replyText before

section
variable {input : ReplyInput} {turn : Turn} {s : ReplyState} {shown : List ReplyPart}

theorem join_append (l m : List String) : String.join (l ++ m) = String.join l ++ String.join m := by
  have hfrom : ∀ (m : List String) (s : String), m.foldl (· ++ ·) s = s ++ m.foldl (· ++ ·) "" := by
    intro m
    induction m with
    | nil => intro s; simp
    | cons t m ih =>
      intro s
      rw [List.foldl_cons, List.foldl_cons, ih (s ++ t), ih ("" ++ t), String.empty_append, String.append_assoc]
  unfold String.join
  rw [List.foldl_append, hfrom]

theorem join_empty {l : List String} (h : ∀ s ∈ l, s = "") : String.join l = "" := by
  rw [List.eq_replicate_of_mem h]
  induction l.length with
  | zero => rfl
  | succ n ih => rw [List.replicate_succ, ← List.singleton_append, join_append, ih]; rfl

theorem lastText_append (replied : List OutboundChunk) (chunk : OutboundChunk) :
    lastText (replied ++ [chunk]) = match chunk with
      | .text text false => some text
      | _ => lastText replied := by
  unfold lastText
  rw [List.filterMap_append]
  rcases chunk with ⟨text, _ | _⟩ | _ | _ <;> simp

/-- What the sink has of a part, from its last update on. -/
def ReplyPart.entry (part : ReplyPart) : Option (String × String) := part.updated.map fun text => (part.id, text)

/-- The sink knows every part that was updated, by its last update, and has told what all of them say; those that were only
streamed come last. -/
structure Told (s : ReplyState) (shown : List ReplyPart) : Prop where
  parts : s.parts = shown.filterMap ReplyPart.entry
  streamed : ∀ part ∈ shown, part.updated = none → part.since ≠ ""
  ends : (shown.map ReplyPart.updated).Pairwise fun earlier later => earlier = none → later = none
  once : (shown.map ReplyPart.id).Nodup
  accumulated : s.accumulated = String.join (shown.map ReplyPart.text)
  last : (lastText s.replied).getD "" = s.accumulated

theorem told_start (input : ReplyInput) : Told (replyStart input) [] where
  parts := rfl
  streamed := fun _ h => absurd h List.not_mem_nil
  ends := List.Pairwise.nil
  once := List.nodup_nil
  accumulated := rfl
  last := rfl

theorem takeEvent_of_has {event : RuntimeEvent} (h : turn.Has event) (s : ReplyState) :
    takeEvent input s event = takeText s event := by
  cases h <;> rfl

theorem entry_ne {parts : List ReplyPart} {id : String} (h : ∀ part ∈ parts, part.id ≠ id) :
    ∀ pair ∈ parts.filterMap ReplyPart.entry, pair.1 ≠ id := by
  intro pair hpair
  obtain ⟨part, hpart, hentry⟩ := List.mem_filterMap.mp hpair
  obtain ⟨text, -, rfl⟩ := Option.map_eq_some_iff.mp hentry
  exact h part hpart

/-- Where no other part has deltas of its own, an update is put where the part is, and last where it had none. -/
theorem Told.assign (h : Told s shown) {id : String} (text : String)
    (hothers : ∀ other ∈ shown, other.id ≠ id → other.since = "") : Assoc.assign id text s.parts =
      (Table.put ReplyPart.id { id, updated := some text } shown).filterMap ReplyPart.entry := by
  have hlast : ∀ parts : List ReplyPart, (∀ part ∈ parts, part.id ≠ id) →
      Assoc.assign id text (parts.filterMap ReplyPart.entry) = parts.filterMap ReplyPart.entry ++ [(id, text)] := fun parts hne =>
    Table.put_of_get_none (Table.get_eq_none_iff.mpr (entry_ne hne))
  rw [h.parts]
  rcases hget : Table.get ReplyPart.id id shown with _ | part
  · have hput : Table.put ReplyPart.id { id, updated := some text } shown = shown ++ [{ id, updated := some text }] :=
      Table.put_of_get_none hget
    rw [hlast shown (Table.get_eq_none_iff.mp hget), hput, List.filterMap_append]
    rfl
  obtain ⟨before, after, rfl, hput⟩ := Table.put_of_get
    (show Table.get ReplyPart.id (ReplyPart.mk id (some text) "").id shown = some part from hget)
  rw [hput]
  obtain rfl := (Table.mem_of_get hget).2
  have honce := h.once
  rw [List.map_append, List.map_cons, List.nodup_middle, List.nodup_cons, List.mem_append, not_or] at honce
  have hbefore : ∀ other ∈ before, other.id ≠ part.id := fun other hother hid => honce.1.1 (hid ▸ List.mem_map_of_mem hother)
  have hafter : ∀ other ∈ after, other.id ≠ part.id := fun other hother hid => honce.1.2 (hid ▸ List.mem_map_of_mem hother)
  rcases hupdated : part.updated with _ | old
  · -- Whatever came after a part that was only streamed was only streamed too, and so has deltas.
    have hnil : after = [] := by
      refine List.eq_nil_iff_forall_not_mem.mpr fun other hother => ?_
      have hmem : other ∈ before ++ part :: after := List.mem_append_right _ (List.mem_cons_of_mem _ hother)
      have hends := (List.pairwise_append.mp (List.map_append ▸ h.ends)).2.1
      rw [List.map_cons, List.pairwise_cons] at hends
      exact h.streamed other hmem (hends.1 _ (List.mem_map_of_mem hother) hupdated) (hothers other hmem (hafter other hother))
    subst hnil
    rw [List.filterMap_append, List.filterMap_append, List.filterMap_cons_none (by rw [ReplyPart.entry, hupdated]; rfl),
      List.filterMap_nil, List.append_nil, hlast before hbefore]
    rfl
  · rw [List.filterMap_append, List.filterMap_append, List.filterMap_cons_some (by rw [ReplyPart.entry, hupdated]; rfl)]
    exact @Table.put_middle _ _ _ Prod.fst _ (part.id, text) (part.id, old) (entry_ne hbefore) rfl _

theorem Told.update (h : Told s shown) {id : String} (text : String)
    (hothers : ∀ other ∈ shown, other.id ≠ id → other.since = "") :
    Told ({ s with parts := Assoc.assign id text s.parts }.replyText (String.join ((Assoc.assign id text s.parts).map Prod.snd)))
      (Table.put ReplyPart.id { id, updated := some text } shown) := by
  have hparts := h.assign text hothers
  have honce : ((Table.put ReplyPart.id { id, updated := some text } shown).map ReplyPart.id).Nodup := Table.nodup_keys_put h.once
  have hall : ∀ part ∈ Table.put ReplyPart.id { id, updated := some text } shown, part.updated ≠ none ∧ part.since = "" := by
    intro part hpart
    by_cases hid : part.id = id
    · have hself := Table.get_of_mem honce hpart
      have hput : Table.get ReplyPart.id id (Table.put ReplyPart.id { id, updated := some text } shown) =
          some { id, updated := some text } :=
        Table.get_put_self (ReplyPart.mk id (some text) "") shown
      rw [hid, hput] at hself
      rw [← Option.some.inj hself]
      exact ⟨Option.some_ne_none text, rfl⟩
    · rcases Table.mem_put hpart with rfl | hold
      · exact absurd rfl hid
      · exact ⟨fun hnone => h.streamed part hold hnone (hothers part hold hid), hothers part hold hid⟩
  refine ⟨hparts, fun part hpart hnone => absurd hnone (hall part hpart).1, ?_, honce, ?_, ?_⟩
  · refine List.pairwise_map.mpr (List.pairwise_of_forall_mem_list fun earlier hearlier _ _ hnone => ?_)
    exact absurd hnone (hall earlier hearlier).1
  · change String.join _ = _
    rw [hparts, List.map_filterMap, ← List.filterMap_eq_map]
    congr 1
    refine List.filterMap_congr fun part hpart => ?_
    obtain ⟨hupdated, hsince⟩ := hall part hpart
    obtain ⟨last, hlast⟩ := Option.ne_none_iff_exists'.mp hupdated
    simp [ReplyPart.entry, ReplyPart.text, hlast, hsince]
  · change (lastText (_ ++ [_])).getD "" = _
    rw [lastText_append]
    rfl

theorem takeText_delta (s : ReplyState) (messageID partID : Option String) {delta : String} (h : delta ≠ "") :
    takeText s (.messagePartDelta messageID partID (some delta)) = s.replyText (s.accumulated ++ delta) := by
  have hfilled : nonEmpty (textFromRuntimeEvent (.messagePartDelta messageID partID (some delta))) = some delta :=
    Option.filter_eq_some_iff.mpr ⟨rfl, decide_eq_true h⟩
  unfold takeText
  rw [hfilled]
  rfl

theorem Told.grow (h : Told s shown) (messageID partID : Option String) (delta : String) {shown' : List ReplyPart}
    (hparts : shown'.filterMap ReplyPart.entry = shown.filterMap ReplyPart.entry)
    (hstreamed : ∀ part ∈ shown', part.updated = none → part.since ≠ "")
    (hends : (shown'.map ReplyPart.updated).Pairwise fun earlier later => earlier = none → later = none)
    (honce : (shown'.map ReplyPart.id).Nodup)
    (htext : String.join (shown'.map ReplyPart.text) = String.join (shown.map ReplyPart.text) ++ delta) :
    Told (takeText s (.messagePartDelta messageID partID (some delta))) shown' := by
  rw [← h.accumulated] at htext
  by_cases hdelta : delta = ""
  · subst hdelta
    exact ⟨h.parts.trans hparts.symm, hstreamed, hends, honce, by rw [htext, String.append_empty]; rfl, h.last⟩
  · rw [takeText_delta s messageID partID hdelta]
    refine ⟨h.parts.trans hparts.symm, hstreamed, hends, honce, htext.symm, ?_⟩
    change (lastText (_ ++ [_])).getD "" = _
    rw [lastText_append]
    rfl

theorem Told.delta (h : Told s shown) {before after : List ReplyPart} {part : ReplyPart}
    (hshown : shown = before ++ part :: after) (hempty : ∀ other ∈ after, other.text = "") (messageID : Option String)
    (delta : String) : Told (takeText s (.messagePartDelta messageID (some part.id) (some delta)))
      (Table.put ReplyPart.id { part with since := part.since ++ delta } shown) := by
  subst hshown
  have honce := h.once
  rw [List.map_append, List.map_cons, List.nodup_middle, List.nodup_cons, List.mem_append, not_or] at honce
  have hput : Table.put ReplyPart.id { part with since := part.since ++ delta } (before ++ part :: after) =
      before ++ { part with since := part.since ++ delta } :: after :=
    @Table.put_middle _ _ _ ReplyPart.id _ { part with since := part.since ++ delta } part
      (fun other hother hid => honce.1.1 (List.mem_map.mpr ⟨other, hother, hid⟩)) rfl _
  rw [hput]
  refine h.grow _ _ delta ?_ (fun other hother hnone => ?_) ?_ ?_ ?_
  · rw [List.filterMap_append, List.filterMap_append, List.filterMap_cons, List.filterMap_cons]
    rfl
  · rcases List.mem_append.mp hother with hother | hother
    · exact h.streamed other (List.mem_append_left _ hother) hnone
    rcases List.mem_cons.mp hother with rfl | hother
    · have hsince := h.streamed part (List.mem_append_right _ List.mem_cons_self) hnone
      exact fun hh => hsince (String.append_eq_empty_iff.mp hh).1
    · exact h.streamed other (List.mem_append_right _ (List.mem_cons_of_mem _ hother)) hnone
  · simpa using h.ends
  · simpa using h.once
  · have hafter : String.join (after.map ReplyPart.text) = "" := join_empty fun text htext => by
      obtain ⟨other, hother, rfl⟩ := List.mem_map.mp htext
      exact hempty other hother
    have hone : ∀ part : ReplyPart, String.join ((before ++ part :: after).map ReplyPart.text) =
        String.join (before.map ReplyPart.text) ++ part.text := by
      intro part
      rw [List.map_append, List.map_cons, join_append, ← List.singleton_append, join_append, hafter, String.append_empty]
      exact congrArg _ String.empty_append
    rw [hone, hone, String.append_assoc]
    exact congrArg _ (String.append_assoc).symm

/-- A first delta of a part that had no update. -/
theorem Told.fresh (h : Told s shown) {id delta : String} (hfresh : ∀ part ∈ shown, part.id ≠ id) (hdelta : delta ≠ "")
    (messageID : Option String) :
    Told (takeText s (.messagePartDelta messageID (some id) (some delta))) (shown ++ [{ id, since := delta }]) := by
  refine h.grow _ _ delta ?_ (fun part hpart hnone => ?_) ?_ ?_ ?_
  · rw [List.filterMap_append]
    exact List.append_nil _
  · rcases List.mem_append.mp hpart with hpart | hpart
    · exact h.streamed part hpart hnone
    · rw [List.mem_singleton.mp hpart]
      exact hdelta
  · rw [List.map_append]
    exact List.pairwise_append.mpr ⟨h.ends, List.pairwise_singleton _ _, fun _ _ later hlater _ => List.mem_singleton.mp hlater⟩
  · rw [List.map_append, List.nodup_append]
    refine ⟨h.once, List.nodup_singleton _, fun other hother id' hid' hsame => ?_⟩
    obtain ⟨part, hpart, rfl⟩ := List.mem_map.mp hother
    exact hfresh part hpart (hsame.trans (List.mem_singleton.mp hid'))
  · rw [List.map_append, join_append]
    exact congrArg _ (String.empty_append.trans String.empty_append)

theorem Told.step (h : Told s shown) {event : RuntimeEvent} (hhas : turn.Has event) (hapart : turn.Apart shown event) :
    Told (takeText s event) (turn.appear shown event) := by
  cases hhas with
  | messageUpdated id =>
    have hnone : textFromRuntimeEvent (.messageUpdated (some ⟨some id, some (turn.role id)⟩) none) = none := by
      change textFromMessageUpdated _ none = none
      unfold textFromMessageUpdated
      split_ifs <;> rfl
    unfold takeText
    rw [hnone]
    exact h
  | textUpdated id text htype =>
    obtain ⟨hreply, hothers⟩ := hapart
    have hshow : turn.appear shown (.messagePartUpdated (some ⟨some "text", some id, some (turn.message id), some text⟩)) =
        Table.put ReplyPart.id { id, updated := some text } shown := if_pos hreply
    rw [hshow]
    exact h.update text hothers
  | otherUpdated id text htype =>
    have hnone : textPartUpdate (.messagePartUpdated (some ⟨some (turn.type id), some id, some (turn.message id), text⟩)) =
        none := if_neg fun hh => htype (Option.some.inj hh)
    have hshow : turn.appear shown
        (.messagePartUpdated (some ⟨some (turn.type id), some id, some (turn.message id), text⟩)) = shown := by
      rcases text with _ | text
      · rfl
      · exact if_neg fun hreply => htype hreply.1
    unfold takeText
    rw [hnone, hshow]
    exact h
  | messagePartDelta id delta =>
    rcases hapart with ⟨hreply, rfl⟩ | ⟨hreply, ⟨hfresh, hdelta⟩ | ⟨before, part, after, hshown, rfl, hempty⟩⟩
    · have hshow : turn.appear shown (.messagePartDelta (some (turn.message id)) (some id) (some "")) = shown := if_neg hreply
      rw [hshow]
      exact h
    · have hget : Table.get ReplyPart.id id shown = none := Table.get_eq_none_iff.mpr hfresh
      have hshow : turn.appear shown (.messagePartDelta (some (turn.message id)) (some id) (some delta)) =
          shown ++ [{ id, since := delta }] := by
        refine (if_pos hreply).trans ?_
        rw [hget]
        exact (Table.put_of_get_none hget).trans (by rw [Option.getD_none, String.empty_append])
      rw [hshow]
      exact h.fresh hfresh hdelta _
    · have hget : Table.get ReplyPart.id part.id shown = some part :=
        Table.get_of_mem h.once (hshown ▸ List.mem_append_right _ List.mem_cons_self)
      have hshow : turn.appear shown (.messagePartDelta (some (turn.message part.id)) (some part.id) (some delta)) =
          Table.put ReplyPart.id { part with since := part.since ++ delta } shown := by
        refine (if_pos hreply).trans ?_
        rw [hget]
        rfl
      rw [hshow]
      exact h.delta hshown hempty _ delta

theorem replied_takeText (s : ReplyState) (event : RuntimeEvent) : (takeText s event).replied = s.replied ∨
    (takeText s event).replied = s.replied ++ [.text (takeText s event).accumulated false] := by
  unfold takeText
  rcases textPartUpdate event with _ | ⟨id, text⟩ <;> dsimp only
  · rcases nonEmpty (textFromRuntimeEvent event) with _ | text <;> dsimp only
    · exact .inl rfl
    · exact .inr rfl
  · exact .inr rfl

end

theorem told_run (input : ReplyInput) {turn : Turn} {events : List RuntimeEvent} (hhas : ∀ event ∈ events, turn.Has event)
    (h : Meets turn.appear turn.Apart [] events) :
    Told (run (takeEvent input) (replyStart input) events) (run turn.appear [] events) := by
  induction events using List.reverseRecOn with
  | nil => exact told_start input
  | append_singleton events event ih =>
    obtain ⟨hevents, hevent⟩ := (meets_append _ _ _ _ _).mp h
    rw [run_snoc, run_snoc, takeEvent_of_has (hhas event (by simp))]
    exact (ih (fun e he => hhas e (List.mem_append_left _ he)) hevents).step (hhas event (by simp)) hevent.1

/-- In every turn whose parts keep apart, the reply is the assistant's text after each event. -/
theorem replies_assistant (input : ReplyInput) (turn : Turn) (events : List RuntimeEvent)
    (hhas : ∀ event ∈ events, turn.Has event) (h : Meets turn.appear turn.Apart [] events) :
    RepliesAssistant input turn events := by
  refine ⟨fun before hbefore => ?_, ?_⟩
  · obtain ⟨more, rfl⟩ := hbefore
    have htold := told_run input (fun e he => hhas e (List.mem_append_left _ he)) ((meets_append _ _ _ _ _).mp h).1
    exact htold.last.trans htold.accumulated
  induction events using List.reverseRecOn with
  | nil =>
    intro text htext
    rcases List.mem_singleton.mp htext
  | append_singleton events event ih =>
    have hold := ih (fun e he => hhas e (List.mem_append_left _ he)) ((meets_append _ _ _ _ _).mp h).1
    have htold := told_run input hhas h
    intro text htext
    rw [run_snoc, takeEvent_of_has (hhas event (by simp))] at htext htold
    have hbefore : .text text false ∈ (run (takeEvent input) (replyStart input) events).replied →
        ∃ before, before <+: events ++ [event] ∧ text = turn.replyText before := by
      intro hin
      obtain ⟨before, hprefix, rfl⟩ := hold text hin
      exact ⟨before, hprefix.trans (List.prefix_append _ _), rfl⟩
    rcases replied_takeText (run (takeEvent input) (replyStart input) events) event with hsame | hnew
    · exact hbefore (hsame ▸ htext)
    · rw [hnew] at htext
      rcases List.mem_append.mp htext with hin | hin
      · exact hbefore hin
      · obtain ⟨rfl, -⟩ := OutboundChunk.text.inj (List.mem_singleton.mp hin)
        exact ⟨events ++ [event], List.prefix_rfl, htold.accumulated⟩

/-- A turn that thinks and then answers. -/
def answering : Turn where
  role := fun id => if id = "asst" then "assistant" else "user"
  message := fun id => if id = "prompt" then "msg" else "asst"
  type := fun id => if id = "thought" then "reasoning" else "text"

/-- Its answer, shown empty and then streamed. -/
def answer : List RuntimeEvent :=
  [.messageUpdated (some ⟨some "asst", some "assistant"⟩) none,
    .messagePartUpdated (some ⟨some "reasoning", some "thought", some "asst", some ""⟩),
    .messagePartUpdated (some ⟨some "text", some "reply", some "asst", some ""⟩),
    .messagePartDelta (some "asst") (some "reply") (some "Done, "),
    .messagePartDelta (some "asst") (some "reply") (some "all of it.")]

theorem has_answer : ∀ event ∈ answer, answering.Has event := by
  simp only [answer, List.forall_mem_cons, List.not_mem_nil, false_implies, implies_true, and_true]
  exact ⟨.messageUpdated "asst", .otherUpdated "thought" (some "") (by decide), .textUpdated "reply" "" rfl,
    .messagePartDelta "reply" "Done, ", .messagePartDelta "reply" "all of it."⟩

theorem replies_assistant_answer : RepliesAssistant { sessionId := "ses" } answering answer :=
  replies_assistant _ _ _ has_answer
    ⟨trivial, trivial, ⟨by decide, fun _ h => absurd h List.not_mem_nil⟩,
      .inr ⟨by decide, .inr ⟨[], _, [], rfl, rfl, fun _ h => absurd h List.not_mem_nil⟩⟩,
      .inr ⟨by decide, .inr ⟨[], _, [], rfl, rfl, fun _ h => absurd h List.not_mem_nil⟩⟩, trivial⟩

/-- A thought's first delta is told to the chat. -/
theorem tells_thoughts : ¬ ∀ (input : ReplyInput) (turn : Turn) (events : List RuntimeEvent), (∀ event ∈ events, turn.Has event) →
    RepliesAssistant input turn events := by
  intro hall
  have htold := (hall { sessionId := "ses" } answering
    [.messageUpdated (some ⟨some "asst", some "assistant"⟩) none,
      .messagePartUpdated (some ⟨some "reasoning", some "thought", some "asst", some ""⟩),
      .messagePartDelta (some "asst") (some "thought") (some "The user must not know")] ?_).last _ List.prefix_rfl
  · exact absurd htold (by decide)
  · simp only [List.forall_mem_cons, List.not_mem_nil, false_implies, implies_true, and_true]
    exact ⟨.messageUpdated "asst", .otherUpdated "thought" (some "") (by decide),
      .messagePartDelta "thought" "The user must not know"⟩

end Claxedo.Channels
