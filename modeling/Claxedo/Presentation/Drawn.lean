import Claxedo.Presentation.Replies
import Mathlib.Tactic.Common
import Claxedo.Presentation.Withdrawal

/-! The keys parts are minted under: by their texts the keys of a turn's own parts are told apart, a tool call's id being
any text. -/

namespace Claxedo.Presentation

open Claxedo.Lib

/-! ### Numbered ids -/

/-- The id minted as the `n`-th. -/
def numberedId (n : ℕ) (name : String) : String := padStart6 (toString n) ++ "_" ++ name

theorem toList_toString (n : ℕ) : (toString n).toList = Nat.toDigits 10 n := by
  simp [toString, Nat.repr_eq_ofList_toDigits]

theorem isDigit_toDigits {n : ℕ} {c : Char} (h : c ∈ Nat.toDigits 10 n) : c.isDigit = true :=
  Nat.isDigit_of_mem_toDigits (by decide) (by decide) h

theorem toDigits_inj {n m : ℕ} (h : Nat.toDigits 10 n = Nat.toDigits 10 m) : n = m := by
  have hvalue := congrArg (Nat.ofDigitChars 10 · 0) h
  simpa using hvalue

theorem not_mem_toDigits {n : ℕ} {c : Char} (hc : c.isDigit = false) : c ∉ Nat.toDigits 10 n := by
  intro h
  rw [isDigit_toDigits h] at hc
  cases hc

theorem cut_first {α : Type*} {mark : α} {a b s t : List α} (ha : mark ∉ a) (hb : mark ∉ b)
    (h : a ++ mark :: s = b ++ mark :: t) : a = b ∧ s = t := by
  induction a generalizing b with
  | nil =>
    cases b with
    | nil => exact ⟨rfl, List.tail_eq_of_cons_eq h⟩
    | cons y b => exact absurd (List.head_eq_of_cons_eq h ▸ List.mem_cons_self) hb
  | cons x a ih =>
    cases b with
    | nil => exact absurd ((List.head_eq_of_cons_eq h).symm ▸ List.mem_cons_self) ha
    | cons y b =>
      obtain ⟨hab, hst⟩ := ih (fun hx => ha (List.mem_cons_of_mem _ hx)) (fun hy => hb (List.mem_cons_of_mem _ hy))
        (List.tail_eq_of_cons_eq h)
      exact ⟨by rw [List.head_eq_of_cons_eq h, hab], hst⟩

theorem cut_last {α : Type*} {mark : α} {a b s t : List α} (hs : mark ∉ s) (ht : mark ∉ t)
    (h : a ++ mark :: s = b ++ mark :: t) : a = b ∧ s = t := by
  have hreverse := congrArg List.reverse h
  simp only [List.reverse_append, List.reverse_cons, List.append_assoc, List.singleton_append] at hreverse
  obtain ⟨hst, hab⟩ := cut_first (by simpa using hs) (by simpa using ht) hreverse
  exact ⟨List.reverse_injective hab, List.reverse_injective hst⟩

theorem padStart6_toList (n : ℕ) : ∃ k, (padStart6 (toString n)).toList = List.replicate k '0' ++ Nat.toDigits 10 n := by
  refine ⟨6 - (toString n).length, ?_⟩
  rw [padStart6, String.toList_append, String.toList_ofList, toList_toString]

theorem numberedId_inj {n m : ℕ} {a b : String} (h : numberedId n a = numberedId m b) : n = m := by
  obtain ⟨k, hk⟩ := padStart6_toList n
  obtain ⟨l, hl⟩ := padStart6_toList m
  have hmark (k n : ℕ) : '_' ∉ List.replicate k '0' ++ Nat.toDigits 10 n := by
    intro hmem
    rcases List.mem_append.mp hmem with hzero | hdigit
    · exact absurd (List.eq_of_mem_replicate hzero) (by decide)
    · exact not_mem_toDigits (by decide) hdigit
  have hlists := congrArg String.toList h
  simp only [numberedId, String.toList_append, hk, hl, List.append_assoc] at hlists
  obtain ⟨hdigits, -⟩ := @cut_first _ '_' _ _ a.toList b.toList (hmark k n) (hmark l m)
    (by simpa using hlists)
  have hvalue := congrArg (Nat.ofDigitChars 10 · 0) hdigits
  simpa [Nat.ofDigitChars_append, Nat.ofDigitChars_replicate_zero] using hvalue

/-! ### Keys -/

inductive Slot where
  | image | audio | resourceLink

def Slot.suffix : Slot → String
  | .image => "-image"
  | .audio => "-audio"
  | .resourceLink => "-resource-link"

/-- What a part is minted under. -/
inductive PartKey where
  | call (toolCallId : String)
  | attachment (toolCallId : String) (index : ℕ)
  | prose (messageID : String) (kind : DeltaKind) (seq : ℕ)
  | file (messageID : String) (slot : Slot)
  | notice (messageID : String) (count : ℕ)

namespace PartKey

def text : PartKey → String
  | call toolCallId => toolCallId
  | attachment toolCallId index => toolCallId ++ "-attachment-" ++ toString index
  | prose messageID kind seq => messageID ++ "-" ++ kind.name ++ (if 0 < seq then "-" ++ toString seq else "")
  | file messageID slot => messageID ++ slot.suffix
  | notice messageID count => messageID ++ "-notice-" ++ toString count

/-- The harness chose it. -/
def isCall : PartKey → Bool
  | call _ => true
  | _ => false

/-- Text or reasoning is minted under it. -/
def isProse : PartKey → Bool
  | prose .. => true
  | _ => false

/-- A word behind a dash. -/
inductive Word where
  | name (text : String)
  | number (n : ℕ)

def Word.chars : Word → List Char
  | name text => text.toList
  | number n => Nat.toDigits 10 n

/-- A word of a key: it has no dash, and a name is not a number. -/
def Word.Plain : Word → Prop
  | name text => '-' ∉ text.toList ∧ ∃ c ∈ text.toList, c.isDigit = false
  | number _ => True

theorem Word.Plain.noDash {w : Word} (h : w.Plain) : '-' ∉ w.chars := by
  cases w with
  | name text => exact h.1
  | number n => exact not_mem_toDigits (by decide)

theorem Word.chars_inj {w w' : Word} (h : w.Plain) (h' : w'.Plain) (heq : w.chars = w'.chars) : w = w' := by
  cases w with
  | name text =>
    cases w' with
    | name text' => exact congrArg Word.name (String.toList_injective heq)
    | number n =>
      obtain ⟨c, hc, hdigit⟩ := h.2
      have heq : text.toList = Nat.toDigits 10 n := heq
      exact absurd (heq ▸ hc) (not_mem_toDigits hdigit)
  | number n =>
    cases w' with
    | name text' =>
      obtain ⟨c, hc, hdigit⟩ := h'.2
      have heq : Nat.toDigits 10 n = text'.toList := heq
      exact absurd (heq ▸ hc) (not_mem_toDigits hdigit)
    | number m => exact congrArg Word.number (toDigits_inj heq)

/-- The id a key starts with, the word behind it where there are two, and the last. -/
def parts : PartKey → String × Option Word × Word
  | call toolCallId => (toolCallId, none, .name "")
  | attachment toolCallId index => (toolCallId, some (.name "attachment"), .number index)
  | prose messageID kind 0 => (messageID, none, .name kind.name)
  | prose messageID kind (seq + 1) => (messageID, some (.name kind.name), .number (seq + 1))
  | file messageID .image => (messageID, none, .name "image")
  | file messageID .audio => (messageID, none, .name "audio")
  | file messageID .resourceLink => (messageID, some (.name "resource"), .name "link")
  | notice messageID count => (messageID, some (.name "notice"), .number count)

def Plainly (parts : String × Option Word × Word) : Prop := (∀ w, parts.2.1 = some w → w.Plain) ∧ parts.2.2.Plain

theorem plainly_parts {k : PartKey} (h : k.isCall = false) : Plainly k.parts := by
  have hname (text : String) (hdash : '-' ∉ text.toList) (c : Char) (hc : c ∈ text.toList) (hdigit : c.isDigit = false) :
      Word.Plain (.name text) := ⟨hdash, c, hc, hdigit⟩
  cases k with
  | call => cases h
  | attachment => exact ⟨fun w hw => Option.some.inj hw ▸ hname _ (by decide) 'a' (by decide) (by decide), trivial⟩
  | prose messageID kind seq =>
    have hkind : Word.Plain (.name kind.name) := by
      cases kind with
      | text => exact hname _ (by decide) 't' (by decide) (by decide)
      | reasoning => exact hname _ (by decide) 'r' (by decide) (by decide)
    cases seq with
    | zero => exact ⟨nofun, hkind⟩
    | succ seq => exact ⟨fun w hw => Option.some.inj hw ▸ hkind, trivial⟩
  | file messageID slot =>
    cases slot with
    | image => exact ⟨nofun, hname _ (by decide) 'i' (by decide) (by decide)⟩
    | audio => exact ⟨nofun, hname _ (by decide) 'a' (by decide) (by decide)⟩
    | resourceLink =>
      exact ⟨fun w hw => Option.some.inj hw ▸ hname _ (by decide) 'r' (by decide) (by decide),
        hname _ (by decide) 'l' (by decide) (by decide)⟩
  | notice => exact ⟨fun w hw => Option.some.inj hw ▸ hname _ (by decide) 'n' (by decide) (by decide), trivial⟩

def chars (parts : String × Option Word × Word) : List Char :=
  parts.1.toList ++ (parts.2.1.elim [] fun w => '-' :: w.chars) ++ '-' :: parts.2.2.chars

theorem toList_text {k : PartKey} (h : k.isCall = false) : k.text.toList = chars k.parts := by
  cases k with
  | call => cases h
  | attachment => simp [text, chars, parts, Word.chars]
  | prose messageID kind seq =>
    cases seq with
    | zero => simp [text, chars, parts, Word.chars]
    | succ seq => simp [text, chars, parts, Word.chars]
  | file messageID slot => cases slot <;> simp [text, chars, parts, Word.chars, Slot.suffix]
  | notice => simp [text, chars, parts, Word.chars]

/-- The key read back. -/
def ofParts : String × Option Word × Word → Option PartKey
  | (id, some (.name "attachment"), .number index) => some (attachment id index)
  | (id, none, .name "text") => some (prose id .text 0)
  | (id, none, .name "reasoning") => some (prose id .reasoning 0)
  | (id, some (.name "text"), .number seq) => some (prose id .text seq)
  | (id, some (.name "reasoning"), .number seq) => some (prose id .reasoning seq)
  | (id, none, .name "image") => some (file id .image)
  | (id, none, .name "audio") => some (file id .audio)
  | (id, some (.name "resource"), .name "link") => some (file id .resourceLink)
  | (id, some (.name "notice"), .number count) => some (notice id count)
  | _ => none

theorem ofParts_parts {k : PartKey} (h : k.isCall = false) : ofParts k.parts = some k := by
  cases k with
  | call => cases h
  | attachment => rfl
  | prose messageID kind seq => cases kind <;> cases seq <;> rfl
  | file messageID slot => cases slot <;> rfl
  | notice => rfl

theorem chars_inj {p p' : String × Option Word × Word} (h : Plainly p) (h' : Plainly p')
    (hwords : p.2.1 = none ∧ p'.2.1 ≠ none → p.2.2 ≠ p'.2.2) (hwords' : p'.2.1 = none ∧ p.2.1 ≠ none → p.2.2 ≠ p'.2.2)
    (heq : chars p = chars p') : p = p' := by
  obtain ⟨id, first, last⟩ := p
  obtain ⟨id', first', last'⟩ := p'
  obtain ⟨hrest, hlast⟩ := cut_last h.2.noDash h'.2.noDash heq
  have hlast : last = last' := Word.chars_inj h.2 h'.2 hlast
  subst hlast
  rcases first with _ | w <;> rcases first' with _ | w'
  · have hid : id = id' := String.toList_injective (by simpa using hrest)
    rw [hid]
  · exact absurd rfl (hwords ⟨rfl, nofun⟩)
  · exact absurd rfl (hwords' ⟨rfl, nofun⟩)
  · obtain ⟨hid, hfirst⟩ := cut_last (h.1 w rfl).noDash (h'.1 w' rfl).noDash hrest
    have hid : id = id' := String.toList_injective hid
    rw [hid, Word.chars_inj (h.1 w rfl) (h'.1 w' rfl) hfirst]

/-- No key ends in one word as another does behind two. -/
theorem last_ne {k k' : PartKey} (h : k.isCall = false) (h' : k'.isCall = false) :
    k.parts.2.1 = none ∧ k'.parts.2.1 ≠ none → k.parts.2.2 ≠ k'.parts.2.2 := by
  have hone : k.parts.2.1 = none → k.parts.2.2 ∈ [Word.name "text", .name "reasoning", .name "image", .name "audio"] := by
    cases k with
    | call => cases h
    | prose messageID kind seq => cases kind <;> cases seq <;> simp [parts, DeltaKind.name]
    | file messageID slot => cases slot <;> simp [parts]
    | _ => simp [parts]
  have htwo : k'.parts.2.1 ≠ none → k'.parts.2.2 ∉ [Word.name "text", .name "reasoning", .name "image", .name "audio"] := by
    cases k' with
    | call => cases h'
    | prose messageID kind seq => cases kind <;> cases seq <;> simp [parts]
    | file messageID slot => cases slot <;> simp [parts]
    | _ => simp [parts]
  rintro ⟨hfirst, hfirst'⟩ heq
  exact htwo hfirst' (heq ▸ hone hfirst)

theorem text_inj {k k' : PartKey} (h : k.isCall = false) (h' : k'.isCall = false) (heq : k.text = k'.text) : k = k' := by
  have hchars : chars k.parts = chars k'.parts := by rw [← toList_text h, ← toList_text h', heq]
  have hparts := chars_inj (plainly_parts h) (plainly_parts h') (last_ne h h') (fun hnone heq => last_ne h' h hnone heq.symm) hchars
  exact Option.some.inj ((ofParts_parts h).symm.trans ((congrArg ofParts hparts).trans (ofParts_parts h')))

end PartKey

/-! What a turn draws: which content each envelope publishes under which part and message. -/

/-- What a part shows: text or reasoning, a call, an attachment by its place, a picture, a clip or a link by the event that
brought it, a notice by the event that began it, or by the durable event it is about. -/
inductive Content where
  | prose (kind : DeltaKind)
  | call (toolCallId : String)
  | attachment (toolCallId : String) (index : ℕ)
  | file (nth : ℕ)
  | notice (nth : ℕ)
  | event (eventId : String)
  deriving DecidableEq

/-- The call a part shows, or an attachment of it. -/
def Content.toolCallId? : Content → Option String
  | .call c | .attachment c _ => some c
  | _ => none

structure Drawn where
  content : Content
  partID : String
  messageID : String

/-- What the parts of one call of the projection show where the envelope alone does not tell. -/
structure Labels where
  file : Content
  notice : Content
  delta : DeltaKind

def ToolState.attachments : ToolState → List FilePart
  | .completed _ _ _ _ _ attachments => attachments
  | _ => []

def drawnAttachments (toolCallId : String) (index : ℕ) (attachments : List FilePart) : List Drawn :=
  (attachments.zipIdx index).map fun entry => ⟨.attachment toolCallId entry.2, entry.1.id, entry.1.messageID⟩

def drawnTool (part : ToolPart) : List Drawn :=
  ⟨.call part.callID, part.id, part.messageID⟩ :: drawnAttachments part.callID 0 part.state.attachments

def drawnOf (l : Labels) : Payload → List Drawn
  | .partUpdated (.text id messageID _) _ => [⟨.prose .text, id, messageID⟩]
  | .partUpdated (.reasoning id messageID ..) _ => [⟨.prose .reasoning, id, messageID⟩]
  | .partUpdated (.tool part) _ => drawnTool part
  | .partUpdated (.file part) _ => [⟨l.file, part.id, part.messageID⟩]
  | .partUpdated (.notice id messageID ..) _ => [⟨l.notice, id, messageID⟩]
  | .partDelta messageID partID _ => [⟨.prose l.delta, partID, messageID⟩]
  | _ => []

def drawnAll (l : Labels) (events : List Payload) : List Drawn := events.flatMap (drawnOf l)

/-- The durable event a notice is about. -/
def noticeEvent : RuntimeEvent → Option String
  | .harnessNotice _ _ _ eventId => eventId.bind nonEmpty
  | .agentMessage eventId .. => nonEmpty eventId
  | _ => none

/-- A turn, the calls of the projection so far, the one that began the compaction that runs, and what was drawn. -/
structure Gallery where
  turn : Turn
  count : ℕ
  compaction : Option ℕ
  drawn : List Drawn

namespace Gallery

def start (options : Options) : Gallery := ⟨.start options, 0, none, []⟩

def labels (g : Gallery) : Call → Labels
  | .ingest event _ =>
    { file := .file g.count
      notice := match noticeEvent event with
        | some eventId => .event eventId
        | none => match event with
          | .sessionCompaction false .. => .notice (g.compaction.getD g.count)
          | _ => .notice g.count
      delta := match event with
        | .thinkingDelta _ => .reasoning
        | _ => .text }
  | _ => ⟨.file g.count, .notice g.count, .text⟩

/-- The compaction that runs after a call; one outside a reply is not drawn. -/
def compactionAfter (g : Gallery) : Call → Option ℕ
  | .ingest (.sessionCompaction started ..) _ =>
    if g.turn.state.assistantMsgId = "" then g.compaction else if started then some g.count else none
  | _ => g.compaction

def step (options : Options) (g : Gallery) (cl : Call) : Gallery :=
  ⟨g.turn.step options cl, g.count + 1, g.compactionAfter cl,
    g.drawn ++ drawnAll (g.labels cl) (call options g.turn.state cl).2⟩

end Gallery

def galleryOf (options : Options) (calls : List Call) : Gallery := Lib.run (Gallery.step options) (Gallery.start options) calls

/-- Different content is under different parts, and a part under one message. -/
def PartsApart (drawn : List Drawn) : Prop :=
  ∀ d ∈ drawn, ∀ d' ∈ drawn, d.partID = d'.partID → d.content = d'.content ∧ d.messageID = d'.messageID

instance (drawn : List Drawn) : Decidable (PartsApart drawn) :=
  inferInstanceAs (Decidable (∀ d ∈ drawn, ∀ d' ∈ drawn, d.partID = d'.partID → d.content = d'.content ∧ d.messageID = d'.messageID))

/-- The state a call leaves before what is kept of it is capped. -/
def uncapped (options : Options) (s : State) : Call → State
  | .ingest event now => (projectEvent options s event now).1
  | .thrown => s
  | .terminalizeOpenTools error now => (terminalizeOpenTools (endReasoning s now).1 error now none).1

/-- No part id is forgotten. -/
def KeepsIds (options : Options) (s : State) (cl : Call) : Prop :=
  (uncapped options s cl).partIdMap.length ≤ RETAINED_PART_IDS_MAX

instance (options : Options) (s : State) (cl : Call) : Decidable (KeepsIds options s cl) := inferInstanceAs (Decidable (_ ≤ _))

/-! ### When parts stay apart -/

/-- The attachments a report brings its call. -/
def brought (s : State) : RuntimeEvent → ℕ
  | .toolOutput c _ attachments .. => if isTerminal s c then 0 else attachments.length
  | _ => 0

def keptAttachments (s : State) (c : String) : ℕ := ((Assoc.lookup c s.toolAttachmentsByCallId).getD []).length

/-- The call whose part a report publishes. -/
def reportedCall (s : State) : RuntimeEvent → Option String
  | .toolStart c .. | .toolStatus c .. | .toolContent c .. | .toolLocation c .. | .toolTerminal c .. => some c
  | .toolInput c input display metadata =>
    let known := inputKnown s c input display metadata
    if known.input.isEmpty && known.metadata.isEmpty then none else some c
  | .toolOutput c .. | .toolError c .. => if isTerminal s c then none else some c
  | _ => none

/-- The slot of the picture, the clip or the link an event brings. -/
def fileSlot : RuntimeEvent → Option Slot
  | .imageDelta .. => some .image
  | .audioDelta .. => some .audio
  | .resourceLinkDelta .. => some .resourceLink
  | _ => none

/-- An event appends a notice. -/
def appendsNotice : RuntimeEvent → Bool
  | .harnessNotice _ _ severity _ => severity.getD .info ≠ .debug
  | .agentMessage .. | .conversationReset _ => true
  | _ => false

/-- The open calls a sweep closes. -/
def swept (s : State) (withdrawn : Option Withdrawn) : List String :=
  (s.toolStatusByCallId.filter (closes withdrawn)).map Prod.fst

/-- The calls a retraction of responses withdraws. -/
def withdrawnCalls (s : State) (ids : List String) : List String :=
  ((takeOut s.responses ids).2).flatMap ResponseMembers.toolCallIds

namespace Gallery

variable (g : Gallery)

def messageID : String := g.turn.state.assistantMsgId

/-- No call was drawn whose id is this key. -/
def Unclaimed (key : PartKey) : Prop := ∀ d ∈ g.drawn, d.content ≠ .call key.text

/-- A call drawn before, and its attachments, were drawn under the message now written; one that was not has an id that is
no part's key; nor is an attachment's key a call's id. -/
structure DrawsCall (c : String) (attachments : ℕ) : Prop where
  message : ∀ d ∈ g.drawn, d.content.toolCallId? = some c → d.messageID = g.messageID
  fresh : (∀ d ∈ g.drawn, d.content ≠ .call c) → seen g.turn.state c = false
  attachments : ∀ i < attachments, g.Unclaimed (.attachment c i)

def numbered : PartKey := .notice g.messageID (g.turn.state.notices.noticeCount + 1)

/-- What is drawn has a key of its own, or goes on with what was drawn under the message now written. -/
structure DrawsEvent (options : Options) (event : RuntimeEvent) : Prop where
  delta : ∀ kind, deltaKind g.turn.state event = some kind →
    g.Unclaimed (.prose g.messageID kind (partSeq (splitPart g.turn.state kind) kind))
  call : ∀ c, reportedCall g.turn.state event = some c →
    g.DrawsCall c (max (keptAttachments g.turn.state c) (brought g.turn.state event))
  file : ∀ slot, fileSlot event = some slot → seen g.turn.state (PartKey.file g.messageID slot).text = false
  notice : g.messageID ≠ "" → appendsNotice event = true → noticeEvent event = none →
    seen g.turn.state g.numbered.text = false
  durable : g.messageID ≠ "" → appendsNotice event = true → ∀ eventId, noticeEvent event = some eventId →
    (∀ d ∈ g.drawn, d.content = .event eventId → d.messageID = g.messageID) ∧
      ∀ n name, eventNoticePartId options.sessionId eventId ≠ numberedId n name
  compaction : g.messageID ≠ "" → ∀ started aborted error, event = .sessionCompaction started aborted error →
    if started = true ∨ g.turn.state.notices.runningCompactionPartId = none then seen g.turn.state g.numbered.text = false
    else ∀ d ∈ g.drawn, some d.content = g.compaction.map .notice → d.messageID = g.messageID
  withdrawn : ∀ ids reason, event = .responseRetracted ids reason →
    ∀ c ∈ swept g.turn.state (some ⟨withdrawnCalls g.turn.state ids, reason⟩), g.DrawsCall c 0

def DrawsApart (options : Options) : Call → Prop
  | .ingest event _ => g.DrawsEvent options event
  | .thrown => True
  | .terminalizeOpenTools .. => ∀ c ∈ swept g.turn.state none, g.DrawsCall c 0

end Gallery

end Claxedo.Presentation
