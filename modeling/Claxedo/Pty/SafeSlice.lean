import Mathlib.Tactic

/-! Cutting a terminal's output at an offset chosen by arithmetic: never between the halves of a surrogate pair, and
never inside an escape sequence. A text is its UTF-16 code units. -/

namespace Claxedo.Pty

abbrev Text := List UInt16

def ESC : UInt16 := 0x1b

/-- Longest escape sequence scanned forward past when a head cut is repaired. -/
def MAX_ESCAPE_SCAN : ℕ := 128

def isHighSurrogate (code : UInt16) : Bool := 0xd800 ≤ code && code ≤ 0xdbff

def isLowSurrogate (code : UInt16) : Bool := 0xdc00 ≤ code && code ≤ 0xdfff

/-- `[`, then `]`, `P`, `_`, `^` and `X`, then the backslash of ST. -/
def CSI_INTRODUCER : UInt16 := 0x5b

def STRING_INTRODUCERS : List UInt16 := [0x5d, 0x50, 0x5f, 0x5e, 0x58]

def BEL : UInt16 := 0x07

def BACKSLASH : UInt16 := 0x5c

/-- Whether `i` is the final byte of the escape sequence introduced at `escIndex`. -/
def isEscapeFinal (text : Text) (escIndex i : ℕ) : Bool :=
  let introducer := text[escIndex + 1]?
  if introducer = some CSI_INTRODUCER then
    i ≠ escIndex + 1 && (text[i]?).any fun ch => 0x40 ≤ ch && ch ≤ 0x7e
  else if introducer.any (STRING_INTRODUCERS.contains ·) then
    i ≠ escIndex + 1 && (text[i]? = some BEL || (text[i]? = some BACKSLASH && text[i - 1]? = some ESC))
  else i = escIndex + 1

/-- The indices from `start` up to `stop`, in order. -/
def upTo (start stop : ℕ) : List ℕ := List.range' start (stop - start)

def lastEscapeInWindow (text : Text) (start : ℕ) : Option ℕ :=
  (upTo (start - MAX_ESCAPE_SCAN) start).reverse.find? fun i => text[i]? = some ESC

/-- Just past the sequence starting at `escIndex`; none while it is still open. -/
def escapeSequenceEnd (text : Text) (escIndex : ℕ) : Option ℕ :=
  ((upTo (escIndex + 1) (min text.length (escIndex + MAX_ESCAPE_SCAN))).find? (isEscapeFinal text escIndex)).map (· + 1)

/-- `start`, or just past the escape sequence it stands in. -/
def outsideEscape (text : Text) (start : ℕ) : ℕ :=
  match lastEscapeInWindow text start with
  | none => start
  | some escIndex =>
    match escapeSequenceEnd text escIndex with
    | some stop => if stop ≤ start then start else stop
    | none =>
      let limit := min text.length (start + MAX_ESCAPE_SCAN)
      match (upTo start limit).find? (isEscapeFinal text escIndex) with
      | some i => i + 1
      | none => limit

/-- Where to cut the head off a text, at `index` or a little past it. -/
def safeStartIndex (text : Text) (index : ℕ) : ℕ :=
  if index = 0 then 0
  else if text.length ≤ index then text.length
  else outsideEscape text (if (text[index]?).any isLowSurrogate then index + 1 else index)

def safeChunkEnd (text : Text) (index : ℕ) : ℕ :=
  if index = 0 then 0
  else if text.length ≤ index then text.length
  else if (text[index - 1]?).any isHighSurrogate then index - 1 else index

/-- The tail of `text`, at most `max` units of it. -/
def safeTrimStart (text : Text) (max : ℕ) : Text :=
  if max = 0 then []
  else if text.length ≤ max then text
  else text.drop (safeStartIndex text (text.length - max))

variable {start : ℕ}

@[simp] theorem mem_upTo {stop i : ℕ} : i ∈ upTo start stop ↔ start ≤ i ∧ i < stop := by
  unfold upTo
  rw [List.mem_range'_1]
  omega

theorem escapeSequenceEnd_le {text : Text} {escIndex stop : ℕ} (h : escapeSequenceEnd text escIndex = some stop) :
    stop ≤ text.length := by
  unfold escapeSequenceEnd at h
  obtain ⟨i, hi, rfl⟩ := Option.map_eq_some_iff.mp h
  have hmem := mem_upTo.mp (List.mem_of_find?_eq_some hi)
  omega

theorem outsideEscape_le {text : Text} (h : start ≤ text.length) : outsideEscape text start ≤ text.length := by
  unfold outsideEscape
  rcases lastEscapeInWindow text start with _ | escIndex <;> dsimp only
  · exact h
  rcases hend : escapeSequenceEnd text escIndex with _ | stop <;> dsimp only
  · rcases hfind : (upTo start (min text.length (start + MAX_ESCAPE_SCAN))).find? (isEscapeFinal text escIndex) with _ | i
      <;> dsimp only
    · omega
    · have hmem := mem_upTo.mp (List.mem_of_find?_eq_some hfind)
      omega
  · have hle := escapeSequenceEnd_le hend
    split <;> omega

theorem le_outsideEscape {text : Text} (h : start ≤ text.length) : start ≤ outsideEscape text start := by
  unfold outsideEscape
  rcases lastEscapeInWindow text start with _ | escIndex <;> dsimp only
  · exact Nat.le_refl _
  rcases escapeSequenceEnd text escIndex with _ | stop <;> dsimp only
  · rcases hfind : (upTo start (min text.length (start + MAX_ESCAPE_SCAN))).find? (isEscapeFinal text escIndex) with _ | i
      <;> dsimp only
    · omega
    · have hmem := mem_upTo.mp (List.mem_of_find?_eq_some hfind)
      omega
  · split <;> omega

theorem safeStartIndex_le (text : Text) (index : ℕ) : safeStartIndex text index ≤ text.length := by
  unfold safeStartIndex
  split
  · exact Nat.zero_le _
  · split
    · exact Nat.le_refl _
    · apply outsideEscape_le
      split <;> omega

/-- A cut only ever moves forward. -/
theorem le_safeStartIndex {text : Text} {index : ℕ} (h : index ≤ text.length) : index ≤ safeStartIndex text index := by
  unfold safeStartIndex
  split
  · omega
  · split
    · exact h
    · refine Nat.le_trans ?_ (le_outsideEscape ?_)
      · split <;> omega
      · split <;> omega

theorem lastEscapeInWindow_of_plain {text : Text} (hplain : ∀ code ∈ text, code ≠ ESC) (start : ℕ) :
    lastEscapeInWindow text start = none := by
  unfold lastEscapeInWindow
  rw [List.find?_eq_none]
  intro i _
  rw [decide_eq_true_eq]
  intro h
  exact hplain _ (List.mem_of_getElem? h) rfl

/-- A text with no escape and no surrogate is cut where it was asked to be. -/
theorem safeStartIndex_of_plain {text : Text} {index : ℕ} (hindex : index < text.length)
    (hplain : ∀ code ∈ text, code ≠ ESC) (hlow : ∀ code ∈ text, isLowSurrogate code = false) :
    safeStartIndex text index = index := by
  have hsome : (text[index]?).any isLowSurrogate = false := by
    rw [List.getElem?_eq_getElem hindex, Option.any_some]
    exact hlow _ (List.getElem_mem hindex)
  have hopen : outsideEscape text index = index := by
    unfold outsideEscape
    rw [lastEscapeInWindow_of_plain hplain]
  unfold safeStartIndex
  rw [hsome, if_neg Bool.false_ne_true, hopen]
  split_ifs <;> omega

theorem safeChunkEnd_le (text : Text) (index : ℕ) : safeChunkEnd text index ≤ text.length := by
  unfold safeChunkEnd
  split
  · omega
  · split
    · exact Nat.le_refl _
    · split <;> omega

theorem safeTrimStart_suffix (text : Text) (max : ℕ) : safeTrimStart text max <:+ text := by
  unfold safeTrimStart
  split
  · exact List.nil_suffix
  · split
    · exact List.suffix_refl _
    · exact List.drop_suffix _ _

theorem length_safeTrimStart_le (text : Text) (max : ℕ) : (safeTrimStart text max).length ≤ max := by
  unfold safeTrimStart
  split
  · exact Nat.zero_le _
  · split
    · assumption
    · have hle : text.length - max ≤ safeStartIndex text (text.length - max) := le_safeStartIndex (by omega)
      rw [List.length_drop]
      omega

/-! A terminal's output as what it is made of: single code units, surrogate pairs and escape sequences, each sequence
ended. The three families of sequences are kept apart as the cut tells them apart. -/

inductive Piece where
  | plain (code : UInt16)
  | pair (high low : UInt16)
  /-- `ESC [`, parameters and intermediates, a final byte. -/
  | csi (body : Text) (final : UInt16)
  /-- OSC, DCS, APC, PM and SOS, ended by BEL, else by ST. -/
  | string (introducer : UInt16) (body : Text) (bell : Bool)
  /-- `ESC`, intermediates, a final byte. -/
  | escape (intermediates : Text) (final : UInt16)

namespace Piece

def text : Piece → Text
  | plain code => [code]
  | pair high low => [high, low]
  | csi body final => ESC :: CSI_INTRODUCER :: (body ++ [final])
  | string introducer body bell => ESC :: introducer :: (body ++ if bell then [BEL] else [ESC, BACKSLASH])
  | escape intermediates final => ESC :: (intermediates ++ [final])

def isEscape : Piece → Bool
  | plain _ | pair _ _ => false
  | csi _ _ | string _ _ _ | escape _ _ => true

/-- The grammar of each piece, and for sequences that they are within the scan. The text of a string is anything but the
bytes that would end it. -/
def wellFormed : Piece → Bool
  | plain code => code ≠ ESC && !isHighSurrogate code && !isLowSurrogate code
  | pair high low => isHighSurrogate high && isLowSurrogate low
  | csi body final => body.all (fun code => 0x20 ≤ code && code ≤ 0x3f) && 0x40 ≤ final && final ≤ 0x7e
  | string introducer body _ => STRING_INTRODUCERS.contains introducer && body.all fun code => code ≠ ESC && code ≠ BEL
  | escape intermediates final =>
    intermediates.all (fun code => 0x20 ≤ code && code ≤ 0x2f) && 0x30 ≤ final && final ≤ 0x7e &&
      (!intermediates.isEmpty || final ≠ CSI_INTRODUCER && !STRING_INTRODUCERS.contains final)

/-- An ESC sequence with an intermediate byte, such as `ESC ( B`. -/
def intermediate : Piece → Bool
  | escape intermediates _ => !intermediates.isEmpty
  | _ => false

end Piece

def textOf (pieces : List Piece) : Text := pieces.flatMap Piece.text

/-- The position is strictly inside a piece of the kind: past its first unit, before its end. -/
def Inside (kind : Piece → Bool) (pieces : List Piece) (position : ℕ) : Prop :=
  ∃ before piece after, pieces = before ++ piece :: after ∧ kind piece ∧ (textOf before).length < position ∧
    position < (textOf before).length + piece.text.length

/-- Every piece is well formed, and every sequence at most as long as the scan. -/
structure WellFormed (pieces : List Piece) : Prop where
  formed : ∀ piece ∈ pieces, piece.wellFormed
  short : ∀ piece ∈ pieces, piece.isEscape → piece.text.length ≤ MAX_ESCAPE_SCAN

section
variable {pieces before after : List Piece} {piece : Piece} {position : ℕ}

@[simp] theorem textOf_append (before after : List Piece) : textOf (before ++ after) = textOf before ++ textOf after :=
  List.flatMap_append

@[simp] theorem textOf_cons (piece : Piece) (after : List Piece) : textOf (piece :: after) = piece.text ++ textOf after :=
  rfl

theorem Piece.text_pos (piece : Piece) : 0 < piece.text.length := by
  cases piece <;> simp [Piece.text]

/-- A position of the text is between two pieces or strictly inside one. -/
theorem locate (pieces : List Piece) (position : ℕ) (h : position ≤ (textOf pieces).length) :
    (∃ before after, pieces = before ++ after ∧ (textOf before).length = position) ∨
      Inside (fun _ => true) pieces position := by
  induction pieces using List.reverseRecOn with
  | nil => exact .inl ⟨[], [], rfl, (Nat.le_zero.mp h).symm⟩
  | append_singleton pieces piece ih =>
    by_cases hle : position ≤ (textOf pieces).length
    · rcases ih hle with ⟨before, after, rfl, hlen⟩ | ⟨before, inner, after, rfl, hkind, hlow, hhigh⟩
      · exact .inl ⟨before, after ++ [piece], by simp, hlen⟩
      · exact .inr ⟨before, inner, after ++ [piece], by simp, hkind, hlow, hhigh⟩
    · by_cases hend : position = (textOf (pieces ++ [piece])).length
      · exact .inl ⟨pieces ++ [piece], [], by simp, hend.symm⟩
      · refine .inr ⟨pieces, piece, [], rfl, rfl, by omega, ?_⟩
        simp only [textOf_append, textOf_cons, List.length_append] at h hend
        simp only [textOf, List.flatMap_nil, List.length_nil, Nat.add_zero] at h hend ⊢
        omega

/-- Two ways to cut the pieces: the cuts are the same, or a whole piece lies between them. -/
theorem length_before_le {before' after' : List Piece} (h : before ++ piece :: after = before' ++ after')
    (hlt : (textOf before).length < (textOf before').length) :
    (textOf before).length + piece.text.length ≤ (textOf before').length := by
  rcases List.append_eq_append_iff.mp h with ⟨between, rfl, hrest⟩ | ⟨between, rfl, -⟩
  · cases between with
    | nil => simp at hlt
    | cons first between =>
      obtain ⟨rfl, -⟩ := List.cons.inj hrest
      simp only [textOf_append, textOf_cons, List.length_append]
      omega
  · simp only [textOf_append, List.length_append] at hlt
    omega

theorem not_inside_of_between {kind : Piece → Bool} (h : pieces = before ++ after) :
    ¬ Inside kind pieces (textOf before).length := by
  rintro ⟨before', piece, after', h', -, hlow, hhigh⟩
  have := length_before_le (h'.symm.trans h) hlow
  omega

end

/-! Working-directory tracking: the OSC 7 sequences of an output stream that comes in chunks, with a carry for the
sequence a chunk leaves open. What the scan finds does not depend on where the stream is cut. -/

/-- `ESC ] 7 ; file://`. -/
def OSC7_PREFIX : Text := [ESC, 0x5d, 0x37, 0x3b, 0x66, 0x69, 0x6c, 0x65, 0x3a, 0x2f, 0x2f]

def SLASH : UInt16 := 0x2f

def PERCENT : UInt16 := 0x25

def OSC7_MAX : ℕ := 1024

/-- What stands before the first occurrence of `needle`, and behind it: `indexOf` and two slices. -/
def cut (needle : Text) : Text → Option (Text × Text)
  | [] => none
  | code :: rest =>
    if needle.isPrefixOf (code :: rest) then some ([], (code :: rest).drop needle.length)
    else (cut needle rest).map fun halves => (code :: halves.1, halves.2)

/-- The text before the first BEL or ST, how many units that is, and the text behind it. -/
def terminated (data : Text) : Option (Text × ℕ × Text) :=
  match cut [BEL] data, cut [ESC, BACKSLASH] data with
  | none, none => none
  | some (body, next), none => some (body, 1, next)
  | none, some (body, next) => some (body, 2, next)
  | some bell, some st => if bell.1.length < st.1.length then some (bell.1, 1, bell.2) else some (st.1, 2, st.2)

/-- A sequence from its introducer to its terminator: what it reports, and its length. -/
structure Osc7Sequence where
  body : Text
  units : ℕ

/-- The sequences of a text in order, and the one it leaves open, from its introducer on. -/
def scanOsc7 : ℕ → Text → List Osc7Sequence × Option Text
  | 0, _ => ([], none)
  | fuel + 1, data =>
    match cut OSC7_PREFIX data with
    | none => ([], none)
    | some (_, behind) =>
      match terminated behind with
      | none => ([], some (OSC7_PREFIX ++ behind))
      | some (body, units, next) =>
        (⟨body, OSC7_PREFIX.length + body.length + units⟩ :: (scanOsc7 fuel next).1, (scanOsc7 fuel next).2)

def sequencesOf (data : Text) : List Osc7Sequence := (scanOsc7 (data.length + 1) data).1

/-- The text from the last `ESC` on. -/
def fromLastEscape : Text → Option Text
  | [] => none
  | code :: rest =>
    match fromLastEscape rest with
    | some tail => some tail
    | none => if code = ESC then some (code :: rest) else none

/-- The part of an introducer a text ends in. -/
def partialIntroducer (data : Text) : Text :=
  match fromLastEscape data with
  | none => []
  | some tail => if tail.isPrefixOf OSC7_PREFIX then (if tail.length ≤ OSC7_MAX then tail else []) else []

section
variable (decodeURIComponent : Text → Option Text)

/-- The directory a body names, from its first slash on; the last directory where it has none. A text that cannot be
decoded is taken as it is. -/
def reported (cwd : Option Text) (found : Osc7Sequence) : Option Text :=
  let raw := found.body.dropWhile (· ≠ SLASH)
  if raw = [] then cwd
  else if PERCENT ∈ raw then some ((decodeURIComponent raw).getD raw)
  else some raw

structure Osc7Parsed where
  cwd : Option Text
  buf : Text

def osc7 (buf chunk : Text) : Osc7Parsed :=
  let data := buf ++ chunk
  let found := scanOsc7 (data.length + 1) data
  let cwd := found.1.foldl (reported decodeURIComponent) none
  match found.2 with
  | some tail => { cwd, buf := if tail.length ≤ OSC7_MAX then tail else [] }
  | none => { cwd, buf := partialIntroducer data }

/-- The tracker of a session: the last directory reported, and the carry. -/
def track (state : Osc7Parsed) (chunk : Text) : Osc7Parsed :=
  let parsed := osc7 decodeURIComponent state.buf chunk
  { cwd := parsed.cwd.or state.cwd, buf := parsed.buf }

def trackAll (chunks : List Text) : Osc7Parsed := chunks.foldl (track decodeURIComponent) { cwd := none, buf := [] }

end

end Claxedo.Pty
