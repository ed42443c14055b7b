import Mathlib.Tactic
import Mathlib.Data.Rat.Floor
import Mathlib.Data.List.TakeWhile

/-! Numbers and their texts: digits of a radix, and the safe integer that `Number(text)` reads out of a text.
A numeric literal is read exactly and then rounded to the nearest double, ties to the even one. -/

namespace Claxedo.Lib.NumberText

def maxSafeInteger : ℕ := 2 ^ 53 - 1

def isSafeInteger (n : ℤ) : Bool := n.natAbs ≤ maxSafeInteger

/-- White space and line terminators. -/
def isSpace (c : Char) : Bool :=
  c.toNat ∈ [0x9, 0xa, 0xb, 0xc, 0xd, 0x20, 0xa0, 0x1680, 0x2028, 0x2029, 0x202f, 0x205f, 0x3000, 0xfeff] ∨
    0x2000 ≤ c.toNat ∧ c.toNat ≤ 0x200a

def trimmed (text : List Char) : List Char := ((text.dropWhile isSpace).reverse.dropWhile isSpace).reverse

def digitOf (c : Char) : Option ℕ :=
  if c.isDigit then some (c.toNat - '0'.toNat)
  else if 'a' ≤ c ∧ c ≤ 'f' then some (c.toNat - 'a'.toNat + 10)
  else if 'A' ≤ c ∧ c ≤ 'F' then some (c.toNat - 'A'.toNat + 10)
  else none

def isDigitOf (base : ℕ) (c : Char) : Bool := (digitOf c).any (· < base)

def valueOf (base : ℕ) (digits : List Char) : ℕ :=
  digits.foldl (fun value c => base * value + (digitOf c).getD 0) 0

/-- What a text of digits, at least one, is worth. -/
def ofDigits (base : ℕ) (digits : List Char) : Option ℕ :=
  if digits ≠ [] ∧ digits.all (isDigitOf base) then some (valueOf base digits) else none

/-- The double nearest to `q` is the integer `n`, a double itself. -/
def roundsTo (q : ℚ) (n : ℤ) : Bool :=
  let distance := |q - n|
  let exponent := n.natAbs.log2
  if n = 0 then distance * 2 ^ 1075 ≤ 1
  else
    -- Below a power of two the doubles stand twice as close.
    let half : ℚ := if n.natAbs = 2 ^ exponent ∧ |q| < n.natAbs then 2 ^ exponent / 2 ^ 54 else 2 ^ exponent / 2 ^ 53
    distance < half ∨ distance = half ∧ (exponent < 52 ∨ n % 2 = 0)

def safeIntegerNear (q : ℚ) : Option ℤ := [⌊q⌋, ⌈q⌉].find? fun n => isSafeInteger n && roundsTo q n

def exponentPart : List Char → Option ℤ
  | [] => some 0
  | c :: rest =>
    if c ≠ 'e' ∧ c ≠ 'E' then none
    else
      match rest with
      | '-' :: digits => (ofDigits 10 digits).map fun n => -(n : ℤ)
      | '+' :: digits => (ofDigits 10 digits).map fun n => (n : ℤ)
      | digits => (ofDigits 10 digits).map fun n => (n : ℤ)

/-- An unsigned decimal literal. -/
def decimal (text : List Char) : Option ℚ :=
  let whole := text.takeWhile Char.isDigit
  let rest := text.dropWhile Char.isDigit
  let fraction := if rest.head? = some '.' then rest.tail.takeWhile Char.isDigit else []
  let rest := if rest.head? = some '.' then rest.tail.dropWhile Char.isDigit else rest
  if whole = [] ∧ fraction = [] then none
  else (exponentPart rest).map fun exponent =>
    (valueOf 10 (whole ++ fraction) : ℚ) * (10 : ℚ) ^ (exponent - (fraction.length : ℤ))

/-- The number a trimmed text is written as; an `Infinity` is no finite one. -/
def literal : List Char → Option ℚ
  | [] => some 0
  | '0' :: 'x' :: digits | '0' :: 'X' :: digits => (ofDigits 16 digits).map fun n => (n : ℚ)
  | '0' :: 'o' :: digits | '0' :: 'O' :: digits => (ofDigits 8 digits).map fun n => (n : ℚ)
  | '0' :: 'b' :: digits | '0' :: 'B' :: digits => (ofDigits 2 digits).map fun n => (n : ℚ)
  | '-' :: text => (decimal text).map fun q => -q
  | '+' :: text => decimal text
  | text => decimal text

/-- `Number(text)` where it is a safe integer. -/
def safeIntegerOf (text : List Char) : Option ℤ := (literal (trimmed text)).bind safeIntegerNear

/-- `${n}` of an integer. -/
def integerText (n : ℤ) : List Char :=
  if n < 0 then '-' :: Nat.toDigits 10 n.natAbs else Nat.toDigits 10 n.natAbs

section
variable {text digits : List Char} {c : Char}

theorem trimmed_of_no_space (h : ∀ c ∈ text, isSpace c = false) : trimmed text = text := by
  have hstart : ∀ l : List Char, (∀ c ∈ l, isSpace c = false) → l.dropWhile isSpace = l := by
    intro l hl
    cases l with
    | nil => rfl
    | cons c l => rw [List.dropWhile_cons_of_neg (by simp [hl c List.mem_cons_self])]
  unfold trimmed
  rw [hstart text h, hstart text.reverse fun c hc => h c (List.mem_reverse.mp hc), List.reverse_reverse]

theorem digit_bounds (h : c.isDigit = true) : 48 ≤ c.toNat ∧ c.toNat ≤ 57 := by
  have hval : 48 ≤ c.val ∧ c.val ≤ 57 := by simpa [Char.isDigit] using h
  exact ⟨UInt32.le_iff_toNat_le.mp hval.1, UInt32.le_iff_toNat_le.mp hval.2⟩

theorem isSpace_of_isDigit (h : c.isDigit = true) : isSpace c = false := by
  obtain ⟨hlow, hhigh⟩ := digit_bounds h
  simp only [isSpace, List.mem_cons, List.not_mem_nil, or_false, decide_eq_false_iff_not]
  omega

theorem digitOf_of_isDigit (h : c.isDigit = true) : digitOf c = some (c.toNat - '0'.toNat) := by
  unfold digitOf
  rw [if_pos h]

theorem valueOf_ten (h : ∀ c ∈ digits, c.isDigit = true) : valueOf 10 digits = Nat.ofDigitChars 10 digits 0 := by
  have hfold : ∀ (l : List Char) (value : ℕ), (∀ c ∈ l, c.isDigit = true) →
      l.foldl (fun value c => 10 * value + (digitOf c).getD 0) value = Nat.ofDigitChars 10 l value := by
    intro l
    induction l with
    | nil => intro value _; rfl
    | cons c l ih =>
      intro value hl
      rw [List.foldl_cons, ih _ fun c' hc' => hl c' (List.mem_cons_of_mem _ hc'),
        digitOf_of_isDigit (hl c List.mem_cons_self), Nat.ofDigitChars_cons, Option.getD_some]
  exact hfold digits 0 h

theorem decimal_digits (hne : digits ≠ []) (h : ∀ c ∈ digits, c.isDigit = true) :
    decimal digits = some (Nat.ofDigitChars 10 digits 0 : ℚ) := by
  have htake : digits.takeWhile Char.isDigit = digits := List.takeWhile_eq_self_iff.mpr h
  have hdrop : digits.dropWhile Char.isDigit = [] := List.dropWhile_eq_nil_iff.mpr h
  simp [decimal, htake, hdrop, hne, exponentPart, valueOf_ten h]

theorem literal_digits (hne : digits ≠ []) (h : ∀ c ∈ digits, c.isDigit = true) :
    literal digits = decimal digits := by
  have hhead : ∀ c c' rest, digits = c :: c' :: rest → c'.isDigit = true := by
    rintro c c' rest rfl
    exact h c' (by simp)
  unfold literal
  split
  · exact absurd rfl hne
  all_goals first
    | exact absurd (hhead _ _ _ rfl) (by decide)
    | exact absurd (h _ List.mem_cons_self) (by decide)
    | rfl

theorem safeIntegerNear_intCast {n : ℤ} (h : isSafeInteger n = true) : safeIntegerNear n = some n := by
  have hround : roundsTo n n = true := by
    unfold roundsTo
    split_ifs <;> simp
  simp [safeIntegerNear, h, hround]

theorem integerText_ne_nil (n : ℤ) : integerText n ≠ [] := by
  unfold integerText
  split_ifs
  · exact List.cons_ne_nil _ _
  · exact Nat.toDigits_ne_nil

theorem mem_integerText {n : ℤ} (h : c ∈ integerText n) : c = '-' ∨ c.isDigit = true := by
  unfold integerText at h
  split_ifs at h
  · rcases List.mem_cons.mp h with rfl | h
    · exact .inl rfl
    · exact .inr (Nat.isDigit_of_mem_toDigits (by decide) (by decide) h)
  · exact .inr (Nat.isDigit_of_mem_toDigits (by decide) (by decide) h)

theorem literal_integerText (n : ℤ) : literal (integerText n) = some (n : ℚ) := by
  have hdigits : ∀ c ∈ Nat.toDigits 10 n.natAbs, c.isDigit = true :=
    fun c hc => Nat.isDigit_of_mem_toDigits (by decide) (by decide) hc
  have hdecimal : decimal (Nat.toDigits 10 n.natAbs) = some (n.natAbs : ℚ) := by
    rw [decimal_digits Nat.toDigits_ne_nil hdigits, Nat.ofDigitChars_ten_toDigits]
  unfold integerText
  split_ifs with hneg
  · have habs : ((n.natAbs : ℕ) : ℤ) = -n := by omega
    have hcast : ((n.natAbs : ℤ) : ℚ) = -(n : ℚ) := by rw [habs, Int.cast_neg]
    rw [Int.cast_natCast] at hcast
    simp only [literal, hdecimal, Option.map_some, hcast, neg_neg]
  · have habs : ((n.natAbs : ℕ) : ℤ) = n := by omega
    have hcast : ((n.natAbs : ℤ) : ℚ) = (n : ℚ) := by rw [habs]
    rw [Int.cast_natCast] at hcast
    rw [literal_digits Nat.toDigits_ne_nil hdigits, hdecimal, hcast]

theorem safeIntegerOf_integerText {n : ℤ} (h : isSafeInteger n = true) : safeIntegerOf (integerText n) = some n := by
  have hspace : ∀ c ∈ integerText n, isSpace c = false := by
    intro c hc
    rcases mem_integerText hc with rfl | hdigit
    · decide
    · exact isSpace_of_isDigit hdigit
  rw [safeIntegerOf, trimmed_of_no_space hspace, literal_integerText, Option.bind_some, safeIntegerNear_intCast h]

theorem length_integerText {n : ℤ} (h : isSafeInteger n = true) : (integerText n).length ≤ 17 := by
  have habs : n.natAbs ≤ 2 ^ 53 - 1 := of_decide_eq_true h
  have hdigits : (Nat.toDigits 10 n.natAbs).length ≤ 16 :=
    (Nat.length_toDigits_le_iff (by decide) (by decide)).mpr (by omega)
  unfold integerText
  split_ifs
  · rw [List.length_cons]
    omega
  · omega

end

end Claxedo.Lib.NumberText

/-! JavaScript's strings as the code points they hold, a surrogate that stands alone among them, and their UTF-8 bytes:
what an encoder makes of a text, and what a decoder reads out of bytes, a byte order mark in front left out. -/

namespace Claxedo.Lib.JsText

/-- A code point of a string: a character, or the surrogate `0xd800 + low` with no partner. -/
inductive Point where
  | char (c : Char)
  | lone (low : Fin 0x800)
  deriving DecidableEq

abbrev Text := List Point

def ofString (s : String) : Text := s.toList.map .char

/-- A point's length in UTF-16 code units. -/
def Point.units : Point → ℕ
  | .char c => if 0xffff < c.toNat then 2 else 1
  | .lone _ => 1

def length (t : Text) : ℕ := (t.map Point.units).sum

/-- The longest a string may be. -/
def maxLength : ℕ := 2 ^ 53 - 1

/-- A string that exists. -/
structure JsString where
  text : Text
  bounded : length text ≤ maxLength

def Point.isSpace : Point → Bool
  | .char c => NumberText.isSpace c
  | .lone _ => false

def trim (t : Text) : Text := ((t.dropWhile Point.isSpace).reverse.dropWhile Point.isSpace).reverse

def join (separator : Text) (parts : List Text) : Text := separator.intercalate parts

/-! ### UTF-8 -/

/-- The bytes a point takes; a lone surrogate takes those of U+FFFD. -/
def Point.size : Point → ℕ
  | .char c => if c.toNat < 0x80 then 1 else if c.toNat < 0x800 then 2 else if c.toNat < 0x10000 then 3 else 4
  | .lone _ => 3

def utf8ByteLength (t : Text) : ℕ := (t.map Point.size).sum

def encodeChar (n : ℕ) : List ℕ :=
  if n < 0x80 then [n]
  else if n < 0x800 then [0xc0 + n / 64, 0x80 + n % 64]
  else if n < 0x10000 then [0xe0 + n / 4096, 0x80 + n / 64 % 64, 0x80 + n % 64]
  else [0xf0 + n / 262144, 0x80 + n / 4096 % 64, 0x80 + n / 64 % 64, 0x80 + n % 64]

def replacement : Char := '\ufffd'

/-- The character an encoder writes for a point. -/
def Point.written : Point → Char
  | .char c => c
  | .lone _ => replacement

def encodePoint (p : Point) : List ℕ := encodeChar p.written.toNat

def encode (t : Text) : List ℕ := t.flatMap encodePoint

/-- The rest of a sequence: the bytes it needs, the code point so far, and what the next byte may be. -/
structure Pending where
  needed : ℕ
  point : ℕ
  lower : ℕ
  upper : ℕ

def lead (byte : ℕ) : List Char × Option Pending :=
  if byte < 0x80 then ([Char.ofNat byte], none)
  else if 0xc2 ≤ byte ∧ byte ≤ 0xdf then ([], some ⟨1, byte % 0x20, 0x80, 0xbf⟩)
  else if 0xe0 ≤ byte ∧ byte ≤ 0xef then
    ([], some ⟨2, byte % 0x10, if byte = 0xe0 then 0xa0 else 0x80, if byte = 0xed then 0x9f else 0xbf⟩)
  else if 0xf0 ≤ byte ∧ byte ≤ 0xf4 then
    ([], some ⟨3, byte % 8, if byte = 0xf0 then 0x90 else 0x80, if byte = 0xf4 then 0x8f else 0xbf⟩)
  else ([replacement], none)

/-- What a decoder reads at one byte. A byte that does not go on with the sequence is read as the start of one. -/
def feed : Option Pending → ℕ → List Char × Option Pending
  | none, byte => lead byte
  | some pending, byte =>
    if byte < pending.lower ∨ pending.upper < byte then (replacement :: (lead byte).1, (lead byte).2)
    else
      let point := pending.point * 64 + byte % 64
      if pending.needed = 1 then ([Char.ofNat point], none) else ([], some ⟨pending.needed - 1, point, 0x80, 0xbf⟩)

def decodeFrom : Option Pending → List ℕ → List Char
  | none, [] => []
  | some _, [] => [replacement]
  | pending, byte :: bytes => (feed pending byte).1 ++ decodeFrom (feed pending byte).2 bytes

def byteOrderMark : List ℕ := [0xef, 0xbb, 0xbf]

def decode (bytes : List ℕ) : Text :=
  (decodeFrom none (if byteOrderMark <+: bytes then bytes.drop 3 else bytes)).map .char

/-- A byte inside a sequence. -/
def isContinuation (byte : ℕ) : Bool := 0x80 ≤ byte && byte < 0xc0

section
variable {t u : Text} {p : Point} {bytes : List ℕ}

@[simp] theorem utf8ByteLength_nil : utf8ByteLength [] = 0 := rfl

@[simp] theorem utf8ByteLength_cons (p : Point) (t : Text) : utf8ByteLength (p :: t) = p.size + utf8ByteLength t := by
  simp [utf8ByteLength]

@[simp] theorem utf8ByteLength_append (t u : Text) : utf8ByteLength (t ++ u) = utf8ByteLength t + utf8ByteLength u := by
  simp [utf8ByteLength]

theorem utf8ByteLength_reverse (t : Text) : utf8ByteLength t.reverse = utf8ByteLength t := by
  simp [utf8ByteLength, List.sum_reverse]

theorem Point.size_pos (p : Point) : 0 < p.size := by
  cases p with
  | char c =>
    dsimp only [Point.size]
    split_ifs <;> omega
  | lone low => exact Nat.succ_pos 2

theorem length_encodePoint (p : Point) : (encodePoint p).length = p.size := by
  cases p with
  | char c =>
    unfold encodePoint encodeChar Point.size Point.written
    dsimp only
    split_ifs <;> rfl
  | lone low => rfl

@[simp] theorem encode_nil : encode [] = [] := rfl

@[simp] theorem encode_cons (p : Point) (t : Text) : encode (p :: t) = encodePoint p ++ encode t := rfl

@[simp] theorem encode_append (t u : Text) : encode (t ++ u) = encode t ++ encode u := List.flatMap_append

theorem length_encode (t : Text) : (encode t).length = utf8ByteLength t := by
  induction t with
  | nil => rfl
  | cons p t ih => rw [encode_cons, List.length_append, length_encodePoint, ih, utf8ByteLength_cons]

/-- A point's bytes: one that starts it, and those inside it. -/
theorem encodePoint_eq (p : Point) :
    ∃ first rest, encodePoint p = first :: rest ∧ isContinuation first = false ∧ ∀ byte ∈ rest, isContinuation byte = true := by
  have hvalid : p.written.toNat < 0x110000 := by
    rcases p.written.valid with h | ⟨-, h⟩
    · exact h.trans (by decide)
    · exact h
  unfold encodePoint encodeChar
  generalize p.written.toNat = n at hvalid
  split_ifs
  · exact ⟨n, [], rfl, by simp [isContinuation]; omega, by simp⟩
  · exact ⟨_, _, rfl, by simp [isContinuation], by simp [isContinuation]; omega⟩
  · exact ⟨_, _, rfl, by simp [isContinuation]; omega, by simp [isContinuation]; omega⟩
  · exact ⟨_, _, rfl, by simp [isContinuation]; omega, by simp [isContinuation]; omega⟩

theorem decodeFrom_cons (pending : Option Pending) (byte : ℕ) (bytes : List ℕ) :
    decodeFrom pending (byte :: bytes) = (feed pending byte).1 ++ decodeFrom (feed pending byte).2 bytes := by
  cases pending <;> rfl

/-- A byte that goes on with a sequence. -/
theorem feed_some {pending : Pending} {byte : ℕ} (h : pending.lower ≤ byte ∧ byte ≤ pending.upper) :
    feed (some pending) byte = if pending.needed = 1 then ([Char.ofNat (pending.point * 64 + byte % 64)], none)
      else ([], some ⟨pending.needed - 1, pending.point * 64 + byte % 64, 0x80, 0xbf⟩) :=
  if_neg (by omega)

theorem decodeFrom_encodeChar (c : Char) (bytes : List ℕ) :
    decodeFrom none (encodeChar c.toNat ++ bytes) = c :: decodeFrom none bytes := by
  have hvalid : c.toNat < 0xd800 ∨ 0xdfff < c.toNat ∧ c.toNat < 0x110000 := c.valid
  have hchar : c = Char.ofNat c.toNat := (Char.ofNat_toNat c).symm
  generalize c.toNat = n at hvalid hchar
  subst hchar
  unfold encodeChar
  split_ifs with h1 h2 h3
  · simp only [List.cons_append, List.nil_append, decodeFrom_cons, feed, lead, if_pos h1]
  · have hlead : lead (0xc0 + n / 64) = ([], some ⟨1, n / 64, 0x80, 0xbf⟩) := by
      rw [lead, if_neg (by omega), if_pos (by omega), show (0xc0 + n / 64) % 0x20 = n / 64 by omega]
    simp only [List.cons_append, List.nil_append, decodeFrom_cons, feed.eq_1, hlead]
    rw [feed_some (by dsimp only; omega), if_pos rfl]
    dsimp only
    rw [show n / 64 * 64 + (0x80 + n % 64) % 64 = n by omega]
    rfl
  · have hlead : lead (0xe0 + n / 4096) = ([], some ⟨2, n / 4096, if n / 4096 = 0 then 0xa0 else 0x80,
        if n / 4096 = 13 then 0x9f else 0xbf⟩) := by
      rw [lead, if_neg (by omega), if_neg (by omega), if_pos (by omega), show (0xe0 + n / 4096) % 0x10 = n / 4096 by omega]
      congr 3 <;> exact if_congr (by omega) rfl rfl
    simp only [List.cons_append, List.nil_append, decodeFrom_cons, feed.eq_1, hlead]
    -- Below 0x800 a sequence of three would be too long, and between 0xd800 and 0xdfff it would be a surrogate.
    rw [feed_some (by dsimp only; split_ifs <;> omega)]
    dsimp only
    rw [if_neg (by decide)]
    rw [feed_some (by dsimp only; omega), if_pos rfl]
    dsimp only
    rw [show (n / 4096 * 64 + (0x80 + n / 64 % 64) % 64) * 64 + (0x80 + n % 64) % 64 = n by omega]
    rfl
  · have hlead : lead (0xf0 + n / 262144) = ([], some ⟨3, n / 262144, if n / 262144 = 0 then 0x90 else 0x80,
        if n / 262144 = 4 then 0x8f else 0xbf⟩) := by
      rw [lead, if_neg (by omega), if_neg (by omega), if_neg (by omega), if_pos (by omega),
        show (0xf0 + n / 262144) % 8 = n / 262144 by omega]
      congr 3 <;> exact if_congr (by omega) rfl rfl
    simp only [List.cons_append, List.nil_append, decodeFrom_cons, feed.eq_1, hlead]
    rw [feed_some (by dsimp only; split_ifs <;> omega)]
    dsimp only
    rw [if_neg (by decide)]
    rw [feed_some (by dsimp only; omega)]
    dsimp only
    rw [if_neg (by decide)]
    rw [feed_some (by dsimp only; omega), if_pos rfl]
    dsimp only
    rw [show ((n / 262144 * 64 + (0x80 + n / 4096 % 64) % 64) * 64 + (0x80 + n / 64 % 64) % 64) * 64 +
      (0x80 + n % 64) % 64 = n by omega]
    rfl

theorem decodeFrom_encode (t : Text) : decodeFrom none (encode t) = t.map Point.written := by
  induction t with
  | nil => rfl
  | cons p t ih => rw [encode_cons, encodePoint, decodeFrom_encodeChar, ih, List.map_cons]

/-- The mark a decoder leaves out in front. -/
def mark : Point := .char '\ufeff'

theorem encode_mark : encodePoint mark = byteOrderMark := by decide

theorem prefix_encodePoint_iff (p : Point) (bytes : List ℕ) : byteOrderMark <+: encodePoint p ++ bytes ↔ p = mark := by
  constructor
  · intro h
    have hwritten : p.written.toNat = 0xfeff := by
      unfold encodePoint encodeChar at h
      generalize p.written.toNat = n at h
      split_ifs at h <;> simp [byteOrderMark, List.cons_prefix_cons] at h <;> omega
    cases p with
    | char c => exact congrArg Point.char (Char.toNat_inj.mp hwritten)
    | lone low => cases hwritten
  · rintro rfl
    rw [encode_mark]
    exact List.prefix_append _ _

/-- What is read back of a text: lone surrogates replaced, a byte order mark in front left out. -/
def readBack (t : Text) : Text := ((if t.head? = some mark then t.tail else t).map Point.written).map .char

theorem decode_encode (t : Text) : decode (encode t) = readBack t := by
  unfold decode readBack
  congr 1
  rcases t with _ | ⟨p, t⟩
  · rfl
  · rw [List.head?_cons, encode_cons, List.tail_cons]
    by_cases hp : p = mark
    · subst hp
      rw [if_pos ((prefix_encodePoint_iff _ _).mpr rfl), if_pos rfl, encode_mark]
      exact decodeFrom_encode t
    · rw [if_neg fun h => hp ((prefix_encodePoint_iff _ _).mp h), if_neg (by simpa using hp), ← encode_cons, decodeFrom_encode]

/-- Nothing in a text is read back otherwise than it stands. -/
def Plain (t : Text) : Prop := (∀ p ∈ t, ∀ low, p ≠ .lone low) ∧ t.head? ≠ some mark

theorem char_written_iff (p : Point) : .char p.written = p ↔ ∀ low, p ≠ .lone low := by
  cases p with
  | char c => exact iff_of_true rfl nofun
  | lone low => exact iff_of_false nofun fun h => h low rfl

theorem map_written_iff (t : Text) : (t.map Point.written).map Point.char = t ↔ ∀ p ∈ t, ∀ low, p ≠ .lone low := by
  induction t with
  | nil => simp
  | cons p t ih => rw [List.map_cons, List.map_cons, List.cons.injEq, ih, char_written_iff, List.forall_mem_cons]

theorem size_char_written (p : Point) : Point.size (.char p.written) = p.size := by
  cases p <;> rfl

theorem utf8ByteLength_map_written (t : Text) : utf8ByteLength ((t.map Point.written).map Point.char) = utf8ByteLength t := by
  induction t with
  | nil => rfl
  | cons p t ih => rw [List.map_cons, List.map_cons, utf8ByteLength_cons, utf8ByteLength_cons, ih, size_char_written]

theorem readBack_of_plain (h : Plain t) : readBack t = t := by
  rw [readBack, if_neg h.2, map_written_iff]
  exact h.1

theorem utf8ByteLength_readBack (t : Text) :
    utf8ByteLength (readBack t) + (if t.head? = some mark then 3 else 0) = utf8ByteLength t := by
  rw [readBack, utf8ByteLength_map_written]
  rcases t with _ | ⟨p, t⟩
  · rfl
  · by_cases hp : p = mark
    · subst hp
      rw [List.head?_cons, if_pos rfl, if_pos rfl, List.tail_cons, utf8ByteLength_cons, add_comm]
      rfl
    · have hne : (p :: t).head? ≠ some mark := by simpa using hp
      rw [if_neg hne, if_neg hne, add_zero]

/-! ### As much of a text as fits -/

/-- The longest start of a text that takes no more bytes than `max`. -/
def fit : ℕ → Text → Text
  | _, [] => []
  | max, p :: t => if p.size ≤ max then p :: fit (max - p.size) t else []

theorem fit_spec (max : ℕ) (t : Text) : ∃ rest, t = fit max t ++ rest ∧ utf8ByteLength (fit max t) ≤ max ∧
    ∀ p ∈ rest.head?, max < utf8ByteLength (fit max t) + p.size := by
  induction t generalizing max with
  | nil => exact ⟨[], rfl, Nat.zero_le _, nofun⟩
  | cons p t ih =>
    rw [fit]
    split_ifs with hp
    · obtain ⟨rest, hrest, hle, hnext⟩ := ih (max - p.size)
      refine ⟨rest, by rw [List.cons_append, ← hrest], ?_, fun q hq => ?_⟩
      · rw [utf8ByteLength_cons]
        omega
      · have := hnext q hq
        rw [utf8ByteLength_cons]
        omega
    · exact ⟨p :: t, rfl, Nat.zero_le _, fun q hq => by
        obtain rfl : p = q := by simpa using hq
        rw [utf8ByteLength_nil]
        omega⟩

end

end Claxedo.Lib.JsText
