import Claxedo.Lib.JsText
import Claxedo.Lib.Lists

/-! Canonical IP parsing and destination classification: every spelling of an address is parsed to its number,
and the policy is asked of the number. -/

namespace Claxedo.Net

open Claxedo.Lib.NumberText

inductive IpAddress where
  | v4 (value : ℕ)
  | v6 (segments : List ℕ)
  deriving DecidableEq

/-- One IPv4 numeric part: `0x` hex, a leading `0` octal, else decimal. -/
def ipv4Number (part : List Char) : Option ℕ :=
  let value :=
    match part with
    | '0' :: x :: digits =>
      if (x = 'x' ∨ x = 'X') ∧ digits ≠ [] ∧ digits.all (isDigitOf 16) then some (valueOf 16 digits)
      else if (x :: digits).all (isDigitOf 8) then some (valueOf 8 (x :: digits))
      else ofDigits 10 part
    | _ => ofDigits 10 part
  value.filter fun value => isSafeInteger value

/-- One to four numeric parts, where the last part holds the remaining bytes; a trailing dot is dropped. -/
def parseIpv4 (input : List Char) : Option ℕ :=
  let parts := input.splitOn '.'
  let parts := if 1 < parts.length ∧ parts.getLast? = some [] then parts.dropLast else parts
  if parts.length < 1 ∨ 4 < parts.length then none
  else
    match parts.mapM ipv4Number with
    | none => none
    | some numbers =>
      let last := numbers.getLast?.getD 0
      if 256 ^ (5 - numbers.length) ≤ last then none
      else if numbers.dropLast.any (255 < ·) then none
      else
        let address := numbers.dropLast.zipIdx.foldl (fun address number => address + number.1 * 256 ^ (3 - number.2)) last
        some (address % 2 ^ 32)

def hextet (part : List Char) : Option ℕ := if part.length ≤ 4 then ofDigits 16 part else none

def octet (part : List Char) : Option ℕ :=
  if part.length ≤ 3 then (ofDigits 10 part).filter fun value => value ≤ 255 else none

/-- A strict dotted-quad tail inside an IPv6 literal. -/
def embeddedQuad (input : List Char) : Option (List ℕ) :=
  let parts := input.splitOn '.'
  if parts.length ≠ 4 then none else parts.mapM octet

/-- How often `::` is found, one match after another. -/
def doubleColons : List Char → ℕ
  | ':' :: ':' :: rest => doubleColons rest + 1
  | _ :: rest => doubleColons rest
  | [] => 0

/-- The text before the first `::` and the text after it. -/
def splitAtDoubleColon : List Char → Option (List Char × List Char)
  | ':' :: ':' :: rest => some ([], rest)
  | c :: rest => (splitAtDoubleColon rest).map fun halves => (c :: halves.1, halves.2)
  | [] => none

/-- `side === "" ? [] : side.split(":")`. -/
def partsOf (side : List Char) : List (List Char) := if side = [] then [] else side.splitOn ':'

/-- The eight parts of an IPv6 body, `::` filled with zeros. -/
def halves (body : List Char) : Option (List (List Char)) :=
  if 1 < doubleColons body then none
  else
    match splitAtDoubleColon body with
    | some (left, right) =>
      let leftParts := partsOf left
      let rightParts := partsOf right
      if leftParts.length + rightParts.length ≤ 7 then
        some (leftParts ++ List.replicate (8 - leftParts.length - rightParts.length) ['0'] ++ rightParts)
      else none
    | none => if (body.splitOn ':').length = 8 then some (body.splitOn ':') else none

def segmentsOf (body : List Char) : Option (List ℕ) := (halves body).bind fun parts => parts.mapM hextet

/-- The text up to its last colon, and the text behind it. -/
def splitAtLastColon (input : List Char) : Option (List Char × List Char) :=
  let tail := (input.reverse.takeWhile (· ≠ ':')).reverse
  if ':' ∈ input then some (input.take (input.length - tail.length), tail) else none

def parseIpv6 (input : List Char) : Option (List ℕ) :=
  match splitAtLastColon input with
  | some (upToColon, behind) =>
    if '.' ∈ input then
      match embeddedQuad behind with
      | some [a, b, c, d] =>
        -- The tail is read as two zero segments; its real value is written over them.
        (segmentsOf (upToColon ++ ['0', ':', '0'])).map fun segments => segments.take 6 ++ [a * 256 + b, c * 256 + d]
      | _ => none
    else segmentsOf input
  | none => segmentsOf input

/-- Parses every spelling of an IP literal. No letter that an address has is the lower case of another than its own
upper case, so the case of ASCII is all that is folded. -/
def parseIpAddress (input : Option (List Char)) : Option IpAddress :=
  match input with
  | none | some [] => none
  | some input =>
    let host := (trimmed input).map Char.toLower
    let host :=
      if host.head? = some '[' ∧ host.getLast? = some ']' ∧ ':' ∈ host then host.tail.dropLast else host
    if ':' ∈ host then (parseIpv6 host).map .v6 else (parseIpv4 host).map .v4

/-- Non-global IPv4 destinations, as base and prefix bits. -/
def v4Private : List (ℕ × ℕ) :=
  [(0x00000000, 8), (0x0a000000, 8), (0x64400000, 10), (0x7f000000, 8), (0xa9fe0000, 16), (0xac100000, 12),
    (0xc0000000, 24), (0xc0000200, 24), (0xc01fc400, 24), (0xc034c100, 24), (0xc0586300, 24), (0xc0a80000, 16),
    (0xc0af3000, 24), (0xc6120000, 15), (0xc6336400, 24), (0xcb007100, 24), (0xe0000000, 4), (0xf0000000, 4)]

def inCidr (value base bits : ℕ) : Bool := (value ^^^ base) >>> (32 - bits) = 0

def isPrivateIpv4 (value : ℕ) : Bool := v4Private.any fun cidr => inCidr value cidr.1 cidr.2

def isLoopbackIpv4 (value : ℕ) : Bool := inCidr value 0x7f000000 8

/-- The IPv4 an IPv6 literal secretly carries, in the forms that embed one: mapped, compatible, NAT64, 6to4 and
Teredo. -/
def embeddedIpv4 : List ℕ → Option ℕ
  | [a, b, c, d, e, f, g, h] =>
    if (a = 0 ∧ b = 0 ∧ c = 0 ∧ d = 0 ∧ e = 0) ∧ (f = 0xffff ∨ f = 0) then some ((g * 65536 + h) % 2 ^ 32)
    else if a = 0x64 ∧ b = 0xff9b ∧ c = 0 ∧ d = 0 ∧ e = 0 ∧ f = 0 then some ((g * 65536 + h) % 2 ^ 32)
    else if a = 0x2002 then some ((b * 65536 + c) % 2 ^ 32)
    else if a = 0x2001 ∧ b = 0 then some (((g ^^^ 0xffff) * 65536 + (h ^^^ 0xffff)) % 2 ^ 32)
    else none
  | _ => none

def isUnspecified (segments : List ℕ) : Bool := segments.all (· = 0)

def isIpv6Loopback (segments : List ℕ) : Bool := (segments.take 7).all (· = 0) && segments[7]? = some 1

/-- Loopback only — 127.0.0.0/8, ::1, and every embedded spelling of them. -/
def isLoopbackIpAddress : IpAddress → Bool
  | .v4 value => isLoopbackIpv4 value
  | .v6 segments => isIpv6Loopback segments || (embeddedIpv4 segments).any isLoopbackIpv4

/-- Not a global unicast destination. Any IPv6 whose embedded IPv4 is private is private by the same rule. -/
def isPrivateIpAddress : IpAddress → Bool
  | .v4 value => isPrivateIpv4 value
  | .v6 segments =>
    let first := segments.headD 0
    if isUnspecified segments || isIpv6Loopback segments then true
    else if first &&& 0xff00 = 0xff00 then true
    else if first &&& 0xfe00 = 0xfc00 then true
    else if first &&& 0xffc0 = 0xfe80 then true
    else if first &&& 0xffc0 = 0xfec0 then true
    else if first = 0x0100 ∧ segments[1]? = some 0 ∧ segments[2]? = some 0 ∧ segments[3]? = some 0 then true
    else if first = 0x2001 ∧ segments[1]? = some 0x0db8 then true
    else (embeddedIpv4 segments).any isPrivateIpv4

/-! The spellings of an address, apart from the parser: the numeric parts of a URL host for IPv4, the text forms of
RFC 4291 for IPv6, and the five layouts of an IPv6 address that carries an IPv4 one. -/

open Claxedo.Lib

/-- One numeric part: decimal without a leading zero, octal behind one, hexadecimal behind `0x`, which may be all. -/
inductive PartSpells : List Char → ℕ → Prop
  | decimal {digits : List Char} : digits ≠ [] → digits.all (isDigitOf 10) → (digits.head? = some '0' → digits.length = 1) →
      PartSpells digits (valueOf 10 digits)
  | octal {digits : List Char} : digits ≠ [] → digits.all (isDigitOf 8) → PartSpells ('0' :: digits) (valueOf 8 digits)
  | hexadecimal {x : Char} {digits : List Char} : x = 'x' ∨ x = 'X' → digits.all (isDigitOf 16) →
      PartSpells ('0' :: x :: digits) (valueOf 16 digits)

/-- One to four parts, the last of them holding the bytes that remain. -/
inductive PartsValue : List ℕ → ℕ → Prop
  | one {a : ℕ} : a < 2 ^ 32 → PartsValue [a] a
  | two {a b : ℕ} : a < 256 → b < 2 ^ 24 → PartsValue [a, b] (a * 2 ^ 24 + b)
  | three {a b c : ℕ} : a < 256 → b < 256 → c < 2 ^ 16 → PartsValue [a, b, c] (a * 2 ^ 24 + b * 2 ^ 16 + c)
  | four {a b c d : ℕ} : a < 256 → b < 256 → c < 256 → d < 256 →
      PartsValue [a, b, c, d] (a * 2 ^ 24 + b * 2 ^ 16 + c * 2 ^ 8 + d)

inductive Ipv4Spells : List Char → ℕ → Prop
  | parts {texts : List (List Char)} {values : List ℕ} {v : ℕ} : List.Forall₂ PartSpells texts values →
      PartsValue values v → Ipv4Spells (['.'].intercalate texts) v
  | trailingDot {texts : List (List Char)} {values : List ℕ} {v : ℕ} : List.Forall₂ PartSpells texts values →
      PartsValue values v → Ipv4Spells (['.'].intercalate texts ++ ['.']) v

/-- A hexadecimal part with no digit, which is worth 0. -/
def EmptyHexadecimal (part : List Char) : Prop := part = ['0', 'x'] ∨ part = ['0', 'X']

instance (part : List Char) : Decidable (EmptyHexadecimal part) := inferInstanceAs (Decidable (_ ∨ _))

/-- One to four hexadecimal digits. -/
inductive GroupSpells : List Char → ℕ → Prop
  | mk {digits : List Char} : digits ≠ [] → digits.length ≤ 4 → digits.all (isDigitOf 16) →
      GroupSpells digits (valueOf 16 digits)

inductive OctetSpells : List Char → ℕ → Prop
  | mk {digits : List Char} : digits ≠ [] → digits.length ≤ 3 → digits.all (isDigitOf 10) → valueOf 10 digits ≤ 255 →
      OctetSpells digits (valueOf 10 digits)

/-- Groups, of which the last two may be written as a dotted quad. -/
inductive GroupsSpell : List (List Char) → List ℕ → Prop
  | nil : GroupsSpell [] []
  | quad {a b c d : List Char} {i j k l : ℕ} : OctetSpells a i → OctetSpells b j → OctetSpells c k → OctetSpells d l →
      GroupsSpell [['.'].intercalate [a, b, c, d]] [i * 256 + j, k * 256 + l]
  | group {text : List Char} {texts : List (List Char)} {segment : ℕ} {segments : List ℕ} : GroupSpells text segment →
      GroupsSpell texts segments → GroupsSpell (text :: texts) (segment :: segments)

inductive Ipv6Spells : List Char → List ℕ → Prop
  | full {texts : List (List Char)} {segments : List ℕ} : GroupsSpell texts segments → segments.length = 8 →
      Ipv6Spells ([':'].intercalate texts) segments
  | compressed {left right : List (List Char)} {lefts rights : List ℕ} : List.Forall₂ GroupSpells left lefts →
      GroupsSpell right rights → lefts.length + rights.length ≤ 7 →
      Ipv6Spells ([':'].intercalate left ++ [':', ':'] ++ [':'].intercalate right)
        (lefts ++ List.replicate (8 - lefts.length - rights.length) 0 ++ rights)

/-- The addresses that carry an IPv4 one. -/
inductive Carries (v : ℕ) : List ℕ → Prop
  | mapped : Carries v [0, 0, 0, 0, 0, 0xffff, v / 65536, v % 65536]
  | compatible : Carries v [0, 0, 0, 0, 0, 0, v / 65536, v % 65536]
  | nat64 : Carries v [0x64, 0xff9b, 0, 0, 0, 0, v / 65536, v % 65536]
  | sixToFour (d e f g h : ℕ) : Carries v [0x2002, v / 65536, v % 65536, d, e, f, g, h]
  | teredo (c d e f : ℕ) : Carries v [0x2001, 0, c, d, e, f, v / 65536 ^^^ 0xffff, v % 65536 ^^^ 0xffff]

/-! Joined texts and characters. -/

theorem intercalate_append {s : Char} {l l' : List (List Char)} (hl : l ≠ []) (hl' : l' ≠ []) :
    [s].intercalate (l ++ l') = [s].intercalate l ++ s :: [s].intercalate l' := by
  induction l with
  | nil => exact absurd rfl hl
  | cons text l ih =>
    by_cases hnil : l = []
    · subst hnil
      rw [List.singleton_append, List.intercalate_cons_of_ne_nil hl', List.intercalate_singleton]
      simp
    · rw [List.cons_append, List.intercalate_cons_of_ne_nil (by simp [hnil]), ih hnil, List.intercalate_cons_of_ne_nil hnil]
      simp

section
variable {c : Char} {text : List Char}

theorem toLower_cases (c : Char) : c.toLower = c ∨ 65 ≤ c.toNat ∧ c.toNat ≤ 90 := by
  unfold Char.toLower
  split_ifs with h
  · exact .inr ⟨UInt32.le_iff_toNat_le.mp h.1, UInt32.le_iff_toNat_le.mp h.2⟩
  · exact .inl rfl

theorem digitOf_toLower (c : Char) : digitOf c.toLower = digitOf c := by
  rcases toLower_cases c with h | ⟨hlow, hhigh⟩
  · rw [h]
  · rw [← Char.ofNat_toNat c]
    interval_cases c.toNat <;> decide

theorem valueOf_toLower (base : ℕ) (text : List Char) : valueOf base (text.map Char.toLower) = valueOf base text := by
  unfold valueOf
  rw [List.foldl_map]
  simp only [digitOf_toLower]

theorem all_isDigitOf_toLower (base : ℕ) (text : List Char) :
    (text.map Char.toLower).all (isDigitOf base) = text.all (isDigitOf base) := by
  rw [List.all_map]
  congr 1
  funext c
  simp only [Function.comp_apply, isDigitOf, digitOf_toLower]

theorem digit_ne {base : ℕ} (h : isDigitOf base c = true) {c' : Char} (h' : digitOf c' = none) : c ≠ c' := by
  rintro rfl
  simp [isDigitOf, h'] at h

theorem isSpace_of_isDigitOf {base : ℕ} (h : isDigitOf base c = true) : isSpace c = false := by
  unfold isDigitOf digitOf at h
  have hrange : 48 ≤ c.toNat ∧ c.toNat ≤ 57 ∨ 97 ≤ c.toNat ∧ c.toNat ≤ 102 ∨ 65 ≤ c.toNat ∧ c.toNat ≤ 70 := by
    split_ifs at h with hd hl hu
    · exact .inl (digit_bounds hd)
    · exact .inr (.inl ⟨UInt32.le_iff_toNat_le.mp hl.1, UInt32.le_iff_toNat_le.mp hl.2⟩)
    · exact .inr (.inr ⟨UInt32.le_iff_toNat_le.mp hu.1, UInt32.le_iff_toNat_le.mp hu.2⟩)
    · cases h
  simp only [isSpace, List.mem_cons, List.not_mem_nil, or_false, decide_eq_false_iff_not]
  omega

end

end Claxedo.Net
