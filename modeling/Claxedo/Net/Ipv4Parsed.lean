import Claxedo.Net.Spellings

/-! What `parseIpAddress` makes of the spellings of an IPv4 address. Each part is read as the number it spells, an
empty hexadecimal one apart. -/

namespace Claxedo.Net

open Claxedo.Lib Claxedo.Lib.NumberText

section
variable {part text : List Char} {texts : List (List Char)} {value v : ℕ} {values : List ℕ}

/-- A character of a part: a digit of some radix or the mark of a hexadecimal one. -/
def PartChar (c : Char) : Prop := isDigitOf 16 c = true ∨ c = 'x' ∨ c = 'X'

theorem isDigitOf_mono {base base' : ℕ} {c : Char} (h : isDigitOf base c = true) (hle : base ≤ base') :
    isDigitOf base' c = true := by
  unfold isDigitOf at h ⊢
  cases hd : digitOf c with
  | none => simp [hd] at h
  | some d =>
    simp only [hd, Option.any_some, decide_eq_true_eq] at h ⊢
    omega

theorem PartSpells.chars (h : PartSpells part value) : ∀ c ∈ part, PartChar c := by
  have hall : ∀ {base : ℕ} {digits : List Char}, base ≤ 16 → digits.all (isDigitOf base) → ∀ c ∈ digits, PartChar c :=
    fun hle hdigits c hc => .inl (isDigitOf_mono (List.all_eq_true.mp hdigits c hc) hle)
  cases h with
  | decimal hne hdigits hzero => exact hall (by decide) hdigits
  | octal hne hdigits =>
    intro c hc
    rcases List.mem_cons.mp hc with rfl | hc
    · exact .inl (by decide)
    · exact hall (by decide) hdigits c hc
  | hexadecimal hx hdigits =>
    intro c hc
    rcases List.mem_cons.mp hc with rfl | hc
    · exact .inl (by decide)
    · rcases List.mem_cons.mp hc with rfl | hc
      · exact .inr hx
      · exact hall le_rfl hdigits c hc

theorem PartSpells.ne_nil (h : PartSpells part value) : part ≠ [] := by
  cases h with
  | decimal hne => exact hne
  | octal => exact List.cons_ne_nil _ _
  | hexadecimal => exact List.cons_ne_nil _ _

theorem PartSpells.toLower (h : PartSpells part value) : PartSpells (part.map Char.toLower) value := by
  cases h with
  | decimal hne hdigits hzero =>
    rw [← valueOf_toLower]
    refine .decimal (by simpa using hne) (by rw [all_isDigitOf_toLower]; exact hdigits) fun hhead => ?_
    rw [List.length_map]
    refine hzero ?_
    cases part with
    | nil => cases hhead
    | cons c part =>
      have hc : c.toLower = '0' := by simpa using hhead
      rcases toLower_cases c with heq | ⟨hlow, hhigh⟩
      · rw [List.head?_cons, ← hc, heq]
      · have hd := digitOf_toLower c
        rw [hc] at hd
        rw [← Char.ofNat_toNat c] at hd
        exfalso
        revert hd
        interval_cases c.toNat <;> decide
  | octal hne hdigits =>
    rw [← valueOf_toLower]
    exact .octal (by simpa using hne) (by rw [all_isDigitOf_toLower]; exact hdigits)
  | hexadecimal hx hdigits =>
    rw [← valueOf_toLower]
    refine .hexadecimal (.inl ?_) (by rw [all_isDigitOf_toLower]; exact hdigits)
    rcases hx with rfl | rfl <;> decide

theorem emptyHexadecimal_toLower (h : PartSpells part value) :
    EmptyHexadecimal (part.map Char.toLower) ↔ EmptyHexadecimal part := by
  cases h with
  | decimal hne hdigits hzero =>
    refine iff_of_false (fun hempty => ?_) fun hempty => ?_
    · rcases hempty with hempty | hempty <;>
        simp [← all_isDigitOf_toLower, hempty, isDigitOf, digitOf] at hdigits
    · rcases hempty with rfl | rfl <;> simp [isDigitOf, digitOf] at hdigits
  | octal hne hdigits =>
    refine iff_of_false (fun hempty => ?_) fun hempty => ?_
    · rw [← all_isDigitOf_toLower] at hdigits
      rcases hempty with hempty | hempty <;>
        simp [(List.cons.inj hempty).2, isDigitOf, digitOf] at hdigits
    · rcases hempty with hempty | hempty <;>
        simp [(List.cons.inj hempty).2, isDigitOf, digitOf] at hdigits
  | @hexadecimal x digits hx hdigits =>
    unfold EmptyHexadecimal
    cases digits with
    | nil => rcases hx with rfl | rfl <;> decide
    | cons c digits => simp

/-- A part is read as what it spells, and an empty hexadecimal one is refused. -/
theorem ipv4Number_of_spells (h : PartSpells part value) (hbound : value < 2 ^ 32) :
    ipv4Number part = if EmptyHexadecimal part then none else some value := by
  have hsafe : ∀ v : ℕ, v < 2 ^ 32 → isSafeInteger (v : ℤ) = true := by
    intro v hv
    refine decide_eq_true ?_
    rw [Int.natAbs_natCast, maxSafeInteger]
    omega
  cases h with
  | decimal hne hdigits hzero =>
    have hnot : ¬ EmptyHexadecimal part := by
      rintro (rfl | rfl) <;> simp [isDigitOf, digitOf] at hdigits
    have hof : ofDigits 10 part = some (valueOf 10 part) := if_pos ⟨hne, hdigits⟩
    unfold ipv4Number
    rw [if_neg hnot]
    split
    · have hlen := hzero rfl
      simp at hlen
    · simp [hof, hsafe _ hbound]
  | @octal digits hne hdigits =>
    obtain ⟨x, rest, rfl⟩ := List.exists_cons_of_ne_nil hne
    have hx : isDigitOf 8 x = true := List.all_eq_true.mp hdigits x List.mem_cons_self
    have hmark : ¬ (x = 'x' ∨ x = 'X') := by
      rintro (rfl | rfl) <;> revert hx <;> decide
    have hnot : ¬ EmptyHexadecimal ('0' :: x :: rest) := by
      rintro (heq | heq)
      · exact hmark (.inl (List.cons.inj (List.cons.inj heq).2).1)
      · exact hmark (.inr (List.cons.inj (List.cons.inj heq).2).1)
    unfold ipv4Number
    rw [if_neg hnot]
    simp only [hmark, false_and, if_false, hdigits, if_true, Option.filter_some, hsafe _ hbound]
  | @hexadecimal x digits hx hdigits =>
    unfold ipv4Number
    cases digits with
    | nil =>
      have hempty : EmptyHexadecimal ['0', x] := by
        rcases hx with rfl | rfl
        · exact .inl rfl
        · exact .inr rfl
      rw [if_pos hempty]
      rcases hx with rfl | rfl <;> decide
    | cons c digits =>
      have hnot : ¬ EmptyHexadecimal ('0' :: x :: c :: digits) := by
        rintro (heq | heq) <;> simp at heq
      rw [if_neg hnot]
      simp [hx, hdigits, hsafe _ hbound]

theorem PartsValue.bounds (h : PartsValue values v) : (∀ value ∈ values, value < 2 ^ 32) ∧ values ≠ [] ∧ values.length ≤ 4 := by
  cases h <;> simp <;> omega

theorem PartsValue.fits (h : PartsValue values v) :
    ¬ 256 ^ (5 - values.length) ≤ values.getLast?.getD 0 ∧ values.dropLast.any (255 < ·) = false := by
  cases h <;> simp <;> omega

/-- One turn of the loop over the parts before the last. -/
theorem address_cons (n : ℕ) (numbers : List ℕ) (i address : ℕ) :
    ((n :: numbers).zipIdx i).foldl (fun address number => address + number.1 * 256 ^ (3 - number.2)) address =
      (numbers.zipIdx (i + 1)).foldl (fun address number => address + number.1 * 256 ^ (3 - number.2))
        (address + n * 256 ^ (3 - i)) := by
  rw [List.zipIdx_cons, List.foldl_cons]

theorem PartsValue.address (h : PartsValue values v) :
    values.dropLast.zipIdx.foldl (fun address number => address + number.1 * 256 ^ (3 - number.2))
      (values.getLast?.getD 0) % 2 ^ 32 = v := by
  cases h with
  | one ha =>
    rw [List.dropLast_singleton, List.zipIdx_nil, List.foldl_nil, List.getLast?_singleton, Option.getD_some]
    exact Nat.mod_eq_of_lt ha
  | two ha hb =>
    rw [List.dropLast_cons_cons, List.dropLast_singleton, address_cons, List.zipIdx_nil, List.foldl_nil,
      List.getLast?_cons_cons, List.getLast?_singleton, Option.getD_some, Nat.mod_eq_of_lt (by omega)]
    omega
  | three ha hb hc =>
    rw [List.dropLast_cons_cons, List.dropLast_cons_cons, List.dropLast_singleton, address_cons, address_cons,
      List.zipIdx_nil, List.foldl_nil, List.getLast?_cons_cons, List.getLast?_cons_cons, List.getLast?_singleton,
      Option.getD_some, Nat.mod_eq_of_lt (by omega)]
    omega
  | four ha hb hc hd =>
    rw [List.dropLast_cons_cons, List.dropLast_cons_cons, List.dropLast_cons_cons, List.dropLast_singleton,
      address_cons, address_cons, address_cons, List.zipIdx_nil, List.foldl_nil, List.getLast?_cons_cons,
      List.getLast?_cons_cons, List.getLast?_cons_cons, List.getLast?_singleton, Option.getD_some,
      Nat.mod_eq_of_lt (by omega)]
    omega

theorem mapM_ipv4Number (h : List.Forall₂ PartSpells texts values) (hbound : ∀ value ∈ values, value < 2 ^ 32) :
    texts.mapM ipv4Number = if ∃ part ∈ texts, EmptyHexadecimal part then none else some values := by
  induction h with
  | nil => simp
  | @cons part value texts values hpart htexts ih =>
    rw [List.mapM_cons, ipv4Number_of_spells hpart (hbound value List.mem_cons_self),
      ih fun v hv => hbound v (List.mem_cons_of_mem _ hv)]
    simp only [List.exists_mem_cons_iff]
    by_cases hempty : EmptyHexadecimal part
    · simp [hempty]
    · by_cases hlater : ∃ part ∈ texts, EmptyHexadecimal part <;> simp [hempty, hlater]

theorem part_no_dot (h : List.Forall₂ PartSpells texts values) : ∀ part ∈ texts, '.' ∉ part := by
  intro part hpart hdot
  obtain ⟨value, -, hspells⟩ := forall₂_mem_left h hpart
  rcases hspells.chars '.' hdot with h | h | h <;> revert h <;> decide

/-- What the dots of a spelling split it into: its parts, and nothing more behind a trailing dot. -/
theorem splitOn_spelling (h : List.Forall₂ PartSpells texts values) (hne : texts ≠ []) :
    (['.'].intercalate texts).splitOn '.' = texts ∧
      (['.'].intercalate texts ++ ['.']).splitOn '.' = texts ++ [[]] := by
  have hdots := part_no_dot h
  refine ⟨List.splitOn_intercalate '.' hdots hne, ?_⟩
  have happend : ['.'].intercalate texts ++ ['.'] = ['.'].intercalate (texts ++ [[]]) := by
    rw [intercalate_append hne (List.cons_ne_nil _ _), List.intercalate_singleton]
  rw [happend]
  refine List.splitOn_intercalate '.' (fun part hpart => ?_) (by simp)
  rcases List.mem_append.mp hpart with hpart | hpart
  · exact hdots part hpart
  · rw [List.mem_singleton.mp hpart]
    exact List.not_mem_nil

theorem parseIpv4_parts {input : List Char} (h : List.Forall₂ PartSpells texts values) (hvalue : PartsValue values v)
    (hinput : input = ['.'].intercalate texts ∨ input = ['.'].intercalate texts ++ ['.']) :
    parseIpv4 input = if ∃ part ∈ texts, EmptyHexadecimal part then none else some v := by
  obtain ⟨hbound, hvaluesNe, hlen⟩ := hvalue.bounds
  have hlength := h.length_eq
  have hne : texts ≠ [] := by
    rintro rfl
    cases h
    exact hvaluesNe rfl
  obtain ⟨hplain, hdotted⟩ := splitOn_spelling h hne
  have hparts : (if 1 < (input.splitOn '.').length ∧ (input.splitOn '.').getLast? = some [] then
      (input.splitOn '.').dropLast else input.splitOn '.') = texts := by
    rcases hinput with rfl | rfl
    · rw [hplain, if_neg]
      rintro ⟨-, hlast⟩
      obtain ⟨value, -, hspells⟩ := forall₂_mem_left h (List.mem_of_getLast? hlast)
      exact hspells.ne_nil rfl
    · have hpos := List.length_pos_iff.mpr hne
      rw [hdotted, if_pos ⟨by simp; omega, by simp⟩, List.dropLast_concat]
  obtain ⟨hlast, hsmall⟩ := hvalue.fits
  have hpos := List.length_pos_iff.mpr hne
  unfold parseIpv4
  simp only [hparts]
  rw [if_neg (by omega), mapM_ipv4Number h hbound]
  split_ifs
  · rfl
  · simp only [hlast, if_false, hsmall, Bool.false_eq_true, hvalue.address]

theorem mem_intercalate {s c : Char} {l : List (List Char)} (h : c ∈ [s].intercalate l) : c = s ∨ ∃ text ∈ l, c ∈ text := by
  induction l with
  | nil => cases h
  | cons text l ih =>
    by_cases hnil : l = []
    · subst hnil
      rw [List.intercalate_singleton] at h
      exact .inr ⟨text, List.mem_cons_self, h⟩
    · rw [List.intercalate_cons_of_ne_nil hnil, List.mem_append, List.mem_append, List.mem_singleton] at h
      rcases h with (h | rfl) | h
      · exact .inr ⟨text, List.mem_cons_self, h⟩
      · exact .inl rfl
      · rcases ih h with rfl | ⟨text', hmem, hc⟩
        · exact .inl rfl
        · exact .inr ⟨text', List.mem_cons_of_mem _ hmem, hc⟩

theorem map_intercalate {s : Char} (f : Char → Char) (hs : f s = s) (l : List (List Char)) :
    ([s].intercalate l).map f = [s].intercalate (l.map (List.map f)) := by
  induction l with
  | nil => rfl
  | cons text l ih =>
    by_cases hnil : l = []
    · subst hnil
      simp
    · rw [List.intercalate_cons_of_ne_nil hnil, List.map_cons, List.intercalate_cons_of_ne_nil (by simpa using hnil), ← ih]
      simp [hs]

theorem PartChar.no_space {c : Char} (h : PartChar c) : isSpace c = false := by
  rcases h with h | rfl | rfl
  · exact isSpace_of_isDigitOf h
  · decide
  · decide

theorem PartChar.toLower_ne_colon {c : Char} (h : PartChar c) : c.toLower ≠ ':' := by
  rcases h with h | rfl | rfl
  · refine @digit_ne _ 16 ?_ _ (by decide)
    rw [isDigitOf, digitOf_toLower]
    exact h
  · decide
  · decide

/-- A host without a colon and without space is read as IPv4, in lower case. -/
theorem parseIpAddress_v4 (hne : text ≠ []) (hspace : ∀ c ∈ text, isSpace c = false) (hcolon : ∀ c ∈ text, c.toLower ≠ ':') :
    parseIpAddress (some text) = (parseIpv4 (text.map Char.toLower)).map .v4 := by
  have hno : ':' ∉ text.map Char.toLower := by
    rw [List.mem_map]
    rintro ⟨c, hc, heq⟩
    exact hcolon c hc heq
  cases text with
  | nil => exact absurd rfl hne
  | cons c text => simp only [parseIpAddress, trimmed_of_no_space hspace, hno, and_false, if_false]

theorem parseIpAddress_of_ipv4Spells (h : Ipv4Spells text v) :
    parseIpAddress (some text) =
      if ∃ part ∈ text.splitOn '.', EmptyHexadecimal part then none else some (.v4 v) := by
  have key : ∀ {texts : List (List Char)} {values : List ℕ}, List.Forall₂ PartSpells texts values → PartsValue values v →
      ∀ dot, dot = [] ∨ dot = ['.'] → text = ['.'].intercalate texts ++ dot →
        parseIpAddress (some text) = if ∃ part ∈ text.splitOn '.', EmptyHexadecimal part then none else some (.v4 v) := by
    intro texts values hparts hvalue dot hdot htext
    have hvaluesNe := hvalue.bounds.2.1
    have htextsNe : texts ≠ [] := by
      rintro rfl
      cases hparts
      exact hvaluesNe rfl
    have hlower : List.Forall₂ PartSpells (texts.map (List.map Char.toLower)) values :=
      List.forall₂_map_left_iff.mpr (hparts.imp fun _ _ hpart => hpart.toLower)
    have hinput : text.map Char.toLower = ['.'].intercalate (texts.map (List.map Char.toLower)) ∨
        text.map Char.toLower = ['.'].intercalate (texts.map (List.map Char.toLower)) ++ ['.'] := by
      rw [htext, List.map_append, map_intercalate _ (by decide)]
      rcases hdot with rfl | rfl
      · exact .inl (List.append_nil _)
      · exact .inr rfl
    have hchars : ∀ c ∈ text, PartChar c ∨ c = '.' := by
      intro c hc
      rw [htext, List.mem_append] at hc
      rcases hc with hc | hc
      · rcases mem_intercalate hc with rfl | ⟨part, hpart, hc⟩
        · exact .inr rfl
        · obtain ⟨value, -, hspells⟩ := forall₂_mem_left hparts hpart
          exact .inl (hspells.chars c hc)
      · rcases hdot with rfl | rfl
        · cases hc
        · exact .inr (List.mem_singleton.mp hc)
    have hne : text ≠ [] := by
      obtain ⟨part, texts', rfl⟩ := List.exists_cons_of_ne_nil htextsNe
      obtain ⟨value, -, hspells⟩ := forall₂_mem_left hparts List.mem_cons_self
      intro hnil
      have hsplit := (splitOn_spelling hparts htextsNe).1
      rw [hnil] at htext
      have hjoined : ['.'].intercalate (part :: texts') = [] := (List.append_eq_nil_iff.mp htext.symm).1
      rw [hjoined] at hsplit
      exact hspells.ne_nil (List.cons.inj hsplit).1.symm
    have hempty : (∃ part ∈ texts.map (List.map Char.toLower), EmptyHexadecimal part) ↔
        ∃ part ∈ text.splitOn '.', EmptyHexadecimal part := by
      have hmap : (∃ part ∈ texts.map (List.map Char.toLower), EmptyHexadecimal part) ↔
          ∃ part ∈ texts, EmptyHexadecimal part := by
        simp only [List.mem_map, exists_exists_and_eq_and]
        refine exists_congr fun part => and_congr_right fun hpart => ?_
        obtain ⟨value, -, hspells⟩ := forall₂_mem_left hparts hpart
        exact emptyHexadecimal_toLower hspells
      obtain ⟨hplain, hdotted⟩ := splitOn_spelling hparts htextsNe
      rw [hmap, htext]
      rcases hdot with rfl | rfl
      · rw [List.append_nil, hplain]
      · rw [hdotted]
        constructor
        · rintro ⟨part, hpart, hh⟩
          exact ⟨part, List.mem_append_left _ hpart, hh⟩
        · rintro ⟨part, hpart, hh⟩
          rcases List.mem_append.mp hpart with hpart | hpart
          · exact ⟨part, hpart, hh⟩
          · rw [List.mem_singleton.mp hpart] at hh
            exact absurd hh (by decide)
    rw [parseIpAddress_v4 hne (fun c hc => ?_) fun c hc => ?_, parseIpv4_parts hlower hvalue hinput]
    · by_cases hany : ∃ part ∈ text.splitOn '.', EmptyHexadecimal part
      · rw [if_pos (hempty.mpr hany), if_pos hany, Option.map_none]
      · rw [if_neg fun hany' => hany (hempty.mp hany'), if_neg hany, Option.map_some]
    · rcases hchars c hc with hpart | rfl
      · exact hpart.no_space
      · decide
    · rcases hchars c hc with hpart | rfl
      · exact hpart.toLower_ne_colon
      · decide
  cases h with
  | parts hparts hvalue => exact key hparts hvalue [] (.inl rfl) (List.append_nil _).symm
  | trailingDot hparts hvalue => exact key hparts hvalue ['.'] (.inr rfl) rfl

end

end Claxedo.Net
