import Claxedo.Net.Ipv4Parsed

/-! What `parseIpAddress` makes of the text forms of an IPv6 address: the groups at the colons, the zeros of a `::`,
and a dotted quad read as two groups of zeros that are then written over. -/

namespace Claxedo.Net

open Claxedo.Lib Claxedo.Lib.NumberText

section
variable {text piece : List Char} {texts left right : List (List Char)} {segments lefts rights : List ℕ} {segment : ℕ}

/-- A character of an IPv6 text. -/
def AddressChar (c : Char) : Prop := isDigitOf 16 c = true ∨ c = ':' ∨ c = '.'

variable {c : Char}

theorem AddressChar.no_space (h : AddressChar c) : isSpace c = false := by
  rcases h with h | rfl | rfl
  · exact isSpace_of_isDigitOf h
  · decide
  · decide

theorem AddressChar.ne_bracket {c : Char} (h : AddressChar c) : c ≠ '[' := by
  rcases h with h | rfl | rfl
  · exact digit_ne h (by decide)
  · decide
  · decide

/-! Lower case. -/

theorem GroupSpells.toLower (h : GroupSpells text segment) : GroupSpells (text.map Char.toLower) segment := by
  cases h with
  | mk hne hlen hdigits =>
    rw [← valueOf_toLower]
    exact .mk (by simpa using hne) (by simpa using hlen) (by rw [all_isDigitOf_toLower]; exact hdigits)

theorem OctetSpells.toLower (h : OctetSpells text segment) : OctetSpells (text.map Char.toLower) segment := by
  cases h with
  | mk hne hlen hdigits hle =>
    rw [← valueOf_toLower]
    exact .mk (by simpa using hne) (by simpa using hlen) (by rw [all_isDigitOf_toLower]; exact hdigits)
      (by rw [valueOf_toLower]; exact hle)

theorem GroupsSpell.toLower (h : GroupsSpell texts segments) : GroupsSpell (texts.map (List.map Char.toLower)) segments := by
  induction h with
  | nil => exact .nil
  | quad ha hb hc hd =>
    rw [List.map_singleton, map_intercalate _ (by decide)]
    exact .quad ha.toLower hb.toLower hc.toLower hd.toLower
  | group hgroup _ ih => exact .group hgroup.toLower ih

theorem Ipv6Spells.toLower (h : Ipv6Spells text segments) : Ipv6Spells (text.map Char.toLower) segments := by
  cases h with
  | full hgroups hlen =>
    rw [map_intercalate _ (by decide)]
    exact .full hgroups.toLower hlen
  | compressed hleft hright hlen =>
    rw [List.map_append, List.map_append, map_intercalate _ (by decide), map_intercalate _ (by decide)]
    exact .compressed (List.forall₂_map_left_iff.mpr (hleft.imp fun _ _ h => h.toLower)) hright.toLower hlen

/-! Groups. -/

theorem GroupSpells.hextet (h : GroupSpells text segment) : hextet text = some segment := by
  cases h with
  | mk hne hlen hdigits => rw [Net.hextet, if_pos hlen, ofDigits, if_pos ⟨hne, hdigits⟩]

theorem OctetSpells.octet (h : OctetSpells text segment) : octet text = some segment := by
  cases h with
  | mk hne hlen hdigits hle => simp [Net.octet, hlen, ofDigits, hne, hdigits, hle]

theorem GroupSpells.chars (h : GroupSpells text segment) : ∀ c ∈ text, isDigitOf 16 c = true := by
  cases h with
  | mk hne hlen hdigits => exact List.all_eq_true.mp hdigits

theorem OctetSpells.chars (h : OctetSpells text segment) : ∀ c ∈ text, isDigitOf 16 c = true := by
  cases h with
  | mk hne hlen hdigits hle => exact fun c hc => isDigitOf_mono (List.all_eq_true.mp hdigits c hc) (by decide)

/-- A piece between colons: some text, and no colon in it. -/
def Solid (piece : List Char) : Prop := piece ≠ [] ∧ ':' ∉ piece

theorem GroupSpells.solid (h : GroupSpells text segment) : Solid text := by
  refine ⟨?_, fun hcolon => digit_ne (h.chars ':' hcolon) (by decide) rfl⟩
  cases h with
  | mk hne => exact hne

theorem mapM_hextet (h : List.Forall₂ GroupSpells texts segments) : texts.mapM hextet = some segments := by
  induction h with
  | nil => rfl
  | cons hgroup _ ih => simp [List.mapM_cons, hgroup.hextet, ih]

theorem mapM_hextet_append {l l' : List (List Char)} {s s' : List ℕ} (h : l.mapM hextet = some s)
    (h' : l'.mapM hextet = some s') : (l ++ l').mapM hextet = some (s ++ s') := by
  rw [List.mapM_append, h, h']
  rfl

theorem mapM_hextet_zeros (n : ℕ) : (List.replicate n ['0']).mapM hextet = some (List.replicate n 0) := by
  induction n with
  | zero => rfl
  | succ n ih =>
    rw [List.replicate_succ, List.replicate_succ, List.mapM_cons, ih]
    rfl

/-! Colons. -/

theorem doubleColons_cons (hc : c ≠ ':') (rest : List Char) : doubleColons (c :: rest) = doubleColons rest := by
  cases rest <;> simp [doubleColons, hc]

theorem doubleColons_colon (hc : c ≠ ':') (rest : List Char) :
    doubleColons (':' :: c :: rest) = doubleColons (c :: rest) := by
  simp [doubleColons, hc]

theorem splitAtDoubleColon_cons (hc : c ≠ ':') (rest : List Char) :
    splitAtDoubleColon (c :: rest) = (splitAtDoubleColon rest).map fun halves => (c :: halves.1, halves.2) := by
  cases rest <;> simp [splitAtDoubleColon, hc]

theorem splitAtDoubleColon_colon (hc : c ≠ ':') (rest : List Char) :
    splitAtDoubleColon (':' :: c :: rest) =
      (splitAtDoubleColon (c :: rest)).map fun halves => (':' :: halves.1, halves.2) := by
  simp [splitAtDoubleColon, hc]

theorem doubleColons_append (h : ':' ∉ piece) (rest : List Char) : doubleColons (piece ++ rest) = doubleColons rest := by
  induction piece with
  | nil => rfl
  | cons c piece ih =>
    rw [List.mem_cons, not_or] at h
    rw [List.cons_append, doubleColons_cons (Ne.symm h.1), ih h.2]

theorem splitAtDoubleColon_append (h : ':' ∉ piece) (rest : List Char) :
    splitAtDoubleColon (piece ++ rest) = (splitAtDoubleColon rest).map fun halves => (piece ++ halves.1, halves.2) := by
  induction piece with
  | nil => simp
  | cons c piece ih =>
    rw [List.mem_cons, not_or] at h
    rw [List.cons_append, splitAtDoubleColon_cons (Ne.symm h.1), ih h.2, Option.map_map]
    rfl

theorem colon_append (h : Solid piece) (rest : List Char) :
    doubleColons (':' :: (piece ++ rest)) = doubleColons (piece ++ rest) ∧
      splitAtDoubleColon (':' :: (piece ++ rest)) =
        (splitAtDoubleColon (piece ++ rest)).map fun halves => (':' :: halves.1, halves.2) := by
  obtain ⟨c, piece, rfl⟩ := List.exists_cons_of_ne_nil h.1
  have hc : c ≠ ':' := fun heq => h.2 (heq ▸ List.mem_cons_self)
  exact ⟨doubleColons_colon hc _, splitAtDoubleColon_colon hc _⟩

/-- Solid pieces joined at single colons add no `::` of their own to what follows. -/
theorem joined_append (h : ∀ piece ∈ texts, Solid piece) (rest : List Char) :
    doubleColons ([':'].intercalate texts ++ rest) = doubleColons rest ∧
      splitAtDoubleColon ([':'].intercalate texts ++ rest) =
        (splitAtDoubleColon rest).map fun halves => ([':'].intercalate texts ++ halves.1, halves.2) := by
  induction texts with
  | nil => simp
  | cons piece texts ih =>
    have hpiece := h piece List.mem_cons_self
    have hrest' := ih fun piece' hpiece' => h piece' (List.mem_cons_of_mem _ hpiece')
    by_cases hnil : texts = []
    · subst hnil
      rw [List.intercalate_singleton, doubleColons_append hpiece.2, splitAtDoubleColon_append hpiece.2]
      exact ⟨rfl, rfl⟩
    · obtain ⟨next, texts', rfl⟩ := List.exists_cons_of_ne_nil hnil
      have hnext := h next (by simp)
      obtain ⟨tail, htail⟩ : ∃ tail, [':'].intercalate (next :: texts') = next ++ tail := by
        by_cases hlast : texts' = []
        · exact ⟨[], by rw [hlast, List.intercalate_singleton, List.append_nil]⟩
        · exact ⟨[':'] ++ [':'].intercalate texts', by rw [List.intercalate_cons_of_ne_nil hlast, List.append_assoc]⟩
      have hshape : [':'].intercalate (piece :: next :: texts') ++ rest =
          piece ++ ':' :: (next ++ (tail ++ rest)) := by
        rw [List.intercalate_cons_of_ne_nil hnil, htail]
        simp
      rw [htail, List.append_assoc] at hrest'
      obtain ⟨hcount, hsplit⟩ := colon_append hnext (tail ++ rest)
      rw [hshape, doubleColons_append hpiece.2, splitAtDoubleColon_append hpiece.2, hcount, hsplit, hrest'.1, hrest'.2,
        List.intercalate_cons_of_ne_nil hnil, htail]
      refine ⟨rfl, ?_⟩
      rw [Option.map_map, Option.map_map]
      congr 1
      funext halves
      simp

theorem joined_alone (h : ∀ piece ∈ texts, Solid piece) :
    doubleColons ([':'].intercalate texts) = 0 ∧ splitAtDoubleColon ([':'].intercalate texts) = none := by
  have hjoined := joined_append h []
  rw [List.append_nil] at hjoined
  exact hjoined

theorem solid_of_groups (h : List.Forall₂ GroupSpells texts segments) : ∀ piece ∈ texts, Solid piece := by
  intro piece hpiece
  obtain ⟨segment, -, hgroup⟩ := forall₂_mem_left h hpiece
  exact hgroup.solid

theorem splitOn_joined (h : ∀ piece ∈ texts, Solid piece) (hne : texts ≠ []) : ([':'].intercalate texts).splitOn ':' = texts :=
  List.splitOn_intercalate ':' (fun piece hpiece => (h piece hpiece).2) hne

theorem partsOf_joined (h : ∀ piece ∈ texts, Solid piece) : partsOf ([':'].intercalate texts) = texts := by
  unfold partsOf
  by_cases hnil : texts = []
  · subst hnil
    rfl
  · rw [if_neg, splitOn_joined h hnil]
    intro hjoined
    have hsplit := splitOn_joined h hnil
    rw [hjoined] at hsplit
    exact (h [] (by rw [← hsplit]; exact List.mem_cons_self)).1 rfl

/-- Eight groups joined at colons are read as they stand. -/
theorem segmentsOf_full (h : List.Forall₂ GroupSpells texts segments) (hlen : segments.length = 8) :
    segmentsOf ([':'].intercalate texts) = some segments := by
  have hsolid := solid_of_groups h
  have hlength := h.length_eq
  have hne : texts ≠ [] := by
    rintro rfl
    simp [hlen] at hlength
  obtain ⟨hcount, hsplit⟩ := joined_alone hsolid
  unfold segmentsOf halves
  rw [hcount, hsplit, splitOn_joined hsolid hne]
  simp only [hlength, hlen, if_true]
  rw [if_neg (by decide)]
  exact mapM_hextet h

/-- A `::` is read as the groups of zeros that are missing. -/
theorem segmentsOf_compressed (hleft : List.Forall₂ GroupSpells left lefts) (hright : List.Forall₂ GroupSpells right rights)
    (hlen : lefts.length + rights.length ≤ 7) :
    segmentsOf ([':'].intercalate left ++ [':', ':'] ++ [':'].intercalate right) =
      some (lefts ++ List.replicate (8 - lefts.length - rights.length) 0 ++ rights) := by
  have hsolidRight := solid_of_groups hright
  obtain ⟨hcount, hsplit⟩ := joined_append (solid_of_groups hleft) (':' :: ':' :: [':'].intercalate right)
  have hone : doubleColons (':' :: ':' :: [':'].intercalate right) = 1 := by
    rw [doubleColons, (joined_alone hsolidRight).1]
  have hhalves : splitAtDoubleColon (':' :: ':' :: [':'].intercalate right) = some ([], [':'].intercalate right) := rfl
  unfold segmentsOf halves
  rw [List.append_assoc, List.cons_append, List.cons_append, List.nil_append, hcount, hsplit, hone, hhalves]
  simp only [Option.map_some, List.append_nil, partsOf_joined (solid_of_groups hleft), partsOf_joined hsolidRight,
    hleft.length_eq, hright.length_eq]
  rw [if_neg (by decide), if_pos hlen, Option.bind_some]
  exact mapM_hextet_append (mapM_hextet_append (mapM_hextet hleft) (mapM_hextet_zeros _)) (mapM_hextet hright)

/-! The dotted quad. -/

/-- Four octets at dots, and the two segments they make. -/
structure QuadSpells (text : List Char) (high low : ℕ) : Prop where
  dot : '.' ∈ text
  colon : ':' ∉ text
  chars : ∀ c ∈ text, AddressChar c
  read : ∃ i j k l, embeddedQuad text = some [i, j, k, l] ∧ high = i * 256 + j ∧ low = k * 256 + l

theorem quadSpells {a b c d : List Char} {i j k l : ℕ} (ha : OctetSpells a i) (hb : OctetSpells b j)
    (hc : OctetSpells c k) (hd : OctetSpells d l) :
    QuadSpells (['.'].intercalate [a, b, c, d]) (i * 256 + j) (k * 256 + l) := by
  have hparts : List.Forall₂ OctetSpells [a, b, c, d] [i, j, k, l] := .cons ha (.cons hb (.cons hc (.cons hd .nil)))
  have hchars : ∀ piece ∈ [a, b, c, d], ∀ x ∈ piece, isDigitOf 16 x = true := by
    intro piece hpiece
    obtain ⟨value, -, hspells⟩ := forall₂_mem_left hparts hpiece
    exact hspells.chars
  have hmem : ∀ x ∈ ['.'].intercalate [a, b, c, d], x = '.' ∨ isDigitOf 16 x = true := by
    intro x hx
    rcases mem_intercalate hx with hx | ⟨piece, hpiece, hx⟩
    · exact .inl hx
    · exact .inr (hchars piece hpiece x hx)
  refine ⟨?_, fun hcolon => ?_, fun x hx => ?_, i, j, k, l, ?_, rfl, rfl⟩
  · rw [List.intercalate_cons_of_ne_nil (List.cons_ne_nil _ _)]
    simp
  · rcases hmem ':' hcolon with heq | hdigit
    · exact absurd heq (by decide)
    · exact digit_ne hdigit (by decide) rfl
  · rcases hmem x hx with rfl | hdigit
    · exact .inr (.inr rfl)
    · exact .inl hdigit
  · have hsplit : (['.'].intercalate [a, b, c, d]).splitOn '.' = [a, b, c, d] := by
      refine List.splitOn_intercalate '.' (fun piece hpiece hdot => ?_) (List.cons_ne_nil _ _)
      exact digit_ne (hchars piece hpiece '.' hdot) (by decide) rfl
    unfold embeddedQuad
    rw [hsplit]
    simp [List.mapM_cons, ha.octet, hb.octet, hc.octet, hd.octet]

theorem GroupsSpell.cases_quad (h : GroupsSpell texts segments) :
    List.Forall₂ GroupSpells texts segments ∨
      ∃ groups values quad high low, texts = groups ++ [quad] ∧ segments = values ++ [high, low] ∧
        List.Forall₂ GroupSpells groups values ∧ QuadSpells quad high low := by
  induction h with
  | nil => exact .inl .nil
  | quad ha hb hc hd => exact .inr ⟨[], [], _, _, _, rfl, rfl, .nil, quadSpells ha hb hc hd⟩
  | group hgroup _ ih =>
    rcases ih with hall | ⟨groups, values, quad, high, low, rfl, rfl, hgroups, hquad⟩
    · exact .inl (.cons hgroup hall)
    · exact .inr ⟨_ :: groups, _ :: values, quad, high, low, rfl, rfl, .cons hgroup hgroups, hquad⟩

theorem splitAtLastColon_append {pre quad : List Char} (h : ':' ∉ quad) :
    splitAtLastColon (pre ++ ':' :: quad) = some (pre ++ [':'], quad) := by
  have hall : ∀ c ∈ quad.reverse, decide (c ≠ ':') = true := by
    intro c hc
    refine decide_eq_true fun heq => h ?_
    rw [← heq]
    exact List.mem_reverse.mp hc
  have htail : (pre ++ ':' :: quad).reverse.takeWhile (· ≠ ':') = quad.reverse := by
    rw [List.reverse_append, List.reverse_cons, List.append_assoc, List.takeWhile_append_of_pos hall]
    simp
  unfold splitAtLastColon
  rw [htail, List.reverse_reverse, if_pos (by simp)]
  have hlength : (pre ++ ':' :: quad).length - quad.length = (pre ++ [':']).length := by
    simp only [List.length_append, List.length_cons, List.length_nil]
    omega
  have hshape : pre ++ ':' :: quad = (pre ++ [':']) ++ quad := by simp
  rw [hlength, hshape, List.take_left]

theorem parseIpv6_quad {pre quad : List Char} {high low : ℕ} (hquad : QuadSpells quad high low) (hlen : segments.length = 6)
    (hread : segmentsOf (pre ++ [':', '0', ':', '0']) = some (segments ++ [0, 0])) :
    parseIpv6 (pre ++ ':' :: quad) = some (segments ++ [high, low]) := by
  obtain ⟨i, j, k, l, hembedded, rfl, rfl⟩ := hquad.read
  have hdot : '.' ∈ pre ++ ':' :: quad := by simp [hquad.dot]
  have hshape : pre ++ [':'] ++ ['0', ':', '0'] = pre ++ [':', '0', ':', '0'] := by simp
  unfold parseIpv6
  simp only [splitAtLastColon_append hquad.colon, hdot, if_true, hembedded, hshape, hread, Option.map_some]
  rw [List.take_append_of_le_length (by omega), List.take_of_length_le (by omega)]

theorem parseIpv6_of_no_dot (h : '.' ∉ text) : parseIpv6 text = segmentsOf text := by
  unfold parseIpv6
  cases splitAtLastColon text with
  | none => rfl
  | some halves => simp [h]

theorem groups_no_dot (h : List.Forall₂ GroupSpells texts segments) : '.' ∉ [':'].intercalate texts := by
  intro hdot
  rcases mem_intercalate hdot with heq | ⟨piece, hpiece, hdot⟩
  · exact absurd heq (by decide)
  · obtain ⟨segment, -, hgroup⟩ := forall₂_mem_left h hpiece
    exact digit_ne (hgroup.chars '.' hdot) (by decide) rfl

theorem zeros_spell : List.Forall₂ GroupSpells [['0'], ['0']] [0, 0] :=
  have hzero : GroupSpells ['0'] 0 := .mk (by decide) (by decide) (by decide)
  .cons hzero (.cons hzero .nil)

theorem parseIpv6_of_spells (h : Ipv6Spells text segments) : parseIpv6 text = some segments := by
  cases h with
  | @full texts _ hgroups hlen =>
    rcases hgroups.cases_quad with hall | ⟨groups, values, quad, high, low, rfl, rfl, hgroups', hquad⟩
    · rw [parseIpv6_of_no_dot (groups_no_dot hall), segmentsOf_full hall hlen]
    · have hsix : values.length = 6 := by simpa using hlen
      have hne : groups ≠ [] := by
        rintro rfl
        cases hgroups'
        simp at hsix
      rw [intercalate_append hne (List.cons_ne_nil _ _), List.intercalate_singleton]
      refine parseIpv6_quad hquad hsix ?_
      have hread := segmentsOf_full (List.rel_append hgroups' zeros_spell) (by simp [hsix])
      rw [intercalate_append hne (List.cons_ne_nil _ _)] at hread
      exact hread
  | @compressed left right lefts rights hleft hright hlen =>
    rcases hright.cases_quad with hall | ⟨groups, values, quad, high, low, rfl, rfl, hgroups, hquad⟩
    · rw [parseIpv6_of_no_dot, segmentsOf_compressed hleft hall hlen]
      simp [groups_no_dot hleft, groups_no_dot hall]
    · have hread := segmentsOf_compressed hleft (List.rel_append hgroups zeros_spell) (by simpa using hlen)
      have hsix : (lefts ++ List.replicate (8 - lefts.length - (values ++ [high, low]).length) 0 ++ values).length = 6 := by
        simp only [List.length_append, List.length_replicate, List.length_cons, List.length_nil] at hlen ⊢
        omega
      rw [← List.append_assoc]
      by_cases hnil : groups = []
      · subst hnil
        have hshape : [':'].intercalate left ++ [':', ':'] ++ [':'].intercalate ([] ++ [quad]) =
            ([':'].intercalate left ++ [':']) ++ ':' :: quad := by simp
        rw [hshape]
        refine parseIpv6_quad hquad hsix ?_
        simpa using hread
      · have hshape : [':'].intercalate left ++ [':', ':'] ++ [':'].intercalate (groups ++ [quad]) =
            ([':'].intercalate left ++ [':', ':'] ++ [':'].intercalate groups) ++ ':' :: quad := by
          rw [intercalate_append hnil (List.cons_ne_nil _ _), List.intercalate_singleton, ← List.append_assoc]
        rw [hshape]
        refine parseIpv6_quad hquad hsix ?_
        rw [intercalate_append hnil (List.cons_ne_nil _ _)] at hread
        simpa using hread

end

/-! Every spelling of an address gets the same verdict: a spelling is parsed to the address it spells, one with an
empty hexadecimal part apart, and an IPv6 address that carries an IPv4 one is judged as that one is. -/

section
variable {text : List Char} {texts : List (List Char)} {segments : List ℕ} {v : ℕ}

theorem GroupsSpell.chars (h : GroupsSpell texts segments) : ∀ piece ∈ texts, ∀ c ∈ piece, AddressChar c := by
  induction h with
  | nil => exact fun _ hpiece => absurd hpiece List.not_mem_nil
  | quad ha hb hc hd =>
    intro piece hpiece
    rw [List.mem_singleton.mp hpiece]
    exact (quadSpells ha hb hc hd).chars
  | group hgroup _ ih =>
    intro piece hpiece c hc
    rcases List.mem_cons.mp hpiece with rfl | hpiece
    · exact .inl (hgroup.chars c hc)
    · exact ih piece hpiece c hc

theorem joined_chars (h : ∀ piece ∈ texts, ∀ c ∈ piece, AddressChar c) : ∀ c ∈ [':'].intercalate texts, AddressChar c := by
  intro c hc
  rcases mem_intercalate hc with rfl | ⟨piece, hpiece, hc⟩
  · exact .inr (.inl rfl)
  · exact h piece hpiece c hc

theorem Ipv6Spells.chars (h : Ipv6Spells text segments) : ∀ c ∈ text, AddressChar c := by
  cases h with
  | full hgroups _ => exact joined_chars hgroups.chars
  | @compressed left _ _ _ hleft hright _ =>
    have hleftChars : ∀ piece ∈ left, ∀ c ∈ piece, AddressChar c := by
      intro piece hpiece c hc
      obtain ⟨segment, -, hgroup⟩ := forall₂_mem_left hleft hpiece
      exact .inl (hgroup.chars c hc)
    intro c hc
    rcases List.mem_append.mp hc with hc | hc
    · rcases List.mem_append.mp hc with hc | hc
      · exact joined_chars hleftChars c hc
      · have hcolon : c = ':' := by simpa using hc
        exact .inr (.inl hcolon)
    · exact joined_chars hright.chars c hc

theorem GroupsSpell.length_le (h : GroupsSpell texts segments) : segments.length ≤ texts.length + 1 := by
  induction h with
  | nil => simp
  | quad => simp
  | group _ _ ih => simp only [List.length_cons]; omega

theorem Ipv6Spells.colon (h : Ipv6Spells text segments) : ':' ∈ text := by
  cases h with
  | @full texts _ hgroups hlen =>
    have hlong := hgroups.length_le
    obtain _ | ⟨first, _ | ⟨second, rest⟩⟩ := texts
    · simp [hlen] at hlong
    · simp [hlen] at hlong
    · rw [List.intercalate_cons_of_ne_nil (List.cons_ne_nil _ _)]
      simp
  | compressed => simp

theorem parseIpAddress_of_ipv6Spells (h : Ipv6Spells text segments) :
    parseIpAddress (some text) = some (.v6 segments) ∧
      parseIpAddress (some ('[' :: text ++ [']'])) = some (.v6 segments) := by
  have hspace : ∀ c ∈ text, isSpace c = false := fun c hc => (h.chars c hc).no_space
  have hcolon := h.toLower.colon
  have hread := parseIpv6_of_spells h.toLower
  have hhead : (text.map Char.toLower).head? ≠ some '[' := fun hhead =>
    (h.toLower.chars '[' (List.mem_of_mem_head? hhead)).ne_bracket rfl
  constructor
  · cases text with
    | nil => exact absurd h.colon List.not_mem_nil
    | cons c text => simp only [parseIpAddress, trimmed_of_no_space hspace, hhead, false_and, if_false, hcolon, if_true,
        hread, Option.map_some]
  · have hspace' : ∀ c ∈ '[' :: text ++ [']'], isSpace c = false := by
      intro c hc
      rcases List.mem_append.mp hc with hc | hc
      · rcases List.mem_cons.mp hc with rfl | hc
        · decide
        · exact hspace c hc
      · rw [List.mem_singleton.mp hc]
        decide
    have hlower : ('[' :: text ++ [']']).map Char.toLower = '[' :: (text.map Char.toLower ++ [']']) := by
      simp only [List.map_append, List.map_cons, List.map_nil, List.cons_append]
      rfl
    have hstrip : (if ('[' :: (text.map Char.toLower ++ [']'])).head? = some '[' ∧
        ('[' :: (text.map Char.toLower ++ [']'])).getLast? = some ']' ∧ ':' ∈ '[' :: (text.map Char.toLower ++ [']']) then
          ('[' :: (text.map Char.toLower ++ [']'])).tail.dropLast
        else '[' :: (text.map Char.toLower ++ [']'])) = text.map Char.toLower := by
      have hlast : ('[' :: (text.map Char.toLower ++ [']'])).getLast? = some ']' := by
        rw [← List.cons_append, List.getLast?_concat]
      rw [if_pos ⟨rfl, hlast, List.mem_cons_of_mem _ (List.mem_append_left _ hcolon)⟩, List.tail_cons, List.dropLast_concat]
    have hparse : parseIpAddress (some ('[' :: text ++ [']'])) =
        if ':' ∈ text.map Char.toLower then (parseIpv6 (text.map Char.toLower)).map .v6
        else (parseIpv4 (text.map Char.toLower)).map .v4 := by
      rw [List.cons_append] at hspace' hlower ⊢
      simp only [parseIpAddress, trimmed_of_no_space hspace', hlower, hstrip]
    rw [hparse, if_pos hcolon, hread, Option.map_some]

/-! The verdicts. -/

theorem carried_eq (hv : v < 2 ^ 32) : (v / 65536 * 65536 + v % 65536) % 4294967296 = v := by omega

variable {address : List ℕ}

theorem embeddedIpv4_of_carries (hv : v < 2 ^ 32) (h : Carries v address) :
    embeddedIpv4 address = some v := by
  cases h with
  | mapped => simp [embeddedIpv4, carried_eq hv]
  | compatible => simp [embeddedIpv4, carried_eq hv]
  | nat64 => simp [embeddedIpv4, carried_eq hv]
  | sixToFour => simp [embeddedIpv4, carried_eq hv]
  | teredo =>
    have hback : ∀ n : ℕ, n ^^^ 65535 ^^^ 65535 = n := fun n => by rw [Nat.xor_assoc, Nat.xor_self, Nat.xor_zero]
    simp only [embeddedIpv4, OfNat.ofNat_ne_zero, true_and, false_and, ↓reduceIte, Nat.reduceEqDiff, OfNat.zero_ne_ofNat,
      and_self, hback, Nat.reducePow, carried_eq hv]

/-- An address that carries one and is unspecified or the IPv6 loopback carries one of the network 0.0.0.0/8. -/
theorem carries_low (h : Carries v address) (hlow : (isUnspecified address || isIpv6Loopback address) = true) : v < 2 := by
  cases h with
  | compatible =>
    simp [isUnspecified, isIpv6Loopback] at hlow
    omega
  | _ => simp [isUnspecified, isIpv6Loopback] at hlow

theorem isPrivateIpAddress_of_carries (hv : v < 2 ^ 32) (h : Carries v address) :
    isPrivateIpAddress (.v6 address) = isPrivateIpAddress (.v4 v) := by
  have hembedded := embeddedIpv4_of_carries hv h
  by_cases hlow : (isUnspecified address || isIpv6Loopback address) = true
  · have hsmall := carries_low h hlow
    have hprivate : isPrivateIpv4 v = true := by
      interval_cases v <;> decide
    simp [isPrivateIpAddress, hlow, hprivate]
  · cases h <;> simp [isPrivateIpAddress, hlow, hembedded]

theorem isLoopbackIpAddress_of_carries (hv : v < 2 ^ 32) (h : Carries v address) (hloopback : isLoopbackIpAddress (.v4 v) = true) :
    isLoopbackIpAddress (.v6 address) = true := by
  have hv4 : isLoopbackIpv4 v = true := hloopback
  simp [isLoopbackIpAddress, embeddedIpv4_of_carries hv h, hv4]

end

/-- A spelling of an IPv4 address is parsed to it exactly where no part is an empty hexadecimal one; a text form of an
IPv6 address always is; and an address that carries an IPv4 one is private exactly when that is, and loopback whenever
that is. -/
theorem every_spelling_one_verdict (text : List Char) :
    (∀ v, Ipv4Spells text v →
      (parseIpAddress (some text) = some (.v4 v) ↔ ∀ part ∈ text.splitOn '.', ¬ EmptyHexadecimal part)) ∧
    (∀ segments, Ipv6Spells text segments →
      parseIpAddress (some text) = some (.v6 segments) ∧ parseIpAddress (some ('[' :: text ++ [']'])) = some (.v6 segments)) ∧
    ∀ v address, v < 2 ^ 32 → Carries v address →
      isPrivateIpAddress (.v6 address) = isPrivateIpAddress (.v4 v) ∧
        (isLoopbackIpAddress (.v4 v) = true → isLoopbackIpAddress (.v6 address) = true) := by
  refine ⟨fun v h => ?_, fun segments h => parseIpAddress_of_ipv6Spells h, fun v address hv h =>
    ⟨isPrivateIpAddress_of_carries hv h, isLoopbackIpAddress_of_carries hv h⟩⟩
  rw [parseIpAddress_of_ipv4Spells h]
  by_cases hempty : ∃ part ∈ text.splitOn '.', EmptyHexadecimal part
  · rw [if_pos hempty]
    obtain ⟨part, hpart, hpartEmpty⟩ := hempty
    exact iff_of_false (fun heq => by cases heq) fun hall => hall part hpart hpartEmpty
  · rw [if_neg hempty]
    exact iff_of_true rfl fun part hpart hpartEmpty => hempty ⟨part, hpart, hpartEmpty⟩

/-- `0x.0.0.1` spells 0.0.0.1, and is parsed to no address. -/
theorem empty_hexadecimal_refused :
    Ipv4Spells "0x.0.0.1".toList 1 ∧ parseIpAddress (some "0x.0.0.1".toList) ≠ some (.v4 1) := by
  have hzero : PartSpells ['0'] 0 := .decimal (by decide) (by decide) (by decide)
  have hone : PartSpells ['1'] 1 := .decimal (by decide) (by decide) (by decide)
  have hempty : PartSpells ['0', 'x'] 0 := .hexadecimal (.inl rfl) rfl
  refine ⟨.parts (.cons hempty (.cons hzero (.cons hzero (.cons hone .nil)))) (.four (by decide) (by decide) (by decide)
    (by decide)), ?_⟩
  decide

/-- The loopback address in hexadecimal, and as Teredo carries it. -/
theorem every_spelling_one_verdict_loopback :
    parseIpAddress (some "0x7f.1".toList) = some (.v4 0x7f000001) ∧
      isPrivateIpAddress (.v6 [0x2001, 0, 0, 0, 0, 0, 0x80ff, 0xfffe]) = isPrivateIpAddress (.v4 0x7f000001) := by
  have hfirst : PartSpells ['0', 'x', '7', 'f'] 0x7f := .hexadecimal (.inl rfl) (by decide)
  have hone : PartSpells ['1'] 1 := .decimal (by decide) (by decide) (by decide)
  refine ⟨((every_spelling_one_verdict "0x7f.1".toList).1 _ (.parts (.cons hfirst (.cons hone .nil)) (.two (by decide) (by decide)))).mpr
    (by decide), ((every_spelling_one_verdict []).2.2 0x7f000001 _ (by decide) (.teredo 0 0 0 0)).1⟩

end Claxedo.Net
