import Claxedo.Pty.SafeSlice

/-! Where `safeStartIndex` cuts a text of well-formed pieces. The last ESC behind the cut starts the sequence the cut
stands in, or is the ESC of its ST; either way the scan finds the sequence's own end, except that it takes the byte
after an ESC for the final one and so stops inside a sequence with intermediate bytes. -/

namespace Claxedo.Pty

section
variable {text before after : Text} {start p i j : ℕ}

theorem upTo_split {a n m : ℕ} (han : a ≤ n) (hnm : n < m) : upTo a m = upTo a n ++ n :: upTo (n + 1) m := by
  unfold upTo
  rw [show m - a = (n - a) + (m - n) by omega, ← List.range'_append_1, show a + (n - a) = n by omega,
    show m - n = (m - (n + 1)) + 1 by omega, List.range'_succ]

theorem lastEscapeInWindow_eq (hp : text[p]? = some ESC) (hlt : p < start) (hwindow : start ≤ p + MAX_ESCAPE_SCAN)
    (hno : ∀ i, p < i → i < start → text[i]? ≠ some ESC) : lastEscapeInWindow text start = some p := by
  unfold lastEscapeInWindow
  rw [upTo_split (by omega : start - MAX_ESCAPE_SCAN ≤ p) hlt, List.find?_eq_some_iff_append]
  refine ⟨by simpa using hp, (upTo (p + 1) start).reverse, (upTo (start - MAX_ESCAPE_SCAN) p).reverse, by simp, ?_⟩
  intro i hi
  rw [List.mem_reverse, mem_upTo] at hi
  simpa using hno i (by omega) hi.2

theorem lastEscapeInWindow_eq_some (h : lastEscapeInWindow text start = some p) :
    text[p]? = some ESC ∧ p < start ∧ ∀ i, p < i → i < start → text[i]? ≠ some ESC := by
  unfold lastEscapeInWindow at h
  have hmem := mem_upTo.mp (List.mem_reverse.mp (List.mem_of_find?_eq_some h))
  refine ⟨by simpa using List.find?_some h, hmem.2, fun i hpi hi => ?_⟩
  rw [upTo_split (by omega : start - MAX_ESCAPE_SCAN ≤ i) hi, List.reverse_append, List.reverse_cons, List.append_assoc,
    List.find?_append, List.find?_append] at h
  intro hesc
  have hlater : ∀ q, q < i + 1 → (upTo (i + 1) start).reverse.find? (fun k => decide (text[k]? = some ESC)) ≠ some q := by
    intro q hq hfind
    have := (mem_upTo.mp (List.mem_reverse.mp (List.mem_of_find?_eq_some hfind))).1
    omega
  cases hfind : (upTo (i + 1) start).reverse.find? (fun k => decide (text[k]? = some ESC)) with
  | some q =>
    rw [hfind] at h
    have hq : q = p := by simpa using h
    exact hlater q (by omega) hfind
  | none =>
    rw [hfind] at h
    simp [hesc] at h
    omega

theorem escapeSequenceEnd_eq (hi : isEscapeFinal text p i = true) (hlow : p < i) (hhigh : i < min text.length (p + MAX_ESCAPE_SCAN))
    (hno : ∀ j, p < j → j < i → isEscapeFinal text p j = false) : escapeSequenceEnd text p = some (i + 1) := by
  unfold escapeSequenceEnd
  rw [upTo_split (by omega : p + 1 ≤ i) hhigh, List.find?_append]
  have hnone : (upTo (p + 1) i).find? (isEscapeFinal text p) = none := by
    rw [List.find?_eq_none]
    intro j hj
    have := mem_upTo.mp hj
    simpa using hno j (by omega) this.2
  rw [hnone, List.find?_cons_of_pos hi]
  rfl

theorem outsideEscape_eq {stop : ℕ} (hlast : lastEscapeInWindow text start = some p)
    (hend : escapeSequenceEnd text p = some stop) : outsideEscape text start = if stop ≤ start then start else stop := by
  unfold outsideEscape
  rw [hlast]
  dsimp only
  rw [hend]

theorem getElem?_mid (before after : Text) (hj : j < text.length) :
    (before ++ text ++ after)[before.length + j]? = text[j]? := by
  rw [List.append_assoc, List.getElem?_append_right (by omega), Nat.add_sub_cancel_left, List.getElem?_append_left hj]

end

section
variable {before after : Text} {piece : Piece}

/-- Where the scan sees the end of the sequence: of an ESC sequence, after the byte behind the ESC. -/
def Piece.seenEnd : Piece → ℕ
  | .plain _ => 1
  | .pair _ _ => 2
  | .csi body _ => body.length + 3
  | .string _ body bell => body.length + if bell then 3 else 4
  | .escape _ _ => 2

theorem Piece.length_text (piece : Piece) :
    piece.text.length = match piece with
      | .plain _ => 1
      | .pair _ _ => 2
      | .csi body _ => body.length + 3
      | .string _ body bell => body.length + if bell then 3 else 4
      | .escape intermediates _ => intermediates.length + 2 := by
  cases piece with
  | string introducer body bell => cases bell <;> simp [Piece.text]
  | _ => simp [Piece.text]

theorem Piece.seenEnd_eq_length (piece : Piece) (h : piece.intermediate = false) : piece.seenEnd = piece.text.length := by
  rw [length_text]
  cases piece with
  | escape intermediates final =>
    have hnil : intermediates = [] := by simpa [intermediate] using h
    rw [hnil]
    rfl
  | _ => rfl

theorem Piece.seenEnd_of_intermediate (piece : Piece) (h : piece.intermediate = true) :
    piece.seenEnd = 2 ∧ 2 < piece.text.length := by
  rw [length_text]
  cases piece with
  | escape intermediates final =>
    have hne : intermediates ≠ [] := by simpa [intermediate] using h
    have := List.length_pos_iff.mpr hne
    exact ⟨rfl, by dsimp only; omega⟩
  | _ => cases h

variable {code : UInt16} {j : ℕ}

theorem introducers_ne (h : STRING_INTRODUCERS.contains code = true) : code ≠ CSI_INTRODUCER ∧ code ≠ ESC := by
  revert h
  simp only [STRING_INTRODUCERS, List.contains_eq_mem, List.mem_cons, List.not_mem_nil, or_false, decide_eq_true_eq]
  rintro (rfl | rfl | rfl | rfl | rfl) <;> decide

/-- Inside a text a sequence is judged as it is alone. -/
theorem isEscapeFinal_mid {t : Text} (before after : Text) (hlong : 1 < t.length) (hpos : 0 < j) (hj : j < t.length) :
    isEscapeFinal (before ++ t ++ after) before.length (before.length + j) = isEscapeFinal t 0 j := by
  have hprev : before.length + j - 1 = before.length + (j - 1) := by omega
  have hne : (before.length + j = before.length + 1) = (j = 0 + 1) := by
    rw [eq_iff_iff]
    omega
  unfold isEscapeFinal
  rw [getElem?_mid before after hlong, getElem?_mid before after hj, hprev, getElem?_mid before after (by omega)]
  simp only [hne, ne_eq, Nat.zero_add]

theorem isEscapeFinal_csi {body : Text} {final : UInt16} :
    isEscapeFinal (Piece.csi body final).text 0 j =
      (j ≠ 1 && ((Piece.csi body final).text[j]?).any fun ch => 0x40 ≤ ch && ch ≤ 0x7e) := by
  unfold isEscapeFinal
  simp [Piece.text]

theorem isEscapeFinal_string {introducer : UInt16} {body : Text} {bell : Bool} (h : STRING_INTRODUCERS.contains introducer = true) :
    isEscapeFinal (Piece.string introducer body bell).text 0 j =
      (j ≠ 1 && ((Piece.string introducer body bell).text[j]? = some BEL ||
        ((Piece.string introducer body bell).text[j]? = some BACKSLASH &&
          (Piece.string introducer body bell).text[j - 1]? = some ESC))) := by
  have hne := (introducers_ne h).1
  unfold isEscapeFinal
  simp only [Piece.text, Nat.zero_add, List.getElem?_cons_succ, List.getElem?_cons_zero, Option.some.injEq, hne,
    if_false, Option.any_some, h, if_true]

theorem escapeSequenceEnd_piece (before after : Text) (hformed : piece.wellFormed) (hescape : piece.isEscape)
    (hshort : piece.text.length ≤ MAX_ESCAPE_SCAN) :
    escapeSequenceEnd (before ++ piece.text ++ after) before.length = some (before.length + piece.seenEnd) := by
  have hlong : 1 < piece.text.length := by
    cases piece with
    | plain => cases hescape
    | pair => cases hescape
    | _ => simp [Piece.text]
  have key : ∀ j, 0 < j → j < piece.text.length → isEscapeFinal piece.text 0 j = true →
      (∀ i, 0 < i → i < j → isEscapeFinal piece.text 0 i = false) →
        escapeSequenceEnd (before ++ piece.text ++ after) before.length = some (before.length + j + 1) := by
    intro j hpos hj hfinal hno
    refine escapeSequenceEnd_eq ?_ (by omega) ?_ fun i hlow hhigh => ?_
    · rw [isEscapeFinal_mid before after hlong hpos hj]
      exact hfinal
    · simp only [List.length_append]
      omega
    · obtain ⟨k, rfl⟩ : ∃ k, i = before.length + k := ⟨i - before.length, by omega⟩
      rw [isEscapeFinal_mid before after hlong (by omega) (by omega)]
      exact hno k (by omega) (by omega)
  have hlength := piece.length_text
  cases piece with
  | plain => cases hescape
  | pair => cases hescape
  | csi body final =>
    simp only [Piece.wellFormed, Bool.and_eq_true, List.all_eq_true, decide_eq_true_eq] at hformed
    obtain ⟨⟨hbody, hlow⟩, hhigh⟩ := hformed
    dsimp only at hlength
    refine key (body.length + 2) (by omega) (by omega) ?_ fun i hpos hi => ?_
    · have hlast : (Piece.csi body final).text[body.length + 2]? = some final := by simp [Piece.text]
      rw [isEscapeFinal_csi, hlast]
      simp [hlow, hhigh]
    · rw [isEscapeFinal_csi]
      by_cases hone : i = 1
      · simp [hone]
      · obtain ⟨k, rfl⟩ : ∃ k, i = k + 2 := ⟨i - 2, by omega⟩
        obtain ⟨code, hcode⟩ : ∃ code, body[k]? = some code := ⟨_, List.getElem?_eq_getElem (by omega)⟩
        have hk : (Piece.csi body final).text[k + 2]? = some code := by
          simp only [Piece.text, List.getElem?_cons_succ]
          rw [List.getElem?_append_left (by omega), hcode]
        have hnot : ¬ 0x40 ≤ code := fun h =>
          absurd (UInt16.le_trans h (hbody code (List.mem_of_getElem? hcode)).2) (by decide)
        rw [hk]
        simp [hnot]
  | string introducer body bell =>
    simp only [Piece.wellFormed, Bool.and_eq_true, List.all_eq_true, decide_eq_true_eq] at hformed
    obtain ⟨hintroducer, hbody⟩ := hformed
    dsimp only at hlength
    have hbodyAt : ∀ k, k < body.length → ∃ code ∈ body, (Piece.string introducer body bell).text[k + 2]? = some code := by
      intro k hk
      obtain ⟨code, hcode⟩ : ∃ code, body[k]? = some code := ⟨_, List.getElem?_eq_getElem (by omega)⟩
      refine ⟨code, List.mem_of_getElem? hcode, ?_⟩
      simp only [Piece.text, List.getElem?_cons_succ]
      rw [List.getElem?_append_left (by omega), hcode]
    have hprev : ∀ k, k < body.length + 1 → (Piece.string introducer body bell).text[k + 1]? ≠ some ESC := by
      intro k hk
      cases k with
      | zero => simpa [Piece.text] using (introducers_ne hintroducer).2
      | succ k =>
        obtain ⟨code, hmem, hcode⟩ := hbodyAt k (by omega)
        rw [hcode]
        simpa using (hbody code hmem).1
    have hinner : ∀ k, k < body.length → isEscapeFinal (Piece.string introducer body bell).text 0 (k + 2) = false := by
      intro k hk
      obtain ⟨code, hmem, hcode⟩ := hbodyAt k hk
      have hbell : code ≠ BEL := (hbody code hmem).2
      rw [isEscapeFinal_string hintroducer, hcode]
      simp [hbell, hprev k (by omega)]
    have hfirst : isEscapeFinal (Piece.string introducer body bell).text 0 1 = false := by
      rw [isEscapeFinal_string hintroducer]
      simp
    cases bell with
    | true =>
      simp only [if_true] at hlength
      refine key (body.length + 2) (by omega) (by omega) ?_ fun i hpos hi => ?_
      · have hlast : (Piece.string introducer body true).text[body.length + 2]? = some BEL := by simp [Piece.text]
        rw [isEscapeFinal_string hintroducer, hlast]
        simp
      · by_cases hone : i = 1
        · rw [hone, hfirst]
        · obtain ⟨k, rfl⟩ : ∃ k, i = k + 2 := ⟨i - 2, by omega⟩
          exact hinner k (by omega)
    | false =>
      simp only [Bool.false_eq_true, if_false] at hlength
      have hesc : (Piece.string introducer body false).text[body.length + 2]? = some ESC := by simp [Piece.text]
      refine key (body.length + 3) (by omega) (by omega) ?_ fun i hpos hi => ?_
      · have hlast : (Piece.string introducer body false).text[body.length + 3]? = some BACKSLASH := by
          simp [Piece.text]
        rw [isEscapeFinal_string hintroducer, hlast, Nat.add_sub_assoc (by decide), hesc]
        simp
      · by_cases hone : i = 1
        · rw [hone, hfirst]
        · obtain ⟨k, rfl⟩ : ∃ k, i = k + 2 := ⟨i - 2, by omega⟩
          by_cases hk : k < body.length
          · exact hinner k hk
          · have hlast : k = body.length := by omega
            rw [hlast, isEscapeFinal_string hintroducer, hesc]
            simp [ESC, BEL, BACKSLASH]
  | escape intermediates final =>
    simp only [Piece.wellFormed, Bool.and_eq_true, List.all_eq_true, decide_eq_true_eq, Bool.or_eq_true] at hformed
    obtain ⟨⟨⟨hbody, hlow⟩, hhigh⟩, hfinal⟩ := hformed
    refine key 1 (by omega) hlong ?_ fun i hpos hi => absurd hi (by omega)
    have hplain : ∀ code, (Piece.escape intermediates final).text[1]? = some code →
        code ≠ CSI_INTRODUCER ∧ STRING_INTRODUCERS.contains code = false := by
      intro code hcode
      cases intermediates with
      | nil =>
        have hcode' : final = code := by simpa [Piece.text] using hcode
        simpa [hcode'] using hfinal
      | cons first rest =>
        have hcode' : first = code := by simpa [Piece.text] using hcode
        have hle := (hbody first List.mem_cons_self).2
        rw [hcode'] at hle
        refine ⟨fun heq => absurd hle (by rw [heq]; decide), Bool.eq_false_iff.mpr fun hcontains => ?_⟩
        simp only [STRING_INTRODUCERS, List.contains_eq_mem, List.mem_cons, List.not_mem_nil, or_false,
          decide_eq_true_eq] at hcontains
        rcases hcontains with rfl | rfl | rfl | rfl | rfl <;> revert hle <;> decide
    obtain ⟨code, hcode⟩ : ∃ code, (Piece.escape intermediates final).text[1]? = some code :=
      ⟨_, List.getElem?_eq_getElem hlong⟩
    unfold isEscapeFinal
    simp only [Nat.zero_add, hcode, Option.some.injEq, (hplain code hcode).1, if_false, Option.any_some,
      (hplain code hcode).2, Bool.false_eq_true, decide_true]

/-- Behind its first unit a piece holds an ESC only where it ends by ST. -/
theorem escape_in_piece (hformed : piece.wellFormed) (hj : 0 < j) (hesc : piece.text[j]? = some ESC) :
    ∃ introducer body, piece = .string introducer body false ∧ j = body.length + 2 := by
  obtain ⟨k, rfl⟩ : ∃ k, j = k + 1 := ⟨j - 1, by omega⟩
  cases piece with
  | plain code => simp [Piece.text] at hesc
  | pair high low =>
    have hlow : low = ESC := by
      cases k with
      | zero => simpa [Piece.text] using hesc
      | succ k => simp [Piece.text] at hesc
    rw [hlow] at hformed
    simp [Piece.wellFormed, isLowSurrogate, ESC] at hformed
  | csi body final =>
    simp only [Piece.wellFormed, Bool.and_eq_true, List.all_eq_true, decide_eq_true_eq] at hformed
    have hmem : ESC ∈ CSI_INTRODUCER :: (body ++ [final]) := List.mem_of_getElem? hesc
    simp only [List.mem_cons, List.mem_append, List.not_mem_nil, or_false] at hmem
    rcases hmem with heq | hbody | heq
    · exact absurd heq (by decide)
    · exact absurd (hformed.1.1 ESC hbody).1 (by decide)
    · exact absurd hformed.1.2 (by rw [← heq]; decide)
  | string introducer body bell =>
    simp only [Piece.wellFormed, Bool.and_eq_true, List.all_eq_true, decide_eq_true_eq] at hformed
    obtain ⟨hintroducer, hbody⟩ := hformed
    have hrest : (introducer :: (body ++ if bell then [BEL] else [ESC, BACKSLASH]))[k]? = some ESC := hesc
    cases k with
    | zero => exact absurd (by simpa using hrest) (introducers_ne hintroducer).2
    | succ k =>
      rw [List.getElem?_cons_succ] at hrest
      by_cases hk : k < body.length
      · rw [List.getElem?_append_left hk] at hrest
        exact absurd rfl (hbody ESC (List.mem_of_getElem? hrest)).1
      · rw [List.getElem?_append_right (by omega)] at hrest
        obtain ⟨m, rfl⟩ : ∃ m, k = body.length + m := ⟨k - body.length, by omega⟩
        rw [Nat.add_sub_cancel_left] at hrest
        cases bell with
        | true =>
          cases m with
          | zero => exact absurd hrest (by decide)
          | succ m => simp at hrest
        | false =>
          obtain _ | _ | m := m
          · exact ⟨introducer, body, rfl, rfl⟩
          · exact absurd hrest (by decide)
          · simp at hrest
  | escape intermediates final =>
    simp only [Piece.wellFormed, Bool.and_eq_true, List.all_eq_true, decide_eq_true_eq] at hformed
    have hmem : ESC ∈ intermediates ++ [final] := List.mem_of_getElem? hesc
    rcases List.mem_append.mp hmem with hbody | heq
    · exact absurd (hformed.1.1.1 ESC hbody).1 (by decide)
    · exact absurd hformed.1.1.2 (by rw [← List.mem_singleton.mp heq]; decide)

theorem isEscape_of_head (hformed : piece.wellFormed) (hesc : piece.text[0]? = some ESC) : piece.isEscape = true := by
  cases piece with
  | plain code =>
    have hcode : code = ESC := by simpa [Piece.text] using hesc
    rw [hcode] at hformed
    simp [Piece.wellFormed] at hformed
  | pair high low =>
    have hhigh : high = ESC := by simpa [Piece.text] using hesc
    rw [hhigh] at hformed
    simp [Piece.wellFormed, isHighSurrogate, ESC] at hformed
  | _ => rfl

theorem head_of_isEscape (h : piece.isEscape = true) : piece.text[0]? = some ESC := by
  cases piece with
  | plain => cases h
  | pair => cases h
  | _ => rfl

/-- From the ESC of its ST the scan sees the end of a string. -/
theorem escapeSequenceEnd_st (before after : Text) (introducer : UInt16) (body : Text) :
    escapeSequenceEnd (before ++ (Piece.string introducer body false).text ++ after) (before.length + (body.length + 2)) =
      some (before.length + (body.length + 4)) := by
  have hshape : before ++ (Piece.string introducer body false).text ++ after =
      (before ++ ESC :: introducer :: body) ++ (Piece.escape [] BACKSLASH).text ++ after := by simp [Piece.text]
  have hlength : (before ++ ESC :: introducer :: body).length = before.length + (body.length + 2) := by simp
  rw [hshape, ← hlength, escapeSequenceEnd_piece _ _ (by decide) rfl (by decide), hlength]
  rfl

/-- A cut strictly inside a sequence moves to its end, or stays inside one with intermediates. -/
theorem outsideEscape_inside {k : ℕ} (before after : Text) (hformed : piece.wellFormed) (hescape : piece.isEscape)
    (hshort : piece.text.length ≤ MAX_ESCAPE_SCAN) (hpos : 0 < k) (hk : k < piece.text.length) :
    outsideEscape (before ++ piece.text ++ after) (before.length + k) =
      if piece.intermediate then before.length + max 2 k else before.length + piece.text.length := by
  by_cases hst : ∃ introducer body, piece = .string introducer body false ∧ k = body.length + 3
  · obtain ⟨introducer, body, rfl, rfl⟩ := hst
    have hlength := (Piece.string introducer body false).length_text
    simp only [Bool.false_eq_true, if_false] at hlength
    have hlast : lastEscapeInWindow (before ++ (Piece.string introducer body false).text ++ after)
        (before.length + (body.length + 3)) = some (before.length + (body.length + 2)) := by
      refine lastEscapeInWindow_eq ?_ (by omega) (by rw [MAX_ESCAPE_SCAN]; omega) fun i hlow hhigh => by omega
      rw [getElem?_mid before after (by omega)]
      simp [Piece.text]
    rw [outsideEscape_eq hlast (escapeSequenceEnd_st _ _ _ _), hlength]
    simp only [Piece.intermediate, Bool.false_eq_true, if_false]
    rw [if_neg (by omega)]
  · have hlast : lastEscapeInWindow (before ++ piece.text ++ after) (before.length + k) = some before.length := by
      refine lastEscapeInWindow_eq ?_ (by omega) (by omega) fun i hlow hhigh hesc => ?_
      · have hhead := getElem?_mid before after (piece.text_pos)
        rw [Nat.add_zero] at hhead
        rw [hhead, head_of_isEscape hescape]
      · obtain ⟨j, rfl⟩ : ∃ j, i = before.length + j := ⟨i - before.length, by omega⟩
        rw [getElem?_mid before after (by omega)] at hesc
        obtain ⟨introducer, body, rfl, rfl⟩ := escape_in_piece hformed (by omega) hesc
        have hlength := (Piece.string introducer body false).length_text
        simp only [Bool.false_eq_true, if_false] at hlength
        exact hst ⟨introducer, body, rfl, by omega⟩
    rw [outsideEscape_eq hlast (escapeSequenceEnd_piece before after hformed hescape hshort)]
    by_cases hinner : piece.intermediate = true
    · obtain ⟨hseen, -⟩ := piece.seenEnd_of_intermediate hinner
      rw [hseen, if_pos hinner]
      split_ifs <;> omega
    · rw [piece.seenEnd_eq_length (by simpa using hinner), if_neg hinner, if_neg (by omega)]

theorem outsideEscape_between {before after : List Piece} (h : WellFormed (before ++ after)) :
    outsideEscape (textOf (before ++ after)) (textOf before).length = (textOf before).length := by
  cases hlast : lastEscapeInWindow (textOf (before ++ after)) (textOf before).length with
  | none =>
    unfold outsideEscape
    rw [hlast]
  | some p =>
    obtain ⟨hesc, hlt, hno⟩ := lastEscapeInWindow_eq_some hlast
    have hstop : ∃ stop, escapeSequenceEnd (textOf (before ++ after)) p = some stop ∧ stop ≤ (textOf before).length := by
      rcases locate before p (by omega) with ⟨first, rest, rfl, rfl⟩ | ⟨first, piece, rest, rfl, -, hlow, hhigh⟩
      · cases rest with
        | nil => simp at hlt
        | cons piece rest =>
          have hmem : piece ∈ first ++ piece :: rest ++ after := by simp
          have htext : textOf (first ++ piece :: rest ++ after) =
              textOf first ++ piece.text ++ (textOf rest ++ textOf after) := by simp
          rw [htext] at hesc hno ⊢
          have hhead := getElem?_mid (textOf first) (textOf rest ++ textOf after) (piece.text_pos)
          rw [Nat.add_zero, hesc] at hhead
          have hescape := isEscape_of_head (h.formed piece hmem) hhead.symm
          refine ⟨_, escapeSequenceEnd_piece _ _ (h.formed piece hmem) hescape (h.short piece hmem hescape), ?_⟩
          have hlength := piece.length_text
          simp only [textOf_append, textOf_cons, List.length_append]
          cases piece <;> simp only [Piece.seenEnd] at hlength ⊢ <;> omega
      · obtain ⟨j, rfl⟩ : ∃ j, p = (textOf first).length + j := ⟨p - (textOf first).length, by omega⟩
        have hmem : piece ∈ first ++ piece :: rest ++ after := by simp
        have htext : textOf (first ++ piece :: rest ++ after) =
            textOf first ++ piece.text ++ (textOf rest ++ textOf after) := by simp
        rw [htext] at hesc ⊢
        rw [getElem?_mid _ _ (by omega)] at hesc
        obtain ⟨introducer, body, rfl, rfl⟩ := escape_in_piece (h.formed piece hmem) (by omega) hesc
        have hlength := (Piece.string introducer body false).length_text
        simp only [Bool.false_eq_true, if_false] at hlength
        refine ⟨_, escapeSequenceEnd_st _ _ introducer body, ?_⟩
        simp only [textOf_append, textOf_cons, List.length_append]
        omega
    obtain ⟨stop, hend, hle⟩ := hstop
    rw [outsideEscape_eq hlast hend]
    exact if_pos hle

/-- A sequence ends on no surrogate. -/
theorem last_not_low (hformed : piece.wellFormed) (hescape : piece.isEscape)
    (hlast : piece.text[piece.text.length - 1]? = some code) : isLowSurrogate code = false := by
  have hsmall : ∀ final : UInt16, final ≤ 0x7e → isLowSurrogate final = false := by
    intro final hle
    have hnot : ¬ 0xdc00 ≤ final := fun h => absurd (UInt16.le_trans h hle) (by decide)
    simp [isLowSurrogate, hnot]
  rw [← List.getLast?_eq_getElem?] at hlast
  cases piece with
  | plain => cases hescape
  | pair => cases hescape
  | csi body final =>
    simp only [Piece.wellFormed, Bool.and_eq_true, decide_eq_true_eq] at hformed
    have hcode : final = code := by simpa [Piece.text, List.getLast?_cons] using hlast
    rw [← hcode]
    exact hsmall final hformed.2
  | string introducer body bell =>
    cases bell with
    | true =>
      have hcode : BEL = code := by simpa [Piece.text, List.getLast?_cons] using hlast
      rw [← hcode]
      decide
    | false =>
      have hcode : BACKSLASH = code := by simpa [Piece.text, List.getLast?_cons] using hlast
      rw [← hcode]
      decide
  | escape intermediates final =>
    simp only [Piece.wellFormed, Bool.and_eq_true, decide_eq_true_eq] at hformed
    have hcode : final = code := by simpa [Piece.text, List.getLast?_cons] using hlast
    rw [← hcode]
    exact hsmall final hformed.1.2

theorem head_not_low (hformed : piece.wellFormed) (hhead : piece.text[0]? = some code) :
    isLowSurrogate code = false := by
  cases piece with
  | plain own =>
    have hcode : own = code := by simpa [Piece.text] using hhead
    simp only [Piece.wellFormed, Bool.and_eq_true, Bool.not_eq_true'] at hformed
    rw [← hcode]
    exact hformed.2
  | pair high low =>
    have hcode : high = code := by simpa [Piece.text] using hhead
    simp only [Piece.wellFormed, isHighSurrogate, Bool.and_eq_true, decide_eq_true_eq] at hformed
    rw [← hcode]
    have hnot : ¬ 0xdc00 ≤ high := fun h => absurd (UInt16.le_trans h hformed.1.2) (by decide)
    simp [isLowSurrogate, hnot]
  | csi | string | escape =>
    have hcode : ESC = code := by simpa [Piece.text] using hhead
    rw [← hcode]
    decide

end

section
variable {pieces before after : List Piece} {piece : Piece} {position : ℕ}

variable {kind : Piece → Bool}

theorem kind_of_inside (h : Inside kind pieces position) (hpieces : pieces = before ++ piece :: after)
    (hlow : (textOf before).length < position) (hhigh : position < (textOf before).length + piece.text.length) :
    kind piece = true := by
  obtain ⟨before', piece', after', rfl, hkind, hlow', hhigh'⟩ := h
  rcases List.append_eq_append_iff.mp hpieces with ⟨between, rfl, hrest⟩ | ⟨between, rfl, hrest⟩
  · cases between with
    | nil =>
      obtain ⟨rfl, -⟩ := List.cons.inj hrest
      exact hkind
    | cons first between =>
      obtain ⟨rfl, -⟩ := List.cons.inj hrest
      simp only [textOf_append, textOf_cons, List.length_append] at hlow
      omega
  · cases between with
    | nil =>
      obtain ⟨rfl, -⟩ := List.cons.inj hrest
      exact hkind
    | cons first between =>
      obtain ⟨rfl, -⟩ := List.cons.inj hrest
      simp only [textOf_append, textOf_cons, List.length_append] at hlow'
      omega

/-- Where a cut strictly inside the text falls: between two pieces, or inside an ESC sequence with intermediates, when it
was asked for inside that one. -/
theorem safeStartIndex_falls (h : WellFormed pieces) {index : ℕ} (hpos : 0 < index) (hlt : index < (textOf pieces).length) :
    (¬ Inside Piece.intermediate pieces index ∧
        ∃ before after, pieces = before ++ after ∧ safeStartIndex (textOf pieces) index = (textOf before).length) ∨
      Inside Piece.intermediate pieces index ∧
        Inside Piece.intermediate pieces (safeStartIndex (textOf pieces) index) := by
  unfold safeStartIndex
  rw [if_neg (by omega), if_neg (by omega)]
  rcases locate pieces index (by omega) with ⟨before, after, rfl, rfl⟩ | ⟨before, piece, after, rfl, -, hlow, hhigh⟩
  · refine .inl ⟨not_inside_of_between rfl, before, after, rfl, ?_⟩
    cases after with
    | nil => simp at hlt
    | cons piece after =>
      have hnot : ((textOf (before ++ piece :: after))[(textOf before).length]?).any isLowSurrogate = false := by
        obtain ⟨code, hcode⟩ : ∃ code, piece.text[0]? = some code := ⟨_, List.getElem?_eq_getElem piece.text_pos⟩
        have hhead := getElem?_mid (textOf before) (textOf after) piece.text_pos
        rw [Nat.add_zero, hcode, List.append_assoc] at hhead
        rw [textOf_append, textOf_cons, hhead, Option.any_some]
        exact head_not_low (h.formed piece (by simp)) hcode
      rw [hnot, if_neg Bool.false_ne_true]
      exact outsideEscape_between h
  · have hmem : piece ∈ before ++ piece :: after := by simp
    have hformed := h.formed piece hmem
    obtain ⟨k, rfl⟩ : ∃ k, index = (textOf before).length + k := ⟨index - (textOf before).length, by omega⟩
    have hmid := getElem?_mid (textOf before) (textOf after) (by omega : k < piece.text.length)
    have htext : textOf (before ++ piece :: after) = textOf before ++ piece.text ++ textOf after := by simp
    obtain ⟨code, hcode⟩ : ∃ code, piece.text[k]? = some code := ⟨_, List.getElem?_eq_getElem (by omega)⟩
    by_cases hescape : piece.isEscape = true
    · have hshort := h.short piece hmem hescape
      -- A low surrogate in a sequence is followed by another unit of it.
      obtain ⟨k', hk', hk'lt, hcut⟩ : ∃ k', 0 < k' ∧ k' < piece.text.length ∧
          (if ((textOf (before ++ piece :: after))[(textOf before).length + k]?).any isLowSurrogate then
            (textOf before).length + k + 1 else (textOf before).length + k) = (textOf before).length + k' := by
        rw [htext, hmid, hcode, Option.any_some]
        by_cases hlowCode : isLowSurrogate code = true
        · refine ⟨k + 1, by omega, ?_, by rw [if_pos hlowCode]; omega⟩
          by_contra hend
          have hlast : k = piece.text.length - 1 := by omega
          rw [hlast] at hcode
          rw [last_not_low hformed hescape hcode] at hlowCode
          cases hlowCode
        · exact ⟨k, by omega, by omega, if_neg hlowCode⟩
      rw [hcut, htext, outsideEscape_inside _ _ hformed hescape hshort hk' hk'lt]
      by_cases hinner : piece.intermediate = true
      · have hlong := (piece.seenEnd_of_intermediate hinner).2
        refine .inr ⟨⟨before, piece, after, rfl, hinner, hlow, hhigh⟩, before, piece, after, rfl, hinner, ?_, ?_⟩
        all_goals rw [if_pos hinner]; omega
      · refine .inl ⟨fun hinside => hinner (kind_of_inside hinside rfl hlow hhigh), before ++ [piece], after, by simp, ?_⟩
        rw [if_neg hinner]
        simp [textOf]
    · cases piece with
      | plain own =>
        simp only [Piece.text, List.length_singleton] at hhigh
        omega
      | pair high low =>
        have hk : k = 1 := by
          simp only [Piece.text, List.length_cons, List.length_nil] at hhigh
          omega
        subst hk
        have hlowCode : isLowSurrogate low = true := by
          simp only [Piece.wellFormed, Bool.and_eq_true] at hformed
          exact hformed.2
        have hcut : (if ((textOf (before ++ .pair high low :: after))[(textOf before).length + 1]?).any isLowSurrogate then
            (textOf before).length + 1 + 1 else (textOf before).length + 1) =
              (textOf (before ++ [.pair high low])).length := by
          rw [htext, hmid]
          simp [Piece.text, hlowCode, textOf]
        refine .inl ⟨fun hinside => absurd (kind_of_inside hinside rfl hlow hhigh) Bool.false_ne_true,
          before ++ [.pair high low], after, by simp, ?_⟩
        rw [hcut]
        have hbetween : outsideEscape (textOf (before ++ [.pair high low] ++ after))
            (textOf (before ++ [.pair high low])).length = (textOf (before ++ [.pair high low])).length :=
          outsideEscape_between (by simpa using h)
        simpa using hbetween
      | csi | string | escape => exact absurd rfl hescape

/-- A retained tail is whole pieces exactly when the cut falls between two. -/
theorem drop_eq_pieces_iff (h : position ≤ (textOf pieces).length) :
    (∃ after, after <:+ pieces ∧ (textOf pieces).drop position = textOf after) ↔ ¬ Inside (fun _ => true) pieces position := by
  constructor
  · rintro ⟨after, ⟨before, rfl⟩, hdrop⟩ hinside
    have hlen := congrArg List.length hdrop
    simp only [List.length_drop, textOf_append, List.length_append] at hlen h
    have hat : position = (textOf before).length := by omega
    exact not_inside_of_between rfl (hat ▸ hinside)
  · intro hnot
    rcases locate pieces position h with ⟨before, after, rfl, rfl⟩ | hinside
    · exact ⟨after, List.suffix_append _ _, by rw [textOf_append, List.drop_left]⟩
    · exact absurd hinside hnot

theorem not_inside_ends :
    ¬ Inside kind pieces 0 ∧ ¬ Inside kind pieces (textOf pieces).length := by
  refine ⟨fun ⟨_, _, _, _, _, hlow, _⟩ => by omega, ?_⟩
  exact not_inside_of_between (List.append_nil pieces).symm

theorem inside_any (h : Inside kind pieces position) : Inside (fun _ => true) pieces position := by
  obtain ⟨before, piece, after, hpieces, -, hlow, hhigh⟩ := h
  exact ⟨before, piece, after, hpieces, rfl, hlow, hhigh⟩

/-- The cut is clean, on no low half and in the middle of no sequence, exactly when it was not asked for inside an ESC
sequence with intermediate bytes. -/
theorem safeStartIndex_clean_iff (h : WellFormed pieces) {index : ℕ} (hle : index ≤ (textOf pieces).length) :
    ¬ Inside (fun _ => true) pieces (safeStartIndex (textOf pieces) index) ↔ ¬ Inside Piece.intermediate pieces index := by
  by_cases hzero : index = 0
  · subst hzero
    exact iff_of_true not_inside_ends.1 not_inside_ends.1
  · by_cases hend : index = (textOf pieces).length
    · have hcut : safeStartIndex (textOf pieces) index = (textOf pieces).length := by
        unfold safeStartIndex
        rw [if_neg hzero, if_pos (by omega)]
      rw [hcut, hend]
      exact iff_of_true not_inside_ends.2 not_inside_ends.2
    · rcases safeStartIndex_falls h (Nat.pos_of_ne_zero hzero) (lt_of_le_of_ne hle hend) with ⟨hnot, before, after,
        hpieces, hcut⟩ | ⟨hin, hstays⟩
      · refine iff_of_true ?_ hnot
        rw [hcut]
        exact not_inside_of_between hpieces
      · exact iff_of_false (fun hclean => hclean (inside_any hstays)) fun hnot => hnot hin

/-- A text of well-formed pieces is cut at or behind the index and not behind its end; the cut is clean exactly where the
index is inside no ESC sequence with intermediate bytes; and a trimmed buffer is never longer than asked, and is whole
pieces exactly where its own cut is such. -/
theorem trimmed_clean_iff (pieces : List Piece) (h : WellFormed pieces) :
    (∀ index, index ≤ (textOf pieces).length →
      index ≤ safeStartIndex (textOf pieces) index ∧ safeStartIndex (textOf pieces) index ≤ (textOf pieces).length ∧
        (¬ Inside (fun _ => true) pieces (safeStartIndex (textOf pieces) index) ↔
          ¬ Inside Piece.intermediate pieces index)) ∧
    ∀ max, (safeTrimStart (textOf pieces) max).length ≤ max ∧
      ((∃ after, after <:+ pieces ∧ safeTrimStart (textOf pieces) max = textOf after) ↔
        ¬ Inside Piece.intermediate pieces ((textOf pieces).length - max)) := by
  refine ⟨fun index hle => ⟨le_safeStartIndex hle, safeStartIndex_le _ _, safeStartIndex_clean_iff h hle⟩,
    fun max => ⟨length_safeTrimStart_le _ _, ?_⟩⟩
  unfold safeTrimStart
  by_cases hzero : max = 0
  · subst hzero
    rw [if_pos rfl, Nat.sub_zero]
    exact iff_of_true ⟨[], List.nil_suffix, rfl⟩ not_inside_ends.2
  · rw [if_neg hzero]
    by_cases hfits : (textOf pieces).length ≤ max
    · rw [if_pos hfits, Nat.sub_eq_zero_of_le hfits]
      exact iff_of_true ⟨pieces, List.suffix_refl _, rfl⟩ not_inside_ends.1
    · rw [if_neg hfits, drop_eq_pieces_iff (safeStartIndex_le _ _)]
      exact safeStartIndex_clean_iff h (by omega)

end

/-- `ESC ( B`, then an `a`. -/
def designated : List Piece := [.escape [0x28] 0x42, .plain 0x61]

theorem designated_wellFormed : WellFormed designated :=
  ⟨by decide, by decide⟩

/-- Cut at 1, the buffer starts on the `B`, which a terminal prints. -/
theorem designated_cut_inside :
    WellFormed designated ∧ safeStartIndex (textOf designated) 1 = 2 ∧ Inside (fun _ => true) designated 2 ∧
      safeTrimStart (textOf designated) 3 = [0x42, 0x61] :=
  ⟨designated_wellFormed, by decide, ⟨[], .escape [0x28] 0x42, [.plain 0x61], rfl, rfl, by decide, by decide⟩, by decide⟩

/-- Trimmed to the `a`, the buffer is the last piece. -/
theorem designated_trimmed : ∃ after, after <:+ designated ∧ safeTrimStart (textOf designated) 1 = textOf after := by
  refine ((trimmed_clean_iff designated designated_wellFormed).2 1).2.mpr ?_
  have hbetween : ¬ Inside Piece.intermediate designated (textOf [Piece.escape [0x28] 0x42]).length :=
    not_inside_of_between rfl
  exact hbetween

end Claxedo.Pty
