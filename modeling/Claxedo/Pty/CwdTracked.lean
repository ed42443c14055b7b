import Claxedo.Pty.SafeSlice

/-! The scan of a stream, and the scan of its chunks with the carry between them. A found sequence is found again however
the stream goes on; an open one goes on where the carry holds it; and where nothing is open, the only text a later
introducer can begin in is the part of one the stream ends in. -/

namespace Claxedo.Pty

section
variable {needle data before behind next chunk body : Text} {code : UInt16} {units : ℕ}

theorem cut_cons (needle : Text) (code : UInt16) (rest : Text) :
    cut needle (code :: rest) =
      if needle <+: code :: rest then some ([], (code :: rest).drop needle.length)
      else (cut needle rest).map fun halves => (code :: halves.1, halves.2) := by
  simp only [cut, List.isPrefixOf_iff_prefix]

theorem cut_eq_append (h : cut needle data = some (before, behind)) : data = before ++ needle ++ behind := by
  induction data generalizing before behind with
  | nil => cases h
  | cons code rest ih =>
    rw [cut_cons] at h
    split_ifs at h with hbegins
    · obtain ⟨tail, htail⟩ := hbegins
      simp only [Option.some.injEq, Prod.mk.injEq] at h
      obtain ⟨rfl, rfl⟩ := h
      rw [← htail, List.drop_left, List.nil_append]
    · obtain ⟨⟨before', behind'⟩, hrest, heq⟩ := Option.map_eq_some_iff.mp h
      simp only [Prod.mk.injEq] at heq
      obtain ⟨rfl, rfl⟩ := heq
      rw [ih hrest]
      simp

/-- An occurrence stays the first however the text goes on. -/
theorem cut_append (h : cut needle data = some (before, behind)) (chunk : Text) :
    cut needle (data ++ chunk) = some (before, behind ++ chunk) := by
  induction data generalizing before behind with
  | nil => cases h
  | cons code rest ih =>
    have hshape := cut_eq_append h
    rw [cut_cons] at h
    rw [List.cons_append, cut_cons]
    split_ifs at h with hbegins
    · simp only [Option.some.injEq, Prod.mk.injEq] at h
      obtain ⟨rfl, rfl⟩ := h
      have hlong := hbegins.length_le
      rw [← List.cons_append, if_pos (hbegins.trans (List.prefix_append _ _)), List.drop_append_of_le_length hlong]
    · have hnot : ¬ needle <+: code :: (rest ++ chunk) := by
        intro hfirst
        have hlong : needle.length ≤ (code :: rest).length := by
          rw [hshape]
          simp only [List.length_append]
          omega
        rw [← List.cons_append] at hfirst
        exact hbegins (List.prefix_of_prefix_length_le hfirst (List.prefix_append _ _) hlong)
      obtain ⟨⟨before', behind'⟩, hrest, heq⟩ := Option.map_eq_some_iff.mp h
      simp only [Prod.mk.injEq] at heq
      obtain ⟨rfl, rfl⟩ := heq
      rw [if_neg hnot, ih hrest, Option.map_some]

theorem cut_self (hne : needle ≠ []) (behind : Text) : cut needle (needle ++ behind) = some ([], behind) := by
  obtain ⟨code, rest, rfl⟩ := List.exists_cons_of_ne_nil hne
  rw [List.cons_append, cut_cons, if_pos (by simp), ← List.cons_append, List.drop_left]

theorem infix_of_cut_none (h : cut needle data = none) (hne : needle ≠ []) : ¬ needle <:+: data := by
  induction data with
  | nil =>
    intro hin
    exact hne (List.infix_nil.mp hin)
  | cons code rest ih =>
    rw [cut_cons] at h
    split_ifs at h with hbegins
    rw [List.infix_cons_iff]
    rintro (hin | hin)
    · exact hbegins hin
    · exact ih (Option.map_eq_none_iff.mp h) hin

/-- A text in which no occurrence begins only moves the occurrences behind it. -/
theorem cut_append_left (data : Text) (h : ∀ tail, tail ≠ [] → tail <:+ before → ¬ needle <+: tail ++ data) :
    cut needle (before ++ data) = (cut needle data).map fun halves => (before ++ halves.1, halves.2) := by
  induction before with
  | nil => simp
  | cons code before ih =>
    have hnot : ¬ needle <+: code :: (before ++ data) := h (code :: before) (List.cons_ne_nil _ _) (List.suffix_refl _)
    rw [List.cons_append, cut_cons, if_neg hnot,
      ih fun tail htail hsuffix => h tail htail (hsuffix.trans (List.suffix_cons _ _)), Option.map_map]
    rfl

/-! Terminators. -/

theorem terminated_cons (code : UInt16) (rest : Text) :
    terminated (code :: rest) =
      if code = BEL then some ([], 1, rest)
      else if code = ESC ∧ rest.head? = some BACKSLASH then some ([], 2, rest.tail)
      else (terminated rest).map fun found => (code :: found.1, found.2) := by
  have hbell : ([BEL] <+: code :: rest) ↔ code = BEL := by
    rw [List.cons_prefix_cons]
    simp [eq_comm]
  have hst : ([ESC, BACKSLASH] <+: code :: rest) ↔ code = ESC ∧ rest.head? = some BACKSLASH := by
    rw [List.cons_prefix_cons]
    cases rest with
    | nil => simp
    | cons next rest => simp [List.cons_prefix_cons, eq_comm]
  have hne : ESC ≠ BEL := by decide
  unfold terminated
  rw [cut_cons, cut_cons]
  simp only [hbell, hst]
  by_cases hb : code = BEL
  · have hnot : ¬ (code = ESC ∧ rest.head? = some BACKSLASH) := fun h => hne (h.1.symm.trans hb)
    simp only [hb, if_true]
    rw [hb] at hnot
    simp only [hnot, if_false]
    cases cut [ESC, BACKSLASH] rest with
    | none => rfl
    | some st => simp
  · simp only [hb, if_false]
    by_cases hs : code = ESC ∧ rest.head? = some BACKSLASH
    · simp only [hs, and_self, if_true]
      cases cut [BEL] rest with
      | none => simp
      | some bell => simp
    · simp only [hs, if_false]
      cases cut [BEL] rest with
      | none =>
        cases cut [ESC, BACKSLASH] rest <;> rfl
      | some bell =>
        cases cut [ESC, BACKSLASH] rest with
        | none => rfl
        | some st =>
          simp only [Option.map_some, List.length_cons, Nat.add_lt_add_iff_right]
          split_ifs <;> rfl

/-- A terminator stays the first however the text goes on. -/
theorem terminated_append (h : terminated data = some (body, units, next)) (chunk : Text) :
    terminated (data ++ chunk) = some (body, units, next ++ chunk) := by
  induction data generalizing body units next with
  | nil => cases h
  | cons code rest ih =>
    rw [terminated_cons] at h
    rw [List.cons_append, terminated_cons]
    split_ifs at h with hbell hst
    · obtain ⟨rfl, rfl, rfl⟩ : [] = body ∧ 1 = units ∧ rest = next := by simpa using h
      rw [if_pos hbell]
    · obtain ⟨rfl, rfl, rfl⟩ : [] = body ∧ 2 = units ∧ rest.tail = next := by simpa using h
      cases rest with
      | nil => simp at hst
      | cons first rest =>
        rw [if_neg hbell, if_pos (by simpa using hst)]
        rfl
    · obtain ⟨⟨body', units', next'⟩, hrest, heq⟩ := Option.map_eq_some_iff.mp h
      obtain ⟨rfl, rfl, rfl⟩ : code :: body' = body ∧ units' = units ∧ next' = next := by simpa using heq
      have hhead : (rest ++ chunk).head? = rest.head? := by
        cases rest with
        | nil => cases hrest
        | cons first rest => rfl
      rw [if_neg hbell, hhead, if_neg hst, ih hrest, Option.map_some]

theorem terminated_eq_append (h : terminated data = some (body, units, next)) :
    ∃ mark, data = body ++ mark ++ next ∧ mark.length = units ∧ (mark = [BEL] ∨ mark = [ESC, BACKSLASH]) := by
  induction data generalizing body units next with
  | nil => cases h
  | cons code rest ih =>
    rw [terminated_cons] at h
    split_ifs at h with hbell hst
    · obtain ⟨rfl, rfl, rfl⟩ : [] = body ∧ 1 = units ∧ rest = next := by simpa using h
      exact ⟨[BEL], by rw [hbell]; rfl, rfl, .inl rfl⟩
    · obtain ⟨rfl, rfl, rfl⟩ : [] = body ∧ 2 = units ∧ rest.tail = next := by simpa using h
      cases rest with
      | nil => simp at hst
      | cons first rest =>
        obtain ⟨rfl, hfirst⟩ := hst
        obtain rfl : first = BACKSLASH := by simpa using hfirst
        exact ⟨[ESC, BACKSLASH], rfl, rfl, .inr rfl⟩
    · obtain ⟨⟨body', units', next'⟩, hrest, heq⟩ := Option.map_eq_some_iff.mp h
      obtain ⟨rfl, rfl, rfl⟩ : code :: body' = body ∧ units' = units ∧ next' = next := by simpa using heq
      obtain ⟨mark, rfl, hunits, hmark⟩ := ih hrest
      exact ⟨mark, rfl, hunits, hmark⟩

theorem terminated_none_of_append (h : terminated (before ++ data) = none) : terminated data = none := by
  induction before with
  | nil => exact h
  | cons code before ih =>
    rw [List.cons_append, terminated_cons] at h
    split_ifs at h
    exact ih (Option.map_eq_none_iff.mp h)

/-- A terminator that only comes with more text ends in that text. -/
theorem length_lt_of_terminated (h : terminated data = none) (h' : terminated (data ++ chunk) = some (body, units, next)) :
    data.length < body.length + units := by
  obtain ⟨mark, hshape, rfl, hmark⟩ := terminated_eq_append h'
  by_contra hle
  have hfirst : body ++ mark <+: data ++ chunk := by
    rw [hshape]
    exact List.prefix_append _ _
  have hbegins : body ++ mark <+: data := by
    refine List.prefix_of_prefix_length_le hfirst (List.prefix_append _ _) ?_
    rw [List.length_append]
    omega
  obtain ⟨rest, rfl⟩ := hbegins
  rw [List.append_assoc] at h
  have hnone := terminated_none_of_append h
  rcases hmark with rfl | rfl
  · rw [List.singleton_append, terminated_cons, if_pos rfl] at hnone
    cases hnone
  · rw [List.cons_append, terminated_cons, if_neg (by decide), if_pos (by simp)] at hnone
    cases hnone

theorem terminated_prefix (h : terminated behind = none) : terminated (OSC7_PREFIX ++ behind) = none := by
  simp [OSC7_PREFIX, terminated_cons, h, ESC, BEL, BACKSLASH]

end

/-! The scan as a derivation. -/

/-- What a scan of a text finds: its sequences, and the open one it ends in. -/
inductive Scans : Text → List Osc7Sequence → Option Text → Prop
  | closed {data : Text} : cut OSC7_PREFIX data = none → Scans data [] none
  | opened {data before behind : Text} : cut OSC7_PREFIX data = some (before, behind) → terminated behind = none →
      Scans data [] (some (OSC7_PREFIX ++ behind))
  | found {data before behind body next : Text} {units : ℕ} {more : List Osc7Sequence} {tail : Option Text} :
      cut OSC7_PREFIX data = some (before, behind) → terminated behind = some (body, units, next) → Scans next more tail →
      Scans data (⟨body, OSC7_PREFIX.length + body.length + units⟩ :: more) tail

section
variable {data chunk tail : Text} {sequences more : List Osc7Sequence} {rest : Option Text}

theorem scans_scanOsc7 {fuel : ℕ} (h : data.length < fuel) : Scans data (scanOsc7 fuel data).1 (scanOsc7 fuel data).2 := by
  induction fuel generalizing data with
  | zero => omega
  | succ fuel ih =>
    cases hcut : cut OSC7_PREFIX data with
    | none =>
      simp only [scanOsc7, hcut]
      exact .closed hcut
    | some halves =>
      obtain ⟨before, behind⟩ := halves
      cases hterminated : terminated behind with
      | none =>
        simp only [scanOsc7, hcut, hterminated]
        exact .opened hcut hterminated
      | some found =>
        obtain ⟨body, units, next⟩ := found
        have hshorter : next.length < fuel := by
          obtain ⟨mark, hbehind, -, -⟩ := terminated_eq_append hterminated
          have hlen := congrArg List.length (cut_eq_append hcut)
          rw [hbehind] at hlen
          simp only [List.length_append, OSC7_PREFIX, List.length_cons] at hlen
          omega
        simp only [scanOsc7, hcut, hterminated]
        exact .found hcut hterminated (ih hshorter)

theorem Scans.unique {sequences' : List Osc7Sequence} {rest' : Option Text} (h : Scans data sequences rest)
    (h' : Scans data sequences' rest') : sequences = sequences' ∧ rest = rest' := by
  induction h generalizing sequences' rest' with
  | closed hcut =>
    cases h' with
    | closed => exact ⟨rfl, rfl⟩
    | opened hcut' _ => simp [hcut] at hcut'
    | found hcut' _ _ => simp [hcut] at hcut'
  | opened hcut hterminated =>
    cases h' with
    | closed hcut' => simp [hcut] at hcut'
    | opened hcut' _ =>
      rw [hcut] at hcut'
      cases hcut'
      exact ⟨rfl, rfl⟩
    | found hcut' hterminated' _ =>
      rw [hcut] at hcut'
      cases hcut'
      simp [hterminated] at hterminated'
  | found hcut hterminated _ ih =>
    cases h' with
    | closed hcut' => simp [hcut] at hcut'
    | opened hcut' hterminated' =>
      rw [hcut] at hcut'
      cases hcut'
      simp [hterminated] at hterminated'
    | found hcut' hterminated' hmore' =>
      rw [hcut] at hcut'
      cases hcut'
      rw [hterminated] at hterminated'
      cases hterminated'
      obtain ⟨rfl, rfl⟩ := ih hmore'
      exact ⟨rfl, rfl⟩

/-- An open sequence is where a longer text goes on. -/
theorem Scans.append_open (h : Scans data sequences (some tail)) (hmore : Scans (tail ++ chunk) more rest) :
    Scans (data ++ chunk) (sequences ++ more) rest := by
  generalize hopen : some tail = opened at h
  induction h with
  | closed => cases hopen
  | @opened data before behind hcut hterminated =>
    cases hopen
    have hself : cut OSC7_PREFIX (OSC7_PREFIX ++ behind ++ chunk) = some ([], behind ++ chunk) := by
      rw [List.append_assoc]
      exact cut_self (by decide) _
    rw [List.nil_append]
    cases hmore with
    | closed hcut' =>
      rw [hself] at hcut'
      cases hcut'
    | opened hcut' hterminated' =>
      rw [hself] at hcut'
      cases hcut'
      exact .opened (cut_append hcut chunk) hterminated'
    | found hcut' hterminated' hnext =>
      rw [hself] at hcut'
      cases hcut'
      exact .found (cut_append hcut chunk) hterminated' hnext
  | found hcut hterminated _ ih => exact .found (cut_append hcut chunk) (terminated_append hterminated chunk) (ih hopen)

/-- The open sequence is the end of the text, holds its introducer and no terminator. -/
theorem Scans.open_tail (h : Scans data sequences (some tail)) :
    tail <:+ data ∧ ∃ behind, tail = OSC7_PREFIX ++ behind ∧ terminated behind = none := by
  generalize hopen : some tail = opened at h
  induction h with
  | closed => cases hopen
  | @opened data before behind hcut hterminated =>
    cases hopen
    refine ⟨?_, behind, rfl, hterminated⟩
    rw [cut_eq_append hcut, List.append_assoc]
    exact List.suffix_append _ _
  | found hcut hterminated _ ih =>
    obtain ⟨hsuffix, hbehind⟩ := ih hopen
    obtain ⟨mark, hshape, -, -⟩ := terminated_eq_append hterminated
    refine ⟨hsuffix.trans ?_, hbehind⟩
    rw [cut_eq_append hcut, hshape, ← List.append_assoc]
    exact List.suffix_append _ _

/-! The part of an introducer at the end. -/

theorem fromLastEscape_append (before data : Text) :
    fromLastEscape (before ++ data) =
      match fromLastEscape data with
      | some tail => some tail
      | none => (fromLastEscape before).map (· ++ data) := by
  induction before with
  | nil =>
    rw [List.nil_append]
    cases fromLastEscape data <;> rfl
  | cons code before ih =>
    rw [List.cons_append, fromLastEscape, ih, fromLastEscape]
    cases fromLastEscape data with
    | some tail => rfl
    | none =>
      cases fromLastEscape before with
      | some tail => rfl
      | none => by_cases hesc : code = ESC <;> simp [hesc]

theorem fromLastEscape_eq_none_iff : fromLastEscape data = none ↔ ESC ∉ data := by
  induction data with
  | nil => simp [fromLastEscape]
  | cons code data ih =>
    rw [fromLastEscape, List.mem_cons, not_or, ← ih]
    cases fromLastEscape data with
    | some tail => simp
    | none => by_cases hesc : code = ESC <;> simp [hesc, eq_comm]

theorem fromLastEscape_eq_some_iff {tail : Text} :
    fromLastEscape data = some tail ↔ ∃ before rest, data = before ++ ESC :: rest ∧ tail = ESC :: rest ∧ ESC ∉ rest := by
  constructor
  · intro h
    induction data with
    | nil => cases h
    | cons code data ih =>
      rw [fromLastEscape] at h
      cases hlast : fromLastEscape data with
      | some tail' =>
        rw [hlast] at h
        cases h
        obtain ⟨before, rest, hdata, htail, hno⟩ := ih hlast
        exact ⟨code :: before, rest, by rw [hdata]; rfl, htail, hno⟩
      | none =>
        rw [hlast] at h
        dsimp only at h
        split_ifs at h with hesc
        cases h
        exact ⟨[], data, by rw [hesc]; rfl, by rw [hesc], fromLastEscape_eq_none_iff.mp hlast⟩
  · rintro ⟨before, rest, rfl, rfl, hno⟩
    have hrest : fromLastEscape (ESC :: rest) = some (ESC :: rest) := by
      rw [fromLastEscape, fromLastEscape_eq_none_iff.mpr hno]
      exact if_pos rfl
    rw [fromLastEscape_append, hrest]

theorem partialIntroducer_of_some {tail : Text} (h : fromLastEscape data = some tail) :
    partialIntroducer data = if tail <+: OSC7_PREFIX then tail else [] := by
  have hshort : tail <+: OSC7_PREFIX → tail.length ≤ OSC7_MAX := fun hbegins =>
    hbegins.length_le.trans (by decide)
  unfold partialIntroducer
  rw [h]
  simp only [List.isPrefixOf_iff_prefix]
  split_ifs with hbegins hlong
  · rfl
  · exact absurd (hshort hbegins) hlong
  · rfl

theorem partialIntroducer_of_none (h : fromLastEscape data = none) : partialIntroducer data = [] := by
  unfold partialIntroducer
  rw [h]

theorem partialIntroducer_suffix (data : Text) : partialIntroducer data <:+ data := by
  cases h : fromLastEscape data with
  | none =>
    rw [partialIntroducer_of_none h]
    exact List.nil_suffix
  | some tail =>
    rw [partialIntroducer_of_some h]
    split_ifs
    · obtain ⟨before, rest, hdata, htail, -⟩ := fromLastEscape_eq_some_iff.mp h
      exact ⟨before, by rw [hdata, htail]⟩
    · exact List.nil_suffix

theorem length_partialIntroducer (data : Text) : (partialIntroducer data).length ≤ OSC7_MAX := by
  cases h : fromLastEscape data with
  | none =>
    rw [partialIntroducer_of_none h]
    exact Nat.zero_le _
  | some tail =>
    rw [partialIntroducer_of_some h]
    split_ifs with hbegins
    · exact hbegins.length_le.trans (by decide)
    · exact Nat.zero_le _

theorem partialIntroducer_terminated {before mark next : Text} (h : mark = [BEL] ∨ mark = [ESC, BACKSLASH]) :
    partialIntroducer (before ++ mark ++ next) = partialIntroducer next := by
  cases hnext : fromLastEscape next with
  | some tail =>
    have hall : fromLastEscape (before ++ mark ++ next) = some tail := by rw [fromLastEscape_append, hnext]
    rw [partialIntroducer_of_some hall, partialIntroducer_of_some hnext]
  | none =>
    rw [partialIntroducer_of_none hnext]
    cases hall : fromLastEscape (before ++ mark ++ next) with
    | none => exact partialIntroducer_of_none hall
    | some tail =>
      rw [partialIntroducer_of_some hall]
      refine if_neg fun hbegins => ?_
      rw [fromLastEscape_append, hnext] at hall
      obtain ⟨tail', htail', rfl⟩ := Option.map_eq_some_iff.mp hall
      obtain ⟨before', rest, hshape, rfl, hno⟩ := fromLastEscape_eq_some_iff.mp htail'
      rcases h with rfl | rfl
      · -- The text from the last ESC on holds the BEL.
        have hbell : BEL ∈ ESC :: rest ++ next := by
          have hlast : BEL ∈ ESC :: rest := by
            have hends := congrArg List.getLast? hshape
            rw [List.getLast?_concat, List.getLast?_append_of_ne_nil _ (List.cons_ne_nil _ _)] at hends
            exact List.mem_of_getLast? hends.symm
          exact List.mem_append_left _ hlast
        exact absurd (hbegins.subset hbell) (by decide)
      · -- The last ESC is the terminator's own.
        have hrest : rest = [BACKSLASH] := by
          have hlong : before ++ [ESC, BACKSLASH] = before ++ ESC :: [BACKSLASH] := rfl
          have htail'' : fromLastEscape (before ++ ESC :: [BACKSLASH]) = some (ESC :: [BACKSLASH]) :=
            fromLastEscape_eq_some_iff.mpr ⟨before, [BACKSLASH], rfl, rfl, by decide⟩
          rw [hlong, htail''] at htail'
          have heq := Option.some.inj htail'
          exact (List.cons.inj heq).2.symm
        rw [hrest] at hbegins
        have hsecond : [ESC, BACKSLASH] <+: OSC7_PREFIX := (List.prefix_append _ next).trans hbegins
        exact absurd hsecond (by decide)

theorem cut_behind_partial (h : cut OSC7_PREFIX data = none) (chunk : Text) :
    ∃ before, cut OSC7_PREFIX (data ++ chunk) =
      (cut OSC7_PREFIX (partialIntroducer data ++ chunk)).map fun halves => (before ++ halves.1, halves.2) := by
  obtain ⟨before, hdata⟩ := partialIntroducer_suffix data
  refine ⟨before, ?_⟩
  have hshape : data ++ chunk = before ++ (partialIntroducer data ++ chunk) := by rw [← List.append_assoc, hdata]
  rw [hshape]
  refine cut_append_left _ fun tail hne hsuffix hbegins => ?_
  have hin : tail ++ partialIntroducer data <:+ data := by
    obtain ⟨first, rfl⟩ := hsuffix
    exact ⟨first, by rw [← List.append_assoc, hdata]⟩
  rw [← List.append_assoc] at hbegins
  rcases List.prefix_or_prefix_of_prefix hbegins (List.prefix_append (tail ++ partialIntroducer data) chunk) with hwhole | hpart
  · exact infix_of_cut_none h (by decide) (hwhole.isInfix.trans hin.isInfix)
  · -- The tail begins with the only ESC of a part, so it is the part.
    obtain ⟨code, rest, rfl⟩ := List.exists_cons_of_ne_nil hne
    rw [List.cons_append] at hpart hin
    have hparts : code = ESC ∧ rest ++ partialIntroducer data <+: OSC7_PREFIX.tail := by
      have := List.cons_prefix_cons.mp (by simpa [OSC7_PREFIX] using hpart)
      exact ⟨this.1, by simpa [OSC7_PREFIX] using this.2⟩
    obtain ⟨rfl, hrest⟩ := hparts
    have hno : ESC ∉ rest ++ partialIntroducer data := fun hmem => absurd (hrest.subset hmem) (by decide)
    obtain ⟨first, hfirst⟩ := hin
    have hlast : fromLastEscape data = some (ESC :: (rest ++ partialIntroducer data)) :=
      fromLastEscape_eq_some_iff.mpr ⟨first, _, hfirst.symm, rfl, hno⟩
    have hpartial := partialIntroducer_of_some hlast
    rw [if_pos hpart] at hpartial
    have hlen := congrArg List.length hpartial
    simp only [List.length_cons, List.length_append] at hlen
    omega

/-- With nothing open, a longer text goes on where an introducer could have begun. -/
theorem Scans.append_closed (h : Scans data sequences none) (hmore : Scans (partialIntroducer data ++ chunk) more rest) :
    Scans (data ++ chunk) (sequences ++ more) rest := by
  generalize hopen : none = opened at h
  induction h with
  | closed hcut =>
    obtain ⟨before, hbehind⟩ := cut_behind_partial hcut chunk
    rw [List.nil_append]
    cases hmore with
    | closed hnone => exact .closed (by rw [hbehind, hnone, Option.map_none])
    | opened hsome hterminated => exact .opened (by rw [hbehind, hsome, Option.map_some]) hterminated
    | found hsome hterminated hnext => exact .found (by rw [hbehind, hsome, Option.map_some]) hterminated hnext
  | opened => cases hopen
  | found hcut hterminated _ ih =>
    obtain ⟨mark, hshape, -, hmark⟩ := terminated_eq_append hterminated
    have hdata := cut_eq_append hcut
    rw [hshape, ← List.append_assoc, ← List.append_assoc] at hdata
    rw [hdata, partialIntroducer_terminated hmark] at hmore
    exact .found (cut_append hcut chunk) (terminated_append hterminated chunk) (ih hmore hopen)

end

/-! The tracker. -/

section
variable (decodeURIComponent : Text → Option Text) {data chunk buf : Text} {sequences more : List Osc7Sequence}
variable {rest : Option Text}

/-- What a call keeps for the next. -/
def keptOf (data : Text) : Option Text → Text
  | some tail => if tail.length ≤ OSC7_MAX then tail else []
  | none => partialIntroducer data

/-- What one call answers, of the derivation of its text. -/
theorem osc7_eq (h : Scans (buf ++ chunk) more rest) :
    osc7 decodeURIComponent buf chunk =
      { cwd := more.foldl (reported decodeURIComponent) none, buf := keptOf (buf ++ chunk) rest } := by
  obtain ⟨hmore, hrest⟩ := h.unique (scans_scanOsc7 (Nat.lt_add_one _))
  rw [hmore, hrest]
  unfold osc7 keptOf
  dsimp only
  cases (scanOsc7 ((buf ++ chunk).length + 1) (buf ++ chunk)).2 <;> rfl

theorem keptOf_suffix (h : ∀ tail, rest = some tail → tail <:+ data) : keptOf data rest <:+ data := by
  unfold keptOf
  cases rest with
  | none => exact partialIntroducer_suffix data
  | some tail =>
    dsimp only
    split_ifs
    · exact h tail rfl
    · exact List.nil_suffix

theorem length_keptOf (data : Text) (rest : Option Text) : (keptOf data rest).length ≤ OSC7_MAX := by
  unfold keptOf
  cases rest with
  | none => exact length_partialIntroducer data
  | some tail =>
    dsimp only
    split_ifs with hshort
    · exact hshort
    · exact Nat.zero_le _

theorem foldl_reported_or (sequences : List Osc7Sequence) (cwd : Option Text) :
    (sequences.foldl (reported decodeURIComponent) none).or cwd = sequences.foldl (reported decodeURIComponent) cwd := by
  have hstep : ∀ (earlier : Option Text) (found : Osc7Sequence),
      (reported decodeURIComponent earlier found).or cwd = reported decodeURIComponent (earlier.or cwd) found := by
    intro earlier found
    unfold reported
    dsimp only
    split_ifs <;> rfl
  have hall : ∀ earlier : Option Text, (sequences.foldl (reported decodeURIComponent) earlier).or cwd =
      sequences.foldl (reported decodeURIComponent) (earlier.or cwd) := by
    induction sequences with
    | nil => exact fun _ => rfl
    | cons found sequences ih =>
      intro earlier
      rw [List.foldl_cons, ih, hstep, List.foldl_cons]
  exact hall none

/-- The carry is what the stream leaves open; of a sequence longer than is kept it is some end. -/
def Carries (buf data : Text) : Option Text → Prop
  | none => buf = partialIntroducer data
  | some tail => if tail.length ≤ OSC7_MAX then buf = tail else buf <:+ tail

theorem scans_of_no_terminator (h : terminated data = none) : ∃ rest, Scans data [] rest ∧
    ∀ tail, rest = some tail → tail <:+ data := by
  cases hcut : cut OSC7_PREFIX data with
  | none => exact ⟨none, .closed hcut, fun tail heq => by cases heq⟩
  | some halves =>
    obtain ⟨before, behind⟩ := halves
    have hdata := cut_eq_append hcut
    rw [hdata] at h
    have hopened := Scans.opened hcut (terminated_none_of_append h)
    exact ⟨_, hopened, fun tail heq => by rw [heq] at hopened; exact hopened.open_tail.1⟩

theorem partialIntroducer_append {tail : Text} (hsuffix : tail <:+ data) (hesc : ESC ∈ tail) (chunk : Text) :
    partialIntroducer (tail ++ chunk) = partialIntroducer (data ++ chunk) := by
  obtain ⟨before, rfl⟩ := hsuffix
  have hsame : fromLastEscape (before ++ tail ++ chunk) = fromLastEscape (tail ++ chunk) := by
    rw [List.append_assoc, fromLastEscape_append]
    cases hlast : fromLastEscape (tail ++ chunk) with
    | some last => rfl
    | none => exact absurd (List.mem_append_left chunk hesc) (fromLastEscape_eq_none_iff.mp hlast)
  unfold partialIntroducer
  rw [hsame]

theorem partialIntroducer_partial (data chunk : Text) :
    partialIntroducer (partialIntroducer data ++ chunk) = partialIntroducer (data ++ chunk) := by
  cases hdata : fromLastEscape data with
  | none =>
    have hsame : fromLastEscape (data ++ chunk) = fromLastEscape chunk := by
      rw [fromLastEscape_append, hdata]
      cases fromLastEscape chunk <;> rfl
    rw [partialIntroducer_of_none hdata, List.nil_append]
    unfold partialIntroducer
    rw [hsame]
  | some tail =>
    obtain ⟨before, rest, hshape, rfl, hno⟩ := fromLastEscape_eq_some_iff.mp hdata
    rw [partialIntroducer_of_some hdata]
    split_ifs with hbegins
    · exact partialIntroducer_append ⟨before, hshape.symm⟩ List.mem_cons_self chunk
    · rw [List.nil_append]
      cases hchunk : fromLastEscape chunk with
      | some last =>
        have hall : fromLastEscape (data ++ chunk) = some last := by rw [fromLastEscape_append, hchunk]
        rw [partialIntroducer_of_some hchunk, partialIntroducer_of_some hall]
      | none =>
        have hall : fromLastEscape (data ++ chunk) = some (ESC :: rest ++ chunk) := by
          rw [fromLastEscape_append, hchunk, hdata, Option.map_some]
        rw [partialIntroducer_of_none hchunk, partialIntroducer_of_some hall, if_neg]
        exact fun hlonger => hbegins ((List.prefix_append _ chunk).trans hlonger)

theorem total (data : Text) : ∃ sequences rest, Scans data sequences rest :=
  ⟨_, _, scans_scanOsc7 (Nat.lt_add_one _)⟩

variable {rest' : Option Text} {sequences' : List Osc7Sequence}

/-- A sequence longer than is kept is not terminated by more text, where every sequence of the longer text is short. -/
theorem not_terminated_of_long {behind : Text} (hscans : Scans data sequences (some (OSC7_PREFIX ++ behind)))
    (hbehind : terminated behind = none) (hlong : OSC7_MAX < (OSC7_PREFIX ++ behind).length)
    (hscans' : Scans (data ++ chunk) sequences' rest') (hshort : ∀ found ∈ sequences', found.units ≤ OSC7_MAX) :
    terminated (behind ++ chunk) = none := by
  cases hterminated : terminated (behind ++ chunk) with
  | none => rfl
  | some found =>
    obtain ⟨body, units, next⟩ := found
    obtain ⟨more, rest, hnext⟩ := total next
    have hself : cut OSC7_PREFIX (OSC7_PREFIX ++ behind ++ chunk) = some ([], behind ++ chunk) := by
      rw [List.append_assoc]
      exact cut_self (by decide) _
    obtain ⟨rfl, -⟩ := (hscans.append_open (.found hself hterminated hnext)).unique hscans'
    have hunits := hshort ⟨body, OSC7_PREFIX.length + body.length + units⟩ (by simp)
    have hends := length_lt_of_terminated hbehind hterminated
    rw [List.length_append] at hlong
    dsimp only at hunits
    omega

/-- One chunk: the tracker reports what the longer stream reports, and holds what it leaves open. -/
theorem track_step {state : Osc7Parsed} (hscans : Scans data sequences rest) (hcarry : Carries state.buf data rest)
    (hcwd : state.cwd = sequences.foldl (reported decodeURIComponent) none) (chunk : Text)
    (hscans' : Scans (data ++ chunk) sequences' rest') (hshort : ∀ found ∈ sequences', found.units ≤ OSC7_MAX) :
    Carries (track decodeURIComponent state chunk).buf (data ++ chunk) rest' ∧
      (track decodeURIComponent state chunk).cwd = sequences'.foldl (reported decodeURIComponent) none := by
  -- Where the carry is what the stream leaves open, the call scans on from there.
  have hon : ∀ {more : List Osc7Sequence} {rest'' : Option Text}, Scans (state.buf ++ chunk) more rest'' →
      Scans (data ++ chunk) (sequences ++ more) rest'' →
        partialIntroducer (state.buf ++ chunk) = partialIntroducer (data ++ chunk) →
          Carries (track decodeURIComponent state chunk).buf (data ++ chunk) rest' ∧
            (track decodeURIComponent state chunk).cwd = sequences'.foldl (reported decodeURIComponent) none := by
    intro more rest'' hcall hwhole hpartial
    obtain ⟨rfl, rfl⟩ := hwhole.unique hscans'
    unfold track
    rw [osc7_eq decodeURIComponent hcall]
    refine ⟨?_, ?_⟩
    · cases rest'' with
      | none => exact hpartial
      | some tail =>
        dsimp only [Carries, keptOf]
        split_ifs
        · rfl
        · exact List.nil_suffix
    · dsimp only
      rw [foldl_reported_or, hcwd, List.foldl_append]
  obtain ⟨more, rest'', hcall⟩ := total (state.buf ++ chunk)
  cases rest with
  | none =>
    have hbuf : state.buf = partialIntroducer data := hcarry
    refine hon hcall (hscans.append_closed ?_) ?_
    · rw [← hbuf]
      exact hcall
    · rw [hbuf, partialIntroducer_partial]
  | some tail =>
    obtain ⟨hsuffix, behind, rfl, hbehind⟩ := hscans.open_tail
    by_cases hfits : (OSC7_PREFIX ++ behind).length ≤ OSC7_MAX
    · have hbuf : state.buf = OSC7_PREFIX ++ behind := by
        dsimp only [Carries] at hcarry
        rwa [if_pos hfits] at hcarry
      refine hon hcall (hscans.append_open ?_) ?_
      · rw [← hbuf]
        exact hcall
      · rw [hbuf]
        exact partialIntroducer_append hsuffix (by simp [OSC7_PREFIX]) chunk
    · have hbuf : state.buf <:+ OSC7_PREFIX ++ behind := by
        dsimp only [Carries] at hcarry
        rwa [if_neg hfits] at hcarry
      have hnever := not_terminated_of_long hscans hbehind (Nat.lt_of_not_le hfits) hscans' hshort
      have hself : cut OSC7_PREFIX (OSC7_PREFIX ++ behind ++ chunk) = some ([], behind ++ chunk) := by
        rw [List.append_assoc]
        exact cut_self (by decide) _
      obtain ⟨rfl, rfl⟩ := (hscans.append_open (.opened hself hnever)).unique hscans'
      -- The call scans an end of the open sequence, where there is no terminator.
      obtain ⟨first, hfirst⟩ := hbuf
      have hsilent : terminated (state.buf ++ chunk) = none := by
        have hwhole := terminated_prefix hnever
        rw [← List.append_assoc, ← hfirst, List.append_assoc] at hwhole
        exact terminated_none_of_append hwhole
      obtain ⟨last, hcall', hends⟩ := scans_of_no_terminator hsilent
      unfold track
      rw [osc7_eq decodeURIComponent hcall']
      refine ⟨?_, ?_⟩
      · have hlong : ¬ (OSC7_PREFIX ++ (behind ++ chunk)).length ≤ OSC7_MAX := by
          simp only [List.length_append] at hfits ⊢
          omega
        dsimp only [Carries]
        rw [if_neg hlong]
        refine (keptOf_suffix hends).trans ⟨first, ?_⟩
        rw [← List.append_assoc, hfirst, List.append_assoc]
      · dsimp only
        rw [List.foldl_nil, Option.none_or, hcwd, List.append_nil]

theorem scans_sequences_begin (hscans : Scans data sequences rest) (hscans' : Scans (data ++ chunk) sequences' rest') :
    sequences <+: sequences' := by
  cases rest with
  | none =>
    obtain ⟨more, rest, hmore⟩ := total (partialIntroducer data ++ chunk)
    obtain ⟨rfl, -⟩ := (hscans.append_closed hmore).unique hscans'
    exact List.prefix_append _ _
  | some tail =>
    obtain ⟨more, rest, hmore⟩ := total (tail ++ chunk)
    obtain ⟨rfl, -⟩ := (hscans.append_open hmore).unique hscans'
    exact List.prefix_append _ _

theorem trackAll_snoc (chunks : List Text) (chunk : Text) :
    trackAll decodeURIComponent (chunks ++ [chunk]) = track decodeURIComponent (trackAll decodeURIComponent chunks) chunk := by
  simp [trackAll, List.foldl_append]

theorem trackAll_tracks (chunks : List Text) {sequences : List Osc7Sequence} {rest : Option Text}
    (hscans : Scans chunks.flatten sequences rest) (hshort : ∀ found ∈ sequences, found.units ≤ OSC7_MAX) :
    Carries (trackAll decodeURIComponent chunks).buf chunks.flatten rest ∧
      (trackAll decodeURIComponent chunks).cwd = sequences.foldl (reported decodeURIComponent) none := by
  induction chunks using List.reverseRecOn generalizing sequences rest with
  | nil =>
    obtain ⟨rfl, rfl⟩ := hscans.unique (.closed rfl)
    exact ⟨rfl, rfl⟩
  | append_singleton chunks chunk ih =>
    rw [List.flatten_append, List.flatten_singleton] at hscans ⊢
    obtain ⟨sequences', rest', hscans'⟩ := total chunks.flatten
    obtain ⟨hcarry, hcwd⟩ := ih hscans' fun found hfound =>
      hshort found ((scans_sequences_begin hscans' hscans).subset hfound)
    rw [trackAll_snoc]
    exact track_step decodeURIComponent hscans' hcarry hcwd chunk hscans hshort

theorem length_trackAll_buf (chunks : List Text) : (trackAll decodeURIComponent chunks).buf.length ≤ OSC7_MAX := by
  induction chunks using List.reverseRecOn with
  | nil => exact Nat.zero_le _
  | append_singleton chunks chunk _ =>
    obtain ⟨more, rest, hcall⟩ := total ((trackAll decodeURIComponent chunks).buf ++ chunk)
    rw [trackAll_snoc, track, osc7_eq decodeURIComponent hcall]
    exact length_keptOf _ _

end

/-- However a stream of short OSC 7 sequences is cut into chunks, the tracker reports the last directory one call on the
whole stream reports; and its carry never exceeds the bound. -/
theorem cwd_independent_of_chunks (decodeURIComponent : Text → Option Text) (chunks : List Text)
    (hshort : ∀ found ∈ sequencesOf chunks.flatten, found.units ≤ OSC7_MAX) :
    (trackAll decodeURIComponent chunks).cwd = (osc7 decodeURIComponent [] chunks.flatten).cwd ∧
      ∀ delivered, delivered <+: chunks → (trackAll decodeURIComponent delivered).buf.length ≤ OSC7_MAX := by
  refine ⟨?_, fun delivered _ => length_trackAll_buf decodeURIComponent delivered⟩
  have hscans : Scans chunks.flatten (sequencesOf chunks.flatten) (scanOsc7 (chunks.flatten.length + 1) chunks.flatten).2 :=
    scans_scanOsc7 (Nat.lt_add_one _)
  rw [(trackAll_tracks decodeURIComponent chunks hscans hshort).2]
  have hwhole : Scans ([] ++ chunks.flatten) (sequencesOf chunks.flatten)
      (scanOsc7 (chunks.flatten.length + 1) chunks.flatten).2 := hscans
  rw [osc7_eq decodeURIComponent hwhole]

/-- `file://h/a` reported in three chunks, cut in the introducer and in the terminator. -/
theorem cwd_independent_of_chunks_split :
    (trackAll (fun _ => none) [[ESC, 0x5d, 0x37], [0x3b, 0x66, 0x69, 0x6c, 0x65, 0x3a, 0x2f, 0x2f, 0x68, 0x2f, 0x61, ESC],
      [BACKSLASH]]).cwd = some [0x2f, 0x61] := by
  rw [(cwd_independent_of_chunks (fun _ => none) _ (by decide)).1]
  decide

end Claxedo.Pty
