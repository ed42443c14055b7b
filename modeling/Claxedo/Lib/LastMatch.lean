import Mathlib.Tactic
import Mathlib.Data.List.DropRight

/-! What follows the last place a word stands in a text, when the text grows at its end and only its last few letters
are still seen. -/

namespace Claxedo.Lib

variable {α : Type*} {needle text seen more : List α}

theorem rtake_suffix (n : ℕ) (text : List α) : text.rtake n <:+ text := by
  rw [List.rtake]
  exact List.drop_suffix _ _

theorem rtake_eq_self {n : ℕ} (h : text.length ≤ n) : text.rtake n = text := by
  rw [List.rtake, Nat.sub_eq_zero_of_le h, List.drop_zero]

theorem rtake_suffix_rtake {n : ℕ} (h : seen <:+ text) : seen.rtake n <:+ text.rtake n := by
  refine List.suffix_of_suffix_length_le ((rtake_suffix n seen).trans h) (rtake_suffix n text) ?_
  have hle := h.length_le
  rw [List.rtake, List.rtake, List.length_drop, List.length_drop]
  omega

theorem infix_append_of_suffix (hsuffix : seen <:+ text) (h : needle <:+: seen ++ more) : needle <:+: text ++ more := by
  obtain ⟨before, rfl⟩ := hsuffix
  rw [List.append_assoc]
  exact h.trans (List.suffix_append _ _).isInfix

variable [DecidableEq α]

/-- What follows the last place `needle` stands at. -/
def afterLast (needle : List α) : List α → Option (List α)
  | [] => if needle = [] then some [] else none
  | a :: text =>
    match afterLast needle text with
    | some rest => some rest
    | none => if needle <+: a :: text then some ((a :: text).drop needle.length) else none

theorem afterLast_cons_of_some {a : α} {rest : List α} (h : afterLast needle text = some rest) :
    afterLast needle (a :: text) = some rest := by
  simp only [afterLast, h]

theorem afterLast_cons_of_none {a : α} (h : afterLast needle text = none) :
    afterLast needle (a :: text) = if needle <+: a :: text then some ((a :: text).drop needle.length) else none := by
  simp only [afterLast, h]

theorem afterLast_eq_none : afterLast needle text = none ↔ ¬ needle <:+: text := by
  induction text with
  | nil =>
    rw [List.infix_nil, afterLast]
    split <;> simp_all
  | cons a text ih =>
    rw [List.infix_cons_iff]
    rcases h : afterLast needle text with _ | rest
    · rw [afterLast_cons_of_none h]
      have hnot := ih.mp h
      split <;> simp_all
    · rw [afterLast_cons_of_some h]
      have hin : needle <:+: text := by
        by_contra hnot
        rw [ih.mpr hnot] at h
        cases h
      simp [hin]

theorem exists_afterLast (h : needle <:+: text) : ∃ rest, afterLast needle text = some rest := by
  rcases hlast : afterLast needle text with _ | rest
  · exact absurd h (afterLast_eq_none.mp hlast)
  · exact ⟨rest, rfl⟩

/-- Whoever sees the last match sees what follows it. -/
theorem afterLast_of_suffix (hsuffix : seen <:+ text) (h : needle <:+: seen) : afterLast needle text = afterLast needle seen := by
  obtain ⟨before, rfl⟩ := hsuffix
  obtain ⟨rest, hrest⟩ := exists_afterLast h
  rw [hrest]
  induction before with
  | nil => exact hrest
  | cons a before ih => exact afterLast_cons_of_some ih

/-- A text that completes no match as it grows keeps its last match. -/
theorem afterLast_append (h : ¬ needle <:+: text.rtake (needle.length - 1) ++ more) :
    afterLast needle (text ++ more) = (afterLast needle text).map (· ++ more) := by
  induction text with
  | nil =>
    rw [List.rtake_nil, List.nil_append] at h
    rw [List.nil_append, afterLast_eq_none.mpr h]
    have hne : needle ≠ [] := by
      rintro rfl
      exact h List.nil_infix
    rw [afterLast, if_neg hne, Option.map_none]
  | cons a text ih =>
    have hlast := ih fun hin => h (infix_append_of_suffix (rtake_suffix_rtake (List.suffix_cons a text)) hin)
    rw [List.cons_append]
    rcases htext : afterLast needle text with _ | rest
    · rw [htext, Option.map_none] at hlast
      rw [afterLast_cons_of_none hlast, afterLast_cons_of_none htext]
      have hshort : needle <+: a :: (text ++ more) → needle.length ≤ (a :: text).length := by
        intro hprefix
        by_contra hlong
        rw [rtake_eq_self (by omega), List.cons_append] at h
        exact h hprefix.isInfix
      have hiff : needle <+: a :: (text ++ more) ↔ needle <+: a :: text := by
        refine ⟨fun hprefix => ?_, fun hprefix => hprefix.trans (List.prefix_append (a :: text) more)⟩
        exact List.prefix_of_prefix_length_le hprefix (List.prefix_append (a :: text) more) (hshort hprefix)
      by_cases hprefix : needle <+: a :: text
      · rw [if_pos (hiff.mpr hprefix), if_pos hprefix, Option.map_some]
        rw [← List.cons_append, List.drop_append_of_le_length hprefix.length_le]
      · rw [if_neg (hiff.not.mpr hprefix), if_neg hprefix, Option.map_none]
    · rw [htext, Option.map_some] at hlast
      rw [afterLast_cons_of_some hlast, afterLast_cons_of_some htext, Option.map_some]

end Claxedo.Lib
