import Mathlib.Tactic
import Mathlib.Data.Int.Interval
import Mathlib.Algebra.BigOperators.Group.List.Basic

/-! Half-open intervals of moments, and what lists of them add up to inside a range. Lengths add
up to the number of distinct moments exactly because no moment lies in two of the intervals. -/

namespace Claxedo.Lib

structure Interval where
  start : ℤ
  stop : ℤ

namespace Interval

def Holds (i : Interval) (t : ℤ) : Prop := i.start ≤ t ∧ t < i.stop

instance (i : Interval) (t : ℤ) : Decidable (i.Holds t) := inferInstanceAs (Decidable (_ ∧ _))

/-- The length of the part that lies in `[since, till)`. -/
def clipped (since till : ℤ) (i : Interval) : ℤ := max 0 (min i.stop till - max i.start since)

def Apart (i j : Interval) : Prop := ∀ t, i.Holds t → ¬ j.Holds t

theorem Apart.of_le {i j : Interval} (h : i.stop ≤ j.start) : Apart i j := by
  rintro t ⟨-, hi⟩ ⟨hj, -⟩
  omega

theorem Apart.symm {i j : Interval} (h : Apart i j) : Apart j i := fun t hj hi => h t hi hj

theorem card_clip (since till : ℤ) (i : Interval) :
    (((Finset.Ico since till).filter i.Holds).card : ℤ) = i.clipped since till := by
  have hset : (Finset.Ico since till).filter i.Holds = Finset.Ico (max i.start since) (min i.stop till) := by
    ext t
    simp only [Finset.mem_filter, Finset.mem_Ico, Holds]
    omega
  rw [hset, Int.card_Ico, clipped]
  omega

/-- The moments that some interval of the list holds. -/
def Covered (l : List Interval) (t : ℤ) : Prop := ∃ i ∈ l, i.Holds t

instance (l : List Interval) (t : ℤ) : Decidable (Covered l t) := inferInstanceAs (Decidable (∃ i ∈ l, i.Holds t))

/-- Intervals that share no moment add up to the moments they cover. -/
theorem sum_clipped_eq_card (since till : ℤ) {l : List Interval} (h : l.Pairwise Apart) :
    (l.map (clipped since till)).sum = ((Finset.Ico since till).filter (Covered l)).card := by
  induction l with
  | nil =>
    have hnone : (Finset.Ico since till).filter (Covered []) = ∅ :=
      Finset.filter_eq_empty_iff.mpr fun t _ => by simp [Covered]
    rw [hnone]
    simp
  | cons i l ih =>
    obtain ⟨hi, hl⟩ := List.pairwise_cons.mp h
    have hsplit : (Finset.Ico since till).filter (Covered (i :: l)) =
        (Finset.Ico since till).filter i.Holds ∪ (Finset.Ico since till).filter (Covered l) := by
      rw [← Finset.filter_or]
      refine Finset.filter_congr fun t _ => ?_
      simp [Covered]
    have hdisjoint : Disjoint ((Finset.Ico since till).filter i.Holds)
        ((Finset.Ico since till).filter (Covered l)) := by
      refine Finset.disjoint_filter.mpr fun t _ hit => ?_
      rintro ⟨j, hj, hjt⟩
      exact hi j hj t hit hjt
    rw [hsplit, Finset.card_union_of_disjoint hdisjoint, List.map_cons, List.sum_cons, ih hl, Nat.cast_add,
      card_clip]

/-- So they never add up to more than the range. -/
theorem sum_clipped_le {since till : ℤ} (hrange : since ≤ till) {l : List Interval} (h : l.Pairwise Apart) :
    (l.map (clipped since till)).sum ≤ till - since := by
  rw [sum_clipped_eq_card since till h]
  have hle := Finset.card_filter_le (Finset.Ico since till) (Covered l)
  rw [Int.card_Ico] at hle
  omega

end Interval

/-- Among distinct keys, one takes the whole value. -/
theorem sum_indicator {κ : Type*} [DecidableEq κ] (k : κ) (n : ℤ) {keys : List κ} (hkeys : keys.Nodup) :
    (keys.map fun k' => if k = k' then n else 0).sum = if k ∈ keys then n else 0 := by
  induction keys with
  | nil => rfl
  | cons k' keys ih =>
    obtain ⟨hnew, htail⟩ := List.nodup_cons.mp hkeys
    rw [List.map_cons, List.sum_cons, ih htail]
    by_cases hk : k = k'
    · subst hk
      simp [hnew]
    · simp [hk]

/-- Grouping a list by a key, summing each group and adding the groups up loses nothing. -/
theorem sum_groups {α κ : Type*} [DecidableEq κ] (key : α → κ) (f : α → ℤ) {keys : List κ} (hkeys : keys.Nodup)
    {l : List α} (hall : ∀ a ∈ l, key a ∈ keys) :
    (keys.map fun k => ((l.filter fun a => key a = k).map f).sum).sum = (l.map f).sum := by
  induction l with
  | nil => simp
  | cons a l ih =>
    have hone : (keys.map fun k => if key a = k then f a else 0).sum = f a := by
      rw [sum_indicator _ _ hkeys, if_pos (hall a (by simp))]
    have hgroup : ∀ k, (((a :: l).filter fun b => key b = k).map f).sum =
        (if key a = k then f a else 0) + ((l.filter fun b => key b = k).map f).sum := by
      intro k
      by_cases hk : key a = k <;> simp [hk]
    simp only [hgroup, List.sum_map_add]
    rw [hone, ih fun b hb => hall b (List.mem_cons_of_mem _ hb), List.map_cons, List.sum_cons]

end Claxedo.Lib
