import Mathlib.Tactic

/-! Lists read a page at a time. A page carries the cursor of the next one, none on the last; a reader follows
the cursors from none. Where every page is the next window of one list, the pages put together are the list. -/

namespace Claxedo.Lib.Pages

structure Page (C T : Type) where
  items : List T
  nextCursor : Option C

section
variable {C T : Type}

/-- The pages from a cursor on, where `fuel` of them are enough. -/
def follow (page : Option C → Page C T) : ℕ → Option C → Option (List (Page C T))
  | 0, _ => none
  | fuel + 1, cursor =>
    match (page cursor).nextCursor with
    | none => some [page cursor]
    | some next => (follow page fuel (some next)).map (page cursor :: ·)

/-- The page that starts what is left of a list: `size` items, and the last one's cursor where more follow. -/
def window (cursorOf : T → C) (size : ℕ) (rest : List T) : Page C T :=
  { items := rest.take size
    nextCursor := if size < rest.length then (rest.take size).getLast?.map cursorOf else none }

/-- A cursor stands before `rest` of `list`: none before all of it, an item's own right after the item. -/
def StandsBefore (cursorOf : T → C) (list : List T) (cursor : Option C) (rest : List T) : Prop :=
  cursor = none ∧ rest = list ∨ ∃ passed item, cursor = some (cursorOf item) ∧ list = passed ++ item :: rest

variable {cursorOf : T → C} {page : Option C → Page C T} {size : ℕ} {list rest : List T} {cursor : Option C}

theorem StandsBefore.suffix (h : StandsBefore cursorOf list cursor rest) : ∃ passed, list = passed ++ rest := by
  rcases h with ⟨-, rfl⟩ | ⟨passed, item, -, rfl⟩
  · exact ⟨[], rfl⟩
  · exact ⟨passed ++ [item], by simp⟩

theorem StandsBefore.next (h : StandsBefore cursorOf list cursor rest) (hsize : 0 < size) (hmore : size < rest.length) :
    ∃ next, (window cursorOf size rest).nextCursor = some next ∧
      StandsBefore cursorOf list (some next) (rest.drop size) := by
  obtain ⟨passed, hlist⟩ := h.suffix
  have hne : rest.take size ≠ [] := by
    intro hnil
    have hlen := congrArg List.length hnil
    rw [List.length_take, List.length_nil] at hlen
    omega
  refine ⟨cursorOf ((rest.take size).getLast hne), ?_, .inr ⟨passed ++ (rest.take size).dropLast, _, rfl, ?_⟩⟩
  · simp [window, hmore, List.getLast?_eq_getLast_of_ne_nil hne]
  · have hlast := List.dropLast_append_getLast hne
    calc list = passed ++ (rest.take size ++ rest.drop size) := by rw [List.take_append_drop, hlist]
      _ = passed ++ (((rest.take size).dropLast ++ [(rest.take size).getLast hne]) ++ rest.drop size) := by rw [hlast]
      _ = _ := by simp

/-- Pages that are windows of one list come to an end, and make up the list. -/
theorem follow_windows (hsize : 0 < size)
    (hpage : ∀ cursor rest, StandsBefore cursorOf list cursor rest → page cursor = window cursorOf size rest)
    (fuel : ℕ) (hfuel : rest.length < fuel) (h : StandsBefore cursorOf list cursor rest) :
    ∃ pages, follow page fuel cursor = some pages ∧ pages.flatMap (·.items) = rest := by
  induction fuel generalizing cursor rest with
  | zero => omega
  | succ fuel ih =>
    have hwindow := hpage cursor rest h
    by_cases hmore : size < rest.length
    · obtain ⟨next, hnext, hstands⟩ := h.next hsize hmore
      have hshorter : (rest.drop size).length < fuel := by
        rw [List.length_drop]
        omega
      obtain ⟨pages, hpages, hitems⟩ := ih hshorter hstands
      refine ⟨page cursor :: pages, ?_, ?_⟩
      · simp only [follow, hwindow, hnext, hpages, Option.map_some]
      · rw [List.flatMap_cons, hitems, hwindow, window, List.take_append_drop]
    · refine ⟨[page cursor], ?_, ?_⟩
      · have hnone : (window cursorOf size rest).nextCursor = none := if_neg hmore
        simp only [follow, hwindow, hnone]
      · rw [List.flatMap_singleton, hwindow]
        exact List.take_of_length_le (by omega)

end

end Claxedo.Lib.Pages
