import Mathlib.Tactic
import Mathlib.Order.WithBot

/-! Keeping the newest of what comes by a key: what comes replaces what is held where `rel` holds of their keys, at or after, or
strictly after. -/

namespace Claxedo.Lib

variable {α κ : Type*} {key : α → κ} {rel : κ → κ → Prop} [DecidableRel rel]

section
variable (key rel)

def pick (held x : α) : α := if rel (key held) (key x) then x else held

/-- What comes may be nothing. -/
def pickSome (held : α) : Option α → α
  | none => held
  | some x => pick key rel held x

def newest (held : α) (xs : List α) : α := xs.foldl (pick key rel) held

end

theorem pick_of (key : α → κ) (rel : κ → κ → Prop) [DecidableRel rel] {held x : α}
    (h : rel (key held) (key x)) : pick key rel held x = x := if_pos h

theorem pick_of_not (key : α → κ) (rel : κ → κ → Prop) [DecidableRel rel] {held x : α}
    (h : ¬ rel (key held) (key x)) : pick key rel held x = held := if_neg h

theorem newest_cons (held x : α) (xs : List α) : newest key rel held (x :: xs) = newest key rel (pick key rel held x) xs := rfl

/-- A map that carries one way of replacing to another carries what is kept. -/
theorem foldl_newest {β ρ : Type*} {f : β → ρ → β} {g : β → α} {item : ρ → α}
    (h : ∀ b r, g (f b r) = pick key rel (g b) (item r)) (b : β) (rs : List ρ) :
    g (rs.foldl f b) = newest key rel (g b) (rs.map item) := by
  induction rs generalizing b with
  | nil => rfl
  | cons r rs ih =>
    rw [List.foldl_cons, ih, h]
    rfl

/-- The same where not everything that comes has something to replace with. -/
theorem foldl_newest_filterMap {β ρ : Type*} {f : β → ρ → β} {g : β → α} {item : ρ → Option α}
    (h : ∀ b r, g (f b r) = pickSome key rel (g b) (item r)) (b : β) (rs : List ρ) :
    g (rs.foldl f b) = newest key rel (g b) (rs.filterMap item) := by
  induction rs generalizing b with
  | nil => rfl
  | cons r rs ih =>
    rw [List.foldl_cons, ih, h, List.filterMap_cons]
    cases item r <;> rfl

section
variable [LinearOrder κ]

/-- At or after, or strictly after. -/
structure Follows (rel : κ → κ → Prop) : Prop where
  le : ∀ a b, rel a b → a ≤ b
  ge : ∀ a b, ¬ rel a b → b ≤ a
  trans : ∀ a b c, rel a b → rel b c → rel a c

theorem follows_le : Follows fun a b : κ => a ≤ b := ⟨fun _ _ h => h, fun _ _ h => le_of_not_ge h, fun _ _ _ => le_trans⟩

theorem follows_lt : Follows fun a b : κ => a < b := ⟨fun _ _ h => h.le, fun _ _ h => not_lt.mp h, fun _ _ _ => lt_trans⟩

theorem le_pick (key : α → κ) (hrel : Follows rel) (held x : α) : key held ≤ key (pick key rel held x) ∧
    key x ≤ key (pick key rel held x) := by
  unfold pick
  split_ifs with h
  · exact ⟨hrel.le _ _ h, le_rfl⟩
  · exact ⟨le_rfl, hrel.ge _ _ h⟩

theorem le_newest (hrel : Follows rel) (held : α) (xs : List α) :
    key held ≤ key (newest key rel held xs) ∧ ∀ x ∈ xs, key x ≤ key (newest key rel held xs) := by
  induction xs generalizing held with
  | nil => exact ⟨le_rfl, fun x hx => by cases hx⟩
  | cons y ys ih =>
    rw [newest_cons]
    obtain ⟨hheld, hys⟩ := ih (pick key rel held y)
    obtain ⟨hp, hy⟩ := le_pick key hrel held y
    refine ⟨hp.trans hheld, fun x hx => ?_⟩
    rcases List.mem_cons.mp hx with rfl | hx
    · exact hy.trans hheld
    · exact hys x hx

/-- The newest is what was held, where nothing replaces it, or one that came and does. -/
theorem newest_cases (key : α → κ) (hrel : Follows rel) (held : α) (xs : List α) :
    newest key rel held xs = held ∧ (∀ x ∈ xs, ¬ rel (key held) (key x)) ∨
      newest key rel held xs ∈ xs ∧ rel (key held) (key (newest key rel held xs)) := by
  induction xs generalizing held with
  | nil => exact .inl ⟨rfl, fun x hx => by cases hx⟩
  | cons y ys ih =>
    rw [newest_cons]
    unfold pick
    split_ifs with h
    · rcases ih y with ⟨heq, _⟩ | ⟨hmem, hr⟩
      · rw [heq]
        exact .inr ⟨List.mem_cons_self, h⟩
      · exact .inr ⟨List.mem_cons_of_mem _ hmem, hrel.trans _ _ _ h hr⟩
    · rcases ih held with ⟨heq, hnone⟩ | ⟨hmem, hr⟩
      · exact .inl ⟨heq, List.forall_mem_cons.mpr ⟨h, hnone⟩⟩
      · exact .inr ⟨List.mem_cons_of_mem _ hmem, hr⟩

variable {held : α} {xs : List α}

/-- What comes with the greatest key, and no other with that key, is kept. -/
theorem newest_eq (hrel : Follows rel) {x : α} (hx : x ∈ xs) (hrel' : rel (key held) (key x)) (hmax : ∀ y ∈ xs, key y ≤ key x)
    (hagree : ∀ y ∈ xs, key y = key x → y = x) : newest key rel held xs = x := by
  rcases newest_cases key hrel held xs with ⟨_, hnone⟩ | ⟨hmem, _⟩
  · exact absurd hrel' (hnone x hx)
  · exact hagree _ hmem (le_antisymm (hmax _ hmem) ((le_newest hrel held xs).2 x hx))

/-- Where things of one key agree, neither the order they come in nor how often they come matters. -/
theorem newest_congr (hrel : Follows rel) {ys : List α} (hmem : ∀ x, x ∈ xs ↔ x ∈ ys)
    (hagree : ∀ x ∈ xs, ∀ y ∈ xs, key x = key y → x = y) : newest key rel held xs = newest key rel held ys := by
  rcases newest_cases key hrel held xs with ⟨heq, hnone⟩ | ⟨hx, hr⟩
  · rcases newest_cases key hrel held ys with ⟨heq', _⟩ | ⟨hy, hr'⟩
    · rw [heq, heq']
    · exact absurd hr' (hnone _ ((hmem _).mpr hy))
  · refine (newest_eq hrel ((hmem _).mp hx) hr (fun y hy => ?_) fun y hy hkey => ?_).symm
    · exact (le_newest hrel held xs).2 y ((hmem y).mpr hy)
    · exact hagree y ((hmem y).mpr hy) _ hx hkey

theorem newest_mem (key : α → κ) (hrel : Follows rel) (hheld : held ∈ xs) : newest key rel held xs ∈ xs := by
  rcases newest_cases key hrel held xs with ⟨heq, _⟩ | ⟨hmem, _⟩
  · rw [heq]
    exact hheld
  · exact hmem

/-- What was held does not matter where it comes as well. -/
theorem newest_of_mem (hrel : Follows rel) {held' : α} (hheld : held ∈ xs) (hheld' : held' ∈ xs)
    (hagree : ∀ x ∈ xs, ∀ y ∈ xs, key x = key y → x = y) : newest key rel held xs = newest key rel held' xs := by
  have hmem := newest_mem key hrel hheld
  have hmem' := newest_mem key hrel hheld'
  exact hagree _ hmem _ hmem' (le_antisymm ((le_newest hrel held' xs).2 _ hmem) ((le_newest hrel held xs).2 _ hmem'))

end

end Claxedo.Lib
