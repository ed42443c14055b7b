import Mathlib.Data.List.Basic
import Mathlib.Tactic
import Mathlib.Data.List.Nodup

/-! Lists read by index, as stores of records that are made at the end and changed where they stand. -/

namespace Claxedo.Lib.Indexed

variable {α : Type*} {l : List α} {f : α → α} {i j : ℕ} {a : α}

theorem of_modify (h : (l.modify i f)[j]? = some a) : ∃ b, l[j]? = some b ∧ a = if i = j then f b else b := by
  rw [List.getElem?_modify] at h
  rcases hb : l[j]? with _ | b
  · rw [hb] at h
    cases h
  · rw [hb] at h
    exact ⟨b, rfl, (Option.some.inj h).symm⟩

theorem modify_at (h : l[i]? = some a) : (l.modify i f)[i]? = some (f a) := by
  rw [List.getElem?_modify, h]
  simp

theorem modify_other (hne : i ≠ j) : (l.modify i f)[j]? = l[j]? := by
  rw [List.getElem?_modify]
  simp [hne]

/-- What a change leaves of a record, told for each. -/
theorem modify_exists (h : l[j]? = some a) : ∃ b, (l.modify i f)[j]? = some b ∧ b = if i = j then f a else a := by
  rw [List.getElem?_modify, h]
  exact ⟨_, rfl, rfl⟩

theorem of_snoc {b : α} (h : (l ++ [b])[j]? = some a) : l[j]? = some a ∨ j = l.length ∧ a = b := by
  rcases lt_or_ge j l.length with hlt | hge
  · rw [List.getElem?_append_left hlt] at h
    exact .inl h
  · rw [List.getElem?_append_right hge] at h
    have hj : j - l.length = 0 := by
      have := (List.getElem?_eq_some_iff.mp h).1
      simp only [List.length_singleton] at this
      omega
    rw [hj] at h
    exact .inr ⟨by omega, (Option.some.inj h).symm⟩

theorem snoc_at (b : α) (h : l[j]? = some a) : (l ++ [b])[j]? = some a := by
  rw [List.getElem?_append_left (List.getElem?_eq_some_iff.mp h).1, h]

theorem snoc_last (l : List α) (b : α) : (l ++ [b])[l.length]? = some b := by simp

theorem ne_length (h : l[j]? = some a) : j ≠ l.length := by
  intro hj
  have := (List.getElem?_eq_some_iff.mp h).1
  omega

end Claxedo.Lib.Indexed

/-! Texts put together at a separator: where the whole tells the parts, and where it does not. -/

namespace Claxedo.Lib

/-- Two ways to cut one text at a separator: the same, or one cuts later. -/
theorem append_cons_eq {α : Type*} {c : α} {a m b n : List α} :
    a ++ c :: m = b ++ c :: n ↔ (a = b ∧ m = n) ∨ (∃ x, a = b ++ c :: x ∧ n = x ++ c :: m) ∨
      ∃ x, b = a ++ c :: x ∧ m = x ++ c :: n := by
  constructor
  · intro h
    rcases List.append_eq_append_iff.mp h with ⟨x, rfl, hx⟩ | ⟨x, rfl, hx⟩ <;> rcases x with _ | ⟨d, x⟩
    · exact .inl ⟨(List.append_nil a).symm, (List.cons.inj hx).2⟩
    · obtain ⟨rfl, hrest⟩ := List.cons.inj hx
      exact .inr (.inr ⟨x, rfl, hrest⟩)
    · exact .inl ⟨List.append_nil b, (List.cons.inj hx).2.symm⟩
    · obtain ⟨rfl, hrest⟩ := List.cons.inj hx
      exact .inr (.inl ⟨x, rfl, hrest⟩)
  · rintro (⟨rfl, rfl⟩ | ⟨x, rfl, rfl⟩ | ⟨x, rfl, rfl⟩)
    · rfl
    · rw [List.append_assoc, List.cons_append]
    · rw [List.append_assoc, List.cons_append]

/-- Neither text goes on from the other at the separator. -/
def Cut {α : Type*} (c : α) (a b : List α) : Prop := ¬ a ++ [c] <+: b ∧ ¬ b ++ [c] <+: a

instance {α : Type*} [DecidableEq α] (c : α) (a b : List α) : Decidable (Cut c a b) := by
  unfold Cut
  infer_instance

theorem Cut.inj {α : Type*} {c : α} {a m b n : List α} (h : Cut c a b) (heq : a ++ c :: m = b ++ c :: n) : a = b ∧ m = n := by
  rcases append_cons_eq.mp heq with hsame | ⟨x, rfl, -⟩ | ⟨x, rfl, -⟩
  · exact hsame
  · exact absurd ⟨x, by simp⟩ h.2
  · exact absurd ⟨x, by simp⟩ h.1

/-! Lists matched entry by entry, and the list a fallible read makes of another. -/

variable {α β γ : Type} {R : α → β → Prop} {l : List α} {l' : List β}

theorem forall₂_mem_left (h : List.Forall₂ R l l') {a : α} (ha : a ∈ l) : ∃ b ∈ l', R a b := by
  induction h with
  | nil => cases ha
  | cons hab _ ih =>
    rcases List.mem_cons.mp ha with rfl | ha
    · exact ⟨_, List.mem_cons_self, hab⟩
    · obtain ⟨b, hb, hr⟩ := ih ha
      exact ⟨b, List.mem_cons_of_mem _ hb, hr⟩

theorem forall₂_mem_right (h : List.Forall₂ R l l') {b : β} (hb : b ∈ l') : ∃ a ∈ l, R a b :=
  forall₂_mem_left h.flip hb

theorem forall₂_of_mapM {f : α → Except γ β} (h : l.mapM f = .ok l') : List.Forall₂ (fun a b => f a = .ok b) l l' := by
  induction l generalizing l' with
  | nil =>
    obtain rfl := Except.ok.inj h
    exact .nil
  | cons a l ih =>
    rw [List.mapM_cons] at h
    rcases ha : f a with failure | b
    · rw [ha] at h; cases h
    rcases hl : l.mapM f with failure | found
    · rw [ha, hl] at h; cases h
    rw [ha, hl] at h
    obtain rfl := Except.ok.inj h
    exact .cons ha (ih hl)

end Claxedo.Lib

/-! Following a cursor: a read answers something and the cursor of the next read, or refuses. -/

namespace Claxedo.Lib

variable {γ α ε : Type*} (read : Option γ → Except ε (α × Option γ))

/-- What is read from a cursor on, in order, in at most `n` reads; nothing if those do not reach the end. -/
def walk : ℕ → Option γ → Option (Except ε (List α))
  | 0, _ => none
  | n + 1, before =>
    match read before with
    | .error e => some (.error e)
    | .ok (a, none) => some (.ok [a])
    | .ok (a, some next) => (walk n (some next)).map fun rest => rest.map (a :: ·)

variable {read}

variable {before : Option γ}

theorem walk_error {e : ε} (h : read before = .error e) (n : ℕ) : walk read (n + 1) before = some (.error e) := by
  rw [walk, h]

theorem walk_last {a : α} (h : read before = .ok (a, none)) (n : ℕ) :
    walk read (n + 1) before = some (.ok [a]) := by
  rw [walk, h]

theorem walk_next {a : α} {next : γ} (h : read before = .ok (a, some next)) (n : ℕ) :
    walk read (n + 1) before = (walk read n (some next)).map fun rest => rest.map (a :: ·) := by
  rw [walk, h]

theorem walk_le {n m : ℕ} (hle : n ≤ m) {r : Except ε (List α)} (h : walk read n before = some r) :
    walk read m before = some r := by
  induction n generalizing m before r with
  | zero => cases h
  | succ n ih =>
    obtain ⟨m, rfl⟩ : ∃ m', m = m' + 1 := ⟨m - 1, by omega⟩
    rcases hread : read before with e | ⟨a, next⟩
    · rw [walk_error hread] at h ⊢
      exact h
    · rcases next with _ | next
      · rw [walk_last hread] at h ⊢
        exact h
      · rw [walk_next hread] at h ⊢
        obtain ⟨rest, hrest, rfl⟩ := Option.map_eq_some_iff.mp h
        rw [ih (Nat.le_of_succ_le_succ hle) hrest]
        rfl

theorem walk_ends (μ : Option γ → ℕ) (hback : ∀ before a next, read before = .ok (a, some next) → μ (some next) < μ before)
    (before : Option γ) : ∃ r, walk read (μ before + 1) before = some r := by
  induction hn : μ before using Nat.strong_induction_on generalizing before with
  | _ n ih =>
    rcases hread : read before with e | ⟨a, next⟩
    · exact ⟨_, walk_error hread n⟩
    · rcases next with _ | next
      · exact ⟨_, walk_last hread n⟩
      · have hlt := hback before a next hread
        obtain ⟨rest, hrest⟩ := ih _ (hn ▸ hlt) (some next) rfl
        rw [walk_next hread, walk_le (by omega) hrest]
        exact ⟨_, rfl⟩

end Claxedo.Lib

/-! A state that many tenants share. Each has a slice of it; an operation local to one tenant changes
that slice as it would change the slice alone, and no other. -/

namespace Claxedo.Lib

/-- How a state is sliced, and what makes one well kept. -/
structure Slices (σ κ : Type*) where
  slice : σ → κ → σ
  Sound : σ → Prop

namespace Slices

variable {σ κ α : Type*} (S : Slices σ κ)

/-- `f` reads and writes the slice of `t` alone. -/
structure Local (t : κ) (f : σ → σ) : Prop where
  sound : ∀ s, S.Sound s → S.Sound (f s)
  own : ∀ s, S.Sound s → S.slice (f s) t = f (S.slice s t)
  other : ∀ s, S.Sound s → ∀ u, u ≠ t → S.slice (f s) u = S.slice s u

namespace Local

variable {S} {t : κ}

protected theorem id (t : κ) : S.Local t id := ⟨fun _ h => h, fun _ _ => rfl, fun _ _ _ _ => rfl⟩

theorem comp {f g : σ → σ} (hg : S.Local t g) (hf : S.Local t f) : S.Local t fun s => g (f s) :=
  ⟨fun s h => hg.sound _ (hf.sound s h), fun s h => by rw [hg.own _ (hf.sound s h), hf.own s h],
    fun s h u hu => by rw [hg.other _ (hf.sound s h) u hu, hf.other s h u hu]⟩

/-- An operation may use what it reads of its own slice. -/
theorem reading {g : σ → σ} (read : σ → α) (f : α → σ → σ) (hg : ∀ s, g s = f (read s) s)
    (hread : ∀ s, S.Sound s → read (S.slice s t) = read s) (hf : ∀ s, S.Sound s → S.Local t (f (read s))) : S.Local t g := by
  refine ⟨fun s h => ?_, fun s h => ?_, fun s h => ?_⟩
  · rw [hg]
    exact (hf s h).sound s h
  · rw [hg, hg, (hf s h).own s h, hread s h]
  · rw [hg]
    exact (hf s h).other s h

theorem foldl {f : σ → α → σ} {as : List α} (hf : ∀ a ∈ as, S.Local t (f · a)) : S.Local t fun s => as.foldl f s := by
  induction as with
  | nil => exact Local.id t
  | cons a as ih =>
    obtain ⟨ha, has⟩ := List.forall_mem_cons.mp hf
    exact (ih has).comp ha

end Local

variable {S} [DecidableEq κ]

/-- One operation for each of several tenants: a slice is touched by its own alone. -/
theorem slice_foldl {f : σ → κ → σ} {ts : List κ} (hnodup : ts.Nodup) (hf : ∀ t ∈ ts, S.Local t (f · t)) {s : σ}
    (h : S.Sound s) (u : κ) :
    S.Sound (ts.foldl f s) ∧ S.slice (ts.foldl f s) u = if u ∈ ts then f (S.slice s u) u else S.slice s u := by
  induction ts generalizing s with
  | nil => exact ⟨h, by simp⟩
  | cons t ts ih =>
    obtain ⟨ht, hts⟩ := List.forall_mem_cons.mp hf
    rw [List.nodup_cons] at hnodup
    obtain ⟨hsound, hslice⟩ := ih hnodup.2 hts (ht.sound s h)
    refine ⟨hsound, ?_⟩
    rw [List.foldl_cons, hslice]
    by_cases hu : u = t
    · subst hu
      simp [hnodup.1, ht.own s h]
    · simp [hu, ht.other s h u hu]

end Slices

end Claxedo.Lib
