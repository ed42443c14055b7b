import Mathlib.Tactic

/-! Code over a state that may throw, with what it has done by then staying done, and what such code ensures: one condition
for where it returns and one for where it throws. -/

namespace Claxedo.Lib

variable {ε σ α β : Type}

def Attempt (ε σ α : Type) : Type := σ → Except ε α × σ

namespace Attempt

def bind (m : Attempt ε σ α) (f : α → Attempt ε σ β) : Attempt ε σ β := fun s =>
  match m s with
  | (.ok a, s) => f a s
  | (.error e, s) => (.error e, s)

instance : Monad (Attempt ε σ) where
  pure a := fun s => (.ok a, s)
  bind := bind

def state : Attempt ε σ σ := fun s => (.ok s, s)

def change (f : σ → σ) : Attempt ε σ Unit := fun s => (.ok (), f s)

def throw (e : ε) : Attempt ε σ α := fun s => (.error e, s)

def orElse (m : Attempt ε σ α) (handler : ε → Attempt ε σ α) : Attempt ε σ α := fun s =>
  match m s with
  | (.ok a, s) => (.ok a, s)
  | (.error e, s) => handler e s

/-- From a state that meets `P` the code returns a value and a state that meet `Q`, or throws in one that meets `E`. -/
def Ensures (P : σ → Prop) (m : Attempt ε σ α) (Q : α → σ → Prop) (E : σ → Prop) : Prop :=
  ∀ s, P s → match m s with
    | (.ok a, s) => Q a s
    | (.error _, s) => E s

variable {P P' E E' : σ → Prop} {Q Q' : α → σ → Prop} {R : β → σ → Prop} {m : Attempt ε σ α} {f : α → Attempt ε σ β}

theorem Ensures.mono (h : Ensures P m Q E) (hP : ∀ s, P' s → P s) (hQ : ∀ a s, Q a s → Q' a s) (hE : ∀ s, E s → E' s) :
    Ensures P' m Q' E' := by
  intro s hs
  have hm := h s (hP s hs)
  rcases hrun : m s with ⟨e | a, s'⟩
  · rw [hrun] at hm; exact hE s' hm
  · rw [hrun] at hm; exact hQ a s' hm

theorem Ensures.of_pre (h : Ensures P m Q E) (hP : ∀ s, P' s → P s) : Ensures P' m Q E := h.mono hP (fun _ _ => id) fun _ => id

theorem ensures_pure {a : α} (h : ∀ s, P s → Q a s) : Ensures P (pure a : Attempt ε σ α) Q E := h

theorem ensures_throw {e : ε} (h : ∀ s, P s → E s) : Ensures P (throw e : Attempt ε σ α) Q E := h

theorem ensures_state {Q : σ → σ → Prop} (h : ∀ s, P s → Q s s) : Ensures P (state : Attempt ε σ σ) Q E := h

theorem ensures_change {Q : Unit → σ → Prop} {g : σ → σ} (h : ∀ s, P s → Q () (g s)) : Ensures P (change g : Attempt ε σ Unit) Q E := h

theorem Ensures.bind (hm : Ensures P m Q E) (hf : ∀ a, Ensures (Q a) (f a) R E) : Ensures P (m >>= f) R E := by
  intro s hs
  have h := hm s hs
  change match Attempt.bind m f s with | (.ok b, s) => R b s | (.error _, s) => E s
  unfold Attempt.bind
  rcases hrun : m s with ⟨e | a, s'⟩
  · rw [hrun] at h; exact h
  · rw [hrun] at h; exact hf a s' h

theorem Ensures.orElse {handler : ε → Attempt ε σ α} (hm : Ensures P m Q E') (hcaught : ∀ e, Ensures E' (handler e) Q E) :
    Ensures P (m.orElse handler) Q E := by
  intro s hs
  have h := hm s hs
  unfold Attempt.orElse
  rcases hrun : m s with ⟨e | a, s'⟩
  · rw [hrun] at h; exact hcaught e s' h
  · rw [hrun] at h; exact h

/-- What is known of the state before the code may be used beside the state. -/
theorem ensures_of_pure {p : Prop} (h : p → Ensures P m Q E) : Ensures (fun s => p ∧ P s) m Q E :=
  fun s hs => h hs.1 s hs.2

theorem ensures_ite {c : Prop} [Decidable c] {m' : Attempt ε σ α} (h : c → Ensures P m Q E) (h' : ¬ c → Ensures P m' Q E) :
    Ensures P (if c then m else m') Q E := by
  split_ifs with hc
  · exact h hc
  · exact h' hc

/-- The state the code leaves, returned or thrown. -/
def after (m : Attempt ε σ α) (s : σ) : σ := (m s).2

theorem Ensures.after (h : Ensures P m (fun _ => E) E) {s : σ} (hs : P s) : E (m.after s) := by
  have hm := h s hs
  unfold Attempt.after
  rcases hrun : m s with ⟨e | a, s'⟩
  · rw [hrun] at hm; exact hm
  · rw [hrun] at hm; exact hm

end Attempt

end Claxedo.Lib
