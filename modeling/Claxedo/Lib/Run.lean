import Mathlib.Tactic

/-! Runs of a step function. A label carries every choice a step leaves open
(what a clock or a random source answered, which call moves), so a run is a
fold, and "every interleaving" is "every list of labels". -/

namespace Claxedo.Lib

variable {σ α β : Type*}

/-- The state after the steps `as`, taken in order from `s`. -/
def run (step : σ → α → σ) (s : σ) (as : List α) : σ := as.foldl step s

/-- Every step of the run is taken in a state where `cond` allows its label. -/
def Meets (step : σ → α → σ) (cond : σ → α → Prop) : σ → List α → Prop
  | _, [] => True
  | s, a :: as => cond s a ∧ Meets step cond (step s a) as

instance instDecidableMeets (step : σ → α → σ) (cond : σ → α → Prop) [∀ s a, Decidable (cond s a)] :
    (s : σ) → (as : List α) → Decidable (Meets step cond s as)
  | _, [] => isTrue trivial
  | s, a :: as =>
    have := instDecidableMeets step cond (step s a) as
    inferInstanceAs (Decidable (cond s a ∧ Meets step cond (step s a) as))

@[simp] theorem run_nil (step : σ → α → σ) (s : σ) : run step s [] = s := rfl

@[simp] theorem run_cons (step : σ → α → σ) (s : σ) (a : α) (as : List α) :
    run step s (a :: as) = run step (step s a) as := rfl

theorem run_append (step : σ → α → σ) (s : σ) (as bs : List α) :
    run step s (as ++ bs) = run step (run step s as) bs := List.foldl_append

theorem run_snoc (step : σ → α → σ) (s : σ) (as : List α) (a : α) :
    run step s (as ++ [a]) = step (run step s as) a := by rw [run_append]; rfl

theorem meets_append (step : σ → α → σ) (cond : σ → α → Prop) (s : σ) (as bs : List α) :
    Meets step cond s (as ++ bs) ↔ Meets step cond s as ∧ Meets step cond (run step s as) bs := by
  induction as generalizing s with
  | nil => simp [Meets]
  | cons a as ih => simp only [List.cons_append, Meets, run_cons, ih, and_assoc]

variable {as : List α} {cond : σ → α → Prop} {s : σ} {step : σ → α → σ}

theorem meets_mono {cond' : σ → α → Prop} (h : ∀ s a, cond s a → cond' s a) (hmeets : Meets step cond s as) :
    Meets step cond' s as := by
  induction as generalizing s with
  | nil => trivial
  | cons a as ih => exact ⟨h s a hmeets.1, ih hmeets.2⟩

theorem meets_forall {ι : Type*} {cond : ι → σ → α → Prop} :
    (∀ i, Meets step (cond i) s as) ↔ Meets step (fun s a => ∀ i, cond i s a) s as := by
  induction as generalizing s with
  | nil => simp [Meets]
  | cons a as ih => simp only [Meets, forall_and, ih]

theorem meets_congr {cond' : σ → α → Prop} (h : ∀ s a, cond s a ↔ cond' s a) :
    Meets step cond s as ↔ Meets step cond' s as :=
  ⟨meets_mono fun s a => (h s a).mp, meets_mono fun s a => (h s a).mpr⟩

/-- What holds at the start and is kept by every allowed step holds after every allowed run. -/
theorem invariant_of_meets (inv : σ → Prop) (hstep : ∀ s a, inv s → cond s a → inv (step s a)) (hs : inv s)
    (h : Meets step cond s as) : inv (run step s as) := by
  induction as generalizing s with
  | nil => exact hs
  | cons a as ih => exact ih (hstep s a hs h.1) h.2

/-- The same with no condition on the steps. -/
theorem invariant_of_run (inv : σ → Prop) (hstep : ∀ s a, inv s → inv (step s a)) (hs : inv s) (as : List α) :
    inv (run step s as) := by
  induction as generalizing s with
  | nil => exact hs
  | cons a as ih => exact ih (hstep s a hs)

end Claxedo.Lib
