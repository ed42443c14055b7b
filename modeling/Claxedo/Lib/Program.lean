import Mathlib.Tactic

/-! Programs that ask operations one at a time. What a program asked and was answered is its trace; a
store answers operations through a handler, and two stores that answer a trace alike run the program
alike. -/

namespace Claxedo.Lib

variable {Op : Type → Type} {ε α β σ τ : Type}

inductive Program (Op : Type → Type) (ε α : Type) : Type 1 where
  | done (a : α)
  | throw (e : ε)
  | ask {β : Type} (op : Op β) (next : β → Program Op ε α)

/-- One operation and its answer. -/
structure Asked (Op : Type → Type) : Type 1 where
  {β : Type}
  op : Op β
  answer : β

/-- What answers operations over a state, or refuses one. -/
abbrev Handler (Op : Type → Type) (ε σ : Type) : Type 1 := ∀ ⦃β : Type⦄, Op β → σ → Except ε (β × σ)

namespace Program

def bind (p : Program Op ε α) (f : α → Program Op ε β) : Program Op ε β :=
  match p with
  | .done a => f a
  | .throw e => .throw e
  | .ask op next => .ask op fun b => bind (next b) f

instance : Monad (Program Op ε) where
  pure := .done
  bind := bind

def op (o : Op β) : Program Op ε β := .ask o .done

/-- The program run over a store. -/
def exec (h : Handler Op ε σ) : Program Op ε α → σ → Except ε (α × σ)
  | .done a, s => .ok (a, s)
  | .throw e, _ => .error e
  | .ask op next, s =>
    match h op s with
    | .ok (b, s) => exec h (next b) s
    | .error e => .error e

/-- What the program asks over a store, as far as that answers. -/
def trace (h : Handler Op ε σ) : Program Op ε α → σ → List (Asked Op)
  | .done _, _ => []
  | .throw _, _ => []
  | .ask op next, s =>
    match h op s with
    | .ok (b, s) => .mk op b :: trace h (next b) s
    | .error _ => []

/-- The program answers `a` once it was answered as in the trace. -/
def Follows : Program Op ε α → List (Asked Op) → α → Prop
  | .done a, t, r => t = [] ∧ a = r
  | .throw _, _, _ => False
  | .ask op next, t, r => ∃ b rest, t = .mk op b :: rest ∧ Follows (next b) rest r

end Program

/-- A trace, taken one operation after another. -/
def Trail (step : σ → Asked Op → σ → Prop) : σ → List (Asked Op) → σ → Prop
  | s, [], s' => s = s'
  | s, a :: t, s' => ∃ s₁, step s a s₁ ∧ Trail step s₁ t s'

/-- The handler's own steps. -/
def Handler.Step (h : Handler Op ε σ) (s : σ) (a : Asked Op) (s' : σ) : Prop := h a.op s = .ok (a.answer, s')

namespace Program

variable {a : α} {t : List (Asked Op)} {p : Program Op ε α} {h : Handler Op ε σ} {s : σ}

@[simp] theorem follows_pure {r : α} : Follows (ε := ε) (pure a) t r ↔ t = [] ∧ a = r := Iff.rfl

@[simp] theorem follows_throw {e : ε} {r : α} : ¬ Follows (.throw e) t r := id

@[simp] theorem follows_op {o : Op β} {b : β} : Follows (ε := ε) (op o) t b ↔ t = [.mk o b] := by
  refine ⟨?_, ?_⟩
  · rintro ⟨b', rest, rfl, rfl, rfl⟩
    rfl
  · rintro rfl
    exact ⟨b, [], rfl, rfl, rfl⟩

theorem follows_bind {f : α → Program Op ε β} {r : β} :
    Follows (p >>= f) t r ↔ ∃ t₁ t₂ a, t = t₁ ++ t₂ ∧ Follows p t₁ a ∧ Follows (f a) t₂ r := by
  change Follows (p.bind f) t r ↔ _
  induction p generalizing t with
  | done a =>
    refine ⟨fun h => ⟨[], t, a, rfl, ⟨rfl, rfl⟩, h⟩, ?_⟩
    rintro ⟨t₁, t₂, a', rfl, ⟨rfl, rfl⟩, h⟩
    exact h
  | throw e =>
    refine ⟨False.elim, ?_⟩
    rintro ⟨t₁, t₂, a, rfl, h, -⟩
    exact h
  | ask o next ih =>
    refine ⟨?_, ?_⟩
    · rintro ⟨b, rest, rfl, h⟩
      obtain ⟨t₁, t₂, a, rfl, h₁, h₂⟩ := (ih b).mp h
      exact ⟨.mk o b :: t₁, t₂, a, rfl, ⟨b, t₁, rfl, h₁⟩, h₂⟩
    · rintro ⟨t₁, t₂, a, rfl, ⟨b, rest, rfl, h₁⟩, h₂⟩
      exact ⟨b, rest ++ t₂, rfl, (ih b).mpr ⟨rest, t₂, a, rfl, h₁, h₂⟩⟩

theorem bind_bind {γ : Type} (p : Program Op ε α) (f : α → Program Op ε β) (g : β → Program Op ε γ) :
    (p >>= f) >>= g = p >>= fun a => f a >>= g := by
  change (p.bind f).bind g = p.bind fun a => (f a).bind g
  induction p with
  | done a => rfl
  | throw e => rfl
  | ask o next ih =>
    refine congrArg (Program.ask o) (funext fun b => ?_)
    exact ih b

theorem done_bind (a : α) (f : α → Program Op ε β) : (pure a : Program Op ε α) >>= f = f a := rfl

theorem exec_bind {f : α → Program Op ε β} :
    exec h (p >>= f) s = match exec h p s with
      | .ok (a, s') => exec h (f a) s'
      | .error e => .error e := by
  change exec h (p.bind f) s = _
  induction p generalizing s with
  | done a => rfl
  | throw e => rfl
  | ask o next ih =>
    rw [bind, exec, exec]
    rcases h o s with e | ⟨b, s₁⟩
    · rfl
    · exact ih b

/-- A run over a store is a trace the program follows and the store answers. -/
theorem exec_eq_ok_iff {s' : σ} :
    exec h p s = .ok (a, s') ↔ ∃ t, Follows p t a ∧ Trail h.Step s t s' := by
  induction p generalizing s with
  | done b =>
    refine ⟨fun heq => ?_, ?_⟩
    · obtain ⟨rfl, rfl⟩ := Prod.mk.inj (Except.ok.inj heq)
      exact ⟨[], ⟨rfl, rfl⟩, rfl⟩
    · rintro ⟨t, ⟨rfl, rfl⟩, rfl⟩
      rfl
  | throw e =>
    refine ⟨fun heq => (nomatch heq), ?_⟩
    rintro ⟨t, hfalse, -⟩
    exact hfalse.elim
  | ask o next ih =>
    unfold exec
    rcases hop : h o s with e | ⟨b, s₁⟩
    · refine ⟨fun heq => (nomatch heq), ?_⟩
      rintro ⟨t, ⟨b, rest, rfl, -⟩, s₁, hstep, -⟩
      rw [Handler.Step, hop] at hstep
      cases hstep
    · dsimp only
      rw [ih]
      refine ⟨?_, ?_⟩
      · rintro ⟨t, hfollows, htrail⟩
        exact ⟨.mk o b :: t, ⟨b, t, rfl, hfollows⟩, s₁, hop, htrail⟩
      · rintro ⟨t, ⟨b', rest, rfl, hfollows⟩, s₂, hstep, htrail⟩
        rw [Handler.Step, hop] at hstep
        obtain ⟨rfl, rfl⟩ := Prod.mk.inj (Except.ok.inj hstep)
        exact ⟨rest, hfollows, htrail⟩

theorem trace_eq {s' : σ} (hfollows : Follows p t a) (htrail : Trail h.Step s t s') : trace h p s = t := by
  induction p generalizing s t with
  | done b =>
    obtain ⟨rfl, -⟩ := hfollows
    rfl
  | throw e => exact hfollows.elim
  | ask o next ih =>
    obtain ⟨b, rest, rfl, hrest⟩ := hfollows
    obtain ⟨s₁, hstep, htrail⟩ := htrail
    have hop : h o s = .ok (b, s₁) := hstep
    rw [trace, hop]
    exact congrArg _ (ih b hrest htrail)

end Program

namespace Trail

variable {step : σ → Asked Op → σ → Prop} {step' : τ → Asked Op → τ → Prop}

theorem split {s s' : σ} {t₁ t₂ : List (Asked Op)} (h : Trail step s (t₁ ++ t₂) s') :
    ∃ s₁, Trail step s t₁ s₁ ∧ Trail step s₁ t₂ s' := by
  induction t₁ generalizing s with
  | nil => exact ⟨s, rfl, h⟩
  | cons a t₁ ih =>
    obtain ⟨s₂, ha, h⟩ := h
    obtain ⟨s₁, h₁, h₂⟩ := ih h
    exact ⟨s₁, ⟨s₂, ha, h₁⟩, h₂⟩

/-- What every step of the trace keeps. -/
theorem invariant (inv : σ → Prop) {t : List (Asked Op)} (hstep : ∀ a ∈ t, ∀ s s', inv s → step s a s' → inv s') {s s' : σ}
    (hs : inv s) (h : Trail step s t s') : inv s' := by
  induction t generalizing s with
  | nil =>
    obtain rfl : s = s' := h
    exact hs
  | cons a t ih =>
    obtain ⟨s₁, ha, h⟩ := h
    exact ih (fun b hb => hstep b (List.mem_cons_of_mem _ hb)) (hstep a List.mem_cons_self s s₁ hs ha) h

end Trail

end Claxedo.Lib
