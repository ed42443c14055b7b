import Claxedo.Lib.Program
import Claxedo.Lib.Run

/-! Calls in flight over one shared store. A call is what it has asked so far and the program left of it; a step lets
one call ask its next operation, whatever the others are in the middle of, so every interleaving is a list of steps. -/

namespace Claxedo.Lib

variable {Op : Type → Type} {ε α β κ ω σ : Type}

namespace Program

/-- What the program asks after a trace: each operation is one that `asks` allows there, as long as the answers are
ones that `may` be given; and where the program ends, `ends` holds. -/
def Asks (may : ∀ ⦃β : Type⦄, Op β → β → Prop) (asks : List (Asked Op) → ∀ ⦃β : Type⦄, Op β → Prop)
    (ends : List (Asked Op) → α → Prop) : List (Asked Op) → Program Op ε α → Prop
  | t, .done a => ends t a
  | _, .throw _ => True
  | t, .ask op next => asks t op ∧ ∀ b, may op b → Asks may asks ends (t ++ [⟨op, b⟩]) (next b)

variable {may : ∀ ⦃β : Type⦄, Op β → β → Prop} {asks asks' : List (Asked Op) → ∀ ⦃β : Type⦄, Op β → Prop}
  {ends : List (Asked Op) → α → Prop} {ends' : List (Asked Op) → β → Prop} {t : List (Asked Op)}

@[simp] theorem asks_pure {a : α} : Asks (ε := ε) may asks ends t (pure a) ↔ ends t a := Iff.rfl

@[simp] theorem asks_throw {e : ε} : Asks may asks ends t (.throw e) := trivial

@[simp] theorem asks_op_bind {o : Op α} {f : α → Program Op ε β} :
    Asks may asks ends' t (op o >>= f) ↔ asks t o ∧ ∀ b, may o b → Asks may asks ends' (t ++ [⟨o, b⟩]) (f b) := Iff.rfl

theorem Asks.mono {p : Program Op ε α} {more : List (Asked Op) → α → Prop} (h : Asks may asks ends t p)
    (hends : ∀ t a, ends t a → more t a) : Asks may asks more t p := by
  induction p generalizing t with
  | done a => exact hends t a h
  | throw e => trivial
  | ask o next ih => exact ⟨h.1, fun b hb => ih b (h.2 b hb)⟩

theorem Asks.bind {p : Program Op ε α} {f : α → Program Op ε β} (h : Asks may asks ends t p)
    (hf : ∀ t a, ends t a → Asks may asks ends' t (f a)) : Asks may asks ends' t (p >>= f) := by
  change Asks may asks ends' t (p.bind f)
  induction p generalizing t with
  | done a => exact hf t a h
  | throw e => trivial
  | ask o next ih => exact ⟨h.1, fun b hb => ih b (h.2 b hb)⟩

/-- The program, of which only whether it goes through is told. -/
def settle : Program Op ε α → Program Op Unit Unit
  | .done _ => .done ()
  | .throw _ => .throw ()
  | .ask op next => .ask op fun b => settle (next b)

theorem asks_settle {ends : List (Asked Op) → Unit → Prop} {p : Program Op ε α}
    (h : Asks may asks (fun t _ => ends t ()) t p) : Asks may asks ends t p.settle := by
  induction p generalizing t with
  | done a => exact h
  | throw e => trivial
  | ask o next ih => exact ⟨h.1, fun b hb => ih b (h.2 b hb)⟩

end Program

/-- A call under way. -/
structure Flight (Op : Type → Type) (κ : Type) : Type 1 where
  kind : κ
  asked : List (Asked Op) := []
  rest : Program Op Unit Unit

structure Flights (Op : Type → Type) (κ σ : Type) : Type 1 where
  world : σ
  calls : List (Flight Op κ) := []

/-- A call comes in, or one in flight is answered its next operation, the outside being as it is then. -/
inductive FlightStep (κ ω : Type) where
  | call (kind : κ)
  | answer (i : ℕ) (outside : ω)

/-- What answers an operation over the shared store. -/
abbrev Answers (Op : Type → Type) (ω σ : Type) : Type 1 := ∀ ⦃β : Type⦄, ω → Op β → σ → β × σ

namespace Flights

variable (program : κ → Program Op Unit Unit) (answers : Answers Op ω σ)

def step (s : Flights Op κ σ) : FlightStep κ ω → Flights Op κ σ
  | .call kind => { s with calls := s.calls ++ [{ kind := kind, rest := program kind }] }
  | .answer i outside =>
    match s.calls[i]? with
    | none => s
    | some call =>
      match call.rest with
      | .ask op next =>
        let (b, world) := answers outside op s.world
        ⟨world, s.calls.set i ⟨call.kind, call.asked ++ [⟨op, b⟩], next b⟩⟩
      | .done _ => s
      | .throw _ => s

/-- What one step does: nothing, a call comes in, or a call is answered. -/
inductive Stepped (s : Flights Op κ σ) : FlightStep κ ω → Flights Op κ σ → Prop
  | idle (label : FlightStep κ ω) : Stepped s label s
  | came (kind : κ) : Stepped s (.call kind) { s with calls := s.calls ++ [{ kind := kind, rest := program kind }] }
  | answered (i : ℕ) (outside : ω) (call : Flight Op κ) {β : Type} (op : Op β) (next : β → Program Op Unit Unit)
      (hcall : s.calls[i]? = some call) (hrest : call.rest = .ask op next) :
      Stepped s (.answer i outside) ⟨(answers outside op s.world).2,
        s.calls.set i ⟨call.kind, call.asked ++ [⟨op, (answers outside op s.world).1⟩], next (answers outside op s.world).1⟩⟩

theorem stepped (s : Flights Op κ σ) (label : FlightStep κ ω) :
    Stepped program answers s label (step program answers s label) := by
  cases label with
  | call kind => exact .came kind
  | answer i outside =>
    rcases hcall : s.calls[i]? with _ | call
    · simp only [step, hcall]
      exact .idle _
    · rcases hrest : call.rest with a | e | ⟨op, next⟩
      · simp only [step, hcall, hrest]
        exact .idle _
      · simp only [step, hcall, hrest]
        exact .idle _
      · simp only [step, hcall, hrest]
        exact .answered i outside call op next hcall hrest

/-- Every call in flight asks, from here on, only what its kind may ask. -/
def Asking (may : ∀ ⦃β : Type⦄, Op β → β → Prop) (asks : κ → List (Asked Op) → ∀ ⦃β : Type⦄, Op β → Prop)
    (s : Flights Op κ σ) : Prop :=
  ∀ call ∈ s.calls, call.rest.Asks may (asks call.kind) (fun _ _ => True) call.asked

variable {program answers} {may : ∀ ⦃β : Type⦄, Op β → β → Prop}
  {asks : κ → List (Asked Op) → ∀ ⦃β : Type⦄, Op β → Prop} {s s' : Flights Op κ σ} {label : FlightStep κ ω}

/-- The same, and every call that went through ended as its kind may. -/
def Ending (may : ∀ ⦃β : Type⦄, Op β → β → Prop) (asks : κ → List (Asked Op) → ∀ ⦃β : Type⦄, Op β → Prop)
    (ends : κ → List (Asked Op) → Prop) (s : Flights Op κ σ) : Prop :=
  ∀ call ∈ s.calls, call.rest.Asks may (asks call.kind) (fun t _ => ends call.kind t) call.asked

variable {ends : κ → List (Asked Op) → Prop}

theorem Ending.step (hprogram : ∀ kind, (program kind).Asks may (asks kind) (fun t _ => ends kind t) [])
    (hmay : ∀ ⦃β : Type⦄ outside (op : Op β) world, may op (answers outside op world).1) (h : Ending may asks ends s)
    (hstep : Stepped program answers s label s') : Ending may asks ends s' := by
  intro call hcall
  cases hstep with
  | idle => exact h call hcall
  | came kind =>
    rcases List.mem_append.mp hcall with hcall | hcall
    · exact h call hcall
    · obtain rfl := List.mem_singleton.mp hcall
      exact hprogram kind
  | answered i outside asker op next hasker hrest =>
    rcases List.mem_or_eq_of_mem_set hcall with hcall | rfl
    · exact h call hcall
    · have hasks := h asker (List.mem_of_getElem? hasker)
      rw [hrest] at hasks
      exact hasks.2 _ (hmay outside op s.world)

theorem Ending.asking (h : Ending may asks ends s) : Asking may asks s := fun call hcall =>
  (h call hcall).mono fun _ _ _ => trivial

theorem Ending.ended (h : Ending may asks ends s) {call : Flight Op κ} (hcall : call ∈ s.calls) (hdone : call.rest = .done ()) :
    ends call.kind call.asked := by
  have hends := h call hcall
  rw [hdone] at hends
  exact hends

theorem ending_run (hprogram : ∀ kind, (program kind).Asks may (asks kind) (fun t _ => ends kind t) [])
    (hmay : ∀ ⦃β : Type⦄ outside (op : Op β) world, may op (answers outside op world).1) {world : σ}
    (steps : List (FlightStep κ ω)) : Ending may asks ends (run (Flights.step program answers) ⟨world, []⟩ steps) :=
  invariant_of_run (Ending may asks ends) (fun s label h => h.step hprogram hmay (stepped program answers s label))
    (fun call hcall => by cases hcall) steps

/-- The operation a call has answered is one its kind may ask there. -/
theorem Asking.asked (h : Asking may asks s) {i : ℕ} {call : Flight Op κ} {op : Op β} {next : β → Program Op Unit Unit}
    (hcall : s.calls[i]? = some call) (hrest : call.rest = .ask op next) : asks call.kind call.asked op := by
  have hasks := h call (List.mem_of_getElem? hcall)
  rw [hrest] at hasks
  exact hasks.1

end Flights

end Claxedo.Lib
