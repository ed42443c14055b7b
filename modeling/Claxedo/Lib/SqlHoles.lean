import Claxedo.Lib.Sql

/-! Conditions with holes: what is put in them, by name or, for placeholders, in the order of the text. -/

namespace Claxedo.Lib.Sql

variable {T C π ρ : Type}

mutual

/-- An expression with others in its holes. -/
def Scalar.subst (f : π → Scalar T C ρ) : Scalar T C π → Scalar T C ρ
  | .col label column => .col label column
  | .value v => .value v
  | .hole p => f p
  | .cases cond yes no => .cases (cond.subst f) (yes.subst f) (no.subst f)
  | .coalesce a b => .coalesce (a.subst f) (b.subst f)
  | .larger a b => .larger (a.subst f) (b.subst f)
  | .one value rows cond => .one (value.subst f) (rows.subst f) (cond.subst f)
  | .largest value rows cond => .largest (value.subst f) (rows.subst f) (cond.subst f)

def Cond.subst (f : π → Scalar T C ρ) : Cond T C π → Cond T C ρ
  | .eq a b => .eq (a.subst f) (b.subst f)
  | .ne a b => .ne (a.subst f) (b.subst f)
  | .ge a b => .ge (a.subst f) (b.subst f)
  | .gt a b => .gt (a.subst f) (b.subst f)
  | .isNull a => .isNull (a.subst f)
  | .notNull a => .notNull (a.subst f)
  | .among a texts => .among (a.subst f) texts
  | .and a b => .and (a.subst f) (b.subst f)
  | .or a b => .or (a.subst f) (b.subst f)
  | .not a => .not (a.subst f)
  | .select rows cond => .select (rows.subst f) (cond.subst f)

def Rows.subst (f : π → Scalar T C ρ) : Rows T C π → Rows T C ρ
  | .table t label => .table t label
  | .join rows t label joins => .join (rows.subst f) t label (joins.subst f)
  | .leftJoin rows t label joins => .leftJoin (rows.subst f) t label (joins.subst f)

end

mutual

/-- The holes, in the order of the text. -/
def Scalar.holes : Scalar T C π → List π
  | .col _ _ | .value _ => []
  | .hole p => [p]
  | .cases cond yes no => cond.holes ++ (yes.holes ++ no.holes)
  | .coalesce a b | .larger a b => a.holes ++ b.holes
  | .one value rows cond | .largest value rows cond => value.holes ++ (rows.holes ++ cond.holes)

def Cond.holes : Cond T C π → List π
  | .eq a b | .ne a b | .ge a b | .gt a b => a.holes ++ b.holes
  | .isNull a | .notNull a | .among a _ => a.holes
  | .and a b | .or a b => a.holes ++ b.holes
  | .not a => a.holes
  | .select rows cond => rows.holes ++ cond.holes

def Rows.holes : Rows T C π → List π
  | .table _ _ => []
  | .join rows _ _ joins | .leftJoin rows _ _ joins => rows.holes ++ joins.holes

end

mutual

/-- The aliases that an expression brings into scope. -/
def Scalar.labels : Scalar T C π → List String
  | .col _ _ | .value _ | .hole _ => []
  | .cases cond yes no => cond.labels ++ yes.labels ++ no.labels
  | .coalesce a b | .larger a b => a.labels ++ b.labels
  | .one value rows cond | .largest value rows cond => value.labels ++ rows.labels ++ cond.labels

def Cond.labels : Cond T C π → List String
  | .eq a b | .ne a b | .ge a b | .gt a b => a.labels ++ b.labels
  | .isNull a | .notNull a | .among a _ => a.labels
  | .and a b | .or a b => a.labels ++ b.labels
  | .not a => a.labels
  | .select rows cond => rows.labels ++ cond.labels

def Rows.labels : Rows T C π → List String
  | .table _ label => [label]
  | .join rows _ label joins | .leftJoin rows _ label joins => rows.labels ++ label :: joins.labels

end

/-- A placeholder. -/
abbrev Placeholder := Unit

mutual

/-- The bound values put into the placeholders, each the next one, and the values left over. -/
def Scalar.fill : Scalar T C Placeholder → List Value → Option (Scalar T C Value × List Value)
  | .col label column, values => some (.col label column, values)
  | .value v, values => some (.value v, values)
  | .hole _, [] => none
  | .hole _, v :: values => some (.hole v, values)
  | .cases cond yes no, values => do
    let (cond, values) ← cond.fill values
    let (yes, values) ← yes.fill values
    let (no, values) ← no.fill values
    some (.cases cond yes no, values)
  | .coalesce a b, values => do
    let (a, values) ← a.fill values
    let (b, values) ← b.fill values
    some (.coalesce a b, values)
  | .larger a b, values => do
    let (a, values) ← a.fill values
    let (b, values) ← b.fill values
    some (.larger a b, values)
  | .one value rows cond, values => do
    let (value, values) ← value.fill values
    let (rows, values) ← rows.fill values
    let (cond, values) ← cond.fill values
    some (.one value rows cond, values)
  | .largest value rows cond, values => do
    let (value, values) ← value.fill values
    let (rows, values) ← rows.fill values
    let (cond, values) ← cond.fill values
    some (.largest value rows cond, values)

def Cond.fill : Cond T C Placeholder → List Value → Option (Cond T C Value × List Value)
  | .eq a b, values => do
    let (a, values) ← a.fill values
    let (b, values) ← b.fill values
    some (.eq a b, values)
  | .ne a b, values => do
    let (a, values) ← a.fill values
    let (b, values) ← b.fill values
    some (.ne a b, values)
  | .ge a b, values => do
    let (a, values) ← a.fill values
    let (b, values) ← b.fill values
    some (.ge a b, values)
  | .gt a b, values => do
    let (a, values) ← a.fill values
    let (b, values) ← b.fill values
    some (.gt a b, values)
  | .isNull a, values => do
    let (a, values) ← a.fill values
    some (.isNull a, values)
  | .notNull a, values => do
    let (a, values) ← a.fill values
    some (.notNull a, values)
  | .among a texts, values => do
    let (a, values) ← a.fill values
    some (.among a texts, values)
  | .and a b, values => do
    let (a, values) ← a.fill values
    let (b, values) ← b.fill values
    some (.and a b, values)
  | .or a b, values => do
    let (a, values) ← a.fill values
    let (b, values) ← b.fill values
    some (.or a b, values)
  | .not a, values => do
    let (a, values) ← a.fill values
    some (.not a, values)
  | .select rows cond, values => do
    let (rows, values) ← rows.fill values
    let (cond, values) ← cond.fill values
    some (.select rows cond, values)

def Rows.fill : Rows T C Placeholder → List Value → Option (Rows T C Value × List Value)
  | .table t label, values => some (.table t label, values)
  | .join rows t label joins, values => do
    let (rows, values) ← rows.fill values
    let (joins, values) ← joins.fill values
    some (.join rows t label joins, values)
  | .leftJoin rows t label joins, values => do
    let (rows, values) ← rows.fill values
    let (joins, values) ← joins.fill values
    some (.leftJoin rows t label joins, values)

end

section
variable (g : π → Value)

mutual

/-- Placeholders in place of the holes take the values of the holes, where these are bound in the order of the text. -/
theorem Scalar.fill_subst (more : List Value) : (a : Scalar T C π) →
    (a.subst fun _ => .hole ()).fill (a.holes.map g ++ more) = some (a.subst fun p => .hole (g p), more)
  | .col _ _ | .value _ | .hole _ => rfl
  | .cases cond yes no => by
    simp only [Scalar.subst, Scalar.holes, List.map_append, List.append_assoc, Scalar.fill, cond.fill_subst, yes.fill_subst,
      no.fill_subst, Option.bind_eq_bind, Option.bind_some]
  | .coalesce a b => by
    simp only [Scalar.subst, Scalar.holes, List.map_append, List.append_assoc, Scalar.fill, a.fill_subst, b.fill_subst,
      Option.bind_eq_bind, Option.bind_some]
  | .larger a b => by
    simp only [Scalar.subst, Scalar.holes, List.map_append, List.append_assoc, Scalar.fill, a.fill_subst, b.fill_subst,
      Option.bind_eq_bind, Option.bind_some]
  | .one value rows cond => by
    simp only [Scalar.subst, Scalar.holes, List.map_append, List.append_assoc, Scalar.fill, value.fill_subst, rows.fill_subst,
      cond.fill_subst, Option.bind_eq_bind, Option.bind_some]
  | .largest value rows cond => by
    simp only [Scalar.subst, Scalar.holes, List.map_append, List.append_assoc, Scalar.fill, value.fill_subst, rows.fill_subst,
      cond.fill_subst, Option.bind_eq_bind, Option.bind_some]

theorem Cond.fill_subst (more : List Value) : (c : Cond T C π) →
    (c.subst fun _ => .hole ()).fill (c.holes.map g ++ more) = some (c.subst fun p => .hole (g p), more)
  | .eq a b | .ne a b | .ge a b | .gt a b => by
    simp only [Cond.subst, Cond.holes, List.map_append, List.append_assoc, Cond.fill, a.fill_subst, b.fill_subst,
      Option.bind_eq_bind, Option.bind_some]
  | .isNull a | .notNull a | .among a _ => by
    simp only [Cond.subst, Cond.holes, Cond.fill, a.fill_subst, Option.bind_eq_bind, Option.bind_some]
  | .and a b | .or a b => by
    simp only [Cond.subst, Cond.holes, List.map_append, List.append_assoc, Cond.fill, a.fill_subst, b.fill_subst,
      Option.bind_eq_bind, Option.bind_some]
  | .not a => by
    simp only [Cond.subst, Cond.holes, Cond.fill, a.fill_subst, Option.bind_eq_bind, Option.bind_some]
  | .select rows cond => by
    simp only [Cond.subst, Cond.holes, List.map_append, List.append_assoc, Cond.fill, rows.fill_subst, cond.fill_subst,
      Option.bind_eq_bind, Option.bind_some]

theorem Rows.fill_subst (more : List Value) : (rows : Rows T C π) →
    (rows.subst fun _ => .hole ()).fill (rows.holes.map g ++ more) = some (rows.subst fun p => .hole (g p), more)
  | .table _ _ => rfl
  | .join rows t label joins | .leftJoin rows t label joins => by
    simp only [Rows.subst, Rows.holes, List.map_append, List.append_assoc, Rows.fill, rows.fill_subst, joins.fill_subst,
      Option.bind_eq_bind, Option.bind_some]

end

end

section
variable {db : Database T C} {bound : π → Value} {bound' : ρ → Value} {f : π → Scalar T C ρ} {within : Env C → Prop}

/-- What is put in the holes means the same wherever the expression reads it. -/
structure Stable (db : Database T C) (bound : π → Value) (bound' : ρ → Value) (f : π → Scalar T C ρ) (within : Env C → Prop)
    (labels : List String) : Prop where
  eval : ∀ p env, within env → (f p).eval db bound' env = bound p
  set : ∀ env, within env → ∀ label ∈ labels, ∀ row, within (env.set label row)

theorem Stable.mono {labels fewer : List String} (h : Stable db bound bound' f within labels) (hfewer : fewer ⊆ labels) :
    Stable db bound bound' f within fewer :=
  ⟨h.eval, fun env henv label hlabel => h.set env henv label (hfewer hlabel)⟩

mutual

/-- An expression with others in its holes tells what it tells with their values bound. -/
theorem Scalar.eval_subst (env : Env C) (henv : within env) : (a : Scalar T C π) → Stable db bound bound' f within a.labels →
    (a.subst f).eval db bound' env = a.eval db bound env
  | .col _ _, _ | .value _, _ => rfl
  | .hole p, h => h.eval p env henv
  | .cases cond yes no, h => by
    simp only [Scalar.subst, Scalar.eval, cond.eval_subst env henv (h.mono (by simp [Scalar.labels])),
      yes.eval_subst env henv (h.mono (by simp [Scalar.labels])), no.eval_subst env henv (h.mono (by simp [Scalar.labels]))]
  | .coalesce a b, h => by
    simp only [Scalar.subst, Scalar.eval, a.eval_subst env henv (h.mono (by simp [Scalar.labels])),
      b.eval_subst env henv (h.mono (by simp [Scalar.labels]))]
  | .larger a b, h => by
    simp only [Scalar.subst, Scalar.eval, a.eval_subst env henv (h.mono (by simp [Scalar.labels])),
      b.eval_subst env henv (h.mono (by simp [Scalar.labels]))]
  | .one value rows cond, h => by
    obtain ⟨hrows, hwithin⟩ := rows.eval_subst env henv (h.mono (by simp [Scalar.labels]))
    have hfind : (rows.eval db bound env).find? (fun env => decide ((cond.subst f).eval db bound' env = some true)) =
        (rows.eval db bound env).find? fun env => decide (cond.eval db bound env = some true) :=
      List.find?_congr fun env' henv' => by
        rw [cond.eval_subst env' (hwithin env' henv') (h.mono (by simp [Scalar.labels]))]
    simp only [Scalar.subst, Scalar.eval, hrows, hfind]
    rcases hfound : (rows.eval db bound env).find? fun env => decide (cond.eval db bound env = some true) with _ | env'
    · rfl
    · exact value.eval_subst env' (hwithin env' (List.mem_of_find?_eq_some hfound)) (h.mono (by simp [Scalar.labels]))
  | .largest value rows cond, h => by
    obtain ⟨hrows, hwithin⟩ := rows.eval_subst env henv (h.mono (by simp [Scalar.labels]))
    simp only [Scalar.subst, Scalar.eval, hrows]
    refine congrArg largestOf ?_
    rw [List.filter_congr fun env' henv' => by
      rw [cond.eval_subst env' (hwithin env' henv') (h.mono (by simp [Scalar.labels]))]]
    exact List.map_congr_left fun env' henv' =>
      value.eval_subst env' (hwithin env' (List.mem_of_mem_filter henv')) (h.mono (by simp [Scalar.labels]))

theorem Cond.eval_subst (env : Env C) (henv : within env) : (c : Cond T C π) → Stable db bound bound' f within c.labels →
    (c.subst f).eval db bound' env = c.eval db bound env
  | .eq a b, h | .ne a b, h | .ge a b, h | .gt a b, h => by
    simp only [Cond.subst, Cond.eval, a.eval_subst env henv (h.mono (by simp [Cond.labels])),
      b.eval_subst env henv (h.mono (by simp [Cond.labels]))]
  | .isNull a, h | .notNull a, h | .among a _, h => by
    simp only [Cond.subst, Cond.eval, a.eval_subst env henv h]
  | .and a b, h | .or a b, h => by
    simp only [Cond.subst, Cond.eval, a.eval_subst env henv (h.mono (by simp [Cond.labels])),
      b.eval_subst env henv (h.mono (by simp [Cond.labels]))]
  | .not a, h => by simp only [Cond.subst, Cond.eval, a.eval_subst env henv h]
  | .select rows cond, h => by
    obtain ⟨hrows, hwithin⟩ := rows.eval_subst env henv (h.mono (by simp [Cond.labels]))
    simp only [Cond.subst, Cond.eval, hrows]
    refine congrArg some (Bool.eq_iff_iff.mpr ?_)
    rw [List.any_eq_true, List.any_eq_true]
    refine exists_congr fun env' => and_congr_right fun henv' => ?_
    rw [cond.eval_subst env' (hwithin env' henv') (h.mono (by simp [Cond.labels]))]

theorem Rows.eval_subst (env : Env C) (henv : within env) : (rows : Rows T C π) → Stable db bound bound' f within rows.labels →
    (rows.subst f).eval db bound' env = rows.eval db bound env ∧ ∀ env' ∈ rows.eval db bound env, within env'
  | .table t label, h => by
    refine ⟨rfl, fun env' henv' => ?_⟩
    obtain ⟨row, -, rfl⟩ := Rows.mem_table.mp henv'
    exact h.set env henv label (List.mem_singleton.mpr rfl) row
  | .join rows t label joins, h => by
    obtain ⟨hrows, hwithin⟩ := rows.eval_subst env henv (h.mono (by simp [Rows.labels]))
    have hset : ∀ env₁ ∈ rows.eval db bound env, ∀ row, within (env₁.set label row) := fun env₁ henv₁ row =>
      h.set env₁ (hwithin env₁ henv₁) label (by simp [Rows.labels]) row
    refine ⟨?_, fun env' henv' => ?_⟩
    · simp only [Rows.subst, Rows.eval, hrows]
      refine List.flatMap_congr fun env₁ henv₁ => List.filter_congr fun env' henv' => ?_
      obtain ⟨row, -, rfl⟩ := List.mem_map.mp henv'
      rw [joins.eval_subst _ (hset env₁ henv₁ row) (h.mono (by simp [Rows.labels]))]
    · obtain ⟨env₁, henv₁, row, -, -, rfl⟩ := Rows.mem_join.mp henv'
      exact hset env₁ henv₁ row
  | .leftJoin rows t label joins, h => by
    obtain ⟨hrows, hwithin⟩ := rows.eval_subst env henv (h.mono (by simp [Rows.labels]))
    have hset : ∀ env₁ ∈ rows.eval db bound env, ∀ row, within (env₁.set label row) := fun env₁ henv₁ row =>
      h.set env₁ (hwithin env₁ henv₁) label (by simp [Rows.labels]) row
    refine ⟨?_, fun env' henv' => ?_⟩
    · simp only [Rows.subst, Rows.eval, hrows]
      refine List.flatMap_congr fun env₁ henv₁ => ?_
      have hjoined : (((db t).map fun row => env₁.set label row).filter fun env => (joins.subst f).eval db bound' env = some true) =
          ((db t).map fun row => env₁.set label row).filter fun env => joins.eval db bound env = some true := by
        refine List.filter_congr fun env' henv' => ?_
        obtain ⟨row, -, rfl⟩ := List.mem_map.mp henv'
        rw [joins.eval_subst _ (hset env₁ henv₁ row) (h.mono (by simp [Rows.labels]))]
      rw [hjoined]
    · obtain ⟨env₁, henv₁, ⟨row, -, -, rfl⟩ | ⟨-, rfl⟩⟩ := Rows.mem_leftJoin.mp henv'
      · exact hset env₁ henv₁ row
      · exact hset env₁ henv₁ _

end

end

/-- The aliases of the rows that a clause makes. -/
def Rows.scope : Rows T C π → List String
  | .table _ label => [label]
  | .join rows _ label _ | .leftJoin rows _ label _ => label :: rows.scope

mutual

/-- Every column is of an alias in scope. -/
def Scalar.Scoped (scope : List String) : Scalar T C π → Prop
  | .col label _ => label ∈ scope
  | .value _ | .hole _ => True
  | .cases cond yes no => cond.Scoped scope ∧ yes.Scoped scope ∧ no.Scoped scope
  | .coalesce a b | .larger a b => a.Scoped scope ∧ b.Scoped scope
  | .one value rows cond | .largest value rows cond =>
    rows.Scoped scope ∧ value.Scoped (rows.scope ++ scope) ∧ cond.Scoped (rows.scope ++ scope)

def Cond.Scoped (scope : List String) : Cond T C π → Prop
  | .eq a b | .ne a b | .ge a b | .gt a b => a.Scoped scope ∧ b.Scoped scope
  | .isNull a | .notNull a | .among a _ => a.Scoped scope
  | .and a b | .or a b => a.Scoped scope ∧ b.Scoped scope
  | .not a => a.Scoped scope
  | .select rows cond => rows.Scoped scope ∧ cond.Scoped (rows.scope ++ scope)

def Rows.Scoped (scope : List String) : Rows T C π → Prop
  | .table _ _ => True
  | .join rows _ label joins | .leftJoin rows _ label joins =>
    rows.Scoped scope ∧ joins.Scoped (label :: rows.scope ++ scope)

end

/-- Rows that tell the same for the aliases in scope. -/
def Agree (scope : List String) (env env' : Env C) : Prop := ∀ label ∈ scope, env label = env' label

theorem Agree.set {scope : List String} {env env' : Env C} (h : Agree scope env env') (label : String) (row : Row C) :
    Agree (label :: scope) (env.set label row) (env'.set label row) := by
  intro a ha
  by_cases hlabel : a = label
  · rw [hlabel, Env.set_self, Env.set_self]
  · rw [Env.set_of_ne env row hlabel, Env.set_of_ne env' row hlabel]
    exact h a ((List.mem_cons.mp ha).resolve_left hlabel)

section
variable {db : Database T C} {bound : π → Value}

theorem forall₂_filter {R : Env C → Env C → Prop} {p q : Env C → Bool} (hsame : ∀ env env', R env env' → p env = q env')
    {l l' : List (Env C)} (h : List.Forall₂ R l l') : List.Forall₂ R (l.filter p) (l'.filter q) :=
  List.rel_filter (fun env env' henv => iff_of_eq (congrArg (· = true) (hsame env env' henv))) h

mutual

/-- A scoped expression tells the same wherever the aliases in scope do. -/
theorem Scalar.eval_agree {scope : List String} {env env' : Env C} (h : Agree scope env env') : (a : Scalar T C π) →
    a.Scoped scope → a.eval db bound env = a.eval db bound env'
  | .col label column, hscoped => congrFun (h label hscoped) column
  | .value _, _ | .hole _, _ => rfl
  | .cases cond yes no, hscoped => by
    simp only [Scalar.eval, cond.eval_agree h hscoped.1, yes.eval_agree h hscoped.2.1, no.eval_agree h hscoped.2.2]
  | .coalesce a b, hscoped | .larger a b, hscoped => by
    simp only [Scalar.eval, a.eval_agree h hscoped.1, b.eval_agree h hscoped.2]
  | .one value rows cond, hscoped => by
    obtain ⟨hrows, hvalue, hcond⟩ := hscoped
    have htest : ∀ env env', Agree (rows.scope ++ scope) env env' →
        decide (cond.eval db bound env = some true) = decide (cond.eval db bound env' = some true) :=
      fun env env' henv => by rw [cond.eval_agree henv hcond]
    have hkept := forall₂_filter htest (rows.eval_agree h hrows)
    simp only [Scalar.eval, ← List.head?_filter]
    generalize List.filter _ _ = l at hkept ⊢
    generalize List.filter _ _ = l' at hkept ⊢
    cases hkept with
    | nil => rfl
    | cons henv _ => exact value.eval_agree henv hvalue
  | .largest value rows cond, hscoped => by
    obtain ⟨hrows, hvalue, hcond⟩ := hscoped
    have htest : ∀ env env', Agree (rows.scope ++ scope) env env' →
        decide (cond.eval db bound env = some true) = decide (cond.eval db bound env' = some true) :=
      fun env env' henv => by rw [cond.eval_agree henv hcond]
    have hkept := forall₂_filter htest (rows.eval_agree h hrows)
    simp only [Scalar.eval]
    refine congrArg largestOf ?_
    generalize List.filter _ _ = l at hkept ⊢
    generalize List.filter _ _ = l' at hkept ⊢
    induction hkept with
    | nil => rfl
    | cons henv _ ih => rw [List.map_cons, List.map_cons, ih, value.eval_agree henv hvalue]

theorem Cond.eval_agree {scope : List String} {env env' : Env C} (h : Agree scope env env') : (c : Cond T C π) →
    c.Scoped scope → c.eval db bound env = c.eval db bound env'
  | .eq a b, hscoped | .ne a b, hscoped | .ge a b, hscoped | .gt a b, hscoped => by
    simp only [Cond.eval, a.eval_agree h hscoped.1, b.eval_agree h hscoped.2]
  | .isNull a, hscoped | .notNull a, hscoped | .among a _, hscoped => by
    simp only [Cond.eval, a.eval_agree h hscoped]
  | .and a b, hscoped | .or a b, hscoped => by
    simp only [Cond.eval, a.eval_agree h hscoped.1, b.eval_agree h hscoped.2]
  | .not a, hscoped => by simp only [Cond.eval, a.eval_agree h hscoped]
  | .select rows cond, hscoped => by
    obtain ⟨hrows, hcond⟩ := hscoped
    have hrel := rows.eval_agree h hrows
    simp only [Cond.eval]
    generalize rows.eval db bound env = l at hrel ⊢
    generalize rows.eval db bound env' = l' at hrel ⊢
    induction hrel with
    | nil => rfl
    | cons henv _ ih =>
      simp only [Option.some_inj] at ih
      rw [List.any_cons, List.any_cons, ih, cond.eval_agree henv hcond]

theorem Rows.eval_agree {scope : List String} {env env' : Env C} (h : Agree scope env env') : (rows : Rows T C π) →
    rows.Scoped scope → List.Forall₂ (Agree (rows.scope ++ scope)) (rows.eval db bound env) (rows.eval db bound env')
  | .table t label, _ => by
    simp only [Rows.eval, List.forall₂_map_left_iff, List.forall₂_map_right_iff]
    exact List.forall₂_same.mpr fun row _ => h.set label row
  | .join rows t label joins, hscoped => by
    refine List.rel_flatMap (rows.eval_agree h hscoped.1) fun env env' henv => ?_
    refine forall₂_filter (fun env env' henv => by rw [joins.eval_agree henv hscoped.2]) ?_
    simp only [List.forall₂_map_left_iff, List.forall₂_map_right_iff]
    exact List.forall₂_same.mpr fun row _ => henv.set label row
  | .leftJoin rows t label joins, hscoped => by
    refine List.rel_flatMap (rows.eval_agree h hscoped.1) fun env env' henv => ?_
    have hset : List.Forall₂ (Agree (label :: (rows.scope ++ scope))) ((db t).map fun row => env.set label row)
        ((db t).map fun row => env'.set label row) := by
      simp only [List.forall₂_map_left_iff, List.forall₂_map_right_iff]
      exact List.forall₂_same.mpr fun row _ => henv.set label row
    have htest : ∀ env env', Agree (label :: (rows.scope ++ scope)) env env' →
        decide (joins.eval db bound env = some true) = decide (joins.eval db bound env' = some true) :=
      fun env env' henv => by rw [joins.eval_agree henv hscoped.2]
    have hjoined := forall₂_filter htest hset
    generalize List.filter _ _ = l at hjoined ⊢
    generalize List.filter _ _ = l' at hjoined ⊢
    cases hjoined with
    | nil => exact .cons (henv.set label _) .nil
    | cons henv hrest => exact .cons henv hrest

end

end

end Claxedo.Lib.Sql

/-! Writes: an update of the rows for which a condition is true, and a row inserted where one is. -/

