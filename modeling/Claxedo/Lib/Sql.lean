import Mathlib.Tactic

/-! Conditions of a query language with placeholders. A condition is read over a row of each alias in
scope, with a third truth value where a null is compared; a select joins tables and keeps the rows for
which its condition is true. A placeholder takes the next bound value, in the order of the text. -/

namespace Claxedo.Lib.Sql

inductive Value where
  | null
  | num (n : ℕ)
  | text (s : String)
  deriving DecidableEq

theorem Value.is_text {v : Value} {s : String} : v = .text s ∧ v ≠ .null ↔ v = .text s :=
  and_iff_left_of_imp fun h => h ▸ nofun

/-- Numbers come before texts. -/
def Value.le : Value → Value → Bool
  | .null, _ => true
  | .num _, .null => false
  | .num a, .num b => a ≤ b
  | .num _, .text _ => true
  | .text _, .null => false
  | .text _, .num _ => false
  | .text a, .text b => a ≤ b

mutual

/-- A value of a row, over tables `T` with columns `C`, with `π` in the places of bound values. -/
inductive Scalar (T C π : Type) where
  | col (label : String) (column : C)
  | value (v : Value)
  | hole (p : π)
  | cases (cond : Cond T C π) (yes no : Scalar T C π)
  | coalesce (a b : Scalar T C π)
  | larger (a b : Scalar T C π)
  | one (value : Scalar T C π) (rows : Rows T C π) (cond : Cond T C π)
  | largest (value : Scalar T C π) (rows : Rows T C π) (cond : Cond T C π)

inductive Cond (T C π : Type) where
  | eq (a b : Scalar T C π)
  | ne (a b : Scalar T C π)
  | ge (a b : Scalar T C π)
  | gt (a b : Scalar T C π)
  | isNull (a : Scalar T C π)
  | notNull (a : Scalar T C π)
  | among (a : Scalar T C π) (texts : List String)
  | and (a b : Cond T C π)
  | or (a b : Cond T C π)
  | not (a : Cond T C π)
  | select (rows : Rows T C π) (cond : Cond T C π)

inductive Rows (T C π : Type) where
  | table (t : T) (label : String)
  | join (rows : Rows T C π) (t : T) (label : String) (joins : Cond T C π)
  | leftJoin (rows : Rows T C π) (t : T) (label : String) (joins : Cond T C π)

end

variable {T C π : Type}

abbrev Row (C : Type) := C → Value

abbrev Database (T C : Type) := T → List (Row C)

/-- The row each alias stands for. -/
abbrev Env (C : Type) := String → Row C

def Env.set (env : Env C) (label : String) (row : Row C) : Env C := fun a => if a = label then row else env a

@[simp] theorem Env.set_self (env : Env C) (label : String) (row : Row C) : env.set label row label = row := if_pos rfl

theorem Env.set_of_ne (env : Env C) {label a : String} (row : Row C) (h : a ≠ label) : env.set label row a = env a := if_neg h

section
variable (db : Database T C) (bound : π → Value)

def compared (test : Value → Value → Bool) : Value → Value → Option Bool
  | .null, _ => none
  | _, .null => none
  | a, b => some (test a b)

def both : Option Bool → Option Bool → Option Bool
  | some false, _ => some false
  | _, some false => some false
  | some true, some true => some true
  | _, _ => none

def either : Option Bool → Option Bool → Option Bool
  | some true, _ => some true
  | _, some true => some true
  | some false, some false => some false
  | _, _ => none

def largerOf : Value → Value → Value
  | .null, _ => .null
  | _, .null => .null
  | a, b => if a.le b then b else a

/-- The largest value of a column, of those that are not null. -/
def largestOf (values : List Value) : Value :=
  values.foldl (fun most v => if v = .null then most else if most = .null ∨ most.le v then v else most) .null

mutual

def Scalar.eval (env : Env C) : Scalar T C π → Value
  | .col label column => env label column
  | .value v => v
  | .hole p => bound p
  | .cases cond yes no => if cond.eval env = some true then yes.eval env else no.eval env
  | .coalesce a b => if a.eval env = .null then b.eval env else a.eval env
  | .larger a b => largerOf (a.eval env) (b.eval env)
  | .one value rows cond =>
    match (rows.eval env).find? fun env => cond.eval env = some true with
    | some env => value.eval env
    | none => .null
  | .largest value rows cond =>
    largestOf (((rows.eval env).filter fun env => cond.eval env = some true).map fun env => value.eval env)

def Cond.eval (env : Env C) : Cond T C π → Option Bool
  | .eq a b => compared (fun a b => a = b) (a.eval env) (b.eval env)
  | .ne a b => compared (fun a b => a ≠ b) (a.eval env) (b.eval env)
  | .ge a b => compared (fun a b => b.le a) (a.eval env) (b.eval env)
  | .gt a b => compared (fun a b => ¬ a.le b) (a.eval env) (b.eval env)
  | .isNull a => some (a.eval env = .null)
  | .notNull a => some (a.eval env ≠ .null)
  | .among a texts => if a.eval env = .null then none else some (texts.any fun s => a.eval env = .text s)
  | .and a b => both (a.eval env) (b.eval env)
  | .or a b => either (a.eval env) (b.eval env)
  | .not a => (a.eval env).map fun b => ! b
  | .select rows cond => some ((rows.eval env).any fun env => cond.eval env = some true)

def Rows.eval (env : Env C) : Rows T C π → List (Env C)
  | .table t label => (db t).map fun row => env.set label row
  | .join rows t label joins => (rows.eval env).flatMap fun env =>
      ((db t).map fun row => env.set label row).filter fun env => joins.eval env = some true
  | .leftJoin rows t label joins => (rows.eval env).flatMap fun env =>
      let joined := ((db t).map fun row => env.set label row).filter fun env => joins.eval env = some true
      if joined = [] then [env.set label fun _ => .null] else joined

end

/-- The condition is true, neither false nor null. -/
def Cond.Holds (env : Env C) (cond : Cond T C π) : Prop := cond.eval db bound env = some true

instance (env : Env C) (cond : Cond T C π) : Decidable (cond.Holds db bound env) := inferInstanceAs (Decidable (_ = _))

variable {db bound} {env : Env C}

section
attribute [local simp] Scalar.eval Cond.eval Rows.eval

@[simp] theorem Cond.holds_isNull {a : Scalar T C π} : (Cond.isNull a).Holds db bound env ↔ a.eval db bound env = .null := by
  simp [Holds]

@[simp] theorem Cond.holds_notNull {a : Scalar T C π} : (Cond.notNull a).Holds db bound env ↔ a.eval db bound env ≠ .null := by
  simp [Holds]

end

theorem compared_eq_true {test : Value → Value → Bool} {a b : Value} :
    compared test a b = some true ↔ a ≠ .null ∧ b ≠ .null ∧ test a b = true := by
  cases a <;> cases b <;> simp [compared]

@[simp] theorem Cond.holds_eq {a b : Scalar T C π} :
    (Cond.eq a b).Holds db bound env ↔ a.eval db bound env = b.eval db bound env ∧ a.eval db bound env ≠ .null := by
  simp only [Holds, eval, compared_eq_true, decide_eq_true_eq]
  constructor
  · rintro ⟨ha, -, hsame⟩
    exact ⟨hsame, ha⟩
  · rintro ⟨hsame, ha⟩
    exact ⟨ha, hsame ▸ ha, hsame⟩

@[simp] theorem Cond.holds_among {a : Scalar T C π} {texts : List String} :
    (Cond.among a texts).Holds db bound env ↔ ∃ s ∈ texts, a.eval db bound env = .text s := by
  simp only [Holds, eval]
  split_ifs with h
  · simp [h]
  · simp

@[simp] theorem Cond.holds_and {a b : Cond T C π} :
    (Cond.and a b).Holds db bound env ↔ a.Holds db bound env ∧ b.Holds db bound env := by
  simp only [Holds, eval]
  rcases a.eval db bound env with _ | _ | _ <;> rcases b.eval db bound env with _ | _ | _ <;> simp [both]

@[simp] theorem Cond.holds_or {a b : Cond T C π} :
    (Cond.or a b).Holds db bound env ↔ a.Holds db bound env ∨ b.Holds db bound env := by
  simp only [Holds, eval]
  rcases a.eval db bound env with _ | _ | _ <;> rcases b.eval db bound env with _ | _ | _ <;> simp [either]

variable {cond joins : Cond T C π} {rows : Rows T C π} {env' : Env C} {label : String} {t : T}

@[simp] theorem Cond.holds_select :
    (Cond.select rows cond).Holds db bound env ↔ ∃ env' ∈ rows.eval db bound env, cond.Holds db bound env' := by
  simp [Holds, eval]

@[simp] theorem Rows.mem_table :
    env' ∈ (Rows.table t label : Rows T C π).eval db bound env ↔ ∃ row ∈ db t, env' = env.set label row := by
  simp [eval, eq_comm]

theorem Cond.holds_select_table :
    (Cond.select (.table t label) cond).Holds db bound env ↔ ∃ row ∈ db t, cond.Holds db bound (env.set label row) := by
  simp

@[simp] theorem Rows.mem_join :
    env' ∈ (Rows.join rows t label joins).eval db bound env ↔ ∃ env₁ ∈ rows.eval db bound env, ∃ row ∈ db t,
      joins.Holds db bound (env₁.set label row) ∧ env' = env₁.set label row := by
  simp only [eval, List.mem_flatMap, List.mem_filter, List.mem_map, decide_eq_true_eq, Cond.Holds]
  constructor
  · rintro ⟨env₁, henv₁, ⟨row, hrow, rfl⟩, hjoins⟩
    exact ⟨env₁, henv₁, row, hrow, hjoins, rfl⟩
  · rintro ⟨env₁, henv₁, row, hrow, hjoins, rfl⟩
    exact ⟨env₁, henv₁, ⟨row, hrow, rfl⟩, hjoins⟩

theorem Rows.exists_table {p : Env C → Prop} :
    (∃ env' ∈ (Rows.table t label : Rows T C π).eval db bound env, p env') ↔ ∃ row ∈ db t, p (env.set label row) := by
  simp only [mem_table]
  constructor
  · rintro ⟨_, ⟨row, hrow, rfl⟩, hp⟩
    exact ⟨row, hrow, hp⟩
  · rintro ⟨row, hrow, hp⟩
    exact ⟨_, ⟨row, hrow, rfl⟩, hp⟩

theorem Rows.exists_join {p : Env C → Prop} :
    (∃ env' ∈ (Rows.join rows t label joins).eval db bound env, p env') ↔ ∃ env₁ ∈ rows.eval db bound env, ∃ row ∈ db t,
      joins.Holds db bound (env₁.set label row) ∧ p (env₁.set label row) := by
  simp only [mem_join]
  constructor
  · rintro ⟨_, ⟨env₁, henv₁, row, hrow, hjoins, rfl⟩, hp⟩
    exact ⟨env₁, henv₁, row, hrow, hjoins, hp⟩
  · rintro ⟨env₁, henv₁, row, hrow, hjoins, hp⟩
    exact ⟨_, ⟨env₁, henv₁, row, hrow, hjoins, rfl⟩, hp⟩

/-- A row that joins none of a table stays, with nulls for it. -/
@[simp] theorem Rows.mem_leftJoin :
    env' ∈ (Rows.leftJoin rows t label joins).eval db bound env ↔ ∃ env₁ ∈ rows.eval db bound env,
      (∃ row ∈ db t, joins.Holds db bound (env₁.set label row) ∧ env' = env₁.set label row) ∨
        (∀ row ∈ db t, ¬ joins.Holds db bound (env₁.set label row)) ∧ env' = env₁.set label fun _ => .null := by
  simp only [eval, List.mem_flatMap]
  refine exists_congr fun env₁ => and_congr_right fun _ => ?_
  split_ifs with hnone
  · have hnone' : ∀ row ∈ db t, ¬ joins.Holds db bound (env₁.set label row) := by
      intro row hrow hjoins
      exact List.filter_eq_nil_iff.mp hnone _ (List.mem_map.mpr ⟨row, hrow, rfl⟩) (decide_eq_true hjoins)
    constructor
    · intro h
      exact .inr ⟨hnone', List.mem_singleton.mp h⟩
    · rintro (⟨row, hrow, hjoins, -⟩ | ⟨-, rfl⟩)
      · exact absurd hjoins (hnone' row hrow)
      · exact List.mem_singleton.mpr rfl
  · obtain ⟨env₂, hsome⟩ := List.exists_mem_of_ne_nil _ hnone
    obtain ⟨hsome, hjoins⟩ := List.mem_filter.mp hsome
    obtain ⟨row₀, hrow₀, rfl⟩ := List.mem_map.mp hsome
    constructor
    · intro h
      obtain ⟨h, hjoins⟩ := List.mem_filter.mp h
      obtain ⟨row, hrow, rfl⟩ := List.mem_map.mp h
      exact .inl ⟨row, hrow, of_decide_eq_true hjoins, rfl⟩
    · rintro (⟨row, hrow, hjoins, rfl⟩ | ⟨hnone, -⟩)
      · exact List.mem_filter.mpr ⟨List.mem_map.mpr ⟨row, hrow, rfl⟩, decide_eq_true hjoins⟩
      · exact absurd (of_decide_eq_true hjoins) (hnone row₀ hrow₀)

theorem Scalar.eval_cases {yes no : Scalar T C π} :
    (Scalar.cases cond yes no).eval db bound env =
      if cond.Holds db bound env then yes.eval db bound env else no.eval db bound env := by
  rw [eval]
  rfl

theorem Scalar.eval_one_table {value : Scalar T C π} :
    (Scalar.one value (.table t label) cond).eval db bound env =
      match (db t).find? fun row => cond.Holds db bound (env.set label row) with
      | some row => value.eval db bound (env.set label row)
      | none => .null := by
  have hfind : ((db t).find? fun row => cond.Holds db bound (env.set label row)) =
      (db t).find? fun row => cond.eval db bound (env.set label row) = some true := rfl
  rw [hfind]
  simp only [eval, Rows.eval, List.find?_map, Function.comp_def]
  rcases (db t).find? fun row => decide (cond.eval db bound (env.set label row) = some true) with _ | row <;> rfl

theorem Cond.holds_select_join {u : T} {label' : String} :
    (Cond.select (.join (.table t label) u label' joins) cond).Holds db bound env ↔ ∃ row ∈ db t, ∃ row' ∈ db u,
      joins.Holds db bound ((env.set label row).set label' row') ∧ cond.Holds db bound ((env.set label row).set label' row') := by
  rw [holds_select, Rows.exists_join, Rows.exists_table]

theorem Cond.holds_select_leftJoin {u : T} {label' : String} :
    (Cond.select (.leftJoin (.table t label) u label' joins) cond).Holds db bound env ↔ ∃ row ∈ db t,
      (∃ row' ∈ db u, joins.Holds db bound ((env.set label row).set label' row') ∧
          cond.Holds db bound ((env.set label row).set label' row')) ∨
        (∀ row' ∈ db u, ¬ joins.Holds db bound ((env.set label row).set label' row')) ∧
          cond.Holds db bound ((env.set label row).set label' fun _ => .null) := by
  simp only [holds_select, Rows.mem_leftJoin, Rows.mem_table]
  constructor
  · rintro ⟨_, ⟨_, ⟨row, hrow, rfl⟩, ⟨row', hrow', hjoins, rfl⟩ | ⟨hnone, rfl⟩⟩, hcond⟩
    · exact ⟨row, hrow, .inl ⟨row', hrow', hjoins, hcond⟩⟩
    · exact ⟨row, hrow, .inr ⟨hnone, hcond⟩⟩
  · rintro ⟨row, hrow, ⟨row', hrow', hjoins, hcond⟩ | ⟨hnone, hcond⟩⟩
    · exact ⟨_, ⟨_, ⟨row, hrow, rfl⟩, .inl ⟨row', hrow', hjoins, rfl⟩⟩, hcond⟩
    · exact ⟨_, ⟨_, ⟨row, hrow, rfl⟩, .inr ⟨hnone, rfl⟩⟩, hcond⟩

mutual

/-- The tables that an expression asks. -/
def Scalar.tables : Scalar T C π → List T
  | .col _ _ | .value _ | .hole _ => []
  | .cases cond yes no => cond.tables ++ yes.tables ++ no.tables
  | .coalesce a b | .larger a b => a.tables ++ b.tables
  | .one value rows cond | .largest value rows cond => value.tables ++ rows.tables ++ cond.tables

def Cond.tables : Cond T C π → List T
  | .eq a b | .ne a b | .ge a b | .gt a b => a.tables ++ b.tables
  | .isNull a | .notNull a | .among a _ => a.tables
  | .and a b | .or a b => a.tables ++ b.tables
  | .not a => a.tables
  | .select rows cond => rows.tables ++ cond.tables

def Rows.tables : Rows T C π → List T
  | .table t _ => [t]
  | .join rows t _ joins | .leftJoin rows t _ joins => rows.tables ++ t :: joins.tables

end

mutual

/-- What an expression tells depends on the tables it asks alone. -/
theorem Scalar.eval_congr {db' : Database T C} (env : Env C) : (a : Scalar T C π) → (∀ t ∈ a.tables, db t = db' t) →
    a.eval db bound env = a.eval db' bound env
  | .col _ _, _ | .value _, _ | .hole _, _ => rfl
  | .cases cond yes no, h => by
    simp only [Scalar.tables, List.mem_append] at h
    simp only [Scalar.eval, cond.eval_congr env fun t ht => h t (.inl (.inl ht)), yes.eval_congr env fun t ht => h t (.inl (.inr ht)),
      no.eval_congr env fun t ht => h t (.inr ht)]
  | .coalesce a b, h => by
    simp only [Scalar.tables, List.mem_append] at h
    simp only [Scalar.eval, a.eval_congr env fun t ht => h t (.inl ht), b.eval_congr env fun t ht => h t (.inr ht)]
  | .larger a b, h => by
    simp only [Scalar.tables, List.mem_append] at h
    simp only [Scalar.eval, a.eval_congr env fun t ht => h t (.inl ht), b.eval_congr env fun t ht => h t (.inr ht)]
  | .one value rows cond, h => by
    simp only [Scalar.tables, List.mem_append] at h
    simp only [Scalar.eval, rows.eval_congr env fun t ht => h t (.inl (.inr ht)),
      fun env => cond.eval_congr env fun t ht => h t (.inr ht),
      fun env => value.eval_congr env fun t ht => h t (.inl (.inl ht))]
  | .largest value rows cond, h => by
    simp only [Scalar.tables, List.mem_append] at h
    simp only [Scalar.eval, rows.eval_congr env fun t ht => h t (.inl (.inr ht)),
      fun env => cond.eval_congr env fun t ht => h t (.inr ht),
      fun env => value.eval_congr env fun t ht => h t (.inl (.inl ht))]

theorem Cond.eval_congr {db' : Database T C} (env : Env C) : (c : Cond T C π) → (∀ t ∈ c.tables, db t = db' t) →
    c.eval db bound env = c.eval db' bound env
  | .eq a b, h | .ne a b, h | .ge a b, h | .gt a b, h => by
    simp only [Cond.tables, List.mem_append] at h
    simp only [Cond.eval, a.eval_congr env fun t ht => h t (.inl ht), b.eval_congr env fun t ht => h t (.inr ht)]
  | .isNull a, h | .notNull a, h | .among a texts, h => by simp only [Cond.eval, a.eval_congr env h]
  | .and a b, h | .or a b, h => by
    simp only [Cond.tables, List.mem_append] at h
    simp only [Cond.eval, a.eval_congr env fun t ht => h t (.inl ht), b.eval_congr env fun t ht => h t (.inr ht)]
  | .not a, h => by simp only [Cond.eval, a.eval_congr env h]
  | .select rows cond, h => by
    simp only [Cond.tables, List.mem_append] at h
    simp only [Cond.eval, rows.eval_congr env fun t ht => h t (.inl ht), fun env => cond.eval_congr env fun t ht => h t (.inr ht)]

theorem Rows.eval_congr {db' : Database T C} (env : Env C) : (rows : Rows T C π) → (∀ t ∈ rows.tables, db t = db' t) →
    rows.eval db bound env = rows.eval db' bound env
  | .table t label, h => by simp only [Rows.eval, h t (List.mem_singleton.mpr rfl)]
  | .join rows t label joins, h => by
    simp only [Rows.tables, List.mem_append, List.mem_cons] at h
    simp only [Rows.eval, rows.eval_congr env fun t ht => h t (.inl ht), h t (.inr (.inl rfl)),
      fun env => joins.eval_congr env fun t ht => h t (.inr (.inr ht))]
  | .leftJoin rows t label joins, h => by
    simp only [Rows.tables, List.mem_append, List.mem_cons] at h
    simp only [Rows.eval, rows.eval_congr env fun t ht => h t (.inl ht), h t (.inr (.inl rfl)),
      fun env => joins.eval_congr env fun t ht => h t (.inr (.inr ht))]

end

end

end Claxedo.Lib.Sql
