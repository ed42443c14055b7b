import Mathlib.Tactic
import Mathlib.Data.List.Nodup

/-! Tables with a key: a list of rows, at most one of each key once rows come in through `put`,
which replaces the row of its key where it stands, or joins the end. -/

namespace Claxedo.Lib

namespace Table

variable {α κ : Type*} [DecidableEq κ] (key : α → κ)

def get (k : κ) (t : List α) : Option α := t.find? fun row => key row = k

def put (row : α) : List α → List α
  | [] => [row]
  | r :: rs => if key r = key row then row :: rs else r :: put row rs

variable {key}

theorem get_nil (k : κ) : get key k [] = none := rfl

theorem get_cons (k : κ) (row : α) (t : List α) : get key k (row :: t) = if key row = k then some row else get key k t := by
  unfold get
  rw [List.find?_cons]
  split_ifs with h <;> simp [h]

theorem put_cons (row r : α) (t : List α) :
    put key row (r :: t) = if key r = key row then row :: t else r :: put key row t := rfl

variable {k : κ} {r row : α} {t : List α} {p : α → Bool} {β : Type*}

theorem mem_of_get (h : get key k t = some row) : row ∈ t ∧ key row = k := by
  have hkey := List.find?_some h
  exact ⟨List.mem_of_find?_eq_some h, by simpa using hkey⟩

theorem get_eq_none_iff : get key k t = none ↔ ∀ row ∈ t, key row ≠ k := by
  simp [get, List.find?_eq_none]

theorem get_append (k : κ) (t u : List α) : get key k (t ++ u) = (get key k t).or (get key k u) := by
  unfold get
  rw [List.find?_append]

theorem get_put_self (row : α) (t : List α) : get key (key row) (put key row t) = some row := by
  induction t with
  | nil => simp [put, get_cons]
  | cons r rs ih =>
    unfold put
    split_ifs with h
    · simp [get_cons]
    · rw [get_cons, if_neg h, ih]

theorem get_put_ne (h : key row ≠ k) (t : List α) : get key k (put key row t) = get key k t := by
  induction t with
  | nil => simp [put, get_cons, get_nil, h]
  | cons r rs ih =>
    unfold put
    split_ifs with hr
    · rw [get_cons, get_cons, if_neg h, if_neg (hr ▸ h)]
    · rw [get_cons, get_cons, ih]

theorem get_put (k : κ) (row : α) (t : List α) :
    get key k (put key row t) = if key row = k then some row else get key k t := by
  split_ifs with h
  · rw [← h, get_put_self]
  · exact get_put_ne h t

theorem put_put {a b : α} (h : key a = key b) (t : List α) : put key b (put key a t) = put key b t := by
  induction t with
  | nil => simp [put, h]
  | cons r rs ih =>
    by_cases hr : key r = key a
    · simp [put, hr, h]
    · have hr' : key r ≠ key b := h ▸ hr
      simp [put, hr, hr', ih]

/-- A row of a new key joins the end. -/
theorem put_of_get_none (h : get key (key row) t = none) : put key row t = t ++ [row] := by
  induction t with
  | nil => rfl
  | cons r rs ih =>
    rw [get_cons] at h
    split_ifs at h with hr
    rw [put, if_neg hr, ih h, List.cons_append]

theorem mem_put (h : r ∈ put key row t) : r = row ∨ r ∈ t := by
  induction t with
  | nil =>
    left
    simpa [put] using h
  | cons a rs ih =>
    unfold put at h
    split_ifs at h with ha
    · rcases List.mem_cons.mp h with rfl | h
      · exact .inl rfl
      · exact .inr (List.mem_cons_of_mem _ h)
    · rcases List.mem_cons.mp h with rfl | h
      · exact .inr List.mem_cons_self
      · exact (ih h).imp_right (List.mem_cons_of_mem _)

/-- The rows of the other keys stay. -/
theorem mem_put_of_mem (hne : key r ≠ key row) (h : r ∈ t) : r ∈ put key row t := by
  induction t with
  | nil => cases h
  | cons a rs ih =>
    rw [put_cons]
    split_ifs with ha
    · rcases List.mem_cons.mp h with rfl | h
      · exact absurd ha hne
      · exact List.mem_cons_of_mem _ h
    · rcases List.mem_cons.mp h with rfl | h
      · exact List.mem_cons_self
      · exact List.mem_cons_of_mem _ (ih h)

theorem put_mem (row : α) (t : List α) : row ∈ put key row t := (mem_of_get (get_put_self row t)).1

theorem keys_put (row : α) (t : List α) :
    (put key row t).map key = if key row ∈ t.map key then t.map key else t.map key ++ [key row] := by
  induction t with
  | nil => simp [put]
  | cons r rs ih =>
    unfold put
    by_cases hr : key r = key row
    · simp [hr]
    · have hr' : ¬ key row = key r := fun h => hr h.symm
      rw [if_neg hr, List.map_cons, ih]
      by_cases hm : key row ∈ rs.map key
      · simp [hm]
      · simp [hm, hr']

theorem nodup_keys_put (h : (t.map key).Nodup) : ((put key row t).map key).Nodup := by
  rw [keys_put]
  split_ifs with hm
  · exact h
  · rw [List.nodup_append]
    exact ⟨h, List.nodup_singleton _, fun a ha b hb hab => hm (by rw [← List.mem_singleton.mp hb, ← hab]; exact ha)⟩

/-- A row is its key's, in a table where no key is taken twice. -/
theorem get_of_mem (h : (t.map key).Nodup) (hm : row ∈ t) : get key (key row) t = some row := by
  induction t with
  | nil => cases hm
  | cons r rs ih =>
    rw [List.map_cons, List.nodup_cons] at h
    rw [get_cons]
    rcases List.mem_cons.mp hm with rfl | hm
    · rw [if_pos rfl]
    · rw [if_neg, ih h.2 hm]
      exact fun hr => h.1 (hr ▸ List.mem_map_of_mem hm)

omit [DecidableEq κ] in
/-- A filter that keeps one row of its key alone keeps it once. -/
theorem filter_eq_singleton (h : (t.map key).Nodup) (hm : row ∈ t) (hp : p row = true)
    (honly : ∀ r ∈ t, p r = true → key r = key row) : t.filter p = [row] := by
  induction t with
  | nil => cases hm
  | cons r rs ih =>
    rw [List.map_cons, List.nodup_cons] at h
    obtain ⟨hr, hrs⟩ := List.forall_mem_cons.mp honly
    rcases List.mem_cons.mp hm with rfl | hm
    · have hnone : rs.filter p = [] := by
        refine List.filter_eq_nil_iff.mpr fun r' hr' hpr' => h.1 ?_
        rw [← hrs r' hr' hpr']
        exact List.mem_map_of_mem hr'
      rw [List.filter_cons, if_pos hp, hnone]
    · have hne : ¬ p r = true := fun hpr => h.1 (by rw [hr hpr]; exact List.mem_map_of_mem hm)
      rw [List.filter_cons, if_neg hne, ih h.2 hm hrs]

/-- What is kept of a table after a `put`, where keeping a row depends on its key alone. -/
theorem filter_put (h : ∀ r ∈ t, key r = key row → p r = p row) :
    (put key row t).filter p = if p row then put key row (t.filter p) else t.filter p := by
  induction t with
  | nil => cases hp : p row <;> simp [put, hp]
  | cons r rs ih =>
    obtain ⟨hr, hrs⟩ := List.forall_mem_cons.mp h
    rw [put_cons]
    by_cases hk : key r = key row
    · have hpr := hr hk
      cases hp : p row <;> simp [hk, hp, hpr, put_cons]
    · rw [if_neg hk, List.filter_cons, List.filter_cons, ih hrs]
      cases hp : p row <;> cases hp' : p r <;> simp [hk, put_cons]

theorem map_put {key' : β → κ} {f : α → β} (hf : ∀ r, key' (f r) = key r) (row : α) (t : List α) :
    (put key row t).map f = put key' (f row) (t.map f) := by
  induction t with
  | nil => rfl
  | cons r rs ih =>
    unfold put
    rw [List.map_cons]
    by_cases hk : key r = key row
    · simp [hk, hf]
    · simp only [if_neg hk, List.map_cons, ih, hf]

theorem get_map {key' : β → κ} {f : α → β} (hf : ∀ r, key' (f r) = key r) (k : κ) (t : List α) :
    get key' k (t.map f) = (get key k t).map f := by
  induction t with
  | nil => rfl
  | cons r rs ih =>
    rw [List.map_cons, get_cons, get_cons, ih, hf]
    split_ifs <;> rfl

/-- A row is put over the row of its key, which the count counts alike. -/
theorem countP_put (hget : get key (key row) t = some r) (hp : p row = p r) :
    (put key row t).countP p = t.countP p := by
  induction t with
  | nil => cases hget
  | cons r' rs ih =>
    rw [get_cons] at hget
    rw [put_cons]
    split_ifs at hget ⊢ with hk
    · obtain rfl := Option.some.inj hget
      rw [List.countP_cons, List.countP_cons, hp]
    · rw [List.countP_cons, List.countP_cons, ih hget]

section
variable {β : Type*} {key' : β → κ} {R : α → β → Prop} {t : List α} {u : List β}

/-- Tables whose rows stand for each other, one by one, hold a row of a key together. -/
theorem get_forall₂ (hkey : ∀ a b, R a b → key a = key' b) (h : List.Forall₂ R t u) (k : κ) :
    Option.Rel R (get key k t) (get key' k u) := by
  induction h with
  | nil => exact .none
  | cons hab _ ih =>
    rw [get_cons, get_cons, hkey _ _ hab]
    split_ifs
    · exact .some hab
    · exact ih

theorem put_forall₂ (hkey : ∀ a b, R a b → key a = key' b) {a : α} {b : β} (hab : R a b) (h : List.Forall₂ R t u) :
    List.Forall₂ R (put key a t) (put key' b u) := by
  induction h with
  | nil => exact .cons hab .nil
  | cons hrow hrows ih =>
    rw [put_cons, put_cons, hkey _ _ hrow, hkey _ _ hab]
    split_ifs
    · exact .cons hab hrows
    · exact .cons hrow ih

end
theorem get_filter (h : ∀ r ∈ t, key r = k → p r = true) :
    get key k (t.filter p) = get key k t := by
  induction t with
  | nil => rfl
  | cons r rs ih =>
    obtain ⟨hr, hrs⟩ := List.forall_mem_cons.mp h
    rw [List.filter_cons]
    by_cases hk : key r = k
    · rw [if_pos (hr hk), get_cons, get_cons, if_pos hk, if_pos hk]
    · rw [get_cons, if_neg hk, ← ih hrs]
      split_ifs
      · rw [get_cons, if_neg hk]
      · rfl

/-- A row that is there is replaced where it stands, so puts of two keys commute where one is there. -/
theorem put_comm {a b : α} (h : key a ≠ key b) (ha : get key (key a) t ≠ none) :
    put key a (put key b t) = put key b (put key a t) := by
  induction t with
  | nil => exact absurd rfl ha
  | cons r rs ih =>
    by_cases hra : key r = key a
    · have hrb : key r ≠ key b := hra ▸ h
      simp [put_cons, hra, h]
    · rw [get_cons, if_neg hra] at ha
      by_cases hrb : key r = key b
      · simp [put_cons, hrb, Ne.symm h]
      · simp [put_cons, hra, hrb, ih ha]

/-- What does not tell a row from the one it replaces reads the same. -/
theorem filterMap_put_of_get {f : α → Option β} (hget : get key (key row) t = some r) (hf : f row = f r) :
    (put key row t).filterMap f = t.filterMap f := by
  induction t with
  | nil => cases hget
  | cons a as ih =>
    rw [get_cons] at hget
    rw [put_cons]
    by_cases ha : key a = key row
    · rw [if_pos ha] at hget
      obtain rfl := Option.some.inj hget
      rw [if_pos ha, List.filterMap_cons, List.filterMap_cons, hf]
    · rw [if_neg ha] at hget
      rw [if_neg ha, List.filterMap_cons, List.filterMap_cons, ih hget]

/-- A row of a key that is there stands between what is before it and what is after. -/
theorem put_of_get (hget : get key (key row) t = some r) :
    ∃ before after, t = before ++ r :: after ∧ put key row t = before ++ row :: after := by
  induction t with
  | nil => cases hget
  | cons a as ih =>
    rw [get_cons] at hget
    rw [put_cons]
    by_cases ha : key a = key row
    · rw [if_pos ha] at hget
      obtain rfl := Option.some.inj hget
      exact ⟨[], as, rfl, by rw [if_pos ha, List.nil_append]⟩
    · rw [if_neg ha] at hget
      obtain ⟨before, after, rfl, hput⟩ := ih hget
      exact ⟨a :: before, after, rfl, by rw [if_neg ha, hput, List.cons_append]⟩

theorem put_middle {before : List α} {row r : α} (hbefore : ∀ a ∈ before, key a ≠ key row) (hkey : key r = key row) (after : List α) :
    put key row (before ++ r :: after) = before ++ row :: after := by
  induction before with
  | nil => rw [List.nil_append, put_cons, if_pos hkey, List.nil_append]
  | cons a before ih =>
    obtain ⟨ha, hbefore⟩ := List.forall_mem_cons.mp hbefore
    rw [List.cons_append, put_cons, if_neg ha, ih hbefore, List.cons_append]

/-- Reading from the rows kept, where keeping a row depends on its key and `q` asks for nothing else. -/
theorem filter_get_filter {q : α → Bool} (hp : ∀ r ∈ t, ∀ r' ∈ t, key r = k → key r' = k → p r = p r')
    (hq : ∀ r, q r = true → p r = true) :
    (get key k (t.filter p)).filter q = (get key k t).filter q := by
  rcases hget : get key k t with _ | r
  · rw [get_eq_none_iff.mpr fun r hr => get_eq_none_iff.mp hget r (List.mem_of_mem_filter hr)]
  · obtain ⟨hr, hk⟩ := mem_of_get hget
    cases hpr : p r with
    | true => rw [get_filter fun r' hr' hk' => (hp r' hr' r hr hk' hk).trans hpr, hget]
    | false =>
      have hqr : q r = false := by
        by_contra hne
        simp [hq r (by simpa using hne)] at hpr
      rw [get_eq_none_iff.mpr fun r' hr' hk' => ?_]
      · rw [Option.filter_some, hqr]
        rfl
      · obtain ⟨hr', hpr'⟩ := List.mem_filter.mp hr'
        rw [hp r' hr' r hr hk' hk, hpr] at hpr'
        cases hpr'

end Table

section
variable {α : Type*} [DecidableEq α]

/-- The first of each, in order. -/
def firsts : List α → List α
  | [] => []
  | a :: as => a :: (firsts as).filter (· ≠ a)

theorem mem_firsts {a : α} {as : List α} : a ∈ firsts as ↔ a ∈ as := by
  induction as with
  | nil => rfl
  | cons b bs ih =>
    rw [firsts, List.mem_cons, List.mem_cons, List.mem_filter, ih]
    by_cases h : a = b <;> simp [h]

theorem nodup_firsts (as : List α) : (firsts as).Nodup := by
  induction as with
  | nil => exact List.nodup_nil
  | cons a as ih =>
    rw [firsts, List.nodup_cons]
    exact ⟨by simp, ih.filter _⟩

theorem firsts_of_forall_eq {a : α} {as : List α} (h : ∀ b ∈ as, b = a) : firsts as = if as = [] then [] else [a] := by
  cases as with
  | nil => rfl
  | cons b bs =>
    obtain ⟨rfl, hbs⟩ := List.forall_mem_cons.mp h
    have hnone : (firsts bs).filter (· ≠ b) = [] :=
      List.filter_eq_nil_iff.mpr fun c hc => by simp [hbs c (mem_firsts.mp hc)]
    rw [firsts, hnone, if_neg (List.cons_ne_nil _ _)]

/-- One more at the end changes nothing where it has come before. -/
theorem firsts_snoc (as : List α) (a : α) : firsts (as ++ [a]) = if a ∈ as then firsts as else firsts as ++ [a] := by
  induction as with
  | nil => simp [firsts]
  | cons b bs ih =>
    rw [List.cons_append, firsts, ih, firsts]
    by_cases hm : a ∈ bs
    · simp [hm]
    · by_cases hb : a = b
      · subst hb
        simp [hm]
      · simp [hm, hb]

end

end Claxedo.Lib

/-! Maps as tables of pairs, a value assigned where its key stands or at the end. -/

namespace Claxedo.Lib.Assoc

variable {κ ν : Type*} [DecidableEq κ]

def lookup (k : κ) (m : List (κ × ν)) : Option ν := (Table.get Prod.fst k m).map Prod.snd

def assign (k : κ) (v : ν) (m : List (κ × ν)) : List (κ × ν) := Table.put Prod.fst (k, v) m

@[simp] theorem lookup_nil (k : κ) : lookup k ([] : List (κ × ν)) = none := rfl

theorem lookup_assign (k k' : κ) (v : ν) (m : List (κ × ν)) :
    lookup k (assign k' v m) = if k' = k then some v else lookup k m := by
  unfold lookup assign
  rw [Table.get_put]
  split_ifs <;> rfl

def erase (k : κ) (m : List (κ × ν)) : List (κ × ν) := m.filter fun pair => pair.1 ≠ k

theorem lookup_erase (k k' : κ) (m : List (κ × ν)) : lookup k (erase k' m) = if k' = k then none else lookup k m := by
  unfold lookup erase
  split_ifs with h
  · rw [Table.get_eq_none_iff.mpr, Option.map_none]
    intro pair hpair
    simpa [h] using (List.mem_filter.mp hpair).2
  · rw [Table.get_filter]
    intro pair _ hk
    simp [hk, Ne.symm h]

theorem mem_iff_lookup {m : List (κ × ν)} (h : (m.map Prod.fst).Nodup) {pair : κ × ν} :
    pair ∈ m ↔ lookup pair.1 m = some pair.2 := by
  constructor
  · intro hmem
    rw [lookup, Table.get_of_mem h hmem]
    rfl
  · intro hlookup
    obtain ⟨found, hget, hvalue⟩ := Option.map_eq_some_iff.mp hlookup
    obtain ⟨hmem, hkey⟩ := Table.mem_of_get hget
    have hfound : found = pair := Prod.ext hkey hvalue
    exact hfound ▸ hmem

/-- Two maps that answer alike hold the same pairs. -/
theorem perm_of_lookup {m m' : List (κ × ν)} (h : (m.map Prod.fst).Nodup) (h' : (m'.map Prod.fst).Nodup)
    (hlookup : ∀ k, lookup k m = lookup k m') : m.Perm m' := by
  refine (List.perm_ext_iff_of_nodup h.of_map h'.of_map).mpr fun pair => ?_
  rw [mem_iff_lookup h, mem_iff_lookup h', hlookup]

end Claxedo.Lib.Assoc
