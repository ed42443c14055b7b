import Claxedo.Tasks.Contracts

/-! The task tree as the commands keep it: where each task is filed, under which parent, and how far it is.
Every command moves the place of one task. -/

namespace Claxedo.Tasks

/-- What the tree knows of a task. -/
@[ext] structure Place where
  projectId : String
  number : ℕ
  childNumber : Option ℕ
  workspaceId : Option String
  parentTaskId : Option String
  status : TaskStatus
  archived : Bool
  deriving DecidableEq

abbrev Forest := String × String → Option Place

/-- A child's place under its parent's. -/
structure Under (child parent : Place) : Prop where
  root : parent.parentTaskId = none
  project : parent.projectId = child.projectId
  number : parent.number = child.number
  done : parent.status = .done → child.archived = false → child.status = .done
  archived : parent.archived = true → child.archived = true

structure WellFormed (F : Forest) : Prop where
  filed : ∀ k a, F k = some a → (a.childNumber = none ↔ a.parentTaskId = none)
  parent : ∀ k a p, F k = some a → a.parentTaskId = some p → ∃ q, F (k.1, p) = some q ∧ Under a q

/-- No two tasks of a project hold one number. -/
def Distinct (F : Forest) : Prop :=
  ∀ k k' a a', F k = some a → F k' = some a' → k.1 = k'.1 → a.projectId = a'.projectId → a.number = a'.number →
    a.childNumber = a'.childNumber → k = k'

theorem wellFormed_empty : WellFormed fun _ => none := ⟨fun _ _ h => (nomatch h), fun _ _ _ h => (nomatch h)⟩

theorem distinct_empty : Distinct fun _ => none := fun _ _ _ _ h => nomatch h

variable {F : Forest} {k : String × String} {a : Place}

theorem WellFormed.root_of_child (h : WellFormed F) {y : String} {b : Place} (hb : F (k.1, y) = some b)
    (hparent : b.parentTaskId = some k.2) (ha : F k = some a) : a.parentTaskId = none := by
  obtain ⟨q, hq, hunder⟩ := h.parent _ _ _ hb hparent
  obtain rfl : q = a := Option.some.inj (hq.symm.trans ha)
  exact hunder.root

theorem WellFormed.ne_parent (h : WellFormed F) {p : String} (ha : F k = some a) (hp : a.parentTaskId = some p) : p ≠ k.2 := by
  rintro rfl
  have hroot := h.root_of_child (k := k) ha hp ha
  rw [hp] at hroot
  cases hroot

theorem WellFormed.update (h : WellFormed F) (hfiled : a.childNumber = none ↔ a.parentTaskId = none)
    (hparent : ∀ p, a.parentTaskId = some p → p ≠ k.2 ∧ ∃ q, F (k.1, p) = some q ∧ Under a q)
    (hchildren : ∀ y b, y ≠ k.2 → F (k.1, y) = some b → b.parentTaskId = some k.2 → Under b a) :
    WellFormed (Function.update F k (some a)) where
  filed k' a' h' := by
    rw [Function.update_apply] at h'
    split_ifs at h' with hk
    · obtain rfl := Option.some.inj h'
      exact hfiled
    · exact h.filed k' a' h'
  parent k' a' p h' hp := by
    rw [Function.update_apply] at h'
    split_ifs at h' with hk
    · obtain rfl := Option.some.inj h'
      subst hk
      obtain ⟨hne, q, hq, hunder⟩ := hparent p hp
      exact ⟨q, by rw [Function.update_of_ne (fun heq => hne (congrArg Prod.snd heq)), hq], hunder⟩
    · obtain ⟨q, hq, hunder⟩ := h.parent k' a' p h' hp
      by_cases hkp : (k'.1, p) = k
      · subst hkp
        refine ⟨a, Function.update_self .., hchildren k'.2 a' (fun heq => hk ?_) h' hp⟩
        exact Prod.ext rfl heq
      · exact ⟨q, by rw [Function.update_of_ne hkp, hq], hunder⟩

theorem Distinct.update (h : Distinct F)
    (hfree : ∀ k' a', k' ≠ k → F k' = some a' → k'.1 = k.1 → a'.projectId = a.projectId → a'.number = a.number →
      a'.childNumber ≠ a.childNumber) : Distinct (Function.update F k (some a)) := by
  intro k₁ k₂ a₁ a₂ h₁ h₂ hscope hproject hnumber hchild
  rw [Function.update_apply] at h₁ h₂
  by_cases hk₁ : k₁ = k
  · by_cases hk₂ : k₂ = k
    · rw [hk₁, hk₂]
    · rw [if_pos hk₁] at h₁
      rw [if_neg hk₂] at h₂
      obtain rfl := Option.some.inj h₁
      exact absurd hchild.symm (hfree k₂ a₂ hk₂ h₂ (hscope.symm.trans (congrArg Prod.fst hk₁)) hproject.symm hnumber.symm)
  · by_cases hk₂ : k₂ = k
    · rw [if_neg hk₁] at h₁
      rw [if_pos hk₂] at h₂
      obtain rfl := Option.some.inj h₂
      exact absurd hchild (hfree k₁ a₁ hk₁ h₁ (hscope.trans (congrArg Prod.fst hk₂)) hproject hnumber)
    · rw [if_neg hk₁] at h₁
      rw [if_neg hk₂] at h₂
      exact h k₁ k₂ a₁ a₂ h₁ h₂ hscope hproject hnumber hchild

/-- A task that stays where it is filed keeps its number to itself. -/
theorem Distinct.update_kept (h : Distinct F) {b : Place} (hb : F k = some b) (hproject : a.projectId = b.projectId)
    (hnumber : a.number = b.number) (hchild : a.childNumber = b.childNumber) : Distinct (Function.update F k (some a)) := by
  refine h.update fun k' a' hk ha' hscope hp hn hc => hk ?_
  exact h k' k a' b ha' hb hscope (hp.trans hproject) (hn.trans hnumber) (hc.trans hchild)

/-- A parent that takes children of the project: a root there, neither done nor archived. -/
structure OpenAt (F : Forest) (scopeId projectId p : String) (q : Place) : Prop where
  there : F (scopeId, p) = some q
  project : q.projectId = projectId
  root : q.parentTaskId = none
  living : q.archived = false
  unfinished : q.status ≠ .done

/-- Where a task is filed: a root under its own number, a child under its parent's, after its siblings. -/
def FiledAt (F : Forest) (scopeId : String) (a : Place) : Prop :=
  (a.parentTaskId = none ∧ a.childNumber = none) ∨
    ∃ p q n, a.parentTaskId = some p ∧ OpenAt F scopeId a.projectId p q ∧ a.number = q.number ∧
      a.workspaceId = q.workspaceId ∧ a.childNumber = some n ∧
      ∀ y c, F (scopeId, y) = some c → c.parentTaskId = some p → c.childNumber.getD 0 < n

def Childless (F : Forest) (k : String × String) : Prop := ∀ y c, F (k.1, y) = some c → c.parentTaskId ≠ some k.2

/-- The moves the commands make of one task's place. -/
inductive Move (F : Forest) (k : String × String) : Place → Prop where
  | created {a : Place} (hnew : F k = none) (hfiled : FiledAt F k.1 a) (hstatus : a.status = .todo ∨ a.status = .backlog)
      (hliving : a.archived = false) : Move F k a
  | edited {b : Place} (workspaceId : Option String) (hb : F k = some b) (hliving : b.archived = false) :
      Move F k { b with workspaceId := workspaceId }
  | statusSet {b : Place} (status : TaskStatus) (hb : F k = some b) (hliving : b.archived = false)
      (hdone : status = .done → ∀ y c, F (k.1, y) = some c → c.parentTaskId = some k.2 → c.archived = false → c.status = .done)
      (hback : b.status = .done → status ≠ .done → ∀ p, b.parentTaskId = some p → ∃ q, OpenAt F k.1 b.projectId p q) :
      Move F k { b with status := status }
  | refiled {b a : Place} (hb : F k = some b) (hliving : b.archived = false)
      (hmoved : a.projectId ≠ b.projectId ∨ a.parentTaskId ≠ b.parentTaskId)
      (hproject : a.projectId ≠ b.projectId → Childless F k) (hchild : a.parentTaskId ≠ none → Childless F k)
      (hself : a.parentTaskId ≠ some k.2) (hfiled : FiledAt F k.1 a)
      (hworkspace : a.parentTaskId = none → a.workspaceId = b.workspaceId)
      (hstatus : a.status = b.status) (harchived : a.archived = b.archived) : Move F k a
  | kept {b : Place} (workspaceId : Option String) (hb : F k = some b) (hliving : b.archived = false)
      (hworkspace : ∀ p, b.parentTaskId = some p → ∃ q, OpenAt F k.1 b.projectId p q ∧ workspaceId = q.workspaceId)
      (hroot : b.parentTaskId = none → workspaceId = b.workspaceId) : Move F k { b with workspaceId := workspaceId }
  | archived {b : Place} (hb : F k = some b) (hliving : b.archived = false)
      (hchildren : ∀ y c, F (k.1, y) = some c → c.parentTaskId = some k.2 → c.archived = true) :
      Move F k { b with archived := true }
  | restored {b : Place} (hb : F k = some b) (harchived : b.archived = true)
      (hopen : ∀ p, b.parentTaskId = some p → ∃ q, OpenAt F k.1 b.projectId p q) : Move F k { b with archived := false }

/-- A task is filed anew when it is created, and when its project or its parent is another. -/
def Files (F : Forest) (k : String × String) (a : Place) : Prop :=
  ∀ b, F k = some b → a.projectId ≠ b.projectId ∨ a.parentTaskId ≠ b.parentTaskId

theorem FiledAt.filed {scopeId : String} (h : FiledAt F scopeId a) : a.childNumber = none ↔ a.parentTaskId = none := by
  rcases h with ⟨hroot, hnone⟩ | ⟨p, q, n, hp, -, -, -, hn, -⟩
  · simp [hroot, hnone]
  · simp [hp, hn]

theorem FiledAt.under {scopeId p : String} (h : FiledAt F scopeId a) (hp : a.parentTaskId = some p) :
    ∃ q, F (scopeId, p) = some q ∧ Under a q := by
  rcases h with ⟨hroot, -⟩ | ⟨p', q, n, hp', hopen, hnumber, -, -, -⟩
  · rw [hroot] at hp
    cases hp
  · obtain rfl := Option.some.inj (hp'.symm.trans hp)
    exact ⟨q, hopen.there, hopen.root, hopen.project, hnumber.symm, fun hdone => absurd hdone hopen.unfinished,
      fun harchived => by rw [hopen.living] at harchived; cases harchived⟩

/-- A task whose place in the tree stays, changed in what its parent and its children leave open. -/
theorem WellFormed.replaced {b : Place} (h : WellFormed F) (hb : F k = some b)
    (hplace : a.projectId = b.projectId ∧ a.number = b.number ∧ a.childNumber = b.childNumber ∧
      a.parentTaskId = b.parentTaskId)
    (hparent : ∀ p q, b.parentTaskId = some p → F (k.1, p) = some q → Under b q →
      (q.status = .done → a.archived = false → a.status = .done) ∧ (q.archived = true → a.archived = true))
    (hchildren : ∀ y c, F (k.1, y) = some c → c.parentTaskId = some k.2 → Under c b →
      (a.status = .done → c.archived = false → c.status = .done) ∧ (a.archived = true → c.archived = true)) :
    WellFormed (Function.update F k (some a)) := by
  obtain ⟨hproject, hnumber, hchild, hsame⟩ := hplace
  refine h.update (by rw [hchild, hsame, h.filed k b hb]) ?_ ?_
  · intro p hp
    rw [hsame] at hp
    obtain ⟨q, hq, hunder⟩ := h.parent k b p hb hp
    obtain ⟨hdone, harchived⟩ := hparent p q hp hq hunder
    exact ⟨h.ne_parent hb hp, q, hq, hunder.root, hunder.project.trans hproject.symm, hunder.number.trans hnumber.symm, hdone,
      harchived⟩
  · intro y c _ hc hp
    obtain ⟨q, hq, hunder⟩ := h.parent _ _ _ hc hp
    obtain rfl : q = b := Option.some.inj (hq.symm.trans hb)
    obtain ⟨hdone, harchived⟩ := hchildren y c hc hp hunder
    exact ⟨hsame.trans hunder.root, hproject.trans hunder.project, hnumber.trans hunder.number, hdone, harchived⟩

theorem Move.wellFormed (hmove : Move F k a) (h : WellFormed F) : WellFormed (Function.update F k (some a)) := by
  cases hmove with
  | created hnew hfiled hstatus hliving =>
    refine h.update hfiled.filed (fun p hp => ?_) (fun y c _ hc hp => ?_)
    · obtain ⟨q, hq, hunder⟩ := hfiled.under hp
      refine ⟨?_, q, hq, hunder⟩
      rintro rfl
      rw [hnew] at hq
      cases hq
    · obtain ⟨q, hq, -⟩ := h.parent _ _ _ hc hp
      rw [hnew] at hq
      cases hq
  | edited workspaceId hb hliving =>
    exact h.replaced hb ⟨rfl, rfl, rfl, rfl⟩ (fun p q _ _ hunder => ⟨hunder.done, hunder.archived⟩)
      (fun y c _ _ hunder => ⟨hunder.done, hunder.archived⟩)
  | @statusSet b status hb hliving hdone hback =>
    refine h.replaced hb ⟨rfl, rfl, rfl, rfl⟩ (fun p q hp hq hunder => ⟨fun hqdone _ => ?_, hunder.archived⟩)
      (fun y c hc hp hunder => ⟨fun hs => hdone hs y c hc hp, hunder.archived⟩)
    by_contra hnot
    obtain ⟨q', hopen⟩ := hback (hunder.done hqdone hliving) hnot p hp
    obtain rfl : q = q' := Option.some.inj (hq.symm.trans hopen.there)
    exact hopen.unfinished hqdone
  | @refiled b _ hb hliving hmoved hproject hchild hself hfiled hworkspace hstatus harchived =>
    refine h.update hfiled.filed (fun p hp => ⟨fun heq => hself (heq ▸ hp), hfiled.under hp⟩) (fun y c _ hc hp => ?_)
    -- a task with children is moved nowhere: it has neither another project nor a parent
    obtain ⟨q, hq, hunder⟩ := h.parent _ _ _ hc hp
    obtain rfl : q = b := Option.some.inj (hq.symm.trans hb)
    have hsame : a.projectId = q.projectId := by
      by_contra hne
      exact hproject hne y c hc hp
    have hroot : a.parentTaskId = none := by
      by_contra hne
      exact hchild hne y c hc hp
    rcases hmoved with hne | hne
    · exact absurd hsame hne
    · exact absurd (hroot.trans hunder.root.symm) hne
  | kept workspaceId hb hliving hworkspace hroot =>
    exact h.replaced hb ⟨rfl, rfl, rfl, rfl⟩ (fun p q _ _ hunder => ⟨hunder.done, hunder.archived⟩)
      (fun y c _ _ hunder => ⟨hunder.done, hunder.archived⟩)
  | archived hb hliving hchildren =>
    exact h.replaced hb ⟨rfl, rfl, rfl, rfl⟩ (fun p q _ _ hunder => ⟨fun _ hfalse => (nomatch hfalse), fun _ => rfl⟩)
      (fun y c hc hp hunder => ⟨hunder.done, fun _ => hchildren y c hc hp⟩)
  | restored hb harchived hopen =>
    refine h.replaced hb ⟨rfl, rfl, rfl, rfl⟩ (fun p q hp hq hunder => ?_)
      (fun y c hc hp hunder => ⟨hunder.done, fun hfalse => (nomatch hfalse)⟩)
    obtain ⟨q', hopen⟩ := hopen p hp
    obtain rfl : q = q' := Option.some.inj (hq.symm.trans hopen.there)
    exact ⟨fun hdone => absurd hdone hopen.unfinished, fun harch => by rw [hopen.living] at harch; cases harch⟩

/-- A child's number is its own where siblings differ and a root's number is free of every other task. -/
theorem Move.distinct (hmove : Move F k a) (h : WellFormed F) (hd : Distinct F)
    (hfree : Files F k a → a.parentTaskId = none →
      ∀ k' a', k' ≠ k → F k' = some a' → k'.1 = k.1 → a'.projectId = a.projectId → a'.childNumber = none → a'.number ≠ a.number) :
    Distinct (Function.update F k (some a)) := by
  have hfiles : Files F k a → FiledAt F k.1 a → Distinct (Function.update F k (some a)) := by
    intro hfiles hfiled
    refine hd.update fun k' a' hk ha' hscope hproject hnumber hchild => ?_
    rcases hfiled with ⟨hroot, hnone⟩ | ⟨p, q, n, hp, hopen, hqnumber, -, hn, hafter⟩
    · exact hfree hfiles hroot k' a' hk ha' hscope hproject (hchild.trans hnone) hnumber
    · rcases hp' : a'.parentTaskId with _ | p'
      · rw [(h.filed k' a' ha').mpr hp', hn] at hchild
        cases hchild
      · obtain ⟨q', hq', hunder⟩ := h.parent k' a' p' ha' hp'
        rw [hscope] at hq'
        have hsame := hd (k.1, p') (k.1, p) q' q hq' hopen.there rfl (hunder.project.trans (hproject.trans hopen.project.symm))
          (hunder.number.trans (hnumber.trans hqnumber))
          (((h.filed _ _ hq').mpr hunder.root).trans ((h.filed _ _ hopen.there).mpr hopen.root).symm)
        obtain rfl : p' = p := congrArg Prod.snd hsame
        have hlt := hafter k'.2 a' (by rw [← hscope]; exact ha') hp'
        rw [hchild, hn] at hlt
        exact absurd hlt (lt_irrefl n)
  cases hmove with
  | created hnew hfiled hstatus hliving => exact hfiles (fun b hb => by rw [hnew] at hb; cases hb) hfiled
  | edited workspaceId hb hliving => exact hd.update_kept hb rfl rfl rfl
  | statusSet status hb hliving hdone hback => exact hd.update_kept hb rfl rfl rfl
  | @refiled b _ hb hliving hmoved hproject hchild hself hfiled hworkspace hstatus harchived =>
    refine hfiles (fun b' hb' => ?_) hfiled
    obtain rfl : b = b' := Option.some.inj (hb.symm.trans hb')
    exact hmoved
  | kept workspaceId hb hliving hworkspace hroot => exact hd.update_kept hb rfl rfl rfl
  | archived hb hliving hchildren => exact hd.update_kept hb rfl rfl rfl
  | restored hb harchived hopen => exact hd.update_kept hb rfl rfl rfl

end Claxedo.Tasks
