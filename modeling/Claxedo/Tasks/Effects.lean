import Claxedo.Tasks.Ledger
import Claxedo.Tasks.Traces
import Claxedo.Tasks.Store
import Claxedo.Tasks.Forest

/-! What a unit does to the rows it commits over, where they answer its reads and take its writes in
order. The project's next number may have been read of other rows. -/

namespace Claxedo.Tasks

open Claxedo.Lib Claxedo.Lib.Program

def Task.place (t : Task) : Place :=
  ⟨t.projectId, t.number, t.childNumber, t.workspaceId, t.parentTaskId, t.status, t.archivedAt.isSome⟩

def Rows.forest (rows : Rows) : Forest := fun k => (rows.task k).map Task.place

theorem Rows.forest_putTask (rows : Rows) (t : Task) :
    (rows.putTask t).forest = Function.update rows.forest t.key (some t.place) := by
  funext k
  rw [Function.update_apply, Rows.forest, Rows.task_putTask]
  by_cases h : t.key = k
  · rw [if_pos h, if_pos h.symm, Option.map_some]
  · rw [if_neg h, if_neg (Ne.symm h), Rows.forest]

variable {rows : Rows}

theorem Rows.forest_of_task {k : Key} {t : Task} (h : rows.task k = some t) : rows.forest k = some t.place := by
  rw [Rows.forest, h, Option.map_some]

/-- What one write answered and left. -/
def Wrote (rows rows₁ : Rows) {β : Type} (op : WriteOp β) : β → Prop :=
  match op with
  | .presetInsert preset => fun _ => rows.preset preset.key = none ∧ rows₁ = rows.putPreset preset
  | .presetUpdate preset revision => fun answer =>
    if answer then (∃ c, rows.preset preset.key = some c ∧ c.revision = revision) ∧ rows₁ = rows.putPreset preset else rows₁ = rows
  | .presetAssertRevision _ _ => fun _ => rows₁ = rows
  | .taskInsert task => fun _ => rows.task task.key = none ∧ rows₁ = rows.putTask task
  | .taskUpdate task revision => fun answer =>
    if answer then (∃ c, rows.task task.key = some c ∧ c.revision = revision) ∧ rows₁ = rows.putTask task else rows₁ = rows
  | .attachmentInsert attachment => fun _ => rows₁ = rows.putAttachment attachment
  | .linkInsert link => fun
    | .inserted => rows.link link.key = none ∧ rows₁ = rows.putLink link
    | .exists held => rows.link link.key = some held ∧ rows₁ = rows
  | .receiptPut receipt => fun answer =>
    if answer then rows.receipt receipt.key = none ∧ rows₁ = rows.putReceipt receipt else rows₁ = rows

theorem wrote_of_write {β : Type} {op : WriteOp β} {b : β} {rows₁ : Rows} (h : rows.write op = .ok (b, rows₁)) :
    Wrote rows rows₁ op b := by
  have hat {α : Type} {row : Option α} {f : α → ℕ} {revision : ℕ} (hany : row.any (f · = revision) = true) :
      ∃ c, row = some c ∧ f c = revision := by
    obtain ⟨c, hc, hrev⟩ := (Option.any_eq_true _ _).mp hany
    exact ⟨c, hc, by simpa using hrev⟩
  cases op with
  | presetInsert preset =>
    simp only [Rows.write] at h
    split_ifs at h with hnew
    cases h
    exact ⟨hnew, rfl⟩
  | presetUpdate preset revision =>
    simp only [Rows.write] at h
    split_ifs at h with hany
    · cases h
      exact ⟨hat hany, rfl⟩
    · cases h
      exact (rfl : rows = rows)
  | presetAssertRevision k revision =>
    cases h
    exact (rfl : rows = rows)
  | taskInsert task =>
    simp only [Rows.write] at h
    split_ifs at h with hnew
    cases h
    exact ⟨hnew, rfl⟩
  | taskUpdate task revision =>
    simp only [Rows.write] at h
    split_ifs at h with hany
    · cases h
      exact ⟨hat hany, rfl⟩
    · cases h
      exact (rfl : rows = rows)
  | attachmentInsert attachment =>
    simp only [Rows.write] at h
    split_ifs at h
    cases h
    exact (rfl : rows.putAttachment attachment = _)
  | linkInsert link =>
    simp only [Rows.write] at h
    rcases hlink : rows.link link.key with _ | stored
    · rw [hlink] at h
      cases h
      exact ⟨hlink, rfl⟩
    · rw [hlink] at h
      cases h
      exact ⟨hlink, rfl⟩
  | receiptPut receipt =>
    simp only [Rows.write] at h
    split_ifs at h with hnew
    · cases h
      exact ⟨hnew, rfl⟩
    · cases h
      exact (rfl : rows = rows)

/-- The writes, each answered as the rows before it answer. -/
def WritesApply : Rows → List (Asked WriteOp) → Rows → Prop := Trail fun s a s' => s.write a.op = .ok (a.answer, s')

def ReadOp.numbers {β : Type} : ReadOp β → Bool
  | .nextNumber .. => true
  | _ => false

/-- The trace over `rows`: the reads they answer, numbers aside, and the writes that take them to `rows'`. -/
structure Serial (rows : Rows) (t : Trace) (rows' : Rows) : Prop where
  reads : ∀ a ∈ t.reads, a.op.numbers = false → rows.read a.op = a.answer
  writes : WritesApply rows t.writes rows'

section
variable {rows rows' : Rows} {ws : List (Asked WriteOp)}

theorem writesApply_nil : WritesApply rows [] rows' ↔ rows = rows' := Iff.rfl

theorem writesApply_append {ws₁ ws₂ : List (Asked WriteOp)} (h : WritesApply rows (ws₁ ++ ws₂) rows') :
    ∃ rows₁, WritesApply rows ws₁ rows₁ ∧ WritesApply rows₁ ws₂ rows' := Trail.split h

variable {revision : ℕ}

theorem writesApply_taskUpdate {t : Task} (h : WritesApply rows (⟨.taskUpdate t revision, true⟩ :: ws) rows') :
    ∃ c, rows.task t.key = some c ∧ c.revision = revision ∧ WritesApply (rows.putTask t) ws rows' := by
  obtain ⟨rows₁, hwrite, hrest⟩ := h
  obtain ⟨⟨c, hc, hrev⟩, rfl⟩ := wrote_of_write hwrite
  exact ⟨c, hc, hrev, hrest⟩

theorem writesApply_taskInsert {t : Task} {u : Unit} (h : WritesApply rows (⟨.taskInsert t, u⟩ :: ws) rows') :
    rows.task t.key = none ∧ WritesApply (rows.putTask t) ws rows' := by
  obtain ⟨rows₁, hwrite, hrest⟩ := h
  obtain ⟨hnew, rfl⟩ := wrote_of_write hwrite
  exact ⟨hnew, hrest⟩

theorem writesApply_attachments {attachments : List TaskAttachmentRecord} (h : WritesApply rows (attachmentWrites attachments) rows') :
    rows' = { rows with attachments := rows'.attachments } := by
  induction attachments generalizing rows with
  | nil =>
    obtain rfl : rows = rows' := h
    rfl
  | cons a attachments ih =>
    obtain ⟨rows₁, hwrite, hrest⟩ := h
    obtain rfl : rows₁ = rows.putAttachment a := wrote_of_write hwrite
    have hframe := ih hrest
    exact hframe

theorem writesApply_presetInsert {p : Preset} {u : Unit} (h : WritesApply rows (⟨.presetInsert p, u⟩ :: ws) rows') :
    rows.preset p.key = none ∧ WritesApply (rows.putPreset p) ws rows' := by
  obtain ⟨rows₁, hwrite, hrest⟩ := h
  obtain ⟨hnew, rfl⟩ := wrote_of_write hwrite
  exact ⟨hnew, hrest⟩

theorem writesApply_presetUpdate {p : Preset} (h : WritesApply rows (⟨.presetUpdate p revision, true⟩ :: ws) rows') :
    ∃ c, rows.preset p.key = some c ∧ c.revision = revision ∧ WritesApply (rows.putPreset p) ws rows' := by
  obtain ⟨rows₁, hwrite, hrest⟩ := h
  obtain ⟨⟨c, hc, hrev⟩, rfl⟩ := wrote_of_write hwrite
  exact ⟨c, hc, hrev, hrest⟩

theorem writesApply_assert {k : Key} (h : WritesApply rows (⟨.presetAssertRevision k revision, true⟩ :: ws) rows') :
    WritesApply rows ws rows' := by
  obtain ⟨rows₁, hwrite, hrest⟩ := h
  obtain rfl : rows₁ = rows := wrote_of_write hwrite
  exact hrest

theorem writesApply_linkInserted {l : TaskSessionLink} (h : WritesApply rows (⟨.linkInsert l, .inserted⟩ :: ws) rows') :
    rows.link l.key = none ∧ WritesApply (rows.putLink l) ws rows' := by
  obtain ⟨rows₁, hwrite, hrest⟩ := h
  obtain ⟨hnew, rfl⟩ := wrote_of_write hwrite
  exact ⟨hnew, hrest⟩

theorem writesApply_linkExists {l held : TaskSessionLink} (h : WritesApply rows (⟨.linkInsert l, .exists held⟩ :: ws) rows') :
    rows.link l.key = some held ∧ WritesApply rows ws rows' := by
  obtain ⟨rows₁, hwrite, hrest⟩ := h
  obtain ⟨hheld, rfl⟩ := wrote_of_write hwrite
  exact ⟨hheld, hrest⟩

theorem writesApply_receiptPut {r : TasksCommandReceipt} (h : WritesApply rows (⟨.receiptPut r, true⟩ :: ws) rows') :
    rows.receipt r.key = none ∧ WritesApply (rows.putReceipt r) ws rows' := by
  obtain ⟨rows₁, hwrite, hrest⟩ := h
  obtain ⟨hnew, rfl⟩ := wrote_of_write hwrite
  exact ⟨hnew, hrest⟩

end

/-- The bumps of parents that stood as they were read: no place moves, and each owed one is settled. -/
theorem Grows.touches {base rows' : Rows} {owed : Key → Prop} {parents : List Task} {now : ℕ} (h : Grows owed base rows)
    (hparents : ∀ q ∈ parents, base.task q.key = some q) (hw : WritesApply rows (touches now parents) rows') :
    Grows (fun k => owed k ∧ ∀ q ∈ parents, q.key ≠ k) base rows' ∧ rows'.forest = rows.forest ∧
      rows' = { rows with tasks := rows'.tasks } := by
  induction parents generalizing rows owed with
  | nil =>
    obtain rfl : rows = rows' := hw
    exact ⟨h.mono fun k hk => ⟨hk, fun q hq => (nomatch hq)⟩, rfl, rfl⟩
  | cons q parents ih =>
    obtain ⟨c, hc, hrev, hrest⟩ := writesApply_taskUpdate hw
    obtain ⟨c', hc', -, hsame⟩ := h.task q.key q (hparents q List.mem_cons_self)
    obtain rfl : c = c' := Option.some.inj (hc.symm.trans hc')
    obtain ⟨rfl, -⟩ := hsame hrev
    have hbump : Grows (fun k => owed k ∧ c.key ≠ k) base (rows.putTask (c.touched now)) := by
      refine h.bump hc (Nat.lt_succ_self _) fun k hk hno => ⟨fun howed => hno ⟨howed, Ne.symm hk⟩, rfl⟩
    obtain ⟨hgrows, hforest, hframe⟩ := ih hbump (fun q hq => hparents q (List.mem_cons_of_mem _ hq)) hrest
    refine ⟨hgrows.mono fun k hk => ⟨hk.1.1, ?_⟩, ?_, hframe⟩
    · intro q hq
      rcases List.mem_cons.mp hq with rfl | hq
      · exact hk.1.2
      · exact hk.2 q hq
    · rw [hforest, Rows.forest_putTask]
      exact Function.update_eq_self_iff.mpr (Rows.forest_of_task hc).symm

/-! What the counts say of the forest. -/

theorem le_foldl_max {n m : ℕ} {ns : List ℕ} (h : n ∈ ns ∨ n ≤ m) : n ≤ ns.foldl max m := by
  induction ns generalizing m with
  | nil =>
    rcases h with h | h
    · cases h
    · exact h
  | cons a as ih =>
    refine ih ?_
    rcases h with h | h
    · rcases List.mem_cons.mp h with rfl | h
      · exact .inr (le_max_right _ _)
      · exact .inl h
    · exact .inr (h.trans (le_max_left _ _))

section
variable {rows : Rows} {k : Key} {y : String} {c : Place}

theorem Rows.exists_of_forest (h : rows.forest k = some c) : ∃ t, rows.task k = some t ∧ t.place = c := Option.map_eq_some_iff.mp h

theorem Rows.mem_childrenOf (h : rows.forest (k.1, y) = some c) (hp : c.parentTaskId = some k.2) :
    ∃ t ∈ rows.childrenOf k, t.place = c := by
  obtain ⟨t, ht, rfl⟩ := rows.exists_of_forest h
  have hscope : t.scopeId = k.1 := congrArg Prod.fst (Rows.task_key ht)
  have hparent : t.parentTaskId = some k.2 := hp
  exact ⟨t, List.mem_filter.mpr ⟨Rows.task_mem ht, by simp [hscope, hparent]⟩, rfl⟩

theorem of_countChildren_zero {includeArchived : Bool} {excludeStatus : Option TaskStatus}
    (hcount : rows.countChildren k includeArchived excludeStatus = 0) (h : rows.forest (k.1, y) = some c)
    (hp : c.parentTaskId = some k.2) :
    ¬ ((includeArchived = true ∨ c.archived = false) ∧ ∀ status ∈ excludeStatus, c.status ≠ status) := by
  obtain ⟨t, ht, rfl⟩ := Rows.mem_childrenOf h hp
  have hnot := List.filter_eq_nil_iff.mp (List.length_eq_zero_iff.mp hcount) t ht
  intro hcounted
  refine hnot (decide_eq_true ⟨hcounted.1.imp_right fun hfalse => ?_, hcounted.2⟩)
  exact Option.isNone_iff_eq_none.mp (Option.isSome_eq_false_iff.mp hfalse)

theorem childless_of_count (hcount : rows.countChildren k true none = 0) : Childless rows.forest k := fun _ _ h hp =>
  of_countChildren_zero hcount h hp ⟨.inl rfl, fun _ hs => (nomatch hs)⟩

theorem lt_nextChildNumber (h : rows.forest (k.1, y) = some c) (hp : c.parentTaskId = some k.2) :
    c.childNumber.getD 0 < rows.nextChildNumber k := by
  obtain ⟨t, ht, rfl⟩ := Rows.mem_childrenOf h hp
  exact Nat.lt_succ_of_le (le_foldl_max (.inl (List.mem_map.mpr ⟨t, ht, rfl⟩)))

theorem lt_nextNumber (h : rows.forest k = some c) : c.number < rows.nextNumber k.1 c.projectId := by
  obtain ⟨t, ht, rfl⟩ := rows.exists_of_forest h
  have hscope : t.scopeId = k.1 := congrArg Prod.fst (Rows.task_key ht)
  refine Nat.lt_succ_of_le (le_foldl_max (.inl (List.mem_map.mpr ⟨t, List.mem_filter.mpr ⟨Rows.task_mem ht, ?_⟩, rfl⟩)))
  simp [hscope, Task.place]

end

/-! One command over the rows it commits to. -/

/-- The trace changed the rows so: nothing of the tree, one place of it, or the links of one task. -/
inductive TreeEffect (t : Trace) (rows rows' : Rows) : Prop where
  | quiet (hforest : rows'.forest = rows.forest) (hlinks : rows'.links = rows.links)
  | moved (k : Key) (a : Place) (hmove : Move rows.forest k a) (hforest : rows'.forest = Function.update rows.forest k (some a))
      (hnumber : Files rows.forest k a → a.parentTaskId = none → ⟨.nextNumber k.1 a.projectId, a.number⟩ ∈ t.reads)
      (hlinks : rows'.links = rows.links)
  | linked (l : TaskSessionLink) (hforest : rows'.forest = rows.forest) (hnew : rows.link l.key = none)
      (hlinks : rows'.links = rows.links ++ [l])

/-- What an update and its parents' bumps do, where the parents are those whose children it changes. -/
theorem grows_of_update {rows' : Rows} {c next : Task} {former nextParents : List Task} {now₁ now₂ revision : ℕ}
    (hw : WritesApply rows (⟨.taskUpdate next revision, true⟩ :: (touches now₁ former ++ touches now₂ nextParents)) rows')
    (hc : rows.task c.key = some c) (hkey : next.key = c.key) (hrevision : next.revision = c.revision + 1)
    (hformer : ∀ q ∈ former, rows.task q.key = some q) (hnext : ∀ q ∈ nextParents, rows.task q.key = some q)
    (howed : ∀ k d, rows.task k = some d → childEntry k next ≠ childEntry k c → ∃ q ∈ former ++ nextParents, q.key = k) :
    Grows (fun _ => False) rows rows' ∧ rows'.forest = Function.update rows.forest next.key (some next.place) ∧
      rows'.links = rows.links := by
  obtain ⟨c', hc', -, hrest⟩ := writesApply_taskUpdate hw
  obtain rfl : c = c' := Option.some.inj (hc.symm.trans (hkey ▸ hc'))
  obtain ⟨rows₁, hfirst, hsecond⟩ := writesApply_append hrest
  have hbump : Grows (fun k => childEntry k next ≠ childEntry k c) rows (rows.putTask next) := by
    refine (Grows.refl (fun _ => False) rows).bump hc' (by omega) fun k _ hno => ⟨id, ?_⟩
    exact not_not.mp hno
  obtain ⟨hgrows₁, hforest₁, hframe₁⟩ := hbump.touches hformer hfirst
  obtain ⟨hgrows₂, hforest₂, hframe₂⟩ := hgrows₁.touches hnext hsecond
  refine ⟨hgrows₂.paid fun k d hd => ?_, ?_, ?_⟩
  · rintro ⟨⟨hentry, hno₁⟩, hno₂⟩
    obtain ⟨q, hq, hqk⟩ := howed k d hd hentry
    rcases List.mem_append.mp hq with hq | hq
    · exact hno₁ q hq hqk
    · exact hno₂ q hq hqk
  · rw [hforest₂, hforest₁, Rows.forest_putTask]
  · rw [hframe₂, hframe₁]
    rfl

theorem childEntry_ne {k : Key} {a b : Task} (h : childEntry k a ≠ childEntry k b) :
    (a.scopeId = k.1 ∧ a.parentTaskId = some k.2) ∨ (b.scopeId = k.1 ∧ b.parentTaskId = some k.2) := by
  by_contra hno
  rw [not_or] at hno
  exact h (by rw [childEntry, childEntry, if_neg hno.1, if_neg hno.2])

section
variable {actor : TasksActor} {t : Trace} {rows rows' : Rows} {rs : List (Asked ReadOp)} {ws : List (Asked WriteOp)}

theorem Serial.read {β : Type} {op : ReadOp β} {b : β} (hs : Serial rows t rows') (h : Summary t rs ws) (hmem : ⟨op, b⟩ ∈ rs)
    (hop : op.numbers = false) : rows.read op = b := hs.reads ⟨op, b⟩ (by rw [h.reads]; exact hmem) hop

theorem Serial.apply (hs : Serial rows t rows') (h : Summary t rs ws) : WritesApply rows ws rows' := by
  have hw := hs.writes
  rwa [h.writes] at hw

variable {scopeId : String}

/-- A parent that was read stands where its child names it. -/
theorem Serial.parent {scopeId : String} {parentTaskId : Option String} {parent : Option Task} (hs : Serial rows t rows')
    (hsub : ∀ a ∈ parentReads scopeId parentTaskId parent, a ∈ t.reads) (p : String) (hp : parentTaskId = some p) :
    rows.task (scopeId, p) = parent := by
  subst hp
  exact hs.reads _ (hsub _ (List.mem_singleton.mpr rfl)) rfl

theorem Serial.childless {input : TaskReparentInput} {c : Task} {next former : Option Task} {filing : List (Asked ReadOp)}
    (hs : Serial rows t rows') (h : ReparentReads actor input c next former filing t.reads)
    (hmoves : input.projectId ≠ c.projectId ∨ input.parentTaskId ≠ none) : Childless rows.forest (actor.scopeId, c.id) :=
  childless_of_count (hs.reads _ (h.childless hmoves) rfl)

theorem openAt_of_open {projectId p : String} {q : Task} (hq : rows.task (scopeId, p) = some q) (h : OpenParent projectId q) :
    OpenAt rows.forest scopeId projectId p q.place := by
  obtain ⟨hproject, hroot, harchived, hstatus⟩ := h
  exact ⟨Rows.forest_of_task hq, hproject, hroot, by simp [Task.place, harchived], hstatus⟩

/-- What a committed unit did. -/
structure Effect (t : Trace) (rows rows' : Rows) : Prop where
  grows : Grows (fun _ => False) rows rows'
  tree : TreeEffect t rows rows'

variable {result : Task × Option Task}

theorem effect_edit {input : TaskEditInput} (h : Follows (edit actor input) t result) (hs : Serial rows t rows') :
    Effect t rows rows' := by
  obtain ⟨c, now, hfound, hopen, hsummary, rfl⟩ := summary_edit h
  have hc : rows.task c.key = some c := Rows.task_self (hs.read hsummary List.mem_cons_self rfl)
  have hplace := Rows.forest_of_task hc
  have hw : WritesApply rows (_ :: (touches 0 [] ++ touches 0 [])) rows' := hs.apply hsummary
  obtain ⟨hgrows, hforest, hlinks⟩ := grows_of_update hw hc rfl rfl (fun q hq => by cases hq) (fun q hq => by cases hq)
    (fun k d _ hne => absurd rfl hne)
  refine ⟨hgrows, .moved c.key _ (.edited input.workspaceId hplace ?_) hforest (fun hfiles _ => ?_) hlinks⟩
  · simp [Task.place, hopen]
  · rcases hfiles _ hplace with hne | hne
    · exact absurd rfl hne
    · exact absurd rfl hne

section
variable {scopeId : String} {parentTaskId : Option String} {parent : Option Task}

theorem owed_parent (hread : ∀ p, parentTaskId = some p → rows.task (scopeId, p) = parent) {c next : Task} {k : Key} {d : Task}
    (hd : rows.task k = some d) (hne : childEntry k next ≠ childEntry k c)
    (hscope : c.scopeId = scopeId) (hscope' : next.scopeId = scopeId) (hparent : c.parentTaskId = parentTaskId)
    (hparent' : next.parentTaskId = parentTaskId) : ∃ q ∈ [] ++ parent.toList, q.key = k := by
  have hk : scopeId = k.1 ∧ parentTaskId = some k.2 := by
    rcases childEntry_ne hne with hk | hk
    · rwa [hscope', hparent'] at hk
    · rwa [hscope, hparent] at hk
  have hparentRow := hread k.2 hk.2
  rw [show (scopeId, k.2) = k from Prod.ext hk.1 rfl, hd] at hparentRow
  exact ⟨d, by simp [← hparentRow], Rows.task_key hd⟩

theorem parents_there (hread : ∀ p, parentTaskId = some p → rows.task (scopeId, p) = parent)
    (hnone : parentTaskId = none → parent = none) : ∀ q ∈ parent.toList, rows.task q.key = some q := by
  intro q hq
  have hq : parent = some q := by simpa using hq
  rcases hp : parentTaskId with _ | p
  · rw [hnone hp] at hq
    cases hq
  · exact Rows.task_self ((hread p hp).trans hq)

theorem openAt_of_read {projectId p : String} (hread : ∀ p, parentTaskId = some p → rows.task (scopeId, p) = parent)
    (hnone : parent = none → parentTaskId = none) (hall : ∀ q ∈ parent, OpenParent projectId q)
    (hp : parentTaskId = some p) : ∃ q ∈ parent, OpenAt rows.forest scopeId projectId p q.place := by
  rcases hparent : parent with _ | q
  · rw [hnone hparent] at hp
    cases hp
  · exact ⟨q, rfl, openAt_of_open ((hread p hp).trans hparent) (hall q hparent)⟩

end

theorem effect_setStatus {input : TaskSetStatusInput} (h : Follows (setStatus actor input) t result)
    (hs : Serial rows t rows') : Effect t rows rows' := by
  obtain ⟨c, parent, now, now', hfound, hopen, hsummary, hnone, hback, rfl⟩ := summary_setStatus h
  have hc : rows.task c.key = some c := Rows.task_self (hs.read hsummary List.mem_cons_self rfl)
  have hplace := Rows.forest_of_task hc
  have hread : ∀ p, c.parentTaskId = some p → rows.task (actor.scopeId, p) = parent :=
    hs.parent fun a ha => hsummary.reads ▸ List.mem_cons_of_mem _ (List.mem_append_right _ ha)
  have hw : WritesApply rows (_ :: (touches 0 [] ++ touches now' parent.toList)) rows' := hs.apply hsummary
  obtain ⟨hgrows, hforest, hlinks⟩ := grows_of_update hw hc rfl rfl (fun q hq => by cases hq) (parents_there hread hnone)
    (fun k d hd hne => owed_parent hread hd hne hfound.scopeId hfound.scopeId rfl rfl)
  refine ⟨hgrows, .moved c.key _ (.statusSet input.status hplace ?_ ?_ ?_) hforest (fun hfiles _ => ?_) hlinks⟩
  · simp [Task.place, hopen]
  · intro hdone y b hb hp hliving
    rw [if_pos hdone] at hsummary
    have hcount : rows.read (.countChildren (actor.scopeId, c.id) false (some .done)) = 0 :=
      hs.read hsummary (List.mem_cons_of_mem _ List.mem_cons_self) rfl
    rw [← hfound.scopeId] at hcount
    have hnot := of_countChildren_zero hcount hb hp
    by_contra hne
    exact hnot ⟨.inr hliving, fun status hstatus => by cases hstatus; exact hne⟩
  · intro hdone hne p hp
    obtain ⟨hiff, hall⟩ := hback hdone hne
    obtain ⟨q, -, hopenAt⟩ := openAt_of_read hread hiff hall hp
    exact ⟨q.place, by rw [show c.key.1 = actor.scopeId from hfound.scopeId]; exact hopenAt⟩
  · rcases hfiles _ hplace with hne | hne
    · exact absurd rfl hne
    · exact absurd rfl hne

theorem effect_archive {input : RowInput} (h : Follows (archive actor input) t result) (hs : Serial rows t rows') :
    Effect t rows rows' := by
  obtain ⟨c, parent, now, now', hfound, hopen, hsummary, hnone, rfl⟩ := summary_archive h
  have hc : rows.task c.key = some c := Rows.task_self (hs.read hsummary List.mem_cons_self rfl)
  have hplace := Rows.forest_of_task hc
  have hread : ∀ p, c.parentTaskId = some p → rows.task (actor.scopeId, p) = parent :=
    hs.parent fun a ha => hsummary.reads ▸ List.mem_cons_of_mem _ (List.mem_cons_of_mem _ ha)
  have hw : WritesApply rows (_ :: (touches 0 [] ++ touches now' parent.toList)) rows' := hs.apply hsummary
  obtain ⟨hgrows, hforest, hlinks⟩ := grows_of_update hw hc rfl rfl (fun q hq => by cases hq) (parents_there hread hnone)
    (fun k d hd hne => owed_parent hread hd hne hfound.scopeId hfound.scopeId rfl rfl)
  refine ⟨hgrows, .moved c.key _ (.archived hplace ?_ ?_) hforest (fun hfiles _ => ?_) hlinks⟩
  · simp [Task.place, hopen]
  · intro y b hb hp
    have hcount : rows.read (.countChildren (actor.scopeId, c.id) false none) = 0 :=
      hs.read hsummary (List.mem_cons_of_mem _ List.mem_cons_self) rfl
    rw [← hfound.scopeId] at hcount
    have hnot := of_countChildren_zero hcount hb hp
    by_contra hne
    exact hnot ⟨.inr (by simpa using hne), fun status hstatus => by cases hstatus⟩
  · rcases hfiles _ hplace with hne | hne
    · exact absurd rfl hne
    · exact absurd rfl hne

theorem effect_restore {input : RowInput} (h : Follows (restore actor input) t result) (hs : Serial rows t rows') :
    Effect t rows rows' := by
  obtain ⟨c, parent, now, now', hfound, harchived, hsummary, hiff, hall, rfl⟩ := summary_restore h
  have hc : rows.task c.key = some c := Rows.task_self (hs.read hsummary List.mem_cons_self rfl)
  have hplace := Rows.forest_of_task hc
  have hread : ∀ p, c.parentTaskId = some p → rows.task (actor.scopeId, p) = parent :=
    hs.parent fun a ha => hsummary.reads ▸ List.mem_cons_of_mem _ ha
  have hw : WritesApply rows (_ :: (touches 0 [] ++ touches now' parent.toList)) rows' := hs.apply hsummary
  obtain ⟨hgrows, hforest, hlinks⟩ := grows_of_update hw hc rfl rfl (fun q hq => by cases hq) (parents_there hread hiff.mpr)
    (fun k d hd hne => owed_parent hread hd hne hfound.scopeId hfound.scopeId rfl rfl)
  refine ⟨hgrows, .moved c.key _ (.restored hplace ?_ ?_) hforest (fun hfiles _ => ?_) hlinks⟩
  · simpa [Task.place, Option.isSome_iff_ne_none] using harchived
  · intro p hp
    obtain ⟨q, -, hopenAt⟩ := openAt_of_read hread hiff.mp hall hp
    exact ⟨q.place, by rw [show c.key.1 = actor.scopeId from hfound.scopeId]; exact hopenAt⟩
  · rcases hfiles _ hplace with hne | hne
    · exact absurd rfl hne
    · exact absurd rfl hne

theorem filedAt_of_reads {projectId : String} {id : Option String} {parent : Option Task} {a : Place}
    (hread : ∀ p, id = some p → rows.task (scopeId, p) = parent) (hiff : parent = none ↔ id = none)
    (hall : ∀ q ∈ parent, OpenParent projectId q)
    (hfiled : (a.number, a.childNumber) = parent.elim (a.number, none) fun q => (q.number, some (a.childNumber.getD 0)))
    (hnext : ∀ q ∈ parent, rows.nextChildNumber (scopeId, q.id) = a.childNumber.getD 0) (hproject : a.projectId = projectId)
    (hparent : a.parentTaskId = id) (hworkspace : ∀ q ∈ parent, a.workspaceId = q.workspaceId) :
    FiledAt rows.forest scopeId a := by
  rcases hp : id with _ | p
  · obtain rfl := hiff.mpr hp
    exact .inl ⟨hparent.trans hp, (Prod.mk.inj hfiled).2⟩
  · obtain ⟨q, hq, hopen⟩ := openAt_of_read hread hiff.mp hall hp
    obtain rfl : parent = some q := hq
    obtain ⟨hnumber, hchild⟩ := Prod.mk.inj hfiled
    have hid : q.id = p := congrArg Prod.snd (Rows.task_key (hread p hp))
    refine .inr ⟨p, q.place, a.childNumber.getD 0, hparent.trans hp, hproject ▸ hopen, hnumber, hworkspace q rfl, hchild, ?_⟩
    intro y c hc hcp
    rw [← hnext q rfl, hid]
    exact lt_nextChildNumber hc hcp

theorem effect_create {draft : TaskDraft} (h : Follows (create actor draft) t result) (hs : Serial rows t rows') :
    Effect t rows rows' := by
  obtain ⟨parent, task, attachments, now, hsummary, hiff, hall, hcreated, -, rfl⟩ := summary_create h
  have hread : ∀ p, draft.parentTaskId = some p → rows.task (actor.scopeId, p) = parent :=
    hs.parent fun a ha => hsummary.reads ▸ List.mem_append_left _ ha
  obtain ⟨hnew, hrest⟩ := writesApply_taskInsert (hs.apply hsummary)
  obtain ⟨rows₁, hattach, htouch⟩ := writesApply_append hrest
  have hframe := writesApply_attachments hattach
  have hforest₁ : rows₁.forest = (rows.putTask task).forest := by rw [hframe]; rfl
  have hinsert : Grows (fun k => childEntry k task ≠ none) rows rows₁ := by
    have hput : Grows (fun k => childEntry k task ≠ none) rows (rows.putTask task) :=
      (Grows.refl (fun _ => False) rows).insertTask hnew fun k hno => ⟨id, not_not.mp hno⟩
    rw [hframe]
    exact ⟨hput.task, hput.preset, hput.link, hput.receipt⟩
  obtain ⟨hgrows, hforest, hframe'⟩ := hinsert.touches (parents_there hread hiff.mpr) htouch
  have hkey : task.key.1 = actor.scopeId := hcreated.scopeId
  refine ⟨hgrows.paid fun k d hd => ?_, .moved task.key task.place (.created ?_ ?_ hcreated.status ?_) ?_ (fun _ hroot => ?_) ?_⟩
  · rintro ⟨hentry, hno⟩
    have hk : task.scopeId = k.1 ∧ task.parentTaskId = some k.2 := by
      by_contra hnot
      exact hentry (if_neg hnot)
    have hrow := hread k.2 (hcreated.parentTaskId ▸ hk.2)
    rw [← hcreated.scopeId, show (task.scopeId, k.2) = k from Prod.ext hk.1 rfl, hd] at hrow
    exact hno d (by simp [← hrow]) (Rows.task_key hd)
  · rw [Rows.forest, hnew, Option.map_none]
  · rw [hkey]
    refine filedAt_of_reads hread hiff hall hcreated.filed ?_ hcreated.projectId hcreated.parentTaskId ?_
    · rintro q rfl
      exact hs.read hsummary (List.mem_append_right _ (List.mem_singleton.mpr rfl)) rfl
    · rintro q rfl
      exact hcreated.workspaceId
  · simp [Task.place, hcreated.archivedAt]
  · rw [hforest, hforest₁, Rows.forest_putTask]
  · obtain rfl := hiff.mpr (hcreated.parentTaskId ▸ hroot)
    rw [hsummary.reads, hkey, show task.place.projectId = draft.projectId from hcreated.projectId]
    exact List.mem_append_right _ (List.mem_singleton.mpr rfl)
  · rw [hframe', hframe]
    rfl

/-- A reparent owes a bump to the parent it leaves and to the one it takes. -/
theorem owed_parents {parentTaskId : Option String} {next former : Option Task} {c d task : Task} {k : Key}
    (hnext : ∀ p, parentTaskId = some p → rows.task (scopeId, p) = next)
    (hformer : ∀ p, (c.parentTaskId.filter fun parent => some parent ≠ parentTaskId) = some p → rows.task (scopeId, p) = former)
    (hd : rows.task k = some d) (hne : childEntry k task ≠ childEntry k c) (hscope : c.scopeId = scopeId)
    (hscope' : task.scopeId = scopeId) (hto : task.parentTaskId = parentTaskId) :
    ∃ q ∈ former.toList ++ next.toList, q.key = k := by
  have hrow : scopeId = k.1 → (scopeId, k.2) = k := fun hk => Prod.ext hk rfl
  rcases childEntry_ne hne with ⟨hk, hp⟩ | ⟨hk, hp⟩
  · rw [hscope'] at hk
    have hread := hnext k.2 (hto ▸ hp)
    rw [hrow hk, hd] at hread
    exact ⟨d, by simp [← hread], Rows.task_key hd⟩
  · rw [hscope] at hk
    by_cases hsame : some k.2 = parentTaskId
    · have hread := hnext k.2 hsame.symm
      rw [hrow hk, hd] at hread
      exact ⟨d, by simp [← hread], Rows.task_key hd⟩
    · have hread := hformer k.2 (by simp [Option.filter_eq_some_iff, hp, hsame])
      rw [hrow hk, hd] at hread
      exact ⟨d, by simp [← hread], Rows.task_key hd⟩

theorem effect_reparent {input : TaskReparentInput} (h : Follows (reparent actor input) t result) (hs : Serial rows t rows') :
    Effect t rows rows' := by
  obtain ⟨c, next, former, filed, filing, now, now₁, now₂, hfound, hopen, hself, hsummary, hiff, hall, hnone, hfiled, rfl⟩ :=
    summary_reparent h
  have hget : rows.task (actor.scopeId, input.taskId) = some c := hs.read hsummary List.mem_cons_self rfl
  have hc := Rows.task_self hget
  have hplace := Rows.forest_of_task hc
  have hscope : c.key.1 = actor.scopeId := hfound.scopeId
  have hkey : c.key = (actor.scopeId, c.id) := Prod.ext hfound.scopeId rfl
  have hreads := hsummary.reparent
  have hnext := hs.parent hreads.next
  have hformer := hs.parent hreads.former
  obtain ⟨hgrows, hforest, hlinks⟩ := grows_of_update (hs.apply hsummary) hc rfl rfl (parents_there hformer hnone)
    (parents_there hnext hiff.mpr)
    (fun k d hd hne => owed_parents hnext hformer hd hne hfound.scopeId hfound.scopeId rfl)
  refine ⟨hgrows, .moved c.key _ ?_ hforest (fun hfiles hroot => ?_) hlinks⟩
  · by_cases hmoved : input.projectId ≠ c.projectId ∨ input.parentTaskId ≠ c.parentTaskId
    · obtain ⟨rfl, heq⟩ := hfiled.moved hmoved
      refine .refiled hplace ?_ hmoved (fun hne => ?_) (fun hne => ?_) ?_ ?_ ?_ rfl rfl
      · simp [Task.place, hopen]
      · rw [hkey]
        exact hs.childless hreads (.inl hne)
      · rw [hkey]
        exact hs.childless hreads (.inr hne)
      · rw [show c.key.2 = input.taskId from congrArg Prod.snd (Rows.task_key hget)]
        exact hself
      · rw [hscope]
        refine filedAt_of_reads hnext hiff hall heq ?_ rfl rfl ?_
        · rintro q rfl
          exact hs.reads _ (hreads.filing _ (List.mem_singleton.mpr rfl)) rfl
        · rintro q rfl
          rfl
      · intro hroot
        obtain rfl := hiff.mpr hroot
        rfl
    · obtain ⟨rfl, rfl⟩ := hfiled.kept hmoved
      obtain ⟨hproject, hparent⟩ := not_or.mp hmoved
      have hproject := not_not.mp hproject
      have hparent := not_not.mp hparent
      have hkept : Move rows.forest c.key { c.place with workspaceId := next.elim c.workspaceId Task.workspaceId } := by
        refine .kept _ hplace ?_ (fun p hp => ?_) (fun hroot => ?_)
        · simp [Task.place, hopen]
        · obtain ⟨q, hq, hopenAt⟩ := openAt_of_read hnext hiff.mp hall (hparent.trans hp)
          obtain rfl : next = some q := hq
          refine ⟨q.place, ?_, rfl⟩
          rw [hscope, show c.place.projectId = input.projectId from hproject.symm]
          exact hopenAt
        · obtain rfl := hiff.mpr (hparent.trans hroot)
          rfl
      have hthere : Move rows.forest c.key ⟨input.projectId, c.number, c.childNumber,
          next.elim c.workspaceId Task.workspaceId, input.parentTaskId, c.status, c.archivedAt.isSome⟩ := by
        rw [hproject, hparent]
        exact hkept
      exact hthere
  · obtain ⟨rfl, -⟩ := hfiled.moved (hfiles _ hplace)
    obtain rfl := hiff.mpr hroot
    rw [show (c.key : Key).1 = actor.scopeId from hscope]
    exact hreads.filing _ (List.mem_singleton.mpr rfl)

theorem effect_presetMoves {preset : Preset} (h : PresetMoves actor t preset) (hs : Serial rows t rows') : Effect t rows rows' := by
  obtain ⟨c, hscope, hkey, hrevision, presetId, hsummary⟩ := h
  obtain ⟨c', hc', hrev, hrest⟩ := writesApply_presetUpdate (hs.apply hsummary)
  obtain rfl := writesApply_nil.mp hrest
  exact ⟨(Grows.refl _ rows).bumpPreset hc' (by omega), .quiet rfl rfl⟩

theorem effect_presetCreate {preset : Preset} {input : PresetDraft} (h : Follows (Presets.create actor input) t preset)
    (hs : Serial rows t rows') : Effect t rows rows' := by
  obtain ⟨hnew, hrest⟩ := writesApply_presetInsert (hs.apply (summary_presetCreate h))
  obtain rfl := writesApply_nil.mp hrest
  exact ⟨(Grows.refl _ rows).insertPreset hnew, .quiet rfl rfl⟩

theorem effect_command {command : TasksCommand} {committed : TasksCommandResult} (h : CommandRan actor t command committed)
    (hs : Serial rows t rows') : Effect t rows rows' := by
  cases h with
  | presetCreate h => exact effect_presetCreate h hs
  | presetEdit h => exact effect_presetMoves (presetMoves_edit h) hs
  | presetArchive h => exact effect_presetMoves (presetMoves_archive h) hs
  | presetRestore h => exact effect_presetMoves (presetMoves_restore h) hs
  | create h => exact effect_create h hs
  | edit h => exact effect_edit h hs
  | setStatus h => exact effect_setStatus h hs
  | reparent h => exact effect_reparent h hs
  | archive h => exact effect_archive h hs
  | restore h => exact effect_restore h hs

/-- A unit that answered ran its command, or settled. -/
inductive UnitRan (hashRequest : TasksCommand → String) (t : Trace) : UnitWork → UnitResult → Prop where
  | command {actor request result} (h : Follows (commandUnit hashRequest actor request) t result) :
    UnitRan hashRequest t (.command actor request) (.command result)
  | settle {s link created} (h : Follows (settle s) t (link, created)) : UnitRan hashRequest t (.settle s) (.settled link created)

section
variable {hashRequest : TasksCommand → String}

theorem unitRan {work : UnitWork} {result : UnitResult} (h : Follows (work.program hashRequest) t result) :
    UnitRan hashRequest t work result := by
  cases work with
  | command actor request =>
    obtain ⟨t₁, t₂, result, rfl, hunit, rfl, rfl⟩ := follows_bind.mp h
    rw [List.append_nil]
    exact .command hunit
  | settle settlement =>
    obtain ⟨t₁, t₂, ⟨link, created⟩, rfl, hunit, rfl, rfl⟩ := follows_bind.mp h
    rw [List.append_nil]
    exact .settle hunit

/-- A command's unit that commits leaves the rows it found, or what its command left and its receipt. -/
theorem serial_commandUnit {request : TasksCommandRequest} {result : Option TasksCommandResult}
    (h : Follows (commandUnit hashRequest actor request) t result) (hs : Serial rows t rows') :
    (result = none ∧ rows' = rows) ∨
    ∃ t' receipt rows₁, CommandRan actor t' request.command receipt.result ∧ result = some receipt.result ∧
      receipt.key = (actor.scopeId, request.clientRequestId) ∧ receipt.requestHash = hashRequest request.command ∧
      (∀ a ∈ t'.reads, a ∈ t.reads) ∧ Serial rows t' rows₁ ∧ rows₁.receipt receipt.key = none ∧
      rows' = rows₁.putReceipt receipt := by
  rcases summary_commandUnit h with ⟨held, -, rfl, hsummary⟩ | ⟨t', committed, now, hran, rfl, -, hsummary⟩
  · exact .inl ⟨rfl, (writesApply_nil.mp (hs.apply hsummary)).symm⟩
  · obtain ⟨rs, ws, hown⟩ := hran.did.summary
    have hwhole := hsummary hown
    obtain ⟨rows₁, hfirst, hput⟩ := writesApply_append (hs.apply hwhole)
    obtain ⟨hnew, hrest⟩ := writesApply_receiptPut hput
    obtain rfl := writesApply_nil.mp hrest
    have hsub : ∀ a ∈ t'.reads, a ∈ t.reads := fun a ha => by
      rw [hwhole.reads]
      exact List.mem_cons_of_mem _ (hown.reads ▸ ha)
    exact .inr ⟨t', ⟨actor.scopeId, request.clientRequestId, request.command.type, hashRequest request.command, committed, now⟩,
      rows₁, hran, rfl, rfl, rfl, hsub, ⟨fun a ha hop => hs.reads a (hsub a ha) hop, by rw [hown.writes]; exact hfirst⟩, hnew, rfl⟩

/-- A settlement finds its session linked, or links it and bumps the task it read. -/
theorem serial_settle {s : Settlement} {link : TaskSessionLink} {created : Bool} (h : Follows (settle s) t (link, created))
    (hs : Serial rows t rows') : rows' = rows ∨ rows.link s.link.key = none ∧
      (∃ c, rows.task s.task.key = some c ∧ c.revision = s.task.revision) ∧
      ∃ now, rows' = (rows.putLink s.link).putTask { s.task with revision := s.task.revision + 1, updatedAt := now } := by
  rcases summary_settle h with ⟨-, -, -, hsummary⟩ | ⟨-, -, now, hsummary⟩
  · obtain ⟨-, hrest⟩ := writesApply_linkExists (writesApply_assert (hs.apply hsummary))
    exact .inl (writesApply_nil.mp hrest).symm
  · obtain ⟨hnew, hrest⟩ := writesApply_linkInserted (writesApply_assert (hs.apply hsummary))
    obtain ⟨c, hc, hrev, hrest⟩ := writesApply_taskUpdate hrest
    exact .inr ⟨hnew, ⟨c, hc, hrev⟩, now, (writesApply_nil.mp hrest).symm⟩

end

/-- The settlement's task is one that stood among rows that have grown to these. -/
def Loaded (rows : Rows) (s : Settlement) : Prop :=
  ∃ before, Grows (fun _ => False) before rows ∧ before.task (s.actor.scopeId, s.task.id) = some s.task

theorem Loaded.stands {s : Settlement} (h : Loaded rows s) {c : Task} (hc : rows.task s.task.key = some c)
    (hrev : c.revision = s.task.revision) : rows.task s.task.key = some s.task := by
  obtain ⟨before, hgrown, htask⟩ := h
  have hkey : s.task.key = (s.actor.scopeId, s.task.id) := Rows.task_key htask
  obtain ⟨c', hc', -, hsame⟩ := hgrown.task _ _ htask
  obtain rfl : c = c' := Option.some.inj (hc.symm.trans (hkey ▸ hc'))
  obtain ⟨rfl, -⟩ := hsame hrev
  exact hc

theorem effect_settle {s : Settlement} {link : TaskSessionLink} {created : Bool} (h : Follows (settle s) t (link, created))
    (hs : Serial rows t rows') (hloaded : Loaded rows s) : Effect t rows rows' := by
  rcases serial_settle h hs with rfl | ⟨hnew, ⟨c, hc, hrev⟩, now, rfl⟩
  · exact ⟨Grows.refl _ rows', .quiet rfl rfl⟩
  · have hstood := hloaded.stands hc hrev
    obtain ⟨before, -, htask⟩ := hloaded
    have hlink : Grows (fun k => (s.link.scopeId, s.link.taskId) = k) rows (rows.putLink s.link) :=
      (Grows.refl (fun _ => False) rows).insertLink hnew fun k hno => ⟨id, hno⟩
    refine ⟨(hlink.bump hstood (Nat.lt_succ_self _) fun k hk _ => ⟨?_, rfl⟩), .linked s.link ?_ hnew ?_⟩
    · rintro rfl
      exact hk (Rows.task_key htask).symm
    · rw [Rows.forest_putTask]
      exact Function.update_eq_self_iff.mpr (Rows.forest_of_task hstood).symm
    · exact Table.put_of_get_none hnew

/-- A committed unit grows the rows, and changes the tree or the links as one of the commands does. -/
theorem effect_unit {hashRequest : TasksCommand → String} {work : UnitWork} {result : UnitResult}
    (h : Follows (work.program hashRequest) t result) (hs : Serial rows t rows')
    (hloaded : ∀ s, work = .settle s → Loaded rows s) : Effect t rows rows' := by
  cases unitRan h with
  | command hunit =>
    rcases serial_commandUnit hunit hs with ⟨-, rfl⟩ | ⟨t', receipt, rows₁, hran, -, -, -, hsub, hserial, hnew, rfl⟩
    · exact ⟨Grows.refl _ rows', .quiet rfl rfl⟩
    · have heffect := effect_command hran hserial
      refine ⟨heffect.grows.insertReceipt hnew, ?_⟩
      cases heffect.tree with
      | quiet hforest hlinks => exact .quiet hforest hlinks
      | moved k a hmove hforest hnumber hlinks =>
        exact .moved k a hmove hforest (fun hfiles hroot => hsub _ (hnumber hfiles hroot)) hlinks
      | linked l hforest hnewLink hlinks => exact .linked l hforest hnewLink hlinks
  | settle hunit => exact effect_settle hunit hs (hloaded _ rfl)

end

end Claxedo.Tasks
