import Claxedo.Tasks.Commit

/-! The task tree over every run of both stores: a child stands under a root of its project that is no further
done or archived than it, and no two tasks of a project hold one number. -/

namespace Claxedo.Tasks

open Claxedo.Lib Claxedo.Lib.Program

section
variable {rows rows' : Rows}

theorem distinct_putTask {task : Task} (hd : Distinct rows.forest) (hfree : rows.numberHolder task = none) :
    Distinct (rows.putTask task).forest := by
  rw [Rows.forest_putTask]
  refine hd.update fun k a hne ha hscope hproject hnumber hchild => ?_
  obtain ⟨row, hrow, rfl⟩ := Rows.exists_of_forest ha
  have hkey : row.key = k := Rows.task_key hrow
  refine List.find?_eq_none.mp hfree row (Rows.task_mem hrow) (decide_eq_true ⟨?_, hproject, hnumber, ?_, ?_⟩)
  · exact (congrArg Prod.fst hkey).trans hscope
  · exact congrArg (fun child : Option ℕ => child.getD 0) hchild
  · rw [hkey]
    exact hne

/-- The unique index keeps the numbers apart, whatever a unit read. -/
theorem distinct_of_statement {statement : Statement} (h : statement.apply rows = some rows') (hd : Distinct rows.forest) :
    Distinct rows'.forest := by
  cases statement with
  | insertTask task =>
    simp only [Statement.apply] at h
    split_ifs at h with hfree
    obtain rfl := Option.some.inj h
    exact distinct_putTask hd hfree.2
  | updateTask task revision =>
    simp only [Statement.apply] at h
    split_ifs at h with hat hfree
    · obtain rfl := Option.some.inj h
      exact distinct_putTask hd hfree
    · obtain rfl := Option.some.inj h
      exact hd
  | updatePreset preset revision =>
    simp only [Statement.apply] at h
    obtain rfl := Option.some.inj h
    split_ifs
    · exact hd
    · exact hd
  | _ =>
    simp only [Statement.apply] at h
    split_ifs at h
    obtain rfl := Option.some.inj h
    exact hd

theorem distinct_of_batch {sts : List Statement} (h : batch rows sts = some rows') (hd : Distinct rows.forest) :
    Distinct rows'.forest := by
  induction sts generalizing rows with
  | nil =>
    obtain rfl := Option.some.inj h
    exact hd
  | cons statement sts ih =>
    rw [batch] at h
    obtain ⟨rows₁, happly, hrest⟩ := Option.bind_eq_some_iff.mp h
    exact ih hrest (distinct_of_statement happly hd)

/-- Where the rows themselves answered the project's next number, nothing in the project holds it. -/
theorem distinct_of_effect {t : Trace} (h : Effect t rows rows') (hreads : ∀ a ∈ t.reads, rows.read a.op = a.answer)
    (hwf : WellFormed rows.forest) (hd : Distinct rows.forest) : Distinct rows'.forest := by
  cases h.tree with
  | quiet hforest hlinks =>
    rw [hforest]
    exact hd
  | linked l hforest hnew hlinks =>
    rw [hforest]
    exact hd
  | moved k a hmove hforest hnumber hlinks =>
    rw [hforest]
    refine hmove.distinct hwf hd fun hfiles hroot k' a' _ ha' hscope hproject _ hsame => ?_
    have hnext : rows.nextNumber k.1 a.projectId = a.number := hreads _ (hnumber hfiles hroot)
    have hlt := lt_nextNumber ha'
    rw [hscope, hproject, hnext] at hlt
    omega

theorem wellFormed_of_effect {t : Trace} (h : Effect t rows rows') (hwf : WellFormed rows.forest) : WellFormed rows'.forest := by
  cases h.tree with
  | quiet hforest hlinks =>
    rw [hforest]
    exact hwf
  | linked l hforest hnew hlinks =>
    rw [hforest]
    exact hwf
  | moved k a hmove hforest hnumber hlinks =>
    rw [hforest]
    exact hmove.wellFormed hwf

theorem nodup_of_writes {ws : List (Asked WriteOp)} (h : WritesApply rows ws rows') (hnodup : (rows.tasks.map Task.key).Nodup) :
    (rows'.tasks.map Task.key).Nodup := by
  refine Trail.invariant (fun rows => (rows.tasks.map Task.key).Nodup) (fun a _ rows rows₁ hrows hwrite => ?_) hnodup h
  obtain ⟨op, answer⟩ := a
  have hframe := (frame_of_write hwrite).1
  have hwrote := wrote_of_write hwrite
  cases op with
  | taskInsert task =>
    obtain ⟨-, rfl⟩ := hwrote
    exact Table.nodup_keys_put hrows
  | taskUpdate task revision =>
    cases answer with
    | true =>
      obtain ⟨-, rfl⟩ := hwrote
      exact Table.nodup_keys_put hrows
    | false =>
      obtain rfl : rows₁ = rows := hwrote
      exact hrows
  | _ =>
    rw [hframe fun hne => by cases hne]
    exact hrows

end

/-! The ledger of a run. -/

section
variable {ledger : Ledger} {hashRequest : TasksCommand → String} {store : StoreKind} {call : UnitCall} {result : UnitResult}
  {rows' : Rows}

theorem Ledger.at_of_le {i : ℕ} (h : ledger.past.length ≤ i) : ledger.at i = ledger.rows := by
  rw [Ledger.at, List.getD_eq_getElem?_getD, List.getElem?_eq_none h, Option.getD_none]

theorem Ledger.at_commit (ledger : Ledger) (call : UnitCall) (result : UnitResult) (rows' : Rows) (i : ℕ) :
    (ledger.commit call result rows').at i = if i ≤ ledger.past.length then ledger.at i else rows' := by
  rcases lt_trichotomy i ledger.past.length with h | rfl | h
  · rw [if_pos h.le]
    simp [Ledger.at, Ledger.commit, List.getD_eq_getElem?_getD, List.getElem?_append_left h, List.getElem?_eq_getElem h]
  · rw [if_pos le_rfl, Ledger.at_of_le le_rfl]
    simp [Ledger.at, Ledger.commit, List.getD]
  · rw [if_neg (by omega), Ledger.at_of_le]
    · rfl
    · simp only [Ledger.commit, List.length_append, List.length_singleton]
      omega

/-- Each commit grew the rows it found and left a tree that is well formed, its numbers apart. -/
structure Chronicle (ledger : Ledger) : Prop where
  grows : ∀ i j, i ≤ j → Grows (fun _ => False) (ledger.at i) (ledger.at j)
  wellFormed : ∀ i, WellFormed (ledger.at i).forest
  distinct : Distinct ledger.rows.forest
  nodup : (ledger.rows.tasks.map Task.key).Nodup

theorem Chronicle.rows_wellFormed (h : Chronicle ledger) : WellFormed ledger.rows.forest := by
  have hlast := h.wellFormed ledger.past.length
  rwa [Ledger.at_of_le le_rfl] at hlast

theorem chronicle_empty : Chronicle {} where
  grows _ _ _ := Grows.refl _ _
  wellFormed _ := wellFormed_empty
  distinct := distinct_empty
  nodup := List.nodup_nil

theorem Chronicle.now (h : Chronicle ledger) (i : ℕ) : Grows (fun _ => False) (ledger.at i) ledger.rows := by
  have hgrows := h.grows i (max i ledger.past.length) (le_max_left _ _)
  rwa [Ledger.at_of_le (le_max_right _ _)] at hgrows

theorem Chronicle.moments (h : Chronicle ledger) {moments : ℕ → ℕ} (hmono : Monotone moments) :
    Moments (fun n => ledger.at (moments n)) ledger.rows :=
  ⟨fun _ _ hij => h.grows _ _ (hmono hij), fun _ => h.now _, fun _ => h.wellFormed _⟩

theorem Chronicle.loaded (h : Chronicle ledger) (hadmits : ledger.admits call) {s : Settlement} (hwork : call.work = .settle s) :
    Loaded ledger.rows s := by
  rw [Ledger.admits, hwork] at hadmits
  exact ⟨ledger.at call.loadedAt, h.now _, (of_decide_eq_true hadmits).1⟩

/-- What a unit that goes through on a store did: it ran on the rows of the ledger. -/
structure Transacted (hashRequest : TasksCommand → String) (store : StoreKind) (ledger : Ledger) (call : UnitCall) (t : Trace)
    (result : UnitResult) (rows' : Rows) : Prop where
  follows : Follows (call.work.program hashRequest) t result
  serial : Serial ledger.rows t rows'
  exact : store = .memory → ∀ a ∈ t.reads, ledger.rows.read a.op = a.answer
  hosted : ∀ {β : Type} (op : PortOp β) (b : β), ⟨.port op, b⟩ ∈ t → ∃ n, b = (call.ports n).answer op
  batched : store = .d1 → ∃ unit, Trail (d1Handler call.ports fun n => ledger.at (call.moments n)).Step {} t unit ∧
    batch ledger.rows unit.statements = some rows'

theorem transacted (h : Chronicle ledger) (htransact : ledger.transact hashRequest store call = some (result, rows')) :
    ∃ t, Transacted hashRequest store ledger call t result rows' := by
  cases store with
  | memory =>
    simp only [Ledger.transact, memoryTransaction] at htransact
    rcases hexec : (call.work.program hashRequest).exec (memoryHandler call.ports) ⟨ledger.rows, 0⟩ with fault | ⟨r, memory⟩
    · rw [hexec] at htransact
      cases htransact
    · rw [hexec] at htransact
      cases htransact
      obtain ⟨t, hfollows, htrail⟩ := exec_eq_ok_iff.mp hexec
      obtain ⟨rs, ws, hsummary⟩ := summary_unit hfollows
      obtain ⟨hreads, hwrites⟩ := memory_trail htrail hsummary.ordered
      exact ⟨t, hfollows, ⟨fun a ha _ => hreads a ha, hwrites⟩, fun _ => hreads, fun op b => memory_ports htrail,
          fun hd1 => nomatch hd1⟩
  | d1 =>
    simp only [Ledger.transact, d1Commits, d1Work] at htransact
    rcases hexec : (call.work.program hashRequest).exec
        (d1Handler call.ports fun n => ledger.at (call.moments n)) {} with fault | ⟨r, unit⟩
    · rw [hexec] at htransact
      cases htransact
    · rw [hexec] at htransact
      obtain ⟨rows₁, hbatch, heq⟩ := Option.map_eq_some_iff.mp htransact
      obtain ⟨rfl, rfl⟩ := Prod.mk.inj heq
      obtain ⟨t, hfollows, htrail⟩ := exec_eq_ok_iff.mp hexec
      obtain ⟨rs, ws, hsummary⟩ := summary_unit hfollows
      have hmoments := h.moments call.mono
      have hreads := d1_reads htrail hsummary.ordered rfl
      have hserial : Serial ledger.rows t rows₁ := by
        rcases pins_unit hmoments.wellFormed hreads hfollows with hpins | ⟨k, held, hheld, hreplay⟩
        · have hwrites := d1_writes htrail (fun n => (hmoments.now n).link) hpins.landed (synced_empty _) rfl hbatch
          exact ⟨hpins.pinned.exact hmoments hwrites hpins.nodup hreads fun c hc => (nomatch hc), hwrites⟩
        · have hwrites := d1_writes htrail (fun n => (hmoments.now n).link)
            (fun a ha => by rw [hreplay.writes] at ha; cases ha) (synced_empty _) rfl hbatch
          refine ⟨fun a ha _ => ?_, hwrites⟩
          rw [hreplay.reads] at ha hreads
          obtain rfl := List.mem_singleton.mp ha
          obtain ⟨m, -, hread, -⟩ := hreads
          obtain ⟨r, hr⟩ := Option.ne_none_iff_exists'.mp hheld
          exact ((hmoments.now m).receipt k r (hread.trans hr)).trans hr.symm
      exact ⟨t, hfollows, hserial, fun hmem => (nomatch hmem), fun op b => d1_ports htrail, fun _ => ⟨unit, htrail, hbatch⟩⟩

theorem Transacted.effect {t : Trace} (h : Transacted hashRequest store ledger call t result rows') (hc : Chronicle ledger)
    (hadmits : ledger.admits call) : Effect t ledger.rows rows' :=
  effect_unit h.follows h.serial fun _ hwork => hc.loaded hadmits hwork

theorem Chronicle.commit (h : Chronicle ledger) (hadmits : ledger.admits call) {t : Trace}
    (htransacted : Transacted hashRequest store ledger call t result rows') : Chronicle (ledger.commit call result rows') := by
  have heffect := htransacted.effect h hadmits
  have hwf := wellFormed_of_effect heffect h.rows_wellFormed
  refine ⟨fun i j hij => ?_, fun i => ?_, ?_, nodup_of_writes htransacted.serial.writes h.nodup⟩
  · rw [Ledger.at_commit, Ledger.at_commit]
    by_cases hj : j ≤ ledger.past.length
    · rw [if_pos (hij.trans hj), if_pos hj]
      exact h.grows i j hij
    · rw [if_neg hj]
      split_ifs
      · exact (h.now i).trans heffect.grows
      · exact Grows.refl _ _
  · rw [Ledger.at_commit]
    split_ifs
    · exact h.wellFormed i
    · exact hwf
  · cases store with
    | memory =>
      exact distinct_of_effect heffect (htransacted.exact rfl) h.rows_wellFormed h.distinct
    | d1 =>
      obtain ⟨unit, -, hbatch⟩ := htransacted.batched rfl
      exact distinct_of_batch hbatch h.distinct

theorem Chronicle.step (h : Chronicle ledger) (hashRequest : TasksCommand → String) (store : StoreKind) (call : UnitCall) :
    Chronicle (ledger.step hashRequest store call) := by
  unfold Ledger.step
  split_ifs with hadmits
  · rcases htransact : ledger.transact hashRequest store call with _ | ⟨result, rows'⟩
    · exact h
    · obtain ⟨t, htransacted⟩ := transacted h htransact
      exact h.commit hadmits htransacted
  · exact h

end

theorem chronicle_runUnits (hashRequest : TasksCommand → String) (store : StoreKind) (calls : List UnitCall) :
    Chronicle (runUnits hashRequest store calls) :=
  invariant_of_run Chronicle (fun _ call h => h.step hashRequest store call) chronicle_empty calls

/-- Over every run of units, on either store, every child stands under a root of its project that has its number and
is no further done or archived than it, and no two tasks of a project hold one number. -/
theorem task_tree_wellFormed (hashRequest : TasksCommand → String) (store : StoreKind) (calls : List UnitCall) :
    let rows := (runUnits hashRequest store calls).rows
    (∀ task ∈ rows.tasks, ∀ p, task.parentTaskId = some p →
      ∃ parent, rows.task (task.scopeId, p) = some parent ∧ parent.projectId = task.projectId ∧ parent.parentTaskId = none ∧
        parent.number = task.number ∧ (parent.status = .done → task.archivedAt = none → task.status = .done) ∧
        (parent.archivedAt ≠ none → task.archivedAt ≠ none)) ∧
    ∀ task ∈ rows.tasks, ∀ other ∈ rows.tasks, task.scopeId = other.scopeId → task.projectId = other.projectId →
      task.number = other.number → task.childNumber = other.childNumber → task = other := by
  intro rows
  have hchronicle := chronicle_runUnits hashRequest store calls
  have hwf : WellFormed rows.forest := hchronicle.rows_wellFormed
  have hrow : ∀ task ∈ rows.tasks, rows.task task.key = some task := fun task => Table.get_of_mem hchronicle.nodup
  refine ⟨fun task htask p hp => ?_, fun task htask other hother hscope hproject hnumber hchild => ?_⟩
  · obtain ⟨q, hq, hunder⟩ := hwf.parent task.key task.place p (Rows.forest_of_task (hrow task htask)) hp
    obtain ⟨parent, hparent, rfl⟩ := Rows.exists_of_forest hq
    refine ⟨parent, hparent, hunder.project, hunder.root, hunder.number, fun hdone hliving => ?_, fun harchived => ?_⟩
    · exact hunder.done hdone (by simp [Task.place, hliving])
    · have hset := hunder.archived (by simpa [Task.place, Option.isSome_iff_ne_none] using harchived)
      simpa [Task.place, Option.isSome_iff_ne_none] using hset
  · have hkey : task.key = other.key :=
      hchronicle.distinct _ _ _ _ (Rows.forest_of_task (hrow task htask)) (Rows.forest_of_task (hrow other hother)) hscope hproject
        hnumber hchild
    have hsame := hrow task htask
    rw [hkey, hrow other hother] at hsame
    exact (Option.some.inj hsame).symm

end Claxedo.Tasks
