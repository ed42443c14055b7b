import Claxedo.Tasks.Workspaces

/-! The units that commit on D1, replayed one after another on the memory store. Every read of a committed unit
is answered by the rows it commits over, but for the project's next number, which nothing guards. -/

namespace Claxedo.Tasks

open Claxedo.Lib Claxedo.Lib.Program

section
variable {ports : ℕ → Ports} {committed : ℕ → Rows} {t : Trace}

/-- A trace that D1 answered, its reads as the rows stand and its writes taking them on, is one the memory store
answers. -/
theorem memory_of_d1 {unit unit' : D1Unit} {rows rows' : Rows} (h : Trail (d1Handler ports committed).Step unit t unit')
    (hordered : t.Pairwise fun a b => asWrite a = none ∨ asRead b = none) (hreads : ∀ a ∈ t.reads, rows.read a.op = a.answer)
    (hwrites : WritesApply rows t.writes rows') :
    ∃ memory, Trail (memoryHandler ports).Step ⟨rows, unit.asked⟩ t memory ∧ memory.rows = rows' := by
  induction t generalizing unit rows with
  | nil =>
    obtain rfl : rows = rows' := hwrites
    exact ⟨_, rfl, rfl⟩
  | cons a t ih =>
    obtain ⟨unit₁, hstep, hrest⟩ := h
    obtain ⟨hfirst, htail⟩ := List.pairwise_cons.mp hordered
    obtain ⟨op, answer⟩ := a
    cases op with
    | port op =>
      obtain ⟨rfl, rfl⟩ := d1_step_port hstep
      obtain ⟨memory, htrail, hrows⟩ := ih hrest htail hreads hwrites
      exact ⟨memory, ⟨_, rfl, htrail⟩, hrows⟩
    | read op =>
      obtain ⟨-, rfl⟩ := d1_step_read hstep
      obtain ⟨memory, htrail, hrows⟩ := ih hrest htail (fun a ha => hreads a (List.mem_cons_of_mem _ ha)) hwrites
      have hread : rows.read op = answer := hreads ⟨op, answer⟩ List.mem_cons_self
      exact ⟨memory, ⟨_, congrArg (fun b => Except.ok (b, _)) hread, htrail⟩, hrows⟩
    | write op =>
      obtain ⟨written, -, rfl⟩ := d1_step_write hstep
      obtain ⟨rows₁, hwrite, hwrites⟩ := hwrites
      have hnone : Trace.reads t = [] := List.filterMap_eq_nil_iff.mpr fun b hb =>
        (hfirst b hb).resolve_left (Option.some_ne_none _)
      obtain ⟨memory, htrail, hrows⟩ := ih hrest htail (fun a ha => by rw [hnone] at ha; cases ha) hwrites
      refine ⟨memory, ⟨⟨rows₁, unit.asked + 1⟩, ?_, htrail⟩, hrows⟩
      have hok : rows.write op = .ok (answer, rows₁) := hwrite
      simp only [Handler.Step, memoryHandler, hok]

end

/-- What a unit under way on D1 asks of its ports and the committed rows. -/
def Ledger.d1Trace (hashRequest : TasksCommand → String) (ledger : Ledger) (call : UnitCall) : Trace :=
  trace (d1Handler call.ports fun n => ledger.at (call.moments n)) (call.work.program hashRequest) {}

theorem ReadsIn.answered {committed : ℕ → Rows} {n : ℕ} {rs : List (Asked ReadOp)} (h : ReadsIn committed n rs)
    {a : Asked ReadOp} (hmem : a ∈ rs) : ∃ m, (committed m).read a.op = a.answer := by
  induction rs generalizing n with
  | nil => cases hmem
  | cons b rs ih =>
    obtain ⟨m, -, hread, hrest⟩ := h
    rcases List.mem_cons.mp hmem with rfl | hmem
    · exact ⟨m, hread⟩
    · exact ih hrest hmem

/-- The project number a read answered. -/
def numberRead : Asked ReadOp → Option (String × String × ℕ)
  | ⟨.nextNumber scopeId projectId, number⟩ => some (scopeId, projectId, number)
  | _ => none

/-- When the unit commits, the next number it read of a project is the project's next number still. -/
def NumbersStand (hashRequest : TasksCommand → String) (ledger : Ledger) (call : UnitCall) : Prop :=
  (ledger.transact hashRequest .d1 call).isSome →
    ∀ read ∈ (ledger.d1Trace hashRequest call).reads.filterMap numberRead, ledger.rows.nextNumber read.1 read.2.1 = read.2.2

instance (hashRequest : TasksCommand → String) (ledger : Ledger) (call : UnitCall) :
    Decidable (NumbersStand hashRequest ledger call) :=
  inferInstanceAs (Decidable ((ledger.transact hashRequest .d1 call).isSome →
    ∀ read ∈ (ledger.d1Trace hashRequest call).reads.filterMap numberRead, ledger.rows.nextNumber read.1 read.2.1 = read.2.2))

/-- The run's committed units, replayed in their order on the memory store, answer alike and leave the same rows;
each read only what the rows it committed over still said, and one that was refused changed nothing. -/
structure Serializable (hashRequest : TasksCommand → String) (calls : List UnitCall) : Prop where
  rows : (runUnits hashRequest .memory ((runUnits hashRequest .d1 calls).committed.map Prod.fst)).rows =
    (runUnits hashRequest .d1 calls).rows
  results : (runUnits hashRequest .memory ((runUnits hashRequest .d1 calls).committed.map Prod.fst)).committed =
    (runUnits hashRequest .d1 calls).committed
  reads : ∀ before call after, calls = before ++ call :: after → (runUnits hashRequest .d1 before).admits call →
    ((runUnits hashRequest .d1 before).transact hashRequest .d1 call).isSome →
      ∀ a ∈ ((runUnits hashRequest .d1 before).d1Trace hashRequest call).reads,
        (runUnits hashRequest .d1 before).rows.read a.op = a.answer
  refused : ∀ before call after, calls = before ++ call :: after →
    (runUnits hashRequest .d1 before).transact hashRequest .d1 call = none →
      (runUnits hashRequest .d1 (before ++ [call])).rows = (runUnits hashRequest .d1 before).rows

section
variable {hashRequest : TasksCommand → String} {ledger : Ledger} {call : UnitCall} {result : UnitResult} {rows' : Rows}

theorem Transacted.d1Trace {t : Trace} (h : Transacted hashRequest .d1 ledger call t result rows') :
    ledger.d1Trace hashRequest call = t := by
  obtain ⟨unit, htrail, -⟩ := h.batched rfl
  exact trace_eq h.follows htrail

/-- Where the numbers stand, a committed unit's every read is what the rows answer. -/
theorem Transacted.reads {t : Trace} (h : Transacted hashRequest .d1 ledger call t result rows')
    (hstand : ∀ read ∈ t.reads.filterMap numberRead, ledger.rows.nextNumber read.1 read.2.1 = read.2.2) :
    ∀ a ∈ t.reads, ledger.rows.read a.op = a.answer := by
  intro a ha
  by_cases hop : a.op.numbers = true
  · obtain ⟨op, answer⟩ := a
    cases op with
    | nextNumber scopeId projectId => exact hstand (scopeId, projectId, answer) (List.mem_filterMap.mpr ⟨_, ha, rfl⟩)
    | _ => cases hop
  · exact h.serial.reads a ha (by simpa using hop)

/-- A unit that goes through on D1 with its numbers standing goes through alike on the memory store. -/
theorem memory_transact (h : Chronicle ledger) (htransact : ledger.transact hashRequest .d1 call = some (result, rows'))
    (hstand : NumbersStand hashRequest ledger call) : ledger.transact hashRequest .memory call = some (result, rows') := by
  obtain ⟨t, htransacted⟩ := transacted h htransact
  have hnumbers := hstand (by rw [htransact]; rfl)
  rw [htransacted.d1Trace] at hnumbers
  obtain ⟨unit, htrail, -⟩ := htransacted.batched rfl
  obtain ⟨rs, ws, hsummary⟩ := summary_unit htransacted.follows
  obtain ⟨memory, hmemory, rfl⟩ :=
    memory_of_d1 htrail hsummary.ordered (htransacted.reads hnumbers) htransacted.serial.writes
  have hexec := exec_eq_ok_iff.mpr ⟨t, htransacted.follows, hmemory⟩
  simp only [Ledger.transact, memoryTransaction]
  rw [show (⟨ledger.rows, 0⟩ : Memory) = ⟨ledger.rows, ({} : D1Unit).asked⟩ from rfl, hexec]
  rfl

/-- The ledger of the D1 run is the one its committed units make on the memory store. -/
theorem replayed_step (h : Chronicle ledger) (hreplayed : runUnits hashRequest .memory (ledger.committed.map Prod.fst) = ledger)
    (hstand : NumbersStand hashRequest ledger call) :
    runUnits hashRequest .memory ((ledger.step hashRequest .d1 call).committed.map Prod.fst) = ledger.step hashRequest .d1 call := by
  by_cases hadmits : ledger.admits call
  · rcases htransact : ledger.transact hashRequest .d1 call with _ | ⟨result, rows'⟩
    · have hsame : ledger.step hashRequest .d1 call = ledger := by rw [Ledger.step, if_pos hadmits, htransact]
      rw [hsame]
      exact hreplayed
    · have hcommit : ∀ store, ledger.transact hashRequest store call = some (result, rows') →
          ledger.step hashRequest store call = ledger.commit call result rows' := fun store htransact => by
        rw [Ledger.step, if_pos hadmits, htransact]
      have hmemory := hcommit .memory (memory_transact h htransact hstand)
      rw [hcommit .d1 htransact, Ledger.commit, List.map_append, List.map_singleton, runUnits, run_snoc]
      change Ledger.step hashRequest .memory (runUnits hashRequest .memory (ledger.committed.map Prod.fst)) call = _
      rw [hreplayed]
      exact hmemory
  · have hsame : ledger.step hashRequest .d1 call = ledger := by rw [Ledger.step, if_neg hadmits]
    rw [hsame]
    exact hreplayed

end

theorem replayed_run {hashRequest : TasksCommand → String} {calls : List UnitCall}
    (hmeets : Meets (Ledger.step hashRequest .d1) (NumbersStand hashRequest) {} calls) :
    runUnits hashRequest .memory ((runUnits hashRequest .d1 calls).committed.map Prod.fst) = runUnits hashRequest .d1 calls :=
  (invariant_of_meets
    (fun ledger => Chronicle ledger ∧ runUnits hashRequest .memory (ledger.committed.map Prod.fst) = ledger)
    (fun _ _ hinv hstand => ⟨hinv.1.step hashRequest .d1 _, replayed_step hinv.1 hinv.2 hstand⟩) ⟨chronicle_empty, rfl⟩ hmeets).2

/-- Where each unit that commits finds the project numbers it read standing, D1 units are serializable. -/
theorem serializable_of_numbersStand (hashRequest : TasksCommand → String) (calls : List UnitCall)
    (hmeets : Meets (Ledger.step hashRequest .d1) (NumbersStand hashRequest) {} calls) : Serializable hashRequest calls where
  rows := congrArg Ledger.rows (replayed_run hmeets)
  results := congrArg Ledger.committed (replayed_run hmeets)
  reads before call after hcalls hadmits hcommits := by
    subst hcalls
    obtain ⟨hstand, -⟩ := ((meets_append _ _ _ _ _).mp hmeets).2
    obtain ⟨⟨result, rows'⟩, htransact⟩ := Option.isSome_iff_exists.mp hcommits
    obtain ⟨t, htransacted⟩ := transacted (chronicle_runUnits hashRequest .d1 before) htransact
    have hnumbers := hstand hcommits
    change ∀ read ∈ ((runUnits hashRequest .d1 before).d1Trace hashRequest call).reads.filterMap numberRead, _ at hnumbers
    rw [htransacted.d1Trace] at hnumbers ⊢
    exact htransacted.reads hnumbers
  refused before call after _ hrefused := by
    rw [runUnits, run_snoc]
    change (Ledger.step hashRequest .d1 (runUnits hashRequest .d1 before) call).rows = _
    rw [Ledger.step, hrefused]
    split_ifs
    · rfl
    · rfl

/-- Units that do not overlap: each reads after the units before it have ended. -/
theorem numbersStand_in_turn {hashRequest : TasksCommand → String} {calls : List UnitCall}
    (hturn : ∀ before call after, calls = before ++ call :: after → ∀ n, before.length ≤ call.moments n) :
    Meets (Ledger.step hashRequest .d1) (NumbersStand hashRequest) {} calls ∧
      (runUnits hashRequest .d1 calls).past.length ≤ calls.length := by
  induction calls using List.reverseRecOn with
  | nil => exact ⟨trivial, le_rfl⟩
  | append_singleton calls call ih =>
    obtain ⟨hmeets, hlen⟩ := ih fun before call' after heq => hturn before call' (after ++ [call]) (by simp [heq])
    have hc := chronicle_runUnits hashRequest .d1 calls
    rw [runUnits, run_snoc, meets_append]
    change (_ ∧ NumbersStand hashRequest (runUnits hashRequest .d1 calls) call ∧ True) ∧
      ((runUnits hashRequest .d1 calls).step hashRequest .d1 call).past.length ≤ _
    refine ⟨⟨hmeets, fun hcommits read hread => ?_, trivial⟩, ?_⟩
    · obtain ⟨⟨result, rows'⟩, htransact⟩ := Option.isSome_iff_exists.mp hcommits
      obtain ⟨t, htransacted⟩ := transacted hc htransact
      rw [htransacted.d1Trace] at hread
      obtain ⟨unit, htrail, -⟩ := htransacted.batched rfl
      obtain ⟨rs, ws, hsummary⟩ := summary_unit htransacted.follows
      obtain ⟨⟨op, answer⟩, hmem, heq⟩ := List.mem_filterMap.mp hread
      obtain ⟨m, hm⟩ := (d1_reads htrail hsummary.ordered rfl).answered hmem
      rw [Ledger.at_of_le (hlen.trans (hturn calls call [] rfl m))] at hm
      cases op with
      | nextNumber scopeId projectId =>
        cases heq
        exact hm
      | _ => cases heq
    · rcases step_cases hc hashRequest .d1 call with hsame | ⟨t, result, rows', hcommit, -⟩
      · rw [hsame, List.length_append]
        omega
      · simp [hcommit, Ledger.commit, hlen]

/-- Run one at a time, units leave the same ledger on D1 as on the memory store: every moment's rows and every result. -/
theorem d1_in_turn_is_memory (hashRequest : TasksCommand → String) (calls : List UnitCall)
    (hturn : ∀ before call after, calls = before ++ call :: after → ∀ n, before.length ≤ call.moments n) :
    runUnits hashRequest .memory ((runUnits hashRequest .d1 calls).committed.map Prod.fst) = runUnits hashRequest .d1 calls :=
  replayed_run (numbersStand_in_turn hturn).1

theorem d1_in_turn_is_memory_two :
    runUnits (fun _ => "") .memory ((runUnits (fun _ => "") .d1 [createAt 0 "a" none none, createAt 1 "b" none none]).committed.map
      Prod.fst) = runUnits (fun _ => "") .d1 [createAt 0 "a" none none, createAt 1 "b" none none] := by
  refine d1_in_turn_is_memory (fun _ => "") _ fun before call after h n => ?_
  rcases before with _ | ⟨first, _ | ⟨second, rest⟩⟩
  · exact Nat.zero_le _
  · cases h
    exact le_rfl
  · simp at h

/-- The highest root leaves the project's roots while a create that has read the next number is under way. -/
def numberedLate : List UnitCall :=
  [createAt 0 "a" none none, createAt 1 "b" none none, reparentUnder 2 "b" 1 (some "a"), createAt 2 "c" none none]

/-- The late create takes number 3, and 2 where it is replayed. -/
theorem not_serializable : ¬ Serializable (fun _ => "") numberedLate := by
  intro h
  have hdiffer : (runUnits (fun _ => "") .memory ((runUnits (fun _ => "") .d1 numberedLate).committed.map Prod.fst)).rows ≠
      (runUnits (fun _ => "") .d1 numberedLate).rows := by decide +kernel
  exact hdiffer h.rows

/-- Two creates race for one number, and the one that is refused tries again. -/
def racingCreates : List UnitCall := [createAt 0 "a" none none, createAt 0 "b" none none, createAt 1 "b" none none]

theorem serializable_racingCreates :
    Meets (Ledger.step (fun _ => "") .d1) (NumbersStand fun _ => "") {} racingCreates ∧
      Serializable (fun _ => "") racingCreates :=
  have hmeets : Meets (Ledger.step (fun _ => "") .d1) (NumbersStand fun _ => "") {} racingCreates := by decide +kernel
  ⟨hmeets, serializable_of_numbersStand (fun _ => "") racingCreates hmeets⟩

/-! Which number names one root for good: the project's next number is one past the highest its rows hold now, so
it comes back once the root that held the highest has left. -/

/-- A reparent takes no root that holds its project's highest number out of the project's roots. -/
def KeepsHighestRoot (ledger : Ledger) (call : UnitCall) : Prop :=
  match call.work with
  | .command actor request =>
    match request.command with
    | .taskReparent input => ∀ task ∈ ledger.rows.task (actor.scopeId, input.taskId), task.revision = input.revision →
        task.parentTaskId = none → input.projectId ≠ task.projectId ∨ input.parentTaskId ≠ none →
          task.number + 1 ≠ ledger.rows.nextNumber task.scopeId task.projectId
    | _ => True
  | .settle _ => True

instance (ledger : Ledger) (call : UnitCall) : Decidable (KeepsHighestRoot ledger call) := by
  obtain ⟨work⟩ := call
  cases work with
  | command actor request =>
    obtain ⟨id, command⟩ := request
    cases command <;> unfold KeepsHighestRoot <;> infer_instance
  | settle _ => exact inferInstanceAs (Decidable True)

/-- Over D1, where a unit's number may be one it read a while ago, it must still be the project's next. -/
def NumbersForGood (hashRequest : TasksCommand → String) (store : StoreKind) (ledger : Ledger) (call : UnitCall) : Prop :=
  WhereCommits hashRequest store KeepsHighestRoot ledger call ∧ (store = .d1 → NumbersStand hashRequest ledger call)

instance (hashRequest : TasksCommand → String) (store : StoreKind) (ledger : Ledger) (call : UnitCall) :
    Decidable (NumbersForGood hashRequest store ledger call) :=
  inferInstanceAs (Decidable (_ ∧ (_ → _)))

/-- Through the run no two tasks were roots of one project under one number, and the project's next number is none
that a root of it was given before. -/
def NumberedOnce (hashRequest : TasksCommand → String) (store : StoreKind) (calls : List UnitCall) : Prop :=
  (∀ earlier later, earlier <+: calls → later <+: calls → ∀ a ∈ (runUnits hashRequest store earlier).rows.tasks,
    ∀ b ∈ (runUnits hashRequest store later).rows.tasks, a.childNumber = none → b.childNumber = none → a.scopeId = b.scopeId →
      a.projectId = b.projectId → a.number = b.number → a.id = b.id) ∧
  ∀ earlier later, earlier <+: later → later <+: calls → ∀ a ∈ (runUnits hashRequest store earlier).rows.tasks,
    a.childNumber = none → (runUnits hashRequest store later).rows.nextNumber a.scopeId a.projectId ≠ a.number

/-- The roots the ledger has seen: their numbers are their own, and below the next. -/
structure Numbered (ledger : Ledger) : Prop where
  once : ∀ i j k k' a b, (ledger.at i).task k = some a → (ledger.at j).task k' = some b → a.childNumber = none →
    b.childNumber = none → k.1 = k'.1 → a.projectId = b.projectId → a.number = b.number → k = k'
  next : ∀ i k a, (ledger.at i).task k = some a → a.childNumber = none → a.number < ledger.rows.nextNumber k.1 a.projectId

section
variable {rows rows' : Rows}

theorem foldl_max_mem (ns : List ℕ) (m : ℕ) : ns.foldl max m = m ∨ ns.foldl max m ∈ ns := by
  induction ns generalizing m with
  | nil => exact .inl rfl
  | cons n ns ih =>
    rcases ih (max m n) with heq | hmem
    · rw [List.foldl_cons, heq]
      rcases max_choice m n with h | h
      · exact .inl h
      · rw [h]
        exact .inr List.mem_cons_self
    · exact .inr (List.mem_cons_of_mem _ hmem)

/-- A project that has given a number has a root that holds its highest. -/
theorem exists_highest (hwf : WellFormed rows.forest) (hnodup : (rows.tasks.map Task.key).Nodup) (scopeId projectId : String) :
    rows.nextNumber scopeId projectId = 1 ∨ ∃ k c, rows.task k = some c ∧ k.1 = scopeId ∧ c.projectId = projectId ∧
      c.parentTaskId = none ∧ c.number + 1 = rows.nextNumber scopeId projectId := by
  unfold Rows.nextNumber
  rcases foldl_max_mem
    ((rows.tasks.filter fun task => task.scopeId = scopeId ∧ task.projectId = projectId).map Task.number) 0 with heq | hmem
  · rw [heq]
    exact .inl rfl
  · right
    obtain ⟨t, ht, hnumber⟩ := List.mem_map.mp hmem
    obtain ⟨hmem, hproject⟩ := List.mem_filter.mp ht
    obtain ⟨hscope, hproject⟩ := of_decide_eq_true hproject
    have hrow := Table.get_of_mem hnodup hmem
    rcases hparent : t.parentTaskId with _ | p
    · exact ⟨t.key, t, hrow, hscope, hproject, hparent, by rw [hnumber]⟩
    · -- a child has its parent's number, and the parent is a root of the project
      obtain ⟨q, hq, hunder⟩ := hwf.parent t.key t.place p (Rows.forest_of_task hrow) hparent
      obtain ⟨parent, hrow', rfl⟩ := Rows.exists_of_forest hq
      exact ⟨_, parent, hrow', hscope, hunder.project.trans hproject, hunder.root,
          by rw [← hnumber]; exact congrArg (· + 1) hunder.number⟩

end

section
variable {hashRequest : TasksCommand → String} {store : StoreKind} {ledger : Ledger} {call : UnitCall} {t : Trace} {rows' : Rows}
  {k : Key} {c next : Task}

theorem highest_stays (hkeeps : KeepsHighestRoot ledger call) (h : Change t ledger.rows call.work k next)
    (hc : ledger.rows.task k = some c) (hroot : c.parentTaskId = none)
    (hhighest : c.number + 1 = ledger.rows.nextNumber k.1 c.projectId) : next.projectId = c.projectId ∧ next.number = c.number := by
  cases h with
  | same hc' hfiling =>
    obtain rfl := Option.some.inj (hc.symm.trans hc')
    exact ⟨hfiling.1, hfiling.2.1⟩
  | created hwork hcommand hscope hnew hproject hparent hworkspace hnumber =>
    rw [hnew] at hc
    cases hc
  | edited hwork hcommand hkey hc' hrevision hfiling hlinks =>
    obtain rfl := Option.some.inj (hc.symm.trans hc')
    exact ⟨hfiling.1, hfiling.2.1⟩
  | @reparented actor request input c' hwork hcommand hkey hc' hrevision hself hproject hparent hlinks hchildless hworkspace
      hroot' hnumber hkept =>
    obtain rfl := Option.some.inj (hc.symm.trans hc')
    rw [KeepsHighestRoot, hwork] at hkeeps
    dsimp only at hkeeps
    rw [hcommand] at hkeeps
    have hstays : ¬ (input.projectId ≠ c.projectId ∨ input.parentTaskId ≠ none) := fun hmoved => by
      refine hkeeps c (hkey ▸ hc) hrevision hroot hmoved ?_
      rw [show c.scopeId = k.1 from congrArg Prod.fst (Rows.task_key hc)]
      exact hhighest
    obtain ⟨hsame, -⟩ := not_or.mp hstays
    refine ⟨hproject.trans (not_not.mp hsame), (hkept ?_).1⟩
    rw [hroot]
    exact hstays

/-- Where the highest root stays, the next number never falls. -/
theorem nextNumber_le (hchronicle : Chronicle ledger) (hkeeps : KeepsHighestRoot ledger call) (heffect : Effect t ledger.rows rows')
    (hchange : ∀ k next, rows'.task k = some next → Change t ledger.rows call.work k next) (scopeId projectId : String) :
    ledger.rows.nextNumber scopeId projectId ≤ rows'.nextNumber scopeId projectId := by
  rcases exists_highest hchronicle.rows_wellFormed hchronicle.nodup scopeId projectId with
    hone | ⟨k, c, hc, rfl, rfl, hroot, hhighest⟩
  · rw [hone]
    exact Nat.succ_le_succ (Nat.zero_le _)
  · obtain ⟨next, hnext, -⟩ := heffect.grows.task k c hc
    obtain ⟨hproject, hnumber⟩ := highest_stays hkeeps (hchange k next hnext) hc hroot hhighest
    have hlt : next.number < rows'.nextNumber k.1 next.projectId := lt_nextNumber (Rows.forest_of_task hnext)
    rw [hproject, hnumber] at hlt
    omega

/-- A root among the rows a unit leaves was one among those it found, under the same number, or has the next. -/
theorem root_cases (hnumbers : ∀ scopeId projectId n, ⟨.nextNumber scopeId projectId, n⟩ ∈ t.reads →
    ledger.rows.nextNumber scopeId projectId = n) (h : Change t ledger.rows call.work k next) (hroot : next.parentTaskId = none)
    (hnone : next.childNumber = none) :
    (∃ c, ledger.rows.task k = some c ∧ c.childNumber = none ∧ c.projectId = next.projectId ∧ c.number = next.number) ∨
      next.number = ledger.rows.nextNumber k.1 next.projectId := by
  cases h with
  | same hc hfiling => exact .inl ⟨_, hc, hfiling.2.2.1 ▸ hnone, hfiling.1.symm, hfiling.2.1.symm⟩
  | created hwork hcommand hscope hnew hproject hparent hworkspace hnumber =>
    right
    rw [hproject]
    exact (hnumbers _ _ _ (hnumber (hparent ▸ hroot))).symm
  | edited hwork hcommand hkey hc hrevision hfiling hlinks =>
    exact .inl ⟨_, hc, hfiling.2.2.1 ▸ hnone, hfiling.1.symm, hfiling.2.1.symm⟩
  | @reparented actor request input c hwork hcommand hkey hc hrevision hself hproject hparent hlinks hchildless hworkspace
      hroot' hnumber hkept =>
    by_cases hmoved : input.projectId ≠ c.projectId ∨ input.parentTaskId ≠ c.parentTaskId
    · right
      rw [hproject]
      exact (hnumbers _ _ _ (hnumber hmoved (hparent ▸ hroot))).symm
    · obtain ⟨hsame, hchild⟩ := hkept hmoved
      obtain ⟨hstays, -⟩ := not_or.mp hmoved
      exact .inl ⟨c, hc, hchild ▸ hnone, ((hproject.trans (not_not.mp hstays))).symm, hsame.symm⟩

theorem Transacted.numbers {result : UnitResult} (h : Transacted hashRequest store ledger call t result rows')
    (htransact : ledger.transact hashRequest store call = some (result, rows'))
    (hstand : store = .d1 → NumbersStand hashRequest ledger call) {scopeId projectId : String} {n : ℕ}
    (hread : ⟨.nextNumber scopeId projectId, n⟩ ∈ t.reads) : ledger.rows.nextNumber scopeId projectId = n := by
  cases store with
  | memory => exact h.exact rfl _ hread
  | d1 =>
    have hnumbers := hstand rfl (by rw [htransact]; rfl)
    rw [h.d1Trace] at hnumbers
    exact h.reads hnumbers _ hread

theorem Numbered.step (h : Numbered ledger) (hchronicle : Chronicle ledger)
    (hgood : NumbersForGood hashRequest store ledger call) : Numbered (ledger.step hashRequest store call) := by
  have hwf := (hchronicle.step hashRequest store call).rows_wellFormed
  have hdistinct := (hchronicle.step hashRequest store call).distinct
  rcases step_cases hchronicle hashRequest store call with hsame | ⟨t, result, rows', hcommit, htransact, htransacted, heffect, hchange⟩
  · rw [hsame]
    exact h
  · rw [hcommit] at hwf hdistinct ⊢
    have hkeeps := hgood.1 (by rw [htransact]; rfl)
    have hmono := nextNumber_le hchronicle hkeeps heffect hchange
    have hroot : ∀ {k next}, rows'.task k = some next → next.childNumber = none →
        (∃ c, ledger.rows.task k = some c ∧ c.childNumber = none ∧ c.projectId = next.projectId ∧ c.number = next.number) ∨
          next.number = ledger.rows.nextNumber k.1 next.projectId := fun {k next} hnext hnone =>
      root_cases (fun _ _ _ hread => htransacted.numbers htransact hgood.2 hread) (hchange k next hnext)
        ((hwf.filed k next.place (Rows.forest_of_task hnext)).mp hnone) hnone
    -- a root of the new rows against one of an older moment
    have hnew : ∀ {j k k' a b}, rows'.task k = some a → (ledger.at j).task k' = some b → a.childNumber = none →
        b.childNumber = none → k.1 = k'.1 → a.projectId = b.projectId → a.number = b.number → k = k' := by
      intro j k k' a b ha hb hanone hbnone hscope hproject hnumber
      rcases hroot ha hanone with ⟨c, hc, hcnone, hcproject, hcnumber⟩ | hnext
      · rw [← Ledger.at_of_le le_rfl] at hc
        exact h.once _ j k k' c b hc hb hcnone hbnone hscope (hcproject.trans hproject) (hcnumber.trans hnumber)
      · have hlt := h.next j k' b hb hbnone
        rw [← hscope, ← hproject, ← hnext] at hlt
        omega
    refine ⟨fun i j k k' a b ha hb hanone hbnone hscope hproject hnumber => ?_, fun i k a ha hanone => ?_⟩
    · rw [Ledger.at_commit] at ha hb
      split_ifs at ha with hi
      · split_ifs at hb with hj
        · exact h.once i j k k' a b ha hb hanone hbnone hscope hproject hnumber
        · exact (hnew hb ha hbnone hanone hscope.symm hproject.symm hnumber.symm).symm
      · split_ifs at hb with hj
        · exact hnew ha hb hanone hbnone hscope hproject hnumber
        · exact hdistinct k k' _ _ (Rows.forest_of_task ha) (Rows.forest_of_task hb) hscope hproject hnumber
            (hanone.trans hbnone.symm)
    · rw [Ledger.at_commit] at ha
      split_ifs at ha with hi
      · exact (h.next i k a ha hanone).trans_le (hmono _ _)
      · exact lt_nextNumber (Rows.forest_of_task ha)

theorem at_run (calls : List UnitCall) {i : ℕ} (h : i ≤ ledger.past.length) :
    (run (Ledger.step hashRequest store) ledger calls).at i = ledger.at i := by
  induction calls generalizing ledger with
  | nil => rfl
  | cons call calls ih =>
    rw [run_cons]
    have hstep : ledger.step hashRequest store call = ledger ∨
        ∃ result rows', ledger.step hashRequest store call = ledger.commit call result rows' := by
      unfold Ledger.step
      split_ifs
      · rcases ledger.transact hashRequest store call with _ | ⟨result, rows'⟩
        · exact .inl rfl
        · exact .inr ⟨result, rows', rfl⟩
      · exact .inl rfl
    rcases hstep with hsame | ⟨result, rows', hcommit⟩
    · rw [hsame]
      exact ih h
    · rw [hcommit, ih, Ledger.at_commit, if_pos h]
      simp only [Ledger.commit, List.length_append]
      omega

theorem rows_at_of_prefix (hashRequest : TasksCommand → String) (store : StoreKind) {earlier later : List UnitCall}
    (h : earlier <+: later) :
    ∃ i, (runUnits hashRequest store later).at i = (runUnits hashRequest store earlier).rows := by
  obtain ⟨rest, rfl⟩ := h
  refine ⟨(runUnits hashRequest store earlier).past.length, ?_⟩
  rw [runUnits, run_append]
  exact (at_run rest le_rfl).trans (Ledger.at_of_le le_rfl)

theorem numbered_empty : Numbered {} where
  once i j k k' a b ha := by
    have hnone : (({} : Ledger).at i).task k = none := rfl
    rw [hnone] at ha
    cases ha
  next i k a ha := by
    have hnone : (({} : Ledger).at i).task k = none := rfl
    rw [hnone] at ha
    cases ha

theorem numbered_run {calls : List UnitCall}
    (hmeets : Meets (Ledger.step hashRequest store) (NumbersForGood hashRequest store) {} calls) :
    Numbered (runUnits hashRequest store calls) :=
  (invariant_of_meets (fun ledger => Chronicle ledger ∧ Numbered ledger)
    (fun _ call hinv hgood => ⟨hinv.1.step hashRequest store call, hinv.2.step hinv.1 hgood⟩)
    ⟨chronicle_empty, numbered_empty⟩ hmeets).2

end

/-- Where no root leaves while it holds its project's highest number, one number names one root for good. -/
theorem numberedOnce_of_good (hashRequest : TasksCommand → String) (store : StoreKind) (calls : List UnitCall)
    (hmeets : Meets (Ledger.step hashRequest store) (NumbersForGood hashRequest store) {} calls) :
    NumberedOnce hashRequest store calls := by
  have hrow : ∀ {calls : List UnitCall} {a : Task}, a ∈ (runUnits hashRequest store calls).rows.tasks →
      (runUnits hashRequest store calls).rows.task a.key = some a := fun ha =>
    Table.get_of_mem (chronicle_runUnits hashRequest store _).nodup ha
  refine ⟨fun earlier later hearlier hlater a ha b hb hanone hbnone hscope hproject hnumber => ?_,
    fun earlier later hearlier hlater a ha hanone heq => ?_⟩
  · obtain ⟨i, hi⟩ := rows_at_of_prefix hashRequest store hearlier
    obtain ⟨j, hj⟩ := rows_at_of_prefix hashRequest store hlater
    exact congrArg Prod.snd ((numbered_run hmeets).once i j a.key b.key a b (hi ▸ hrow ha) (hj ▸ hrow hb) hanone hbnone hscope
      hproject hnumber)
  · obtain ⟨rest, rfl⟩ := hlater
    obtain ⟨hmeets, -⟩ := (meets_append _ _ _ _ _).mp hmeets
    obtain ⟨i, hi⟩ := rows_at_of_prefix hashRequest store hearlier
    have hlt : a.number < (runUnits hashRequest store later).rows.nextNumber a.scopeId a.projectId :=
      (numbered_run hmeets).next i a.key a (hi ▸ hrow ha) hanone
    omega

/-- The highest root goes under another, and the next root takes its number. -/
theorem not_numberedOnce : ¬ NumberedOnce (fun _ => "") .memory
    [createAt 0 "a" none none, createAt 1 "b" none none, reparentUnder 2 "b" 1 (some "a"), createAt 3 "c" none none] := by
  intro h
  have hearlier : createdRoot "b" 2 none ∈
      (runUnits (fun _ => "") .memory [createAt 0 "a" none none, createAt 1 "b" none none]).rows.tasks := by decide +kernel
  have hlater : createdRoot "c" 2 none ∈ (runUnits (fun _ => "") .memory
      [createAt 0 "a" none none, createAt 1 "b" none none, reparentUnder 2 "b" 1 (some "a"),
        createAt 3 "c" none none]).rows.tasks := by decide +kernel
  have hsame := h.1 _ _ ⟨_, rfl⟩ (List.prefix_refl _) _ hearlier _ hlater rfl rfl rfl rfl rfl
  revert hsame
  decide

/-- A root that is not the highest goes under another, and its number stays its own. -/
theorem numberedOnce_lower :
    Meets (Ledger.step (fun _ => "") .d1) (NumbersForGood (fun _ => "") .d1) {}
        [createAt 0 "a" none none, createAt 1 "b" none none, reparentUnder 2 "a" 1 (some "b"), createAt 3 "c" none none] ∧
      NumberedOnce (fun _ => "") .d1
        [createAt 0 "a" none none, createAt 1 "b" none none, reparentUnder 2 "a" 1 (some "b"), createAt 3 "c" none none] :=
  have hmeets : Meets (Ledger.step (fun _ => "") .d1) (NumbersForGood (fun _ => "") .d1) {}
      [createAt 0 "a" none none, createAt 1 "b" none none, reparentUnder 2 "a" 1 (some "b"), createAt 3 "c" none none] := by
    decide +kernel
  ⟨hmeets, numberedOnce_of_good (fun _ => "") .d1 _ hmeets⟩

end Claxedo.Tasks
