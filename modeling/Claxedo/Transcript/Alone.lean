import Claxedo.Transcript.GroupParts

/-! The source's pass and the pass over runs make the same groups. -/

namespace Claxedo.Transcript

section
variable {parts done run rest : List GroupablePart}

theorem slice_of (h : parts = done ++ run ++ rest) : slice parts done.length (done.length + run.length) = run := by
  subst h
  unfold slice
  rw [← List.length_append, List.take_left, List.drop_left]

theorem get_of {first : GroupablePart} (h : parts = done ++ (first :: run) ++ rest) : parts[done.length]? = some first := by
  subst h
  simp

end

variable (toLowerCase : String → String)

/-- A run is open exactly where it holds something. -/
def Pass.Sound (pass : Pass) : Prop :=
  match pass.opened with
  | .context | .work | .task => pass.run ≠ []
  | .single => pass.run = []
  | .thought => False

/-- The starts the source keeps, where the open run starts at `start`. -/
def Runs.of (pass : Pass) (start : ℕ) : Runs where
  result := pass.result
  contextStart := if pass.opened = .context then some start else none
  workStart := if pass.opened = .work then some start else none
  taskStart := if pass.opened = .task then some start else none
  thoughtStart := if pass.thoughts = [] then none else some (start + pass.run.length)

/-- With `rest` of the parts to come, the starts the source keeps are those of the pass. -/
def Follows (parts rest : List GroupablePart) (runs : Runs) (pass : Pass) : Prop :=
  ∃ done : List GroupablePart, runs = Runs.of pass done.length ∧ parts = done ++ pass.run ++ (pass.thoughts ++ rest) ∧ pass.Sound

section
variable {parts done rest : List GroupablePart} {pass : Pass}

theorem flushContext_of (hsound : pass.Sound) (hparts : parts = done ++ pass.run ++ rest) (runs : Runs)
    (h : runs.contextStart = if pass.opened = .context then some done.length else none) :
    runs.flushContext parts (done.length + pass.run.length) =
      { runs with
        result := runs.result ++ (if pass.opened = .context then close toLowerCase .context pass.run else [])
        contextStart := none } := by
  unfold Runs.flushContext
  rw [h]
  rcases pass with ⟨result, opened, run, thoughts⟩
  by_cases ho : opened = .context
  · subst ho
    rcases run with _ | ⟨first, tail⟩
    · exact absurd rfl hsound
    · simp only [if_true]
      rw [get_of hparts, slice_of hparts]
      rfl
  · simp only [ho, if_false, List.append_nil] at h ⊢
    rw [← h]

theorem flushTask_of (hsound : pass.Sound) (hparts : parts = done ++ pass.run ++ rest) (runs : Runs)
    (h : runs.taskStart = if pass.opened = .task then some done.length else none) :
    runs.flushTask parts (done.length + pass.run.length) =
      { runs with
        result := runs.result ++ (if pass.opened = .task then close toLowerCase .task pass.run else [])
        taskStart := none } := by
  unfold Runs.flushTask
  rw [h]
  rcases pass with ⟨result, opened, run, thoughts⟩
  by_cases ho : opened = .task
  · subst ho
    rcases run with _ | ⟨first, tail⟩
    · exact absurd rfl hsound
    · simp only [if_true]
      rw [get_of hparts, slice_of hparts]
      rfl
  · simp only [ho, if_false, List.append_nil] at h ⊢
    rw [← h]

theorem flushWork_of (hsound : pass.Sound) (hparts : parts = done ++ pass.run ++ rest) (runs : Runs)
    (h : runs.workStart = if pass.opened = .work then some done.length else none) :
    runs.flushWork toLowerCase parts (done.length + pass.run.length) =
      { runs with
        result := runs.result ++ (if pass.opened = .work then close toLowerCase .work pass.run else [])
        workStart := none } := by
  unfold Runs.flushWork
  rw [h]
  rcases pass with ⟨result, opened, run, thoughts⟩
  by_cases ho : opened = .work
  · subst ho
    rcases run with _ | ⟨first, tail⟩
    · exact absurd rfl hsound
    · simp only [if_true]
      rw [get_of hparts, slice_of hparts]
      dsimp only [close]
      split_ifs <;> rfl
  · simp only [ho, if_false, List.append_nil] at h ⊢
    rw [← h]

theorem flushThoughts_of (hparts : parts = done ++ pass.run ++ pass.thoughts ++ rest) (runs : Runs)
    (h : runs.thoughtStart = if pass.thoughts = [] then none else some (done.length + pass.run.length)) :
    runs.flushThoughts toLowerCase parts (done.length + pass.run.length + pass.thoughts.length) =
      { runs with result := runs.result ++ pass.thoughts.map (partGroup toLowerCase), thoughtStart := none } := by
  unfold Runs.flushThoughts
  rw [h]
  by_cases ht : pass.thoughts = []
  · simp only [ht, if_true, List.map_nil, List.append_nil] at h ⊢
    rw [← h]
  · simp only [ht, if_false]
    rw [← List.length_append, slice_of hparts]

theorem Pass.join_thoughts (pass : Pass) (opened : Kind)
    (item : GroupablePart) : (pass.join toLowerCase opened item).thoughts = [] := by
  unfold Pass.join
  split_ifs <;> rfl

theorem runStart_of (pass : Pass) (start : ℕ) :
    (Runs.of pass start).thoughtStart.getD (start + pass.run.length + pass.thoughts.length) = start + pass.run.length := by
  unfold Runs.of
  by_cases ht : pass.thoughts = [] <;> simp [ht]

section
variable {item : GroupablePart} (hsound : pass.Sound) (hparts : parts = done ++ pass.run ++ (pass.thoughts ++ item :: rest))
  (hr : item.part.isReasoning = false)
include hsound hparts hr

theorem visit_context (hc : item.part.isContextGroupTool toLowerCase = true) :
    Follows parts rest
      (Runs.visit toLowerCase parts (Runs.of pass done.length) item (done.length + pass.run.length + pass.thoughts.length))
      (pass.join toLowerCase .context item) := by
  unfold Runs.visit
  rw [hr, hc, runStart_of]
  simp only [Bool.false_eq_true, if_false, if_true]
  rw [flushWork_of toLowerCase hsound hparts (Runs.of pass done.length) rfl]
  rw [flushTask_of toLowerCase hsound hparts _ rfl]
  rcases pass with ⟨result, opened, run, thoughts⟩
  unfold Pass.join
  by_cases ho : opened = .context
  · subst ho
    refine ⟨done, ?_, ?_, ?_⟩
    · simp [Runs.of]
    · simp [hparts]
    · simp [Pass.Sound]
  · refine ⟨done ++ run, ?_, ?_, ?_⟩
    · cases opened <;> simp [Runs.of, Pass.closed, close] at ho hsound ⊢
    · simp [hparts, ho]
    · simp [Pass.Sound, ho]

theorem visit_work (hc : item.part.isContextGroupTool toLowerCase = false) (hw : item.part.isWorkGroupTool toLowerCase = true) :
    Follows parts rest
      (Runs.visit toLowerCase parts (Runs.of pass done.length) item (done.length + pass.run.length + pass.thoughts.length))
      (pass.join toLowerCase .work item) := by
  unfold Runs.visit
  rw [hr, hc, hw, runStart_of]
  simp only [Bool.false_eq_true, if_false, if_true]
  rw [flushContext_of toLowerCase hsound hparts (Runs.of pass done.length) rfl]
  rw [flushTask_of toLowerCase hsound hparts _ rfl]
  rcases pass with ⟨result, opened, run, thoughts⟩
  unfold Pass.join
  by_cases ho : opened = .work
  · subst ho
    refine ⟨done, ?_, ?_, ?_⟩
    · simp [Runs.of]
    · simp [hparts]
    · simp [Pass.Sound]
  · refine ⟨done ++ run, ?_, ?_, ?_⟩
    · cases opened <;> simp [Runs.of, Pass.closed, close] at ho hsound ⊢
    · simp [hparts, ho]
    · simp [Pass.Sound, ho]

end

/-- What is left of the pass where a part joins no run: the open run is closed, and the thoughts after it stand alone. -/
theorem flush_all (hsound : pass.Sound) (hparts : parts = done ++ pass.run ++ (pass.thoughts ++ rest)) :
    (((((Runs.of pass done.length).flushContext parts (done.length + pass.run.length)).flushWork toLowerCase parts
        (done.length + pass.run.length)).flushTask parts (done.length + pass.run.length)).flushThoughts toLowerCase parts
          (done.length + pass.run.length + pass.thoughts.length)) = { result := pass.finish toLowerCase } := by
  rw [flushContext_of toLowerCase hsound hparts (Runs.of pass done.length) rfl]
  rw [flushWork_of toLowerCase hsound hparts _ rfl]
  rw [flushTask_of toLowerCase hsound hparts _ rfl]
  rw [flushThoughts_of toLowerCase (by simpa using hparts) _ rfl]
  rcases pass with ⟨result, opened, run, thoughts⟩
  cases opened <;> simp [Runs.of, Pass.finish, Pass.closed, close]

section
variable {item : GroupablePart} (hsound : pass.Sound) (hparts : parts = done ++ pass.run ++ (pass.thoughts ++ item :: rest))
include hsound hparts

theorem visit_alone (hr : item.part.isReasoning = false) (hc : item.part.isContextGroupTool toLowerCase = false)
    (hw : item.part.isWorkGroupTool toLowerCase = false) :
    Follows parts rest
      (Runs.visit toLowerCase parts (Runs.of pass done.length) item (done.length + pass.run.length + pass.thoughts.length))
      (pass.step toLowerCase item) := by
  have hall := flush_all toLowerCase hsound hparts
  unfold Runs.visit Pass.step kind
  rw [hr, hc, hw, runStart_of]
  simp only [Bool.false_eq_true, if_false]
  cases htask : !item.part.isClaxedoToolPart toLowerCase && item.part.isSubagentToolPart toLowerCase && !item.part.spawnFailed with
  | false =>
    simp only [Bool.not_false, Bool.true_or, if_true, if_false, Bool.false_eq_true]
    rw [hall]
    refine ⟨done ++ pass.run ++ pass.thoughts ++ [item], ?_, ?_, rfl⟩
    · simp [Runs.of, Pass.finish]
    · simp [hparts]
  | true =>
    simp only [Bool.not_true, Bool.false_or, if_true]
    have hthoughts : (((Runs.of pass done.length).flushContext parts (done.length + pass.run.length)).flushWork toLowerCase parts
        (done.length + pass.run.length)).thoughtStart.isSome = !decide (pass.thoughts = []) := by
      rw [flushContext_of toLowerCase hsound hparts (Runs.of pass done.length) rfl]
      rw [flushWork_of toLowerCase hsound hparts _ rfl]
      by_cases ht : pass.thoughts = [] <;> simp [Runs.of, ht]
    rw [hthoughts]
    by_cases ht : pass.thoughts = []
    · -- the run of subagents that may be open goes on
      have hparts' : parts = done ++ pass.run ++ item :: rest := by simpa [ht] using hparts
      rw [if_neg (by simp [ht])]
      rw [flushContext_of toLowerCase hsound hparts (Runs.of pass done.length) rfl]
      rw [flushWork_of toLowerCase hsound hparts _ rfl]
      rw [flushThoughts_of toLowerCase (by simpa using hparts) _ rfl]
      rcases pass with ⟨result, opened, run, thoughts⟩
      subst ht
      by_cases ho : opened = .task
      · subst ho
        refine ⟨done, ?_, ?_, ?_⟩ <;> simp [Runs.of, hparts', Pass.Sound]
      · refine ⟨done ++ run, ?_, ?_, ?_⟩
        · cases opened <;> simp [Runs.of, Pass.closed, close] at ho hsound ⊢
        · simp [hparts', ho]
        · simp [Pass.Sound, ho]
    · simp only [ht, decide_false, Bool.not_false, if_true, and_false, if_false]
      rw [hall]
      refine ⟨done ++ pass.run ++ pass.thoughts, ?_, ?_, ?_⟩
      · simp [Runs.of, Pass.finish, Nat.add_assoc]
      · simp [hparts]
      · simp [Pass.Sound]

/-- One part: the source's starts stay those of the runs. -/
theorem visit_of :
    Follows parts rest
      (Runs.visit toLowerCase parts (Runs.of pass done.length) item (done.length + pass.run.length + pass.thoughts.length))
      (pass.step toLowerCase item) := by
  cases hr : item.part.isReasoning with
  | true =>
    refine ⟨done, ?_, ?_, ?_⟩
    · unfold Runs.visit Pass.step kind
      by_cases ht : pass.thoughts = [] <;> simp [hr, Runs.of, ht]
    · simp [Pass.step, kind, hr, hparts]
    · simpa [Pass.step, kind, hr, Pass.Sound] using hsound
  | false =>
    cases hc : item.part.isContextGroupTool toLowerCase with
    | true =>
      have hstep : pass.step toLowerCase item = pass.join toLowerCase .context item := by simp [Pass.step, kind, hr, hc]
      rw [hstep]
      exact visit_context toLowerCase hsound hparts hr hc
    | false =>
      cases hw : item.part.isWorkGroupTool toLowerCase with
      | true =>
        have hstep : pass.step toLowerCase item = pass.join toLowerCase .work item := by simp [Pass.step, kind, hr, hc, hw]
        rw [hstep]
        exact visit_work toLowerCase hsound hparts hr hc hw
      | false => exact visit_alone toLowerCase hsound hparts hr hc hw

end

theorem foldl_visit (hsound : pass.Sound) (hparts : parts = done ++ pass.run ++ (pass.thoughts ++ rest)) :
    Follows parts []
      ((rest.zipIdx (done.length + pass.run.length + pass.thoughts.length)).foldl
        (fun runs (item, index) => Runs.visit toLowerCase parts runs item index) (Runs.of pass done.length))
      (rest.foldl (Pass.step toLowerCase) pass) := by
  induction rest generalizing done pass with
  | nil => exact ⟨done, rfl, hparts, hsound⟩
  | cons item rest ih =>
    obtain ⟨done', hvisit, hparts', hsound'⟩ := visit_of toLowerCase hsound hparts
    have hlength : done.length + pass.run.length + pass.thoughts.length + 1 =
        done'.length + (pass.step toLowerCase item).run.length + (pass.step toLowerCase item).thoughts.length := by
      have h := congrArg List.length (hparts.symm.trans hparts')
      simp only [List.length_append, List.length_cons] at h
      omega
    rw [List.zipIdx_cons, List.foldl_cons, List.foldl_cons]
    dsimp only
    rw [hvisit, hlength]
    exact ih hsound' hparts'

end

theorem groupParts_eq (input : List GroupablePart) :
    groupParts toLowerCase input =
      ((input.filter fun item => !item.part.isPendingQuestion toLowerCase).foldl (Pass.step toLowerCase) {}).finish toLowerCase := by
  unfold groupParts
  dsimp only
  set parts := input.filter fun item => !item.part.isPendingQuestion toLowerCase
  have hsound : Pass.Sound {} := rfl
  obtain ⟨done, hfold, hparts, hend⟩ := @foldl_visit toLowerCase parts [] parts {} hsound rfl
  refine (congrArg (Runs.finish toLowerCase parts) hfold).trans ?_
  generalize parts.foldl (Pass.step toLowerCase) {} = pass at *
  have hlength : parts.length = done.length + pass.run.length + pass.thoughts.length := by
    rw [hparts]
    simp [Nat.add_assoc]
  unfold Runs.finish
  dsimp only
  rw [hlength, runStart_of, flush_all toLowerCase hend hparts]

end Claxedo.Transcript

/-! Which parts stand alone, told from the parts themselves. -/

namespace Claxedo.Transcript

variable (toLowerCase : String → String)

/-- What comes after a part, thoughts aside. -/
def nextKinds (rest : List GroupablePart) : List Kind := (rest.map (kind toLowerCase)).filter (· ≠ .thought)

/-- A part stands alone that is neither reading up, work nor a subagent; so does the one tool of a run of work, with the thoughts right
before it, and a thought that no reading up or work follows. `before` is what comes before the part, thoughts aside. -/
def standsAlone (before : Option Kind) (item : GroupablePart) (rest : List GroupablePart) : Bool :=
  match kind toLowerCase item with
  | .single => true
  | .context | .task => false
  | .work => before ≠ some .work && (nextKinds toLowerCase rest).head? ≠ some .work
  | .thought =>
    match nextKinds toLowerCase rest with
    | .context :: _ => false
    | .work :: kinds => before ≠ some .work && kinds.head? ≠ some .work
    | _ => true

/-- The parts that stand alone. -/
def alone (before : Option Kind) : List GroupablePart → List GroupablePart
  | [] => []
  | item :: rest =>
    (if standsAlone toLowerCase before item rest then [item] else []) ++
      alone (if kind toLowerCase item = .thought then before else some (kind toLowerCase item)) rest

section
variable {toLowerCase} {run rest thoughts : List GroupablePart} {k : Kind}

/-- A run of a kind, with the thoughts in it, ends with one of the kind. -/
structure RunOf (toLowerCase : String → String) (k : Kind) (run : List GroupablePart) : Prop where
  kinds : ∀ item ∈ run, kind toLowerCase item = .thought ∨ kind toLowerCase item = k
  last : ∃ init item, run = init ++ [item] ∧ kind toLowerCase item = k

variable {item : GroupablePart} {before : Option Kind}

theorem RunOf.tail (h : RunOf toLowerCase k (item :: run)) (hne : run ≠ []) : RunOf toLowerCase k run := by
  refine ⟨fun other hother => h.kinds other (List.mem_cons_of_mem _ hother), ?_⟩
  obtain ⟨init, last, hrun, hlast⟩ := h.last
  rcases init with _ | ⟨_, init⟩
  · exact absurd (List.cons.inj hrun).2 hne
  · exact ⟨init, last, (List.cons.inj hrun).2, hlast⟩

theorem RunOf.tail_ne (h : RunOf toLowerCase k (item :: run)) (hk : k ≠ .thought) (hitem : kind toLowerCase item = .thought) :
    run ≠ [] := by
  rintro rfl
  obtain ⟨init, last, hrun, hlast⟩ := h.last
  rcases init with _ | ⟨_, init⟩
  · rw [(List.cons.inj hrun).1, hlast] at hitem
    exact hk hitem
  · simp at hrun

theorem RunOf.ne_nil (h : RunOf toLowerCase k run) : run ≠ [] := by
  obtain ⟨init, last, rfl, _⟩ := h.last
  simp

theorem nextKinds_thought (h : kind toLowerCase item = .thought) :
    nextKinds toLowerCase (item :: rest) = nextKinds toLowerCase rest := by
  simp [nextKinds, h]

theorem nextKinds_cons (h : kind toLowerCase item ≠ .thought) :
    nextKinds toLowerCase (item :: rest) = kind toLowerCase item :: nextKinds toLowerCase rest := by
  simp [nextKinds, h]

theorem nextKinds_thoughts (h : ∀ item ∈ thoughts, kind toLowerCase item = .thought) :
    nextKinds toLowerCase (thoughts ++ rest) = nextKinds toLowerCase rest := by
  induction thoughts with
  | nil => rfl
  | cons item thoughts ih =>
    obtain ⟨hitem, hitems⟩ := List.forall_mem_cons.mp h
    rw [List.cons_append, nextKinds_thought hitem, ih hitems]

theorem RunOf.nextKinds (h : RunOf toLowerCase k run) (hk : k ≠ .thought) (rest : List GroupablePart) :
    ∃ kinds, nextKinds toLowerCase (run ++ rest) = k :: kinds := by
  induction run with
  | nil => exact absurd rfl h.ne_nil
  | cons item run ih =>
    rcases h.kinds item List.mem_cons_self with hitem | hitem
    · rw [List.cons_append, nextKinds_thought hitem]
      exact ih (h.tail (h.tail_ne hk hitem))
    · rw [List.cons_append, nextKinds_cons (hitem ▸ hk), hitem]
      exact ⟨_, rfl⟩

/-- What came before matters only where work follows work. -/
theorem alone_congr {before' : Option Kind} (h : before = some .work ↔ before' = some .work) (rest : List GroupablePart) :
    alone toLowerCase before rest = alone toLowerCase before' rest := by
  induction rest with
  | nil => rfl
  | cons item rest ih =>
    have hdec : decide (before ≠ some .work) = decide (before' ≠ some .work) := by simp [h]
    unfold alone
    have hstands : standsAlone toLowerCase before item rest = standsAlone toLowerCase before' item rest := by
      unfold standsAlone
      rw [hdec]
    rw [hstands]
    by_cases hthought : kind toLowerCase item = .thought
    · simp only [hthought, if_true, ih]
    · simp only [hthought, if_false]

/-- And not there either where no work comes next. -/
theorem alone_of_next (h : (nextKinds toLowerCase rest).head? ≠ some .work) :
    alone toLowerCase before rest = alone toLowerCase none rest := by
  induction rest with
  | nil => rfl
  | cons item rest ih =>
    unfold alone
    by_cases hthought : kind toLowerCase item = .thought
    · rw [nextKinds_thought hthought] at h
      have hstands : standsAlone toLowerCase before item rest = standsAlone toLowerCase none item rest := by
        unfold standsAlone
        rw [hthought]
        rcases hnext : nextKinds toLowerCase rest with _ | ⟨next, kinds⟩
        · rfl
        · rw [hnext] at h
          cases next <;> first | rfl | exact absurd rfl h
      rw [hstands, if_pos hthought, if_pos hthought, ih h]
    · rw [nextKinds_cons hthought] at h
      have hstands : standsAlone toLowerCase before item rest = standsAlone toLowerCase none item rest := by
        unfold standsAlone
        cases hk : kind toLowerCase item <;> first | rfl | exact absurd hk (by simpa using h) | exact absurd hk hthought
      rw [hstands, if_neg hthought, if_neg hthought]

/-- No part of a run stands alone that is read up, or follows work. -/
theorem alone_skip (h : RunOf toLowerCase k run) (hk : k = .context ∨ k = .work ∧ before = some .work) :
    alone toLowerCase before (run ++ rest) = alone toLowerCase (some k) rest := by
  induction run generalizing before with
  | nil => exact absurd rfl h.ne_nil
  | cons item run ih =>
    have hkt : k ≠ .thought := by rcases hk with rfl | ⟨rfl, _⟩ <;> decide
    rw [List.cons_append, alone]
    rcases h.kinds item List.mem_cons_self with hitem | hitem
    · obtain ⟨kinds, hkinds⟩ := (h.tail (h.tail_ne hkt hitem)).nextKinds hkt rest
      have hstands : standsAlone toLowerCase before item (run ++ rest) = false := by
        unfold standsAlone
        rw [hitem]
        dsimp only
        rw [hkinds]
        rcases hk with rfl | ⟨rfl, rfl⟩ <;> rfl
      rw [hstands, if_neg Bool.false_ne_true, List.nil_append, if_pos hitem]
      exact ih (h.tail (h.tail_ne hkt hitem)) hk
    · have hstands : standsAlone toLowerCase before item (run ++ rest) = false := by
        unfold standsAlone
        rw [hitem]
        rcases hk with rfl | ⟨rfl, rfl⟩ <;> rfl
      rw [hstands, if_neg Bool.false_ne_true, List.nil_append, if_neg (by rw [hitem]; exact hkt), hitem]
      by_cases hne : run = []
      · rw [hne, List.nil_append]
      · exact ih (h.tail hne) (hk.imp_right fun h => ⟨h.1, congrArg some h.1⟩)

theorem alone_tasks (h : ∀ item ∈ run, kind toLowerCase item = .task) (hne : run ≠ []) :
    alone toLowerCase before (run ++ rest) = alone toLowerCase (some .task) rest := by
  induction run generalizing before with
  | nil => exact absurd rfl hne
  | cons item run ih =>
    obtain ⟨hitem, hitems⟩ := List.forall_mem_cons.mp h
    have hstands : standsAlone toLowerCase before item (run ++ rest) = false := by simp [standsAlone, hitem]
    rw [List.cons_append, alone, hstands, if_neg Bool.false_ne_true, List.nil_append, if_neg (by rw [hitem]; decide), hitem]
    by_cases hrun : run = []
    · rw [hrun, List.nil_append]
    · exact ih hitems hrun

theorem alone_thoughts (h : ∀ item ∈ thoughts, kind toLowerCase item = .thought)
    (hnext : ∀ next ∈ (nextKinds toLowerCase rest).head?, next = .task ∨ next = .single) :
    alone toLowerCase before (thoughts ++ rest) = thoughts ++ alone toLowerCase before rest := by
  induction thoughts with
  | nil => rfl
  | cons item thoughts ih =>
    obtain ⟨hitem, hitems⟩ := List.forall_mem_cons.mp h
    have hstands : standsAlone toLowerCase before item (thoughts ++ rest) = true := by
      unfold standsAlone
      rw [hitem]
      dsimp only
      rw [nextKinds_thoughts hitems]
      rcases hrest : nextKinds toLowerCase rest with _ | ⟨next, kinds⟩
      · rfl
      · rcases hnext next (by rw [hrest]; rfl) with rfl | rfl <;> rfl
    rw [List.cons_append, alone, hstands, if_pos rfl, if_pos hitem, ih hitems]
    rfl

theorem RunOf.first (h : RunOf toLowerCase .work run) :
    ∃ before first tail, run = before ++ first :: tail ∧ (∀ item ∈ before, kind toLowerCase item = .thought) ∧
      kind toLowerCase first = .work ∧ (tail = [] ∨ RunOf toLowerCase .work tail) := by
  induction run with
  | nil => exact absurd rfl h.ne_nil
  | cons item run ih =>
    rcases h.kinds item List.mem_cons_self with hitem | hitem
    · obtain ⟨before, first, tail, rfl, hbefore, hfirst, htail⟩ := ih (h.tail (h.tail_ne (by decide) hitem))
      exact ⟨item :: before, first, tail, rfl, List.forall_mem_cons.mpr ⟨hitem, hbefore⟩, hfirst, htail⟩
    · refine ⟨[], item, run, rfl, (fun _ h => by cases h), hitem, ?_⟩
      by_cases hrun : run = []
      · exact .inl hrun
      · exact .inr (h.tail hrun)

theorem isTool_of_kind (h : kind toLowerCase item = .work) : item.part.isTool = true := by
  unfold kind at h
  split_ifs at h with _ _ hwork
  exact AgentContentPart.isTool_of_isWorkGroupTool toLowerCase hwork

theorem isTool_of_thought (h : kind toLowerCase item = .thought) : item.part.isTool = false := by
  unfold kind at h
  split_ifs at h with hreasoning
  exact AgentContentPart.isTool_of_isReasoning hreasoning

theorem RunOf.tools (h : RunOf toLowerCase .work run) : 1 ≤ (run.filter fun item => item.part.isTool).length := by
  obtain ⟨init, last, rfl, hlast⟩ := h.last
  simp [isTool_of_kind hlast]

theorem alone_first {before : List GroupablePart} {first : GroupablePart} (hbefore : ∀ item ∈ before, kind toLowerCase item = .thought)
    (hfirst : kind toLowerCase first = .work) :
    alone toLowerCase none (before ++ first :: rest) =
      (if (nextKinds toLowerCase rest).head? = some .work then [] else before ++ [first]) ++ alone toLowerCase (some .work) rest := by
  induction before with
  | nil =>
    have hstands : standsAlone toLowerCase none first rest = !decide ((nextKinds toLowerCase rest).head? = some .work) := by
      simp [standsAlone, hfirst]
    rw [List.nil_append, alone, hstands]
    by_cases hnext : (nextKinds toLowerCase rest).head? = some .work <;> simp [hnext, hfirst]
  | cons item before ih =>
    obtain ⟨hitem, hitems⟩ := List.forall_mem_cons.mp hbefore
    have hnexts : nextKinds toLowerCase (before ++ first :: rest) = .work :: nextKinds toLowerCase rest := by
      rw [nextKinds_thoughts hitems, nextKinds_cons (by rw [hfirst]; decide), hfirst]
    have hstands : standsAlone toLowerCase none item (before ++ first :: rest) =
        !decide ((nextKinds toLowerCase rest).head? = some .work) := by
      unfold standsAlone
      rw [hitem]
      dsimp only
      rw [hnexts]
      simp
    rw [List.cons_append, alone, hstands, if_pos hitem, ih hitems]
    by_cases hnext : (nextKinds toLowerCase rest).head? = some .work <;> simp [hnext]

theorem alone_work (h : RunOf toLowerCase .work run) (hnext : (nextKinds toLowerCase rest).head? ≠ some .work) :
    alone toLowerCase none (run ++ rest) =
      (if 2 ≤ (run.filter fun item => item.part.isTool).length then [] else run) ++ alone toLowerCase none rest := by
  obtain ⟨before, first, tail, rfl, hbefore, hfirst, htail⟩ := h.first
  have hthoughts : before.filter (fun item => item.part.isTool) = [] :=
    List.filter_eq_nil_iff.mpr fun item hitem => by simp [isTool_of_thought (hbefore item hitem)]
  have htools : ((before ++ first :: tail).filter fun item => item.part.isTool).length =
      1 + (tail.filter fun item => item.part.isTool).length := by
    rw [List.filter_append, hthoughts, List.nil_append, List.filter_cons, if_pos (isTool_of_kind hfirst), List.length_cons,
        Nat.add_comm]
  rw [htools, List.append_assoc, List.cons_append, alone_first hbefore hfirst]
  rcases htail with rfl | htail
  · rw [List.nil_append, if_neg hnext, if_neg (by simp), alone_of_next hnext]
  · obtain ⟨kinds, hkinds⟩ := htail.nextKinds (by decide) rest
    have hmore := htail.tools
    rw [if_pos (by rw [hkinds]; rfl), if_pos (by omega), alone_skip htail (.inr ⟨rfl, rfl⟩), alone_of_next hnext]

end

end Claxedo.Transcript
