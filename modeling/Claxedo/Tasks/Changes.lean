import Claxedo.Tasks.Tree

/-! Which task a committed unit files elsewhere: the one its command names. Every other row keeps its place. -/

namespace Claxedo.Tasks

open Claxedo.Lib Claxedo.Lib.Program

/-- The two rows are filed alike, in one workspace. -/
def Task.SameFiling (a b : Task) : Prop :=
  a.projectId = b.projectId ∧ a.number = b.number ∧ a.childNumber = b.childNumber ∧ a.parentTaskId = b.parentTaskId ∧
    a.workspaceId = b.workspaceId

theorem Task.SameFiling.refl (a : Task) : a.SameFiling a := ⟨rfl, rfl, rfl, rfl, rfl⟩

/-- The parent that `parentTaskId` names is a row, and `task` is in its workspace. -/
def Inherits (rows : Rows) (scopeId : String) (parentTaskId : Option String) (task : Task) : Prop :=
  ∀ p, parentTaskId = some p → ∃ q, rows.task (scopeId, p) = some q ∧ task.workspaceId = q.workspaceId

/-- How a row `next` that a unit left at `k` came from the rows it found. -/
inductive Change (t : Trace) (rows : Rows) (work : UnitWork) (k : Key) (next : Task) : Prop where
  | same {c : Task} (hc : rows.task k = some c) (hfiling : next.SameFiling c)
  | created {actor : TasksActor} {request : TasksCommandRequest} {draft : TaskDraft} (hwork : work = .command actor request)
      (hcommand : request.command = .taskCreate draft) (hscope : k.1 = actor.scopeId) (hnew : rows.task k = none)
      (hproject : next.projectId = draft.projectId) (hparent : next.parentTaskId = draft.parentTaskId)
      (hworkspace : Inherits rows k.1 draft.parentTaskId next)
      (hnumber : draft.parentTaskId = none → ⟨.nextNumber k.1 draft.projectId, next.number⟩ ∈ t.reads)
  | edited {actor : TasksActor} {request : TasksCommandRequest} {input : TaskEditInput} {c : Task}
      (hwork : work = .command actor request) (hcommand : request.command = .taskEdit input)
      (hkey : k = (actor.scopeId, input.taskId)) (hc : rows.task k = some c) (hrevision : c.revision = input.revision)
      (hfiling : next.SameFiling { c with workspaceId := input.workspaceId })
      (hlinks : input.workspaceId ≠ c.workspaceId → rows.linksOf k = [])
  | reparented {actor : TasksActor} {request : TasksCommandRequest} {input : TaskReparentInput} {c : Task}
      (hwork : work = .command actor request) (hcommand : request.command = .taskReparent input)
      (hkey : k = (actor.scopeId, input.taskId)) (hc : rows.task k = some c) (hrevision : c.revision = input.revision)
      (hself : input.parentTaskId ≠ some k.2) (hproject : next.projectId = input.projectId)
      (hparent : next.parentTaskId = input.parentTaskId) (hlinks : input.projectId ≠ c.projectId → rows.linksOf k = [])
      (hchildless : input.projectId ≠ c.projectId ∨ input.parentTaskId ≠ none → Childless rows.forest k)
      (hworkspace : Inherits rows k.1 input.parentTaskId next)
      (hroot : input.parentTaskId = none → next.workspaceId = c.workspaceId)
      (hnumber : input.projectId ≠ c.projectId ∨ input.parentTaskId ≠ c.parentTaskId → input.parentTaskId = none →
        ⟨.nextNumber k.1 input.projectId, next.number⟩ ∈ t.reads)
      (hkept : ¬ (input.projectId ≠ c.projectId ∨ input.parentTaskId ≠ c.parentTaskId) →
        next.number = c.number ∧ next.childNumber = c.childNumber)

section
variable {rows rows' : Rows} {ws : List (Asked WriteOp)} {k : Key} {next : Task}

theorem task_of_writes (h : WritesApply rows ws rows') (hnext : rows'.task k = some next) :
    rows.task k = some next ∨ ⟨.taskInsert next, ()⟩ ∈ ws ∨ ∃ revision, ⟨.taskUpdate next revision, true⟩ ∈ ws := by
  induction ws generalizing rows with
  | nil =>
    obtain rfl : rows = rows' := h
    exact .inl hnext
  | cons a ws ih =>
    obtain ⟨rows₁, hwrite, hrest⟩ := h
    rcases ih hrest with hold | hinsert | ⟨revision, hupdate⟩
    · obtain ⟨op, answer⟩ := a
      have hframe := (frame_of_write hwrite).1
      have hwrote := wrote_of_write hwrite
      cases op with
      | taskInsert task =>
        obtain ⟨-, rfl⟩ := hwrote
        rw [Rows.task_putTask] at hold
        split_ifs at hold
        · cases hold
          exact .inr (.inl List.mem_cons_self)
        · exact .inl hold
      | taskUpdate task revision =>
        cases answer with
        | true =>
          obtain ⟨-, rfl⟩ := hwrote
          rw [Rows.task_putTask] at hold
          split_ifs at hold
          · cases hold
            exact .inr (.inr ⟨revision, List.mem_cons_self⟩)
          · exact .inl hold
        | false =>
          obtain rfl : rows₁ = rows := hwrote
          exact .inl hold
      | _ =>
        rw [Rows.task, hframe fun hne => by cases hne] at hold
        exact .inl hold
    · exact .inr (.inl (List.mem_cons_of_mem _ hinsert))
    · exact .inr (.inr ⟨revision, List.mem_cons_of_mem _ hupdate⟩)

variable {parents : List Task}

/-- A bumped parent keeps its place. -/
theorem sameFiling_of_touches {now revision : ℕ} (hparents : ∀ q ∈ parents, rows.task q.key = some q)
    (h : ⟨.taskUpdate next revision, true⟩ ∈ touches now parents) : ∃ c, rows.task next.key = some c ∧ next.SameFiling c := by
  obtain ⟨q, hq, heq⟩ := mem_touches h
  cases heq
  exact ⟨q, hparents q hq, Task.SameFiling.refl _⟩

theorem not_insert_touches {now : ℕ} : ¬ ⟨.taskInsert next, ()⟩ ∈ touches now parents := by
  intro h
  obtain ⟨q, -, heq⟩ := mem_touches h
  exact Option.some_ne_none _ (congrArg updated heq).symm

theorem not_task_attachment {attachments : List TaskAttachmentRecord} {a : Asked WriteOp} (h : a ∈ attachmentWrites attachments) :
    a.op.table = .attachments := by
  obtain ⟨attachment, -, rfl⟩ := List.mem_map.mp h
  rfl

/-- Where an update and its parents' bumps left a row, it is the row updated or one that kept its place. -/
theorem row_of_update {target : Task} {revision now₁ now₂ : ℕ} {former : List Task}
    (hw : WritesApply rows (⟨.taskUpdate target revision, true⟩ :: (touches now₁ former ++ touches now₂ parents)) rows')
    (hformer : ∀ q ∈ former, rows.task q.key = some q) (hparents : ∀ q ∈ parents, rows.task q.key = some q)
    (hnext : rows'.task k = some next) : next = target ∨ ∃ c, rows.task k = some c ∧ next.SameFiling c := by
  have hkey : next.key = k := Rows.task_key hnext
  rcases task_of_writes hw hnext with hold | hinsert | ⟨rev, hupdate⟩
  · exact .inr ⟨next, hold, Task.SameFiling.refl _⟩
  · rcases List.mem_cons.mp hinsert with heq | hinsert
    · exact absurd (congrArg updated heq).symm (Option.some_ne_none _)
    · rcases List.mem_append.mp hinsert with hinsert | hinsert
      · exact (not_insert_touches hinsert).elim
      · exact (not_insert_touches hinsert).elim
  · rcases List.mem_cons.mp hupdate with heq | hupdate
    · cases heq
      exact .inl rfl
    · refine .inr (hkey ▸ ?_)
      rcases List.mem_append.mp hupdate with hupdate | hupdate
      · exact sameFiling_of_touches hformer hupdate
      · exact sameFiling_of_touches hparents hupdate

end

section
variable {actor : TasksActor} {request : TasksCommandRequest} {t : Trace} {rows rows' : Rows} {k : Key} {next : Task}
  {result : Task × Option Task}

variable {work : UnitWork}

/-- A command that leaves its task where it is filed changes no row's place. -/
theorem change_of_update {c target : Task} {parentTaskId : Option String} {parent : Option Task} {rs : List (Asked ReadOp)}
    {now revision : ℕ} (hs : Serial rows t rows')
    (hsummary : Summary t rs (⟨.taskUpdate target revision, true⟩ :: touches now parent.toList)) (hc : rows.task c.key = some c)
    (hread : ∀ p, parentTaskId = some p → rows.task (c.scopeId, p) = parent) (hnone : parentTaskId = none → parent = none)
    (hkey : target.key = c.key) (hfiling : target.SameFiling c) (hnext : rows'.task k = some next) :
    Change t rows work k next := by
  have hw : WritesApply rows (_ :: (touches 0 [] ++ touches now parent.toList)) rows' := hs.apply hsummary
  rcases row_of_update hw (fun q hq => by cases hq) (parents_there hread hnone) hnext with rfl | ⟨c', hc', hsame⟩
  · exact .same (by rw [← Rows.task_key hnext, hkey]; exact hc) hfiling
  · exact .same hc' hsame

theorem inherits_of_read {scopeId : String} {parentTaskId : Option String} {parent : Option Task}
    (hread : ∀ p, parentTaskId = some p → rows.task (scopeId, p) = parent) (hiff : parent = none ↔ parentTaskId = none)
    (hworkspace : ∀ q ∈ parent, next.workspaceId = q.workspaceId) : Inherits rows scopeId parentTaskId next := by
  intro p hp
  rcases hparent : parent with _ | q
  · rw [hiff.mp hparent] at hp
    cases hp
  · exact ⟨q, (hread p hp).trans hparent, hworkspace q hparent⟩

theorem change_create {draft : TaskDraft} (hcommand : request.command = .taskCreate draft)
    (h : Follows (create actor draft) t result) (hs : Serial rows t rows') (hnext : rows'.task k = some next) :
    Change t rows (.command actor request) k next := by
  obtain ⟨parent, task, attachments, now, hsummary, hiff, hall, hcreated, -, rfl⟩ := summary_create h
  have hread : ∀ p, draft.parentTaskId = some p → rows.task (actor.scopeId, p) = parent :=
    hs.parent fun a ha => hsummary.reads ▸ List.mem_append_left _ ha
  have hkey : next.key = k := Rows.task_key hnext
  obtain ⟨hnew, -⟩ := writesApply_taskInsert (hs.apply hsummary)
  rcases task_of_writes (hs.apply hsummary) hnext with hold | hinsert | ⟨revision, hupdate⟩
  · exact .same hold (Task.SameFiling.refl _)
  · rcases List.mem_cons.mp hinsert with heq | hinsert
    · cases heq
      have hscope : k.1 = actor.scopeId := (congrArg Prod.fst hkey).symm.trans hcreated.scopeId
      refine .created rfl hcommand hscope (hkey ▸ hnew) hcreated.projectId hcreated.parentTaskId ?_ fun hroot => ?_
      · rw [hscope]
        refine inherits_of_read hread hiff ?_
        rintro q rfl
        exact hcreated.workspaceId
      · obtain rfl := hiff.mpr hroot
        rw [hsummary.reads, hscope]
        exact List.mem_append_right _ (List.mem_singleton.mpr rfl)
    · rcases List.mem_append.mp hinsert with hinsert | hinsert
      · cases not_task_attachment hinsert
      · exact (not_insert_touches hinsert).elim
  · rcases List.mem_cons.mp hupdate with heq | hupdate
    · exact absurd (congrArg updated heq) (Option.some_ne_none _)
    · rcases List.mem_append.mp hupdate with hupdate | hupdate
      · cases not_task_attachment hupdate
      · obtain ⟨c, hc, hsame⟩ := sameFiling_of_touches (parents_there hread hiff.mpr) hupdate
        exact .same (hkey ▸ hc) hsame

theorem change_edit {input : TaskEditInput} (hcommand : request.command = .taskEdit input)
    (h : Follows (edit actor input) t result) (hs : Serial rows t rows') (hnext : rows'.task k = some next) :
    Change t rows (.command actor request) k next := by
  obtain ⟨c, now, hfound, -, hsummary, rfl⟩ := summary_edit h
  have hget : rows.task (actor.scopeId, input.taskId) = some c := hs.read hsummary List.mem_cons_self rfl
  have hw : WritesApply rows (_ :: (touches 0 [] ++ touches 0 [])) rows' := hs.apply hsummary
  rcases row_of_update hw (fun q hq => by cases hq) (fun q hq => by cases hq) hnext with rfl | ⟨c', hc', hsame⟩
  · have hckey : c.key = (actor.scopeId, input.taskId) := Rows.task_key hget
    have hkey : k = (actor.scopeId, input.taskId) := (Rows.task_key hnext).symm.trans hckey
    refine .edited rfl hcommand hkey (hkey ▸ hget) hfound.revision (Task.SameFiling.refl _) fun hne => ?_
    rw [if_pos hne] at hsummary
    have hlinks : rows.read (.linksByTask (actor.scopeId, c.id)) = [] :=
      hs.read hsummary (List.mem_cons_of_mem _ (List.mem_singleton.mpr rfl)) rfl
    rw [hkey, ← Rows.task_key hget, show c.key = (actor.scopeId, c.id) from Prod.ext hfound.scopeId rfl]
    exact hlinks
  · exact .same hc' hsame

theorem change_setStatus {input : TaskSetStatusInput} (h : Follows (setStatus actor input) t result) (hs : Serial rows t rows')
    (hnext : rows'.task k = some next) : Change t rows work k next := by
  obtain ⟨c, parent, now, now', hfound, -, hsummary, hnone, -, rfl⟩ := summary_setStatus h
  refine change_of_update hs hsummary (Rows.task_self (hs.read hsummary List.mem_cons_self rfl)) (fun p hp => ?_) hnone rfl
    (Task.SameFiling.refl _) hnext
  rw [hfound.scopeId]
  exact hs.parent (fun a ha => hsummary.reads ▸ List.mem_cons_of_mem _ (List.mem_append_right _ ha)) p hp

theorem change_archive {input : RowInput} (h : Follows (archive actor input) t result) (hs : Serial rows t rows')
    (hnext : rows'.task k = some next) : Change t rows work k next := by
  obtain ⟨c, parent, now, now', hfound, -, hsummary, hnone, rfl⟩ := summary_archive h
  refine change_of_update hs hsummary (Rows.task_self (hs.read hsummary List.mem_cons_self rfl)) (fun p hp => ?_) hnone rfl
    (Task.SameFiling.refl _) hnext
  rw [hfound.scopeId]
  exact hs.parent (fun a ha => hsummary.reads ▸ List.mem_cons_of_mem _ (List.mem_cons_of_mem _ ha)) p hp

theorem change_restore {input : RowInput} (h : Follows (restore actor input) t result) (hs : Serial rows t rows')
    (hnext : rows'.task k = some next) : Change t rows work k next := by
  obtain ⟨c, parent, now, now', hfound, -, hsummary, hiff, -, rfl⟩ := summary_restore h
  refine change_of_update hs hsummary (Rows.task_self (hs.read hsummary List.mem_cons_self rfl)) (fun p hp => ?_) hiff.mpr rfl
    (Task.SameFiling.refl _) hnext
  rw [hfound.scopeId]
  exact hs.parent (fun a ha => hsummary.reads ▸ List.mem_cons_of_mem _ ha) p hp

theorem change_reparent {input : TaskReparentInput} (hcommand : request.command = .taskReparent input)
    (h : Follows (reparent actor input) t result) (hs : Serial rows t rows') (hnext : rows'.task k = some next) :
    Change t rows (.command actor request) k next := by
  obtain ⟨c, parent, former, filed, filing, now, now₁, now₂, hfound, -, hself, hsummary, hiff, -, hnone, hfiled, rfl⟩ :=
    summary_reparent h
  have hget : rows.task (actor.scopeId, input.taskId) = some c := hs.read hsummary List.mem_cons_self rfl
  have hreads := hsummary.reparent
  have hread := hs.parent hreads.next
  have hformer := hs.parent hreads.former
  rcases row_of_update (hs.apply hsummary) (parents_there hformer hnone) (parents_there hread hiff.mpr) hnext with
    rfl | ⟨c', hc', hsame⟩
  · have hckey : c.key = (actor.scopeId, input.taskId) := Rows.task_key hget
    have hkey : k = (actor.scopeId, input.taskId) := (Rows.task_key hnext).symm.trans hckey
    have hscope : k.1 = actor.scopeId := congrArg Prod.fst hkey
    have hcid : (actor.scopeId, c.id) = k := by
      rw [hkey, ← Rows.task_key hget]
      exact Prod.ext hfound.scopeId.symm rfl
    refine .reparented rfl hcommand hkey (hkey ▸ hget) hfound.revision ?_ rfl rfl (fun hne => ?_) (fun hmoves => ?_) ?_
      (fun hroot => ?_) (fun hmoved hroot => ?_) fun hkept => ?_
    · rw [hkey]
      exact hself
    · rw [← hcid]
      exact hs.reads _ (hreads.links hne) rfl
    · rw [← hcid]
      exact hs.childless hreads hmoves
    · rw [hscope]
      refine inherits_of_read hread hiff ?_
      rintro q rfl
      rfl
    · obtain rfl := hiff.mpr hroot
      rfl
    · obtain ⟨rfl, -⟩ := hfiled.moved hmoved
      obtain rfl := hiff.mpr hroot
      rw [hscope]
      exact hreads.filing _ (List.mem_singleton.mpr rfl)
    · obtain ⟨-, rfl⟩ := hfiled.kept hkept
      exact ⟨rfl, rfl⟩
  · exact .same hc' hsame

/-- A unit whose writes are of other tables leaves every task as it was. -/
theorem change_of_frame {ws : List (Asked WriteOp)} (hw : WritesApply rows ws rows') (hframe : ∀ a ∈ ws, a.op.table ≠ .tasks)
    (hnext : rows'.task k = some next) : Change t rows work k next := by
  rcases task_of_writes hw hnext with hold | hinsert | ⟨revision, hupdate⟩
  · exact .same hold (Task.SameFiling.refl _)
  · exact absurd rfl (hframe _ hinsert)
  · exact absurd rfl (hframe _ hupdate)

theorem change_command {committed : TasksCommandResult} (h : CommandRan actor t request.command committed)
    (hs : Serial rows t rows') (hnext : rows'.task k = some next) : Change t rows (.command actor request) k next := by
  have hpreset : ∀ {preset}, PresetMoves actor t preset → Change t rows (.command actor request) k next := by
    rintro preset ⟨c, -, -, -, id, hsummary⟩
    refine change_of_frame (hs.apply hsummary) (fun a ha => ?_) hnext
    obtain rfl := List.mem_singleton.mp ha
    exact fun hne => by cases hne
  generalize hcommand : request.command = command at h
  cases h with
  | presetCreate h =>
    refine change_of_frame (hs.apply (summary_presetCreate h)) (fun a ha => ?_) hnext
    obtain rfl := List.mem_singleton.mp ha
    exact fun hne => by cases hne
  | presetEdit h => exact hpreset (presetMoves_edit h)
  | presetArchive h => exact hpreset (presetMoves_archive h)
  | presetRestore h => exact hpreset (presetMoves_restore h)
  | create h => exact change_create hcommand h hs hnext
  | edit h => exact change_edit hcommand h hs hnext
  | setStatus h => exact change_setStatus h hs hnext
  | reparent h => exact change_reparent hcommand h hs hnext
  | archive h => exact change_archive h hs hnext
  | restore h => exact change_restore h hs hnext

theorem change_settle {work : UnitWork} {s : Settlement} {link : TaskSessionLink} {created : Bool}
    (h : Follows (settle s) t (link, created)) (hs : Serial rows t rows') (hloaded : Loaded rows s)
    (hnext : rows'.task k = some next) : Change t rows work k next := by
  rcases serial_settle h hs with rfl | ⟨-, ⟨c, hc, hrev⟩, now, rfl⟩
  · exact .same hnext (Task.SameFiling.refl _)
  · rw [Rows.task_putTask] at hnext
    split_ifs at hnext with hk
    · cases hnext
      have hstood : rows.task s.task.key = some s.task := hloaded.stands hc hrev
      exact .same (c := s.task) (hk ▸ hstood) (Task.SameFiling.refl _)
    · exact .same hnext (Task.SameFiling.refl _)

theorem change_unit {hashRequest : TasksCommand → String} {work : UnitWork} {result : UnitResult}
    (h : Follows (work.program hashRequest) t result) (hs : Serial rows t rows')
    (hloaded : ∀ s, work = .settle s → Loaded rows s) (hnext : rows'.task k = some next) : Change t rows work k next := by
  cases unitRan h with
  | command hunit =>
    rcases serial_commandUnit hunit hs with ⟨-, rfl⟩ | ⟨t', receipt, rows₁, hran, -, -, -, hsub, hserial, -, rfl⟩
    · exact .same hnext (Task.SameFiling.refl _)
    · cases change_command hran hserial hnext with
      | same hc hfiling => exact .same hc hfiling
      | created hwork hcommand hscope hnew hproject hparent hworkspace hnumber =>
        exact .created hwork hcommand hscope hnew hproject hparent hworkspace fun hroot => hsub _ (hnumber hroot)
      | edited hwork hcommand hkey hc hrevision hfiling hlinks => exact .edited hwork hcommand hkey hc hrevision hfiling hlinks
      | reparented hwork hcommand hkey hc hrevision hself hproject hparent hlinks hchildless hworkspace hroot hnumber hkept =>
        exact .reparented hwork hcommand hkey hc hrevision hself hproject hparent hlinks hchildless hworkspace hroot
          (fun hmoved hnone => hsub _ (hnumber hmoved hnone)) hkept
  | settle hunit => exact change_settle hunit hs (hloaded _ rfl) hnext

end

/-- A condition on the calls that commit. -/
def WhereCommits (hashRequest : TasksCommand → String) (store : StoreKind) (cond : Ledger → UnitCall → Prop) (ledger : Ledger)
    (call : UnitCall) : Prop := (ledger.transact hashRequest store call).isSome → cond ledger call

instance (hashRequest : TasksCommand → String) (store : StoreKind) (cond : Ledger → UnitCall → Prop) (ledger : Ledger)
    (call : UnitCall) [Decidable (cond ledger call)] : Decidable (WhereCommits hashRequest store cond ledger call) :=
  inferInstanceAs (Decidable ((ledger.transact hashRequest store call).isSome → cond ledger call))

section
variable {ledger : Ledger}

/-- What a step of a run does: nothing, or what one unit that commits did. -/
theorem step_cases (h : Chronicle ledger) (hashRequest : TasksCommand → String) (store : StoreKind) (call : UnitCall) :
    ledger.step hashRequest store call = ledger ∨
    ∃ t result rows', ledger.step hashRequest store call = ledger.commit call result rows' ∧
      ledger.transact hashRequest store call = some (result, rows') ∧
      Transacted hashRequest store ledger call t result rows' ∧ Effect t ledger.rows rows' ∧
      ∀ k next, rows'.task k = some next → Change t ledger.rows call.work k next := by
  unfold Ledger.step
  split_ifs with hadmits
  · rcases htransact : ledger.transact hashRequest store call with _ | ⟨result, rows'⟩
    · exact .inl rfl
    · obtain ⟨t, htransacted⟩ := transacted h htransact
      exact .inr ⟨t, result, rows', rfl, rfl, htransacted, htransacted.effect h hadmits, fun k next hnext =>
        change_unit htransacted.follows htransacted.serial (fun _ hwork => h.loaded hadmits hwork) hnext⟩
  · exact .inl rfl

end

/-- Over every run, on either store, a task's revision stands for its row, its children and its links; nothing stored goes away,
and links and receipts stay as they were written. -/
theorem revision_covers_row (hashRequest : TasksCommand → String) (store : StoreKind) (calls more : List UnitCall) :
    let rows := (runUnits hashRequest store calls).rows
    let rows' := (runUnits hashRequest store (calls ++ more)).rows
    (∀ k task, rows.task k = some task → ∃ task', rows'.task k = some task' ∧ task.revision ≤ task'.revision ∧
      (task'.revision = task.revision → task' = task ∧ childView rows' k = childView rows k ∧ rows'.linksOf k = rows.linksOf k)) ∧
    (∀ k preset, rows.preset k = some preset → ∃ preset', rows'.preset k = some preset' ∧
      preset.revision ≤ preset'.revision ∧ (preset'.revision = preset.revision → preset' = preset)) ∧
    (∀ k link, rows.link k = some link → rows'.link k = some link) ∧
    ∀ k receipt, rows.receipt k = some receipt → rows'.receipt k = some receipt := by
  intro rows rows'
  have hrun : rows' = (run (Ledger.step hashRequest store) (runUnits hashRequest store calls) more).rows :=
    congrArg Ledger.rows (run_append _ _ _ _)
  have hgrows : Grows (fun _ => False) rows rows' := by
    rw [hrun]
    refine (invariant_of_run (fun ledger => Chronicle ledger ∧ Grows (fun _ => False) rows ledger.rows)
      (fun ledger call h => ⟨h.1.step hashRequest store call, ?_⟩) ⟨chronicle_runUnits hashRequest store calls, .refl _ _⟩ more).2
    rcases step_cases h.1 hashRequest store call with hsame | ⟨t, result, after, hcommit, -, -, heffect, -⟩
    · rw [hsame]
      exact h.2
    · rw [hcommit]
      exact h.2.trans heffect.grows
  refine ⟨fun k task h => ?_, hgrows.preset, hgrows.link, hgrows.receipt⟩
  obtain ⟨task', htask', hle, hsame⟩ := hgrows.task k task h
  exact ⟨task', htask', hle, fun heq => ⟨(hsame heq).1, (hsame heq).2 id⟩⟩

/-- Whatever a unit does, it files one task at most, and where it links a session it files none. -/
theorem unit_files_one_task (hashRequest : TasksCommand → String) (store : StoreKind) (calls : List UnitCall) (call : UnitCall) :
    let rows := (runUnits hashRequest store calls).rows
    let rows' := (runUnits hashRequest store (calls ++ [call])).rows
    (∃ k, ∀ k', k' ≠ k → rows'.forest k' = rows.forest k') ∧
      (rows'.links = rows.links ∨ rows'.forest = rows.forest ∧ ∃ link,
        rows.link link.key = none ∧ rows'.links = rows.links ++ [link]) := by
  intro rows rows'
  have hstep : rows' = ((runUnits hashRequest store calls).step hashRequest store call).rows := congrArg Ledger.rows (run_snoc _ _ _ _)
  rw [hstep]
  rcases step_cases (chronicle_runUnits hashRequest store calls) hashRequest store call with
    hsame | ⟨t, result, after, hcommit, -, -, heffect, -⟩
  · rw [hsame]
    exact ⟨⟨("", ""), fun _ _ => rfl⟩, .inl rfl⟩
  · rw [hcommit]
    cases heffect.tree with
    | quiet hforest hlinks => exact ⟨⟨("", ""), fun k' _ => congrFun hforest k'⟩, .inl hlinks⟩
    | moved k a hmove hforest hnumber hlinks =>
      exact ⟨⟨k, fun k' hne => (congrFun hforest k').trans (Function.update_of_ne hne _ _)⟩, .inl hlinks⟩
    | linked link hforest hnew hlinks =>
      exact ⟨⟨("", ""), fun k' _ => congrFun hforest k'⟩, .inr ⟨hforest, link, hnew, hlinks⟩⟩

end Claxedo.Tasks
