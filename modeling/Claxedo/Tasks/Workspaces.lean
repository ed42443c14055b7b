import Claxedo.Tasks.Changes

/-! What keeps a linked task where its sessions were started, and a child in its parent's workspace. -/

namespace Claxedo.Tasks

open Claxedo.Lib Claxedo.Lib.Program

/-- The task a unit may file elsewhere. -/
def UnitWork.refiles : UnitWork → Option Key
  | .command actor request =>
    match request.command with
    | .taskEdit input => some (actor.scopeId, input.taskId)
    | .taskReparent input => some (actor.scopeId, input.taskId)
    | _ => none
  | .settle _ => none

/-- An edit gives another workspace only to a task that has neither a parent nor children, and a reparent puts a
linked task only under a parent of its workspace. -/
def RespectsWorkspaces (ledger : Ledger) (call : UnitCall) : Prop :=
  match call.work with
  | .command actor request =>
    match request.command with
    | .taskEdit input => ∀ task ∈ ledger.rows.task (actor.scopeId, input.taskId), task.revision = input.revision →
        input.workspaceId ≠ task.workspaceId → ledger.rows.linksOf task.key = [] →
          task.parentTaskId = none ∧ ledger.rows.childrenOf task.key = []
    | .taskReparent input => ∀ task ∈ ledger.rows.task (actor.scopeId, input.taskId), task.revision = input.revision →
        ledger.rows.linksOf task.key ≠ [] → ∀ p ∈ input.parentTaskId, ∀ parent ∈ ledger.rows.task (actor.scopeId, p),
          parent.workspaceId = task.workspaceId
    | _ => True
  | .settle _ => True

instance (ledger : Ledger) (call : UnitCall) : Decidable (RespectsWorkspaces ledger call) := by
  unfold RespectsWorkspaces
  split
  · split <;> infer_instance
  · exact inferInstanceAs (Decidable True)

/-- Through the run a linked task stays in its project and its workspace, and at its end every child is in its
parent's workspace. -/
def KeepsWorkspaces (hashRequest : TasksCommand → String) (store : StoreKind) (calls : List UnitCall) : Prop :=
  let rows := (runUnits hashRequest store calls).rows
  (∀ earlier later, calls = earlier ++ later →
    ∀ link ∈ (runUnits hashRequest store earlier).rows.links, ∀ task,
      (runUnits hashRequest store earlier).rows.task (link.scopeId, link.taskId) = some task →
        ∃ task', rows.task (link.scopeId, link.taskId) = some task' ∧ task'.projectId = task.projectId ∧
          task'.workspaceId = task.workspaceId) ∧
  ∀ task ∈ rows.tasks, ∀ p, task.parentTaskId = some p →
    ∃ parent, rows.task (task.scopeId, p) = some parent ∧ task.workspaceId = parent.workspaceId

section
variable {t : Trace} {rows rows' : Rows} {work : UnitWork} {k : Key} {next c : Task}

theorem Change.filing_of_ne (h : Change t rows work k next) (hc : rows.task k = some c) (hne : work.refiles ≠ some k) :
    next.SameFiling c := by
  cases h with
  | same hc' hfiling =>
    obtain rfl := Option.some.inj (hc.symm.trans hc')
    exact hfiling
  | created hwork hcommand hscope hnew hproject hparent hworkspace hnumber =>
    rw [hnew] at hc
    cases hc
  | edited hwork hcommand hkey hc' hrevision hfiling hlinks =>
    subst hwork
    exact absurd (by rw [UnitWork.refiles, hcommand, hkey]) hne
  | reparented hwork hcommand hkey hc' hrevision hself hproject hparent hlinks hchildless hworkspace hroot hnumber hkept =>
    subst hwork
    exact absurd (by rw [UnitWork.refiles, hcommand, hkey]) hne

end

section
variable {t : Trace} {ledger : Ledger} {call : UnitCall} {k : Key} {next c : Task}

theorem RespectsWorkspaces.edit (h : RespectsWorkspaces ledger call) {actor : TasksActor} {request : TasksCommandRequest}
    {input : TaskEditInput} (hwork : call.work = .command actor request) (hcommand : request.command = .taskEdit input)
    (hkey : k = (actor.scopeId, input.taskId)) (hc : ledger.rows.task k = some c) (hrevision : c.revision = input.revision)
    (hne : input.workspaceId ≠ c.workspaceId) (hlinks : ledger.rows.linksOf k = []) :
    c.parentTaskId = none ∧ ledger.rows.childrenOf k = [] := by
  rw [RespectsWorkspaces, hwork] at h
  dsimp only at h
  rw [hcommand] at h
  have hself : c.key = k := Rows.task_key hc
  have hboth := h c (hkey ▸ hc) hrevision hne (hself.symm ▸ hlinks)
  rwa [hself] at hboth

theorem RespectsWorkspaces.reparent (h : RespectsWorkspaces ledger call) {actor : TasksActor} {request : TasksCommandRequest}
    {input : TaskReparentInput} {q : Task} {p : String} (hwork : call.work = .command actor request)
    (hcommand : request.command = .taskReparent input) (hkey : k = (actor.scopeId, input.taskId))
    (hc : ledger.rows.task k = some c) (hrevision : c.revision = input.revision) (hlinked : ledger.rows.linksOf k ≠ [])
    (hp : input.parentTaskId = some p) (hq : ledger.rows.task (k.1, p) = some q) : q.workspaceId = c.workspaceId := by
  rw [RespectsWorkspaces, hwork] at h
  dsimp only at h
  rw [hcommand] at h
  have hself : c.key = k := Rows.task_key hc
  have hscope : k.1 = actor.scopeId := congrArg Prod.fst hkey
  exact h c (hkey ▸ hc) hrevision (hself.symm ▸ hlinked) p hp q (hscope ▸ hq)

theorem workspace_of_parent (hcond : RespectsWorkspaces ledger call) (h : Change t ledger.rows call.work k next)
    (hc : ledger.rows.task k = some c) {y : String} {d : Task} (hd : ledger.rows.task (k.1, y) = some d)
    (hp : d.parentTaskId = some k.2) : next.workspaceId = c.workspaceId := by
  have hforest := Rows.forest_of_task hd
  cases h with
  | same hc' hfiling =>
    obtain rfl := Option.some.inj (hc.symm.trans hc')
    exact hfiling.2.2.2.2
  | created hwork hcommand hscope hnew hproject hparent hworkspace hnumber =>
    rw [hnew] at hc
    cases hc
  | @edited actor request input c' hwork hcommand hkey hc' hrevision hfiling hlinks =>
    obtain rfl := Option.some.inj (hc.symm.trans hc')
    rw [hfiling.2.2.2.2]
    by_contra hne
    obtain ⟨-, hnone⟩ := hcond.edit hwork hcommand hkey hc hrevision hne (hlinks hne)
    obtain ⟨child, hchild, -⟩ := Rows.mem_childrenOf hforest hp
    rw [hnone] at hchild
    cases hchild
  | @reparented actor request input c' hwork hcommand hkey hc' hrevision hself hproject hparent hlinks hchildless hworkspace
      hroot hnumber hkept =>
    obtain rfl := Option.some.inj (hc.symm.trans hc')
    refine hroot ?_
    by_contra hne
    exact hchildless (.inr hne) y _ hforest hp

/-- A linked task stays in its project and its workspace. -/
theorem filing_of_linked (hcond : RespectsWorkspaces ledger call) (h : Change t ledger.rows call.work k next)
    (hc : ledger.rows.task k = some c) (hlinked : ledger.rows.linksOf k ≠ []) :
    next.projectId = c.projectId ∧ next.workspaceId = c.workspaceId := by
  cases h with
  | same hc' hfiling =>
    obtain rfl := Option.some.inj (hc.symm.trans hc')
    exact ⟨hfiling.1, hfiling.2.2.2.2⟩
  | created hwork hcommand hscope hnew hproject hparent hworkspace hnumber =>
    rw [hnew] at hc
    cases hc
  | @edited actor request input c' hwork hcommand hkey hc' hrevision hfiling hlinks =>
    obtain rfl := Option.some.inj (hc.symm.trans hc')
    refine ⟨hfiling.1, hfiling.2.2.2.2.trans ?_⟩
    by_contra hne
    exact hlinked (hlinks hne)
  | @reparented actor request input c' hwork hcommand hkey hc' hrevision hself hproject hparent hlinks hchildless hworkspace
      hroot hnumber hkept =>
    obtain rfl := Option.some.inj (hc.symm.trans hc')
    refine ⟨?_, ?_⟩
    · rw [hproject]
      by_contra hne
      exact hlinked (hlinks hne)
    · rcases hnamed : input.parentTaskId with _ | p
      · exact hroot hnamed
      · obtain ⟨q, hq, heq⟩ := hworkspace p hnamed
        exact heq.trans (hcond.reparent hwork hcommand hkey hc hrevision hlinked hnamed hq)

/-- Every child is in the workspace of the parent it names. -/
def Inherited (rows : Rows) : Prop := ∀ k c, rows.task k = some c → Inherits rows k.1 c.parentTaskId c

theorem inherited_step {rows' : Rows} (hcond : RespectsWorkspaces ledger call) (hwf' : WellFormed rows'.forest)
    (hinherited : Inherited ledger.rows)
    (hchange : ∀ k next, rows'.task k = some next → Change t ledger.rows call.work k next) : Inherited rows' := by
  intro k next hnext p hp
  have hne := hwf'.ne_parent (Rows.forest_of_task hnext) hp
  obtain ⟨q', hq', -⟩ := hwf'.parent k next.place p (Rows.forest_of_task hnext) hp
  obtain ⟨parent, hparent, -⟩ := Rows.exists_of_forest hq'
  refine ⟨parent, hparent, ?_⟩
  -- only the task the command names may be in another workspace, so its parent is where it was
  have hother : ∀ q, ledger.rows.task (k.1, p) = some q → call.work.refiles ≠ some (k.1, p) →
      parent.workspaceId = q.workspaceId := fun q hq hnot => ((hchange _ _ hparent).filing_of_ne hq hnot).2.2.2.2
  have htarget : call.work.refiles = some k → call.work.refiles ≠ some (k.1, p) := fun hk heq =>
    hne (congrArg Prod.snd (Option.some.inj (heq.symm.trans hk)))
  cases hchange k next hnext with
  | same hc hfiling =>
    obtain ⟨-, -, -, hsame, hworkspace⟩ := hfiling
    obtain ⟨q, hq, heq⟩ := hinherited k _ hc p (hsame ▸ hp)
    rw [hworkspace, heq]
    exact (workspace_of_parent hcond (hchange _ _ hparent) hq (y := k.2) hc (hsame ▸ hp)).symm
  | created hwork hcommand hscope hnew hproject hnamed hworkspace hnumber =>
    obtain ⟨q, hq, heq⟩ := hworkspace p (hnamed ▸ hp)
    rw [heq]
    exact (hother q hq (by rw [hwork, UnitWork.refiles, hcommand]; exact fun hnot => by cases hnot)).symm
  | @edited actor request input c hwork hcommand hkey hc hrevision hfiling hlinks =>
    obtain ⟨-, -, -, hsame, hworkspace⟩ := hfiling
    obtain ⟨q, hq, heq⟩ := hinherited k c hc p (hsame ▸ hp)
    have hkept : next.workspaceId = c.workspaceId := by
      rw [hworkspace]
      by_contra hne
      obtain ⟨hroot, -⟩ := hcond.edit hwork hcommand hkey hc hrevision hne (hlinks hne)
      rw [show c.parentTaskId = some p from hsame ▸ hp] at hroot
      cases hroot
    rw [hkept, heq]
    exact (hother q hq (htarget (by rw [hwork, UnitWork.refiles, hcommand, hkey]))).symm
  | reparented hwork hcommand hkey hc hrevision hself hproject hnamed hlinks hchildless hworkspace hroot hnumber hkept =>
    obtain ⟨q, hq, heq⟩ := hworkspace p (hnamed ▸ hp)
    rw [heq]
    exact (hother q hq (htarget (by rw [hwork, UnitWork.refiles, hcommand, hkey]))).symm

end

section
variable {hashRequest : TasksCommand → String} {store : StoreKind} {ledger : Ledger} {call : UnitCall} {k : Key} {c : Task}

theorem Effect.linked {t : Trace} {rows rows' : Rows} (h : Effect t rows rows') {l : TaskSessionLink} (hl : l ∈ rows.links) :
    l ∈ rows'.links := by
  cases h.tree with
  | quiet hforest hlinks => exact hlinks ▸ hl
  | moved k a hmove hforest hnumber hlinks => exact hlinks ▸ hl
  | linked l' hforest hnew hlinks => exact hlinks ▸ List.mem_append_left _ hl

theorem linked_kept {calls : List UnitCall} (h : Chronicle ledger)
    (hmeets : Meets (Ledger.step hashRequest store) (WhereCommits hashRequest store RespectsWorkspaces) ledger calls)
    {link : TaskSessionLink} (hlink : link ∈ ledger.rows.links) (hc : ledger.rows.task (link.scopeId, link.taskId) = some c) :
    ∃ c', (run (Ledger.step hashRequest store) ledger calls).rows.task (link.scopeId, link.taskId) = some c' ∧
      c'.projectId = c.projectId ∧ c'.workspaceId = c.workspaceId := by
  induction calls generalizing ledger c with
  | nil => exact ⟨c, hc, rfl, rfl⟩
  | cons call calls ih =>
    obtain ⟨hcond, hrest⟩ := hmeets
    have hstep := h.step hashRequest store call
    rw [run_cons]
    rcases step_cases h hashRequest store call with
      hsame | ⟨t, result, rows', hcommit, htransact, -, heffect, hchange⟩
    · rw [hsame] at hrest hstep ⊢
      exact ih hstep hrest hlink hc
    · rw [hcommit] at hrest hstep ⊢
      have hcond := hcond (by rw [htransact]; rfl)
      obtain ⟨c₁, hc₁, -⟩ := heffect.grows.task _ _ hc
      have hlinked : ledger.rows.linksOf (link.scopeId, link.taskId) ≠ [] :=
        List.ne_nil_of_mem (List.mem_filter.mpr ⟨hlink, decide_eq_true rfl⟩)
      obtain ⟨hproject, hworkspace⟩ := filing_of_linked hcond (hchange _ _ hc₁) hc hlinked
      obtain ⟨c', hc', hproject', hworkspace'⟩ := ih hstep hrest (heffect.linked hlink) hc₁
      exact ⟨c', hc', hproject'.trans hproject, hworkspace'.trans hworkspace⟩

theorem inherited_run {calls : List UnitCall}
    (hmeets : Meets (Ledger.step hashRequest store) (WhereCommits hashRequest store RespectsWorkspaces) {} calls) :
    Inherited (runUnits hashRequest store calls).rows := by
  refine (invariant_of_meets (fun ledger => Chronicle ledger ∧ Inherited ledger.rows) (fun ledger call hinv hcond => ?_)
    ⟨chronicle_empty, fun k c hc => by cases hc⟩ hmeets).2
  obtain ⟨h, hinherited⟩ := hinv
  refine ⟨h.step hashRequest store call, ?_⟩
  have hwf := (h.step hashRequest store call).rows_wellFormed
  rcases step_cases h hashRequest store call with
    hsame | ⟨t, result, rows', hcommit, htransact, -, heffect, hchange⟩
  · rw [hsame]
    exact hinherited
  · rw [hcommit] at hwf ⊢
    exact inherited_step (hcond (by rw [htransact]; rfl)) hwf hinherited hchange

/-- Where no edit takes a task out of its family's workspace and no reparent a linked task out of its own, the run
keeps workspaces. -/
theorem keepsWorkspaces_of_respects (hashRequest : TasksCommand → String) (store : StoreKind) (calls : List UnitCall)
    (hmeets : Meets (Ledger.step hashRequest store) (WhereCommits hashRequest store RespectsWorkspaces) {} calls) :
    KeepsWorkspaces hashRequest store calls := by
  refine ⟨?_, fun task htask p hp => ?_⟩
  · rintro earlier later rfl link hlink c hc
    obtain ⟨-, hlater⟩ := (meets_append _ _ _ _ _).mp hmeets
    obtain ⟨c', hc', hkept⟩ := linked_kept (chronicle_runUnits hashRequest store earlier) hlater hlink hc
    refine ⟨c', ?_, hkept⟩
    rw [runUnits, run_append]
    exact hc'
  · have hrow := Table.get_of_mem (chronicle_runUnits hashRequest store calls).nodup htask
    exact inherited_run hmeets task.key task hrow p hp

end

/-- A host that grants every access and mints one id. -/
def plainHost (id : String) : ℕ → Ports := fun _ =>
  { authorizeProject := fun _ _ _ => true, now := 0, presetId := id, taskId := id, attachmentId := id, validated := .ok }

/-- A person's command under the id it mints, all its reads answered at one moment. -/
def commandAt (moment : ℕ) (id : String) (command : TasksCommand) : UnitCall where
  work := .command ⟨"s", "o", none⟩ ⟨id, command⟩
  ports := plainHost id
  moments _ := moment
  mono := monotone_const

def createAt (moment : ℕ) (id : String) (workspaceId parentTaskId : Option String) : UnitCall :=
  commandAt moment id (.taskCreate
    { projectId := "p", title := "t", description := "", workspaceId := workspaceId, parentTaskId := parentTaskId })

/-- The row `createAt` leaves. -/
def createdRoot (id : String) (number : ℕ) (workspaceId : Option String) : Task where
  id := id
  revision := 1
  scopeId := "s"
  projectId := "p"
  number := number
  childNumber := none
  workspaceId := workspaceId
  parentTaskId := none
  createdFrom := none
  title := "t"
  description := ""
  status := .todo
  childSetRevision := 0
  archivedAt := none
  createdAt := 0
  updatedAt := 0

def localPreset : Preset where
  name := "n"
  instructions := ""
  execution := .local
  configurations := ⟨⟨⟨"h", "a"⟩, ⟨"v", "m"⟩, none⟩, none, none, none⟩
  agentStartable := false
  id := "q"
  revision := 1
  scopeId := "s"
  ownerId := "o"
  archivedAt := none
  createdAt := 0
  updatedAt := 0

def rootSettlement : Settlement :=
  ⟨⟨"s", "o", none⟩, createdRoot "a" 1 (some "w"), localPreset, .primary, 1, "d", none, ⟨"x", "w"⟩, none, none, .person, 0⟩

/-- A root is started in its workspace. -/
def startedRoot : List UnitCall :=
  [createAt 0 "a" (some "w") none, createAt 1 "b" (some "v") none, commandAt 2 "q" (.presetCreate localPreset.toPresetDraft),
    { work := .settle rootSettlement, ports := plainHost "x", moments := fun _ => 3, mono := monotone_const, loadedAt := 3,
      presetAt := 3 }]

def reparentUnder (moment : ℕ) (taskId : String) (revision : ℕ) (parentTaskId : Option String) : UnitCall :=
  commandAt moment "r" (.taskReparent ⟨taskId, revision, parentTaskId, "p"⟩)

def editWorkspace (moment : ℕ) (taskId : String) (revision : ℕ) (workspaceId : Option String) : UnitCall :=
  commandAt moment "e" (.taskEdit ⟨taskId, revision, "t", "", workspaceId⟩)

/-- A parent and its child. -/
def family : List UnitCall := [createAt 0 "a" (some "w") none, createAt 1 "c" none (some "a")]

/-- A reparent takes a linked root into its new parent's workspace, and an edit takes a parent out of its child's. -/
theorem not_keepsWorkspaces :
    ¬ KeepsWorkspaces (fun _ => "") .d1 (startedRoot ++ [reparentUnder 4 "a" 2 (some "b")]) ∧
      ¬ KeepsWorkspaces (fun _ => "") .memory (family ++ [editWorkspace 2 "a" 2 (some "v")]) := by
  refine ⟨fun h => ?_, fun h => ?_⟩
  · obtain ⟨task, htask, -, hworkspace⟩ := h.1 startedRoot [reparentUnder 4 "a" 2 (some "b")] rfl rootSettlement.link
      (by decide +kernel) { createdRoot "a" 1 (some "w") with revision := 2 } (by decide +kernel)
    have hmoved : ∀ task ∈ (runUnits (fun _ => "") .d1 (startedRoot ++ [reparentUnder 4 "a" 2 (some "b")])).rows.task ("s", "a"),
        task.workspaceId ≠ some "w" := by decide +kernel
    exact hmoved task htask hworkspace
  · have hchild : ∃ task ∈ (runUnits (fun _ => "") .memory (family ++ [editWorkspace 2 "a" 2 (some "v")])).rows.tasks,
        task.scopeId = "s" ∧ task.parentTaskId = some "a" ∧ task.workspaceId = some "w" := by decide +kernel
    obtain ⟨task, htask, hscope, hparent, hworkspace⟩ := hchild
    obtain ⟨parent, hrow, hsame⟩ := h.2 task htask "a" hparent
    rw [hscope] at hrow
    have hedited : ∀ parent ∈ (runUnits (fun _ => "") .memory (family ++ [editWorkspace 2 "a" 2 (some "v")])).rows.task ("s", "a"),
        parent.workspaceId ≠ some "w" := by decide +kernel
    exact hedited parent hrow (hsame.symm.trans hworkspace)

/-- A child detached again, in its parent's workspace to the end. -/
theorem keepsWorkspaces_family :
    Meets (Ledger.step (fun _ => "") .d1) (WhereCommits (fun _ => "") .d1 RespectsWorkspaces) {}
        (family ++ [reparentUnder 2 "c" 1 none]) ∧
      KeepsWorkspaces (fun _ => "") .d1 (family ++ [reparentUnder 2 "c" 1 none]) :=
  have hmeets : Meets (Ledger.step (fun _ => "") .d1) (WhereCommits (fun _ => "") .d1 RespectsWorkspaces) {}
      (family ++ [reparentUnder 2 "c" 1 none]) := by decide +kernel
  ⟨hmeets, keepsWorkspaces_of_respects (fun _ => "") .d1 _ hmeets⟩

end Claxedo.Tasks
