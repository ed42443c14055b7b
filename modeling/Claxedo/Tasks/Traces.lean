import Claxedo.Tasks.Service

/-! What the services ask of the store: for each command, the rows it read before it wrote and the writes
that followed, as its checks left them. -/

namespace Claxedo.Tasks

open Claxedo.Lib Claxedo.Lib.Program TasksM

abbrev Trace := List (Asked TasksOp)

def asRead : Asked TasksOp → Option (Asked ReadOp)
  | ⟨.read op, answer⟩ => some ⟨op, answer⟩
  | ⟨.port _, _⟩ => none
  | ⟨.write _, _⟩ => none

def asWrite : Asked TasksOp → Option (Asked WriteOp)
  | ⟨.write op, answer⟩ => some ⟨op, answer⟩
  | ⟨.port _, _⟩ => none
  | ⟨.read _, _⟩ => none

def Trace.reads (t : Trace) : List (Asked ReadOp) := t.filterMap asRead

def Trace.writes (t : Trace) : List (Asked WriteOp) := t.filterMap asWrite

/-- The trace read `reads`, and then wrote `writes`. -/
structure Summary (t : Trace) (reads : List (Asked ReadOp)) (writes : List (Asked WriteOp)) : Prop where
  reads : Trace.reads t = reads
  writes : Trace.writes t = writes
  ordered : t.Pairwise fun a b => asWrite a = none ∨ asRead b = none

namespace Summary

variable {β : Type} {t t₁ t₂ : Trace} {rs rs₁ rs₂ : List (Asked ReadOp)} {ws ws₁ ws₂ : List (Asked WriteOp)}

theorem nil : Summary [] [] [] := ⟨rfl, rfl, List.Pairwise.nil⟩

theorem asWrite_eq_none (h : Summary t rs []) : ∀ a ∈ t, asWrite a = none := List.filterMap_eq_nil_iff.mp h.writes

theorem asRead_eq_none (h : Summary t [] ws) : ∀ a ∈ t, asRead a = none := List.filterMap_eq_nil_iff.mp h.reads

variable {b : β}

theorem port {op : PortOp β} (h : Summary t rs ws) : Summary (⟨.port op, b⟩ :: t) rs ws :=
  ⟨h.reads, h.writes, List.pairwise_cons.mpr ⟨fun _ _ => .inl rfl, h.ordered⟩⟩

theorem read {op : ReadOp β} (h : Summary t rs ws) : Summary (⟨.read op, b⟩ :: t) (⟨op, b⟩ :: rs) ws :=
  ⟨congrArg _ h.reads, h.writes, List.pairwise_cons.mpr ⟨fun _ _ => .inl rfl, h.ordered⟩⟩

theorem write {op : WriteOp β} (h : Summary t [] ws) : Summary (⟨.write op, b⟩ :: t) [] (⟨op, b⟩ :: ws) :=
  ⟨h.reads, congrArg _ h.writes, List.pairwise_cons.mpr ⟨fun a ha => .inr (h.asRead_eq_none a ha), h.ordered⟩⟩

theorem reading (h₁ : Summary t₁ rs₁ []) (h₂ : Summary t₂ rs₂ ws) : Summary (t₁ ++ t₂) (rs₁ ++ rs₂) ws := by
  refine ⟨?_, ?_, List.pairwise_append.mpr ⟨h₁.ordered, h₂.ordered, fun a ha _ _ => .inl (h₁.asWrite_eq_none a ha)⟩⟩
  · rw [Trace.reads, List.filterMap_append, ← h₁.reads, ← h₂.reads, Trace.reads, Trace.reads]
  · rw [Trace.writes, List.filterMap_append, ← h₂.writes, show t₁.filterMap asWrite = [] from h₁.writes, Trace.writes,
      List.nil_append]

theorem committed (h₁ : Summary t₁ rs ws₁) (h₂ : Summary t₂ [] ws₂) : Summary (t₁ ++ t₂) rs (ws₁ ++ ws₂) := by
  refine ⟨?_, ?_, List.pairwise_append.mpr ⟨h₁.ordered, h₂.ordered, fun _ _ b hb => .inr (h₂.asRead_eq_none b hb)⟩⟩
  · rw [Trace.reads, List.filterMap_append, show t₂.filterMap asRead = [] from h₂.reads, List.append_nil, ← h₁.reads,
      Trace.reads]
  · rw [Trace.writes, List.filterMap_append, ← h₁.writes, ← h₂.writes, Trace.writes, Trace.writes]

end Summary

section
variable {α β : Type} {t : Trace} {r : α} {detail : TasksErrorDetail}

variable {f : β → TasksM α} {p : Prop}

theorem follows_port_bind {op : PortOp β} :
    Follows (port op >>= f) t r ↔ ∃ b t', t = ⟨.port op, b⟩ :: t' ∧ Follows (f b) t' r := Iff.rfl

theorem follows_read_bind {op : ReadOp β} :
    Follows (TasksM.read op >>= f) t r ↔ ∃ b t', t = ⟨.read op, b⟩ :: t' ∧ Follows (f b) t' r := Iff.rfl

theorem follows_write_bind {op : WriteOp β} :
    Follows (TasksM.write op >>= f) t r ↔ ∃ b t', t = ⟨.write op, b⟩ :: t' ∧ Follows (f b) t' r := Iff.rfl

theorem follows_require_bind [Decidable p] {f : Unit → TasksM α} :
    Follows (require p detail >>= f) t r ↔ p ∧ Follows (f ()) t r := by
  unfold require
  by_cases hp : p
  · rw [if_pos hp]
    exact ⟨fun h => ⟨hp, h⟩, fun h => h.2⟩
  · rw [if_neg hp]
    exact ⟨False.elim, fun h => hp h.1⟩

theorem follows_require [Decidable p] {u : Unit} : Follows (require p detail) t u ↔ t = [] ∧ p := by
  unfold require
  by_cases hp : p
  · rw [if_pos hp]
    exact ⟨fun h => ⟨h.1, hp⟩, fun h => ⟨h.1, rfl⟩⟩
  · rw [if_neg hp]
    exact ⟨False.elim, fun h => hp h.2⟩

theorem follows_found_bind {row : Option β} :
    Follows (found row detail >>= f) t r ↔ ∃ b, row = some b ∧ Follows (f b) t r := by
  cases row with
  | none =>
    refine ⟨False.elim, ?_⟩
    rintro ⟨b, hb, -⟩
    cases hb
  | some b =>
    refine ⟨fun h => ⟨b, rfl, h⟩, ?_⟩
    rintro ⟨b', hb, h⟩
    cases hb
    exact h

theorem follows_whenever_bind [Decidable p] {work : TasksM Unit} {f : Unit → TasksM α} (h : Follows (whenever p work >>= f) t r) :
    ∃ t₁ t₂, t = t₁ ++ t₂ ∧ (if p then Follows work t₁ () else t₁ = []) ∧ Follows (f ()) t₂ r := by
  obtain ⟨t₁, t₂, u, rfl, hwork, hrest⟩ := follows_bind.mp h
  refine ⟨t₁, t₂, rfl, ?_, hrest⟩
  unfold whenever at hwork
  by_cases hp : p
  · rw [if_pos hp] at hwork ⊢
    exact hwork
  · rw [if_neg hp] at hwork ⊢
    exact hwork.1

end

section
variable {α : Type} {actor : TasksActor} {t : Trace}

variable {r : α} {scopeId taskId : String} {parent : Option Task}

theorem follows_load_bind {access : Access} {f : Task → TasksM α} (h : Follows (load actor taskId access >>= f) t r) :
    ∃ c t', Follows (f c) t' r ∧ c.scopeId = actor.scopeId ∧
      ∀ {rs ws}, Summary t' rs ws → Summary t (⟨.taskGet (actor.scopeId, taskId), some c⟩ :: rs) ws := by
  simp only [load, boundedId, authorize, bind_bind, follows_require_bind, follows_read_bind, follows_found_bind,
    follows_port_bind, done_bind] at h
  obtain ⟨-, -, row, t₁, rfl, c, hrow, granted, t₂, rfl, -, h⟩ := h
  obtain ⟨hsome, hscope⟩ := Option.filter_eq_some_iff.mp hrow
  subst hsome
  exact ⟨c, t₂, h, by simpa using hscope, fun hsummary => hsummary.port.read⟩

/-- What a parent's read asks, where a parent is named. -/
def parentReads (scopeId : String) (parentTaskId : Option String) (parent : Option Task) : List (Asked ReadOp) :=
  parentTaskId.toList.map fun id => ⟨.taskGet (scopeId, id), parent⟩

/-- The parent is one a child may be filed under. -/
def OpenParent (projectId : String) (parent : Task) : Prop :=
  parent.projectId = projectId ∧ parent.parentTaskId = none ∧ parent.archivedAt = none ∧ parent.status ≠ .done

theorem summary_openParent {projectId : String} {parentTaskId : Option String}
    (h : Follows (named parentTaskId (requireOpenParent actor projectId)) t parent) :
    Summary t (parentReads actor.scopeId parentTaskId parent) [] ∧ (parent = none ↔ parentTaskId = none) ∧
      ∀ q ∈ parent, OpenParent projectId q := by
  rcases parentTaskId with _ | id
  · obtain ⟨rfl, rfl⟩ := h
    exact ⟨Summary.nil, ⟨fun _ => rfl, fun _ => rfl⟩, fun q hq => nomatch hq⟩
  · simp only [named, requireOpenParent, bind_bind, follows_require_bind, follows_read_bind, follows_found_bind, done_bind] at h
    obtain ⟨row, t', rfl, q, rfl, hproject, hroot, harchived, hstatus, rfl, rfl⟩ := h
    refine ⟨Summary.nil.read, by simp, ?_⟩
    rintro q' ⟨⟩
    exact ⟨hproject, hroot, harchived, hstatus⟩

theorem summary_parentSnapshot {parentTaskId : Option String} (h : Follows (parentSnapshot scopeId parentTaskId) t parent) :
    Summary t (parentReads scopeId parentTaskId parent) [] ∧ (parentTaskId = none → parent = none) := by
  rcases parentTaskId with _ | id
  · obtain ⟨rfl, rfl⟩ := h
    exact ⟨Summary.nil, fun _ => rfl⟩
  · obtain rfl := follows_op.mp h
    exact ⟨Summary.nil.read, fun hnone => nomatch hnone⟩

/-- The bump of each parent. -/
def touches (now : ℕ) (parents : List Task) : List (Asked WriteOp) :=
  parents.map fun parent => ⟨.taskUpdate (parent.touched now) parent.revision, true⟩

theorem summary_write_bind {next : Task} {revision : ℕ} {f : Task → TasksM α} (h : Follows (write next revision >>= f) t r) :
    ∃ t', Follows (f next) t' r ∧ ∀ {ws}, Summary t' [] ws → Summary t [] (⟨.taskUpdate next revision, true⟩ :: ws) := by
  simp only [write, bind_bind, follows_write_bind, follows_require_bind, done_bind] at h
  obtain ⟨stored, t', rfl, rfl, h⟩ := h
  exact ⟨t', h, fun hsummary => hsummary.write⟩

theorem summary_touchParent {result : Option Task} (h : Follows (touchParent parent) t result) :
    ∃ now, Summary t [] (touches now parent.toList) ∧ result = parent.map (Task.touched · now) := by
  rcases parent with _ | parent
  · obtain ⟨rfl, rfl⟩ := h
    exact ⟨0, Summary.nil, rfl⟩
  · simp only [touchParent, follows_port_bind] at h
    obtain ⟨now, t', rfl, h⟩ := h
    obtain ⟨t'', ⟨rfl, rfl⟩, hsummary⟩ := summary_write_bind h
    exact ⟨now, (hsummary Summary.nil).port, rfl⟩

/-- What a filing asks: the parent's next child number, or the project's next number. -/
def filingReads (scopeId projectId : String) (parent : Option Task) (filed : ℕ × Option ℕ) : List (Asked ReadOp) :=
  match parent with
  | some parent => [⟨.nextChildNumber (scopeId, parent.id), filed.2.getD 0⟩]
  | none => [⟨.nextNumber scopeId projectId, filed.1⟩]

theorem summary_filing {projectId : String} {filed : ℕ × Option ℕ} (h : Follows (filing scopeId projectId parent) t filed) :
    Summary t (filingReads scopeId projectId parent filed) [] ∧
      filed = parent.elim (filed.1, none) fun q => (q.number, some (filed.2.getD 0)) := by
  rcases parent with _ | parent
  · obtain ⟨n, t', rfl, rfl, rfl⟩ := h
    exact ⟨Summary.nil.read, rfl⟩
  · obtain ⟨n, t', rfl, rfl, rfl⟩ := h
    exact ⟨Summary.nil.read, rfl⟩

theorem summary_requireChildless_bind {detail : TasksErrorDetail} {f : Unit → TasksM α}
    (h : Follows (requireChildless scopeId taskId detail >>= f) t r) :
    ∃ t', Follows (f ()) t' r ∧
      ∀ {rs ws}, Summary t' rs ws → Summary t (⟨.countChildren (scopeId, taskId) true none, 0⟩ :: rs) ws := by
  simp only [requireChildless, bind_bind, follows_read_bind, follows_require_bind] at h
  obtain ⟨children, t', rfl, rfl, h⟩ := h
  exact ⟨t', h, fun hsummary => hsummary.read⟩

/-- The images of a create, in their order. -/
def attachmentWrites (attachments : List TaskAttachmentRecord) : List (Asked WriteOp) :=
  attachments.map fun attachment => ⟨.attachmentInsert attachment, ()⟩

theorem summary_insertAttachments {now position : ℕ} {drafts : List DecodedAttachmentDraft} {u : Unit}
    (h : Follows (insertAttachments scopeId taskId now position drafts) t u) :
    ∃ attachments, Summary t [] (attachmentWrites attachments) ∧ ∀ a ∈ attachments, a.scopeId = scopeId ∧ a.taskId = taskId := by
  induction drafts generalizing t position with
  | nil =>
    obtain ⟨rfl, -⟩ := h
    exact ⟨[], Summary.nil, fun a ha => nomatch ha⟩
  | cons draft drafts ih =>
    simp only [insertAttachments, follows_port_bind, follows_write_bind] at h
    obtain ⟨id, t₁, rfl, b, t₂, rfl, h⟩ := h
    obtain ⟨attachments, hsummary, hof⟩ := ih h
    refine ⟨_ :: attachments, hsummary.write.port, ?_⟩
    intro a ha
    rcases List.mem_cons.mp ha with rfl | ha
    · exact ⟨rfl, rfl⟩
    · exact hof a ha

end

section
variable {actor : TasksActor} {t : Trace} {result : Task × Option Task}

/-- The row a create inserts. -/
structure Created (actor : TasksActor) (draft : TaskDraft) (parent : Option Task) (task : Task) : Prop where
  revision : task.revision = 1
  scopeId : task.scopeId = actor.scopeId
  projectId : task.projectId = draft.projectId
  parentTaskId : task.parentTaskId = draft.parentTaskId
  workspaceId : task.workspaceId = parent.elim draft.workspaceId Task.workspaceId
  createdFrom : task.createdFrom = actor.session
  status : task.status = .todo ∨ task.status = .backlog
  archivedAt : task.archivedAt = none
  filed : (task.number, task.childNumber) = parent.elim (task.number, none) fun q => (q.number, some (task.childNumber.getD 0))

theorem summary_create {draft : TaskDraft} (h : Follows (create actor draft) t result) :
    ∃ parent task attachments now,
      Summary t
        (parentReads actor.scopeId draft.parentTaskId parent ++
          filingReads actor.scopeId draft.projectId parent (task.number, task.childNumber))
        (⟨.taskInsert task, ()⟩ :: (attachmentWrites attachments ++ touches now parent.toList)) ∧
      (parent = none ↔ draft.parentTaskId = none) ∧ (∀ q ∈ parent, OpenParent draft.projectId q) ∧
      Created actor draft parent task ∧ (∀ a ∈ attachments, a.scopeId = actor.scopeId ∧ a.taskId = task.id) ∧
      result = (task, parent.map (Task.touched · now)) := by
  simp only [create, provenance, authorize, bind_bind, done_bind, follows_require_bind, follows_port_bind] at h
  obtain ⟨hvalid, -, granted, t₀, rfl, -, h⟩ := h
  obtain ⟨t₁, t₂, parent, rfl, hparent, h₁⟩ := follows_bind.mp h
  obtain ⟨hreads, hiff, hopen⟩ := summary_openParent hparent
  simp only [follows_require_bind, follows_port_bind] at h₁
  obtain ⟨-, now, t₃, rfl, id, t₄, rfl, h₂⟩ := h₁
  obtain ⟨t₅, t₆, filed, rfl, hfiling, h₃⟩ := follows_bind.mp h₂
  obtain ⟨hfileReads, hfiled⟩ := summary_filing hfiling
  simp only [follows_write_bind] at h₃
  obtain ⟨b, t₇, rfl, h₄⟩ := h₃
  obtain ⟨t₈, t₉, u, rfl, hinsert, h₅⟩ := follows_bind.mp h₄
  obtain ⟨attachments, hattach, hof⟩ := summary_insertAttachments hinsert
  obtain ⟨t₁₀, t₁₁, touched, rfl, htouch, rfl, rfl⟩ := follows_bind.mp h₅
  obtain ⟨now', htouches, rfl⟩ := summary_touchParent htouch
  rw [List.append_nil]
  refine ⟨parent, _, attachments, now', (hreads.reading (hfileReads.committed (hattach.committed htouches).write).port.port).port,
    hiff, hopen, ⟨rfl, rfl, rfl, rfl, rfl, rfl, validateTaskDraft_status hvalid, rfl, hfiled⟩, hof, rfl⟩

theorem minted_create {draft : TaskDraft} (h : Follows (create actor draft) t result) : ⟨.port .taskId, result.1.id⟩ ∈ t := by
  simp only [create, provenance, authorize, bind_bind, done_bind, follows_require_bind, follows_port_bind] at h
  obtain ⟨-, -, granted, t₀, rfl, -, h⟩ := h
  obtain ⟨t₁, t₂, parent, rfl, -, h₁⟩ := follows_bind.mp h
  simp only [follows_require_bind, follows_port_bind] at h₁
  obtain ⟨-, now, t₃, rfl, id, t₄, rfl, h₂⟩ := h₁
  obtain ⟨t₅, t₆, filed, rfl, -, h₃⟩ := follows_bind.mp h₂
  simp only [follows_write_bind] at h₃
  obtain ⟨b, t₇, rfl, h₄⟩ := h₃
  obtain ⟨t₈, t₉, u, rfl, -, h₅⟩ := follows_bind.mp h₄
  obtain ⟨t₁₀, t₁₁, touched, rfl, -, rfl, rfl⟩ := follows_bind.mp h₅
  exact List.mem_cons_of_mem _ (List.mem_append_right _ (List.mem_cons_of_mem _ List.mem_cons_self))

/-- The row a command was about, as it found it: at the revision the request named, in the actor's scope. -/
structure Found (actor : TasksActor) (revision : ℕ) (c : Task) : Prop where
  scopeId : c.scopeId = actor.scopeId
  revision : c.revision = revision

theorem summary_edit {input : TaskEditInput} (h : Follows (edit actor input) t result) :
    ∃ c now, Found actor input.revision c ∧ c.archivedAt = none ∧
      Summary t
        (⟨.taskGet (actor.scopeId, input.taskId), some c⟩ ::
          if input.workspaceId ≠ c.workspaceId then [⟨.linksByTask (actor.scopeId, c.id), []⟩] else [])
        [⟨.taskUpdate result.1 input.revision, true⟩] ∧
      result = ({ c with
        revision := c.revision + 1, title := input.title, description := input.description,
        workspaceId := input.workspaceId, updatedAt := now }, none) := by
  simp only [edit, follows_require_bind] at h
  obtain ⟨-, h⟩ := h
  obtain ⟨c, t₁, h₁, hscope, hsummary⟩ := follows_load_bind h
  simp only [atRevision, requireOpen, follows_require_bind] at h₁
  obtain ⟨hrevision, hopen, h₂⟩ := h₁
  obtain ⟨t₂, t₃, rfl, hlinks, h₃⟩ := follows_whenever_bind h₂
  simp only [follows_port_bind] at h₃
  obtain ⟨now, t₄, rfl, h₄⟩ := h₃
  obtain ⟨t₅, ⟨rfl, rfl⟩, hwrite⟩ := summary_write_bind h₄
  refine ⟨c, now, ⟨hscope, hrevision⟩, hopen, hsummary ?_, rfl⟩
  refine (show Summary t₂ _ [] from ?_).committed (hwrite Summary.nil).port
  split_ifs at hlinks ⊢
  · simp only [follows_read_bind, follows_require] at hlinks
    obtain ⟨links, t₅, rfl, rfl, rfl⟩ := hlinks
    exact Summary.nil.read
  · rw [hlinks]
    exact Summary.nil

theorem summary_setStatus {input : TaskSetStatusInput} (h : Follows (setStatus actor input) t result) :
    ∃ c parent now now', Found actor input.revision c ∧ c.archivedAt = none ∧
      Summary t
        (⟨.taskGet (actor.scopeId, input.taskId), some c⟩ ::
          ((if input.status = .done then [⟨.countChildren (actor.scopeId, c.id) false (some .done), 0⟩] else []) ++
            parentReads actor.scopeId c.parentTaskId parent))
        (⟨.taskUpdate result.1 input.revision, true⟩ :: touches now' parent.toList) ∧
      (c.parentTaskId = none → parent = none) ∧
      (c.status = .done → input.status ≠ .done →
        (parent = none → c.parentTaskId = none) ∧ ∀ q ∈ parent, OpenParent c.projectId q) ∧
      result = ({ c with revision := c.revision + 1, status := input.status, updatedAt := now },
        parent.map (Task.touched · now')) := by
  rw [setStatus] at h
  obtain ⟨c, t₁, h₁, hscope, hsummary⟩ := follows_load_bind h
  simp only [atRevision, requireOpen, follows_require_bind] at h₁
  obtain ⟨hrevision, hopen, h₂⟩ := h₁
  obtain ⟨t₂, t₃, rfl, hcount, h₃⟩ := follows_whenever_bind h₂
  obtain ⟨t₄, t₅, parent, rfl, hparent, h₄⟩ := follows_bind.mp h₃
  simp only [follows_port_bind] at h₄
  obtain ⟨now, t₆, rfl, h₅⟩ := h₄
  obtain ⟨t₇, h₆, hwrite⟩ := summary_write_bind h₅
  obtain ⟨t₈, t₉, touched, rfl, htouch, rfl, rfl⟩ := follows_bind.mp h₆
  obtain ⟨now', htouches, rfl⟩ := summary_touchParent htouch
  have hreads : Summary t₄ (parentReads actor.scopeId c.parentTaskId parent) [] ∧ (c.parentTaskId = none → parent = none) ∧
      (c.status = .done → input.status ≠ .done →
        (parent = none → c.parentTaskId = none) ∧ ∀ q ∈ parent, OpenParent c.projectId q) := by
    unfold statusParent at hparent
    split_ifs at hparent with hback
    · obtain ⟨hreads, hiff, hall⟩ := summary_openParent hparent
      exact ⟨hreads, hiff.mpr, fun _ _ => ⟨hiff.mp, hall⟩⟩
    · obtain ⟨hreads, hnone⟩ := summary_parentSnapshot hparent
      exact ⟨hreads, hnone, fun hdone hnot => absurd ⟨hdone, hnot⟩ hback⟩
  refine ⟨c, parent, now, now', ⟨hscope, hrevision⟩, hopen, hsummary ?_, hreads.2.1, hreads.2.2, rfl⟩
  rw [List.append_nil] at hwrite
  refine Summary.reading ?_ (hreads.1.committed (hwrite htouches).port)
  split_ifs at hcount ⊢
  · simp only [follows_read_bind, follows_require] at hcount
    obtain ⟨unfinished, t', rfl, rfl, rfl⟩ := hcount
    exact Summary.nil.read
  · rw [hcount]
    exact Summary.nil

theorem summary_archive {input : RowInput} (h : Follows (archive actor input) t result) :
    ∃ c parent now now', Found actor input.revision c ∧ c.archivedAt = none ∧
      Summary t
        (⟨.taskGet (actor.scopeId, input.id), some c⟩ :: ⟨.countChildren (actor.scopeId, c.id) false none, 0⟩ ::
          parentReads actor.scopeId c.parentTaskId parent)
        (⟨.taskUpdate result.1 input.revision, true⟩ :: touches now' parent.toList) ∧
      (c.parentTaskId = none → parent = none) ∧
      result = ({ c with revision := c.revision + 1, archivedAt := some now, updatedAt := now },
        parent.map (Task.touched · now')) := by
  rw [archive] at h
  obtain ⟨c, t₁, h₁, hscope, hsummary⟩ := follows_load_bind h
  simp only [atRevision, requireOpen, follows_require_bind, follows_read_bind] at h₁
  obtain ⟨hrevision, hopen, living, t₂, rfl, rfl, h₂⟩ := h₁
  obtain ⟨t₃, t₄, parent, rfl, hparent, h₃⟩ := follows_bind.mp h₂
  obtain ⟨hreads, hnone⟩ := summary_parentSnapshot hparent
  simp only [follows_port_bind] at h₃
  obtain ⟨now, t₅, rfl, h₄⟩ := h₃
  obtain ⟨t₆, h₅, hwrite⟩ := summary_write_bind h₄
  obtain ⟨t₇, t₈, touched, rfl, htouch, rfl, rfl⟩ := follows_bind.mp h₅
  obtain ⟨now', htouches, rfl⟩ := summary_touchParent htouch
  rw [List.append_nil] at hwrite
  exact ⟨c, parent, now, now', ⟨hscope, hrevision⟩, hopen, hsummary (hreads.committed (hwrite htouches).port).read, hnone, rfl⟩

theorem summary_restore {input : RowInput} (h : Follows (restore actor input) t result) :
    ∃ c parent now now', Found actor input.revision c ∧ c.archivedAt ≠ none ∧
      Summary t (⟨.taskGet (actor.scopeId, input.id), some c⟩ :: parentReads actor.scopeId c.parentTaskId parent)
        (⟨.taskUpdate result.1 input.revision, true⟩ :: touches now' parent.toList) ∧
      (parent = none ↔ c.parentTaskId = none) ∧ (∀ q ∈ parent, OpenParent c.projectId q) ∧
      result = ({ c with revision := c.revision + 1, archivedAt := none, updatedAt := now },
        parent.map (Task.touched · now')) := by
  rw [restore] at h
  obtain ⟨c, t₁, h₁, hscope, hsummary⟩ := follows_load_bind h
  simp only [atRevision, follows_require_bind] at h₁
  obtain ⟨hrevision, harchived, h₂⟩ := h₁
  obtain ⟨t₃, t₄, parent, rfl, hparent, h₃⟩ := follows_bind.mp h₂
  obtain ⟨hreads, hiff, hall⟩ := summary_openParent hparent
  simp only [follows_port_bind] at h₃
  obtain ⟨now, t₅, rfl, h₄⟩ := h₃
  obtain ⟨t₆, h₅, hwrite⟩ := summary_write_bind h₄
  obtain ⟨t₇, t₈, touched, rfl, htouch, rfl, rfl⟩ := follows_bind.mp h₅
  obtain ⟨now', htouches, rfl⟩ := summary_touchParent htouch
  rw [List.append_nil] at hwrite
  exact ⟨c, parent, now, now', ⟨hscope, hrevision⟩, harchived, hsummary (hreads.committed (hwrite htouches).port), hiff, hall, rfl⟩

/-- Where a reparent files its task. -/
structure Filed (actor : TasksActor) (input : TaskReparentInput) (c : Task) (next : Option Task) (filed : ℕ × Option ℕ)
    (reads : List (Asked ReadOp)) : Prop where
  moved : input.projectId ≠ c.projectId ∨ input.parentTaskId ≠ c.parentTaskId →
    reads = filingReads actor.scopeId input.projectId next filed ∧
      filed = next.elim (filed.1, none) fun q => (q.number, some (filed.2.getD 0))
  kept : ¬ (input.projectId ≠ c.projectId ∨ input.parentTaskId ≠ c.parentTaskId) → reads = [] ∧ filed = (c.number, c.childNumber)

/-- What a reparent reads: its task, whether that may move, the parents it takes and leaves, and what it files by. -/
def reparentReads (actor : TasksActor) (input : TaskReparentInput) (c : Task) (next former : Option Task)
    (filing : List (Asked ReadOp)) : List (Asked ReadOp) :=
  ⟨.taskGet (actor.scopeId, input.taskId), some c⟩ ::
    ((if input.projectId ≠ c.projectId then
        [⟨.countChildren (actor.scopeId, c.id) true none, 0⟩, ⟨.linksByTask (actor.scopeId, c.id), []⟩] else []) ++
      ((if input.parentTaskId ≠ none then [⟨.countChildren (actor.scopeId, c.id) true none, 0⟩] else []) ++
        (parentReads actor.scopeId input.parentTaskId next ++
          (parentReads actor.scopeId (c.parentTaskId.filter fun parent => some parent ≠ input.parentTaskId) former ++ filing))))

/-- The reads are among those of the trace. -/
structure ReparentReads (actor : TasksActor) (input : TaskReparentInput) (c : Task) (next former : Option Task)
    (filing reads : List (Asked ReadOp)) : Prop where
  task : ⟨.taskGet (actor.scopeId, input.taskId), some c⟩ ∈ reads
  next : ∀ a ∈ parentReads actor.scopeId input.parentTaskId next, a ∈ reads
  former : ∀ a ∈ parentReads actor.scopeId (c.parentTaskId.filter fun parent => some parent ≠ input.parentTaskId) former, a ∈ reads
  filing : ∀ a ∈ filing, a ∈ reads
  childless : input.projectId ≠ c.projectId ∨ input.parentTaskId ≠ none →
    ⟨.countChildren (actor.scopeId, c.id) true none, 0⟩ ∈ reads
  links : input.projectId ≠ c.projectId → ⟨.linksByTask (actor.scopeId, c.id), []⟩ ∈ reads

theorem Summary.reparent {input : TaskReparentInput} {c : Task} {next former : Option Task} {filing : List (Asked ReadOp)}
    {ws : List (Asked WriteOp)} (h : Summary t (reparentReads actor input c next former filing) ws) :
    ReparentReads actor input c next former filing t.reads := by
  rw [h.reads, reparentReads]
  refine ⟨List.mem_cons_self, fun a ha => by simp [ha], fun a ha => ?_, fun a ha => by simp [ha], ?_, fun hne => by simp [hne]⟩
  · exact List.mem_cons_of_mem _
      (List.mem_append_right _ (List.mem_append_right _ (List.mem_append_right _ (List.mem_append_left _ ha))))
  · rintro (hne | hne) <;> simp [hne]

theorem summary_reparent {input : TaskReparentInput} (h : Follows (reparent actor input) t result) :
    ∃ c next former filed filing now now₁ now₂, Found actor input.revision c ∧ c.archivedAt = none ∧
      input.parentTaskId ≠ some input.taskId ∧
      Summary t
        (reparentReads actor input c next former filing)
        (⟨.taskUpdate result.1 input.revision, true⟩ :: (touches now₁ former.toList ++ touches now₂ next.toList)) ∧
      (next = none ↔ input.parentTaskId = none) ∧ (∀ q ∈ next, OpenParent input.projectId q) ∧
      ((c.parentTaskId.filter fun parent => some parent ≠ input.parentTaskId) = none → former = none) ∧
      Filed actor input c next filed filing ∧
      result = ({ c with
        revision := c.revision + 1, projectId := input.projectId, parentTaskId := input.parentTaskId,
        number := filed.1, childNumber := filed.2,
        workspaceId := next.elim c.workspaceId Task.workspaceId, updatedAt := now }, next.map (Task.touched · now₂)) := by
  simp only [reparent, follows_require_bind] at h
  obtain ⟨hvalid, h⟩ := h
  obtain ⟨c, t₁, h₁, hscope, hsummary⟩ := follows_load_bind h
  simp only [atRevision, requireOpen, follows_require_bind] at h₁
  obtain ⟨hrevision, hopen, h₂⟩ := h₁
  obtain ⟨t₂, t₃, rfl, hproject, h₃⟩ := follows_whenever_bind h₂
  obtain ⟨t₄, t₅, rfl, hchildless, h₄⟩ := follows_whenever_bind h₃
  obtain ⟨t₆, t₇, next, rfl, hnext, h₅⟩ := follows_bind.mp h₄
  obtain ⟨t₈, t₉, former, rfl, hformer, h₆⟩ := follows_bind.mp h₅
  obtain ⟨t₁₀, t₁₁, filed, rfl, hfiling, h₇⟩ := follows_bind.mp h₆
  simp only [follows_port_bind] at h₇
  obtain ⟨now, t₁₂, rfl, h₈⟩ := h₇
  obtain ⟨t₁₃, h₉, hwrite⟩ := summary_write_bind h₈
  obtain ⟨t₁₄, t₁₅, touched₁, rfl, htouch₁, h₁₀⟩ := follows_bind.mp h₉
  obtain ⟨t₁₆, t₁₇, touched₂, rfl, htouch₂, rfl, rfl⟩ := follows_bind.mp h₁₀
  obtain ⟨now₁, htouches₁, rfl⟩ := summary_touchParent htouch₁
  obtain ⟨now₂, htouches₂, rfl⟩ := summary_touchParent htouch₂
  obtain ⟨hnextReads, hiff, hall⟩ := summary_openParent hnext
  obtain ⟨hformerReads, hnone⟩ := summary_parentSnapshot hformer
  have hfiled : ∃ reads, Summary t₁₀ reads [] ∧ Filed actor input c next filed reads := by
    unfold refiling at hfiling
    split_ifs at hfiling with hmoved
    · obtain ⟨hreads, heq⟩ := summary_filing hfiling
      exact ⟨_, hreads, fun _ => ⟨rfl, heq⟩, fun hkept => absurd hmoved hkept⟩
    · obtain ⟨rfl, rfl⟩ := hfiling
      exact ⟨[], Summary.nil, fun hmove => absurd hmove hmoved, fun _ => ⟨rfl, rfl⟩⟩
  obtain ⟨filing, hfilingReads, hfiled⟩ := hfiled
  refine ⟨c, next, former, filed, filing, now, now₁, now₂, ⟨hscope, hrevision⟩, hopen, validateReparent_ne hvalid,
    hsummary ?_, hiff, hall, hnone, hfiled, rfl⟩
  rw [List.append_nil] at hwrite
  refine Summary.reading ?_ (Summary.reading ?_ (hnextReads.reading (hformerReads.reading
    (hfilingReads.committed (hwrite (htouches₁.committed htouches₂)).port))))
  · split_ifs at hproject ⊢
    · simp only [authorize, bind_bind, follows_port_bind, follows_require_bind] at hproject
      obtain ⟨granted, t', rfl, -, h'⟩ := hproject
      obtain ⟨t'', h'', hcount⟩ := summary_requireChildless_bind h'
      simp only [follows_read_bind, follows_require] at h''
      obtain ⟨links, t₀, rfl, rfl, rfl⟩ := h''
      exact (hcount Summary.nil.read).port
    · rw [hproject]
      exact Summary.nil
  · split_ifs at hchildless ⊢
    · simp only [requireChildless, follows_read_bind, follows_require] at hchildless
      obtain ⟨children, t', rfl, rfl, rfl⟩ := hchildless
      exact Summary.nil.read
    · rw [hchildless]
      exact Summary.nil

end

section
variable {actor : TasksActor} {t : Trace} {preset : Preset}

/-- A preset command that writes the row it read, a revision on. -/
def PresetMoves (actor : TasksActor) (t : Trace) (preset : Preset) : Prop :=
  ∃ c, (c.scopeId = actor.scopeId ∧ c.ownerId = actor.ownerId ∧ preset.ownerId = c.ownerId) ∧ preset.key = c.key ∧
    preset.revision = c.revision + 1 ∧
    ∃ presetId, Summary t [⟨.presetGet (actor.scopeId, presetId), some c⟩] [⟨.presetUpdate preset c.revision, true⟩]

theorem follows_owned_bind {α : Type} {presetId : String} {f : Preset → TasksM α} {r : α}
    (h : Follows (Presets.owned actor presetId >>= f) t r) :
    ∃ c t', Follows (f c) t' r ∧ (c.scopeId = actor.scopeId ∧ c.ownerId = actor.ownerId) ∧
      ∀ {rs ws}, Summary t' rs ws → Summary t (⟨.presetGet (actor.scopeId, presetId), some c⟩ :: rs) ws := by
  simp only [Presets.owned, bind_bind, follows_require_bind, follows_read_bind, follows_found_bind] at h
  obtain ⟨-, -, row, t₁, rfl, c, hrow, h⟩ := h
  obtain ⟨hsome, howned⟩ := Option.filter_eq_some_iff.mp hrow
  subst hsome
  have howned : c.scopeId = actor.scopeId ∧ c.ownerId = actor.ownerId := by simpa using howned
  exact ⟨c, t₁, h, howned, fun hsummary => hsummary.read⟩

theorem summary_presetWrite {next result : Preset} {revision : ℕ} (h : Follows (Presets.write next revision) t result) :
    result = next ∧ Summary t [] [⟨.presetUpdate next revision, true⟩] := by
  simp only [Presets.write, follows_write_bind, follows_require_bind] at h
  obtain ⟨stored, t', rfl, rfl, rfl, rfl⟩ := h
  exact ⟨rfl, Summary.nil.write⟩

theorem summary_presetCreate {input : PresetDraft} (h : Follows (Presets.create actor input) t preset) :
    Summary t [] [⟨.presetInsert preset, ()⟩] := by
  obtain ⟨t₁, t₂, draft, rfl, hvalid, h₁⟩ := follows_bind.mp h
  simp only [follows_port_bind, follows_write_bind] at h₁
  obtain ⟨now, t₃, rfl, id, t₄, rfl, b, t₅, rfl, rfl, rfl⟩ := h₁
  simp only [Presets.validated, follows_port_bind] at hvalid
  obtain ⟨checked, t₆, rfl, hchecked⟩ := hvalid
  cases checked with
  | error detail => exact hchecked.elim
  | ok draft' =>
    obtain ⟨rfl, rfl⟩ := hchecked
    exact Summary.nil.write.port.port.port

theorem minted_presetCreate {input : PresetDraft} (h : Follows (Presets.create actor input) t preset) :
    ⟨.port .presetId, preset.id⟩ ∈ t ∧ preset.scopeId = actor.scopeId ∧ preset.ownerId = actor.ownerId := by
  obtain ⟨t₁, t₂, draft, rfl, -, h₁⟩ := follows_bind.mp h
  simp only [follows_port_bind, follows_write_bind] at h₁
  obtain ⟨now, t₃, rfl, id, t₄, rfl, b, t₅, rfl, rfl, rfl⟩ := h₁
  exact ⟨List.mem_append_right _ (List.mem_cons_of_mem _ List.mem_cons_self), rfl, rfl⟩

theorem presetMoves_edit {input : PresetEditInput} (h : Follows (Presets.edit actor input) t preset) :
    PresetMoves actor t preset := by
  rw [Presets.edit] at h
  obtain ⟨c, t₁, h₁, ⟨hscope, howner⟩, hsummary⟩ := follows_owned_bind h
  simp only [Presets.atRevision, follows_require_bind] at h₁
  obtain ⟨hrevision, h₂⟩ := h₁
  obtain ⟨t₂, t₃, draft, rfl, hvalid, h₃⟩ := follows_bind.mp h₂
  simp only [follows_port_bind] at h₃
  obtain ⟨now, t₄, rfl, h₄⟩ := h₃
  obtain ⟨rfl, hwrite⟩ := summary_presetWrite h₄
  simp only [Presets.validated, follows_port_bind] at hvalid
  obtain ⟨checked, t₆, rfl, hchecked⟩ := hvalid
  cases checked with
  | error detail => exact hchecked.elim
  | ok draft' =>
    obtain ⟨rfl, rfl⟩ := hchecked
    rw [← hrevision] at hwrite
    exact ⟨c, ⟨hscope, howner, rfl⟩, rfl, rfl, input.presetId, hsummary hwrite.port.port⟩

theorem presetMoves_archive {input : RowInput} (h : Follows (Presets.archive actor input) t preset) :
    PresetMoves actor t preset := by
  rw [Presets.archive] at h
  obtain ⟨c, t₁, h₁, ⟨hscope, howner⟩, hsummary⟩ := follows_owned_bind h
  simp only [Presets.atRevision, follows_require_bind, follows_port_bind] at h₁
  obtain ⟨hrevision, -, now, t₂, rfl, h₂⟩ := h₁
  obtain ⟨rfl, hwrite⟩ := summary_presetWrite h₂
  rw [← hrevision] at hwrite
  exact ⟨c, ⟨hscope, howner, rfl⟩, rfl, rfl, input.id, hsummary hwrite.port⟩

theorem presetMoves_restore {input : RowInput} (h : Follows (Presets.restore actor input) t preset) :
    PresetMoves actor t preset := by
  rw [Presets.restore] at h
  obtain ⟨c, t₁, h₁, ⟨hscope, howner⟩, hsummary⟩ := follows_owned_bind h
  simp only [Presets.atRevision, follows_require_bind, follows_port_bind] at h₁
  obtain ⟨hrevision, -, now, t₂, rfl, h₂⟩ := h₁
  obtain ⟨rfl, hwrite⟩ := summary_presetWrite h₂
  rw [← hrevision] at hwrite
  exact ⟨c, ⟨hscope, howner, rfl⟩, rfl, rfl, input.id, hsummary hwrite.port⟩

end

section
variable {actor : TasksActor} {t : Trace}

/-- Which service a command ran, and what that answered. -/
inductive CommandRan (actor : TasksActor) (t : Trace) : TasksCommand → TasksCommandResult → Prop where
  | presetCreate {input preset} (h : Follows (Presets.create actor input) t preset) :
    CommandRan actor t (.presetCreate input) (.preset .presetCreate preset)
  | presetEdit {input preset} (h : Follows (Presets.edit actor input) t preset) :
    CommandRan actor t (.presetEdit input) (.preset .presetEdit preset)
  | presetArchive {input preset} (h : Follows (Presets.archive actor input) t preset) :
    CommandRan actor t (.presetArchive input) (.preset .presetArchive preset)
  | presetRestore {input preset} (h : Follows (Presets.restore actor input) t preset) :
    CommandRan actor t (.presetRestore input) (.preset .presetRestore preset)
  | create {draft r} (h : Follows (create actor draft) t r) :
    CommandRan actor t (.taskCreate draft) (.task .taskCreate r.1 r.2)
  | edit {input r} (h : Follows (edit actor input) t r) : CommandRan actor t (.taskEdit input) (.task .taskEdit r.1 r.2)
  | setStatus {input r} (h : Follows (setStatus actor input) t r) :
    CommandRan actor t (.taskSetStatus input) (.task .taskSetStatus r.1 r.2)
  | reparent {input r} (h : Follows (reparent actor input) t r) :
    CommandRan actor t (.taskReparent input) (.task .taskReparent r.1 r.2)
  | archive {input r} (h : Follows (archive actor input) t r) :
    CommandRan actor t (.taskArchive input) (.task .taskArchive r.1 r.2)
  | restore {input r} (h : Follows (restore actor input) t r) :
    CommandRan actor t (.taskRestore input) (.task .taskRestore r.1 r.2)

theorem commandRan {command : TasksCommand} {result : TasksCommandResult} (h : Follows (runCommand actor command) t result) :
    CommandRan actor t command result := by
  cases command <;>
  · obtain ⟨t₁, t₂, r, rfl, hrun, rfl, rfl⟩ := follows_bind.mp h
    rw [List.append_nil]
    constructor
    exact hrun

/-- A task command other than a create writes over a row of the actor's, and bumps parents. -/
def TaskMoves (actor : TasksActor) (t : Trace) (task : Task) : Prop :=
  task.scopeId = actor.scopeId ∧ ∃ revision rs now₁ now₂ former parents,
    Summary t rs (⟨.taskUpdate task revision, true⟩ :: (touches now₁ former ++ touches now₂ parents))

/-- What a command that ran did: it made a row, or moved one it found. -/
inductive CommandDid (actor : TasksActor) (t : Trace) : TasksCommandResult → Prop where
  | presetMade {type input preset} (h : Follows (Presets.create actor input) t preset) : CommandDid actor t (.preset type preset)
  | presetMoved {type preset} (h : PresetMoves actor t preset) : CommandDid actor t (.preset type preset)
  | taskMade {type draft r} (h : Follows (create actor draft) t r) : CommandDid actor t (.task type r.1 r.2)
  | taskMoved {type task parent} (h : TaskMoves actor t task) : CommandDid actor t (.task type task parent)

theorem CommandRan.did {command : TasksCommand} {result : TasksCommandResult} (h : CommandRan actor t command result) :
    CommandDid actor t result := by
  cases h with
  | presetCreate h => exact .presetMade h
  | presetEdit h => exact .presetMoved (presetMoves_edit h)
  | presetArchive h => exact .presetMoved (presetMoves_archive h)
  | presetRestore h => exact .presetMoved (presetMoves_restore h)
  | create h => exact .taskMade h
  | edit h =>
    obtain ⟨c, now, hfound, -, hsummary, rfl⟩ := summary_edit h
    exact .taskMoved ⟨hfound.scopeId, _, _, 0, 0, [], [], hsummary⟩
  | setStatus h =>
    obtain ⟨c, parent, now, now', hfound, -, hsummary, -, -, rfl⟩ := summary_setStatus h
    exact .taskMoved ⟨hfound.scopeId, _, _, 0, _, [], _, hsummary⟩
  | reparent h =>
    obtain ⟨c, next, former, filed, filing, now, now₁, now₂, hfound, -, -, hsummary, -, -, -, -, rfl⟩ := summary_reparent h
    exact .taskMoved ⟨hfound.scopeId, _, _, _, _, _, _, hsummary⟩
  | archive h =>
    obtain ⟨c, parent, now, now', hfound, -, hsummary, -, rfl⟩ := summary_archive h
    exact .taskMoved ⟨hfound.scopeId, _, _, 0, _, [], _, hsummary⟩
  | restore h =>
    obtain ⟨c, parent, now, now', hfound, -, hsummary, -, -, rfl⟩ := summary_restore h
    exact .taskMoved ⟨hfound.scopeId, _, _, 0, _, [], _, hsummary⟩

theorem CommandDid.summary {result : TasksCommandResult} (h : CommandDid actor t result) : ∃ rs ws, Summary t rs ws := by
  cases h with
  | presetMade h => exact ⟨_, _, summary_presetCreate h⟩
  | presetMoved h =>
    obtain ⟨c, -, -, -, id, hsummary⟩ := h
    exact ⟨_, _, hsummary⟩
  | taskMade h =>
    obtain ⟨parent, task, attachments, now, hsummary, -⟩ := summary_create h
    exact ⟨_, _, hsummary⟩
  | taskMoved h =>
    obtain ⟨-, revision, rs, now₁, now₂, former, parents, hsummary⟩ := h
    exact ⟨_, _, hsummary⟩

theorem summary_commandUnit {hashRequest : TasksCommand → String} {request : TasksCommandRequest}
    {result : Option TasksCommandResult} (h : Follows (commandUnit hashRequest actor request) t result) :
    (∃ held, held ≠ none ∧ result = none ∧
      Summary t [⟨.receiptGet (actor.scopeId, request.clientRequestId), held⟩] []) ∨
    ∃ t' committed now, CommandRan actor t' request.command committed ∧ result = some committed ∧ (∀ a ∈ t', a ∈ t) ∧
      ∀ {rs ws}, Summary t' rs ws →
        Summary t (⟨.receiptGet (actor.scopeId, request.clientRequestId), none⟩ :: rs)
          (ws ++ [⟨.receiptPut ⟨actor.scopeId, request.clientRequestId, request.command.type,
            hashRequest request.command, committed, now⟩, true⟩]) := by
  simp only [commandUnit, follows_read_bind] at h
  obtain ⟨held, t₁, rfl, h⟩ := h
  by_cases hheld : held ≠ none
  · rw [if_pos hheld] at h
    obtain ⟨rfl, rfl⟩ := h
    exact .inl ⟨held, hheld, rfl, Summary.nil.read⟩
  · rw [if_neg hheld] at h
    obtain rfl := not_not.mp hheld
    obtain ⟨t₂, t₃, committed, rfl, hrun, h₁⟩ := follows_bind.mp h
    simp only [follows_port_bind, follows_write_bind] at h₁
    obtain ⟨now, t₄, rfl, stored, t₅, rfl, h₂⟩ := h₁
    cases stored with
    | false => exact h₂.elim
    | true =>
      obtain ⟨rfl, rfl⟩ := h₂
      refine .inr ⟨t₂, committed, now, commandRan hrun, rfl,
        fun a ha => List.mem_cons_of_mem _ (List.mem_append_left _ ha), fun {rs ws} hsummary => Summary.read ?_⟩
      exact hsummary.committed Summary.nil.write.port

theorem summary_settle {s : Settlement} {link : TaskSessionLink} {created : Bool} (h : Follows (settle s) t (link, created)) :
    (created = false ∧ link.sessionRef = s.sessionRef ∧ link.configurationDigest = s.configurationDigest ∧
      Summary t []
        [⟨.presetAssertRevision (s.actor.scopeId, s.preset.id) s.preset.revision, true⟩, ⟨.linkInsert s.link, .exists link⟩]) ∨
    (created = true ∧ link = s.link ∧ ∃ now,
      Summary t []
        [⟨.presetAssertRevision (s.actor.scopeId, s.preset.id) s.preset.revision, true⟩, ⟨.linkInsert s.link, .inserted⟩,
          ⟨.taskUpdate { s.task with revision := s.task.revision + 1, updatedAt := now } s.task.revision, true⟩]) := by
  simp only [settle, authorize, bind_bind, follows_port_bind, follows_require_bind, follows_write_bind] at h
  obtain ⟨granted, t₁, rfl, -, asserted, t₂, rfl, rfl, outcome, t₃, rfl, h⟩ := h
  cases outcome with
  | «exists» held =>
    simp only [follows_require_bind] at h
    obtain ⟨⟨href, hdigest⟩, rfl, heq⟩ := h
    obtain ⟨rfl, rfl⟩ := Prod.mk.inj heq
    exact .inl ⟨rfl, href, hdigest, Summary.nil.write.write.port⟩
  | inserted =>
    simp only [follows_port_bind, follows_write_bind, follows_require_bind] at h
    obtain ⟨now, t₄, rfl, updated, t₅, rfl, rfl, rfl, heq⟩ := h
    obtain ⟨rfl, rfl⟩ := Prod.mk.inj heq
    exact .inr ⟨rfl, rfl, now, Summary.nil.write.port.write.write.port⟩

end

end Claxedo.Tasks
