import Mathlib.Data.List.Sort
import Claxedo.Lib.Program
import Claxedo.Lib.Table
import Claxedo.Tasks.Contracts

/-! The rows a Tasks store holds, the operations a unit of work asks of it, and `createMemoryTasksStore`:
a unit has the rows to itself, and one that throws leaves them as they were. -/

namespace Claxedo.Tasks

open Claxedo.Lib

/-- A scope and an id in it. -/
abbrev Key := String × String

def Preset.key (preset : Preset) : Key := (preset.scopeId, preset.id)

def Task.key (task : Task) : Key := (task.scopeId, task.id)

def TaskAttachmentRecord.key (attachment : TaskAttachmentRecord) : Key × String :=
  ((attachment.scopeId, attachment.taskId), attachment.id)

/-- The origin a link holds. -/
def TaskSessionLink.key (link : TaskSessionLink) : Key × ConfigurationSlot × ℕ :=
  ((link.scopeId, link.taskId), link.slot, link.attempt)

def TasksCommandReceipt.key (receipt : TasksCommandReceipt) : Key := (receipt.scopeId, receipt.clientRequestId)

@[ext] structure Rows where
  presets : List Preset := []
  tasks : List Task := []
  attachments : List TaskAttachmentRecord := []
  links : List TaskSessionLink := []
  receipts : List TasksCommandReceipt := []
  deriving DecidableEq

inductive TasksStoreConflictKind where
  | duplicateReceipt | staleRevision | linkConflict | numberTaken
  deriving DecidableEq

/-- What a unit was refused with: by the service, by a predicate its commit found broken, or by a fault.
`raced` is the service's refusal of a request whose receipt came to be under it. -/
inductive Fault where
  | refused (detail : TasksErrorDetail)
  | raced (detail : TasksErrorDetail)
  | conflict (kind : TasksStoreConflictKind) (message : String)
  | error (message : String)
  deriving DecidableEq

inductive Access where
  | read | write

inductive LinkInsertOutcome where
  | inserted
  | exists (link : TaskSessionLink)

/-- What the host answers: its authority, its clock, the ids it mints, and a preset draft held to its
harness catalog. -/
inductive PortOp : Type → Type where
  | authorizeProject (actor : TasksActor) (projectId : String) (access : Access) : PortOp Bool
  | now : PortOp ℕ
  | presetId : PortOp String
  | taskId : PortOp String
  | attachmentId : PortOp String
  | validated (draft : PresetDraft) : PortOp (Except TasksErrorDetail PresetDraft)

inductive ReadOp : Type → Type where
  | presetGet (key : Key) : ReadOp (Option Preset)
  | taskGet (key : Key) : ReadOp (Option Task)
  | countChildren (parent : Key) (includeArchived : Bool) (excludeStatus : Option TaskStatus) : ReadOp ℕ
  | nextNumber (scopeId projectId : String) : ReadOp ℕ
  | nextChildNumber (parent : Key) : ReadOp ℕ
  | linkCurrent (task : Key) (slot : ConfigurationSlot) : ReadOp (Option TaskSessionLink)
  | linksByTask (task : Key) : ReadOp (List TaskSessionLink)
  | receiptGet (key : Key) : ReadOp (Option TasksCommandReceipt)

inductive WriteOp : Type → Type where
  | presetInsert (preset : Preset) : WriteOp Unit
  | presetUpdate (preset : Preset) (expectedRevision : ℕ) : WriteOp Bool
  | presetAssertRevision (key : Key) (revision : ℕ) : WriteOp Bool
  | taskInsert (task : Task) : WriteOp Unit
  | taskUpdate (task : Task) (expectedRevision : ℕ) : WriteOp Bool
  | attachmentInsert (attachment : TaskAttachmentRecord) : WriteOp Unit
  | linkInsert (link : TaskSessionLink) : WriteOp LinkInsertOutcome
  | receiptPut (receipt : TasksCommandReceipt) : WriteOp Bool

inductive TasksOp : Type → Type where
  | port {β : Type} (op : PortOp β) : TasksOp β
  | read {β : Type} (op : ReadOp β) : TasksOp β
  | write {β : Type} (op : WriteOp β) : TasksOp β

namespace Rows

variable (rows : Rows)

def preset (key : Key) : Option Preset := Table.get Preset.key key rows.presets

def task (key : Key) : Option Task := Table.get Task.key key rows.tasks

def link (key : Key × ConfigurationSlot × ℕ) : Option TaskSessionLink := Table.get TaskSessionLink.key key rows.links

def receipt (key : Key) : Option TasksCommandReceipt := Table.get TasksCommandReceipt.key key rows.receipts

def childrenOf (parent : Key) : List Task :=
  rows.tasks.filter fun task => task.scopeId = parent.1 ∧ task.parentTaskId = some parent.2

def countChildren (parent : Key) (includeArchived : Bool) (excludeStatus : Option TaskStatus) : ℕ :=
  ((rows.childrenOf parent).filter fun task =>
    (includeArchived ∨ task.archivedAt = none) ∧ ∀ status ∈ excludeStatus, task.status ≠ status).length

/-- One past the highest number of a task the project holds now. -/
def nextNumber (scopeId projectId : String) : ℕ :=
  ((rows.tasks.filter fun task => task.scopeId = scopeId ∧ task.projectId = projectId).map Task.number).foldl max 0 + 1

def nextChildNumber (parent : Key) : ℕ :=
  ((rows.childrenOf parent).map fun task => task.childNumber.getD 0).foldl max 0 + 1

/-- `listByTask`, its order aside: a unit asks whether there is one. -/
def linksOf (task : Key) : List TaskSessionLink := rows.links.filter fun link => (link.scopeId, link.taskId) = task

/-- The slot's current link is its highest attempt. -/
def linkCurrent (task : Key) (slot : ConfigurationSlot) : Option TaskSessionLink :=
  (((rows.linksOf task).filter fun link => link.slot = slot).insertionSort fun left right =>
    right.attempt ≤ left.attempt).head?

def read {β : Type} : ReadOp β → β
  | .presetGet key => rows.preset key
  | .taskGet key => rows.task key
  | .countChildren parent includeArchived excludeStatus => rows.countChildren parent includeArchived excludeStatus
  | .nextNumber scopeId projectId => rows.nextNumber scopeId projectId
  | .nextChildNumber parent => rows.nextChildNumber parent
  | .linkCurrent task slot => rows.linkCurrent task slot
  | .linksByTask task => rows.linksOf task
  | .receiptGet key => rows.receipt key

def putPreset (preset : Preset) : Rows := { rows with presets := Table.put Preset.key preset rows.presets }

def putTask (task : Task) : Rows := { rows with tasks := Table.put Task.key task rows.tasks }

def putAttachment (attachment : TaskAttachmentRecord) : Rows :=
  { rows with attachments := Table.put TaskAttachmentRecord.key attachment rows.attachments }

def putLink (link : TaskSessionLink) : Rows := { rows with links := Table.put TaskSessionLink.key link rows.links }

def putReceipt (receipt : TasksCommandReceipt) : Rows :=
  { rows with receipts := Table.put TasksCommandReceipt.key receipt rows.receipts }

/-- An insert of an id that is taken throws; an update answers whether the row was at its revision. -/
def write {β : Type} : WriteOp β → Except Fault (β × Rows)
  | .presetInsert preset =>
    if rows.preset preset.key = none then .ok ((), rows.putPreset preset)
    else .error (.error s!"Preset {preset.id} already exists")
  | .presetUpdate preset expectedRevision =>
    if (rows.preset preset.key).any (·.revision = expectedRevision) then .ok (true, rows.putPreset preset)
    else .ok (false, rows)
  | .presetAssertRevision key revision => .ok ((rows.preset key).any (·.revision = revision), rows)
  | .taskInsert task =>
    if rows.task task.key = none then .ok ((), rows.putTask task)
    else .error (.error s!"Task {task.id} already exists")
  | .taskUpdate task expectedRevision =>
    if (rows.task task.key).any (·.revision = expectedRevision) then .ok (true, rows.putTask task)
    else .ok (false, rows)
  | .attachmentInsert attachment =>
    if Table.get TaskAttachmentRecord.key attachment.key rows.attachments = none then
      .ok ((), rows.putAttachment attachment)
    else .error (.error s!"Attachment {attachment.id} already exists")
  | .linkInsert link =>
    match rows.link link.key with
    | some stored => .ok (.exists stored, rows)
    | none => .ok (.inserted, rows.putLink link)
  | .receiptPut receipt =>
    if rows.receipt receipt.key = none then .ok (true, rows.putReceipt receipt) else .ok (false, rows)

end Rows

/-- What the host answers at one moment. -/
structure Ports where
  authorizeProject : TasksActor → String → Access → Bool
  now : ℕ
  presetId : String
  taskId : String
  attachmentId : String
  validated : PresetDraft → Except TasksErrorDetail PresetDraft

def Ports.answer {β : Type} (ports : Ports) : PortOp β → β
  | .authorizeProject actor projectId access => ports.authorizeProject actor projectId access
  | .now => ports.now
  | .presetId => ports.presetId
  | .taskId => ports.taskId
  | .attachmentId => ports.attachmentId
  | .validated draft => ports.validated draft

/-- The rows as a unit of the memory store has left them, and how many operations it has asked. -/
structure Memory where
  rows : Rows
  asked : ℕ := 0

/-- The unit's operation `n` finds the host as `ports n`. -/
def memoryHandler (ports : ℕ → Ports) : Handler TasksOp Fault Memory := fun _ op memory =>
  match op with
  | .port op => .ok ((ports memory.asked).answer op, { memory with asked := memory.asked + 1 })
  | .read op => .ok (memory.rows.read op, { memory with asked := memory.asked + 1 })
  | .write op =>
    match memory.rows.write op with
    | .ok (answer, rows) => .ok (answer, ⟨rows, memory.asked + 1⟩)
    | .error fault => .error fault

/-- A unit of the memory store. -/
def memoryTransaction {α : Type} (ports : ℕ → Ports) (work : Program TasksOp Fault α) (rows : Rows) : Except Fault (α × Rows) :=
  match work.exec (memoryHandler ports) ⟨rows, 0⟩ with
  | .ok (result, memory) => .ok (result, memory.rows)
  | .error fault => .error fault

/-! What every committed unit keeps of the rows: a revision never drops, and a revision that has not moved
names the row it named, with the children and the links it had. A unit in the middle of its writes may still
owe a task its bump. -/

namespace Rows

variable (rows : Rows)

theorem task_key {rows : Rows} {k : Key} {t : Task} (h : rows.task k = some t) : t.key = k := (Table.mem_of_get h).2

theorem preset_key {rows : Rows} {k : Key} {p : Preset} (h : rows.preset k = some p) : p.key = k := (Table.mem_of_get h).2

theorem task_self {rows : Rows} {k : Key} {t : Task} (h : rows.task k = some t) : rows.task t.key = some t := task_key h ▸ h

theorem task_mem {rows : Rows} {k : Key} {t : Task} (h : rows.task k = some t) : t ∈ rows.tasks := (Table.mem_of_get h).1

@[simp] theorem task_putTask (t : Task) (k : Key) : (rows.putTask t).task k = if t.key = k then some t else rows.task k :=
  Table.get_put k t rows.tasks

@[simp] theorem preset_putTask (t : Task) (k : Key) : (rows.putTask t).preset k = rows.preset k := rfl

@[simp] theorem link_putTask (t : Task) (k : Key × ConfigurationSlot × ℕ) : (rows.putTask t).link k = rows.link k := rfl

@[simp] theorem receipt_putTask (t : Task) (k : Key) : (rows.putTask t).receipt k = rows.receipt k := rfl

@[simp] theorem linksOf_putTask (t : Task) (k : Key) : (rows.putTask t).linksOf k = rows.linksOf k := rfl

@[simp] theorem preset_putPreset (p : Preset) (k : Key) :
    (rows.putPreset p).preset k = if p.key = k then some p else rows.preset k := Table.get_put k p rows.presets

@[simp] theorem link_putLink (l : TaskSessionLink) (k : Key × ConfigurationSlot × ℕ) :
    (rows.putLink l).link k = if l.key = k then some l else rows.link k := Table.get_put k l rows.links

@[simp] theorem receipt_putReceipt (r : TasksCommandReceipt) (k : Key) :
    (rows.putReceipt r).receipt k = if r.key = k then some r else rows.receipt k := Table.get_put k r rows.receipts

theorem linksOf_putLink {l : TaskSessionLink} (hnew : rows.link l.key = none) (k : Key) :
    (rows.putLink l).linksOf k = if (l.scopeId, l.taskId) = k then rows.linksOf k ++ [l] else rows.linksOf k := by
  unfold linksOf putLink
  rw [Table.put_of_get_none hnew, List.filter_append]
  by_cases h : (l.scopeId, l.taskId) = k
  · simp [h]
  · simp [h]

end Rows

/-- What a parent's guards read of one of its children. -/
def childEntry (parent : Key) (t : Task) : Option (TaskStatus × Bool × Option ℕ) :=
  if t.scopeId = parent.1 ∧ t.parentTaskId = some parent.2 then some (t.status, t.archivedAt.isSome, t.childNumber) else none

def childView (rows : Rows) (parent : Key) : List (TaskStatus × Bool × Option ℕ) := rows.tasks.filterMap (childEntry parent)

theorem childView_eq (rows : Rows) (parent : Key) :
    childView rows parent = (rows.childrenOf parent).map fun t => (t.status, t.archivedAt.isSome, t.childNumber) := by
  unfold childView Rows.childrenOf
  induction rows.tasks with
  | nil => rfl
  | cons t ts ih =>
    rw [List.filterMap_cons, List.filter_cons, ih]
    by_cases h : t.scopeId = parent.1 ∧ t.parentTaskId = some parent.2
    · simp [childEntry, h]
    · simp [childEntry, h]

/-- The guards of a parent read nothing of its children but their view. -/
theorem countChildren_eq (rows : Rows) (parent : Key) (includeArchived : Bool) (excludeStatus : Option TaskStatus) :
    rows.countChildren parent includeArchived excludeStatus =
      ((childView rows parent).filter fun entry =>
        (includeArchived ∨ entry.2.1 = false) ∧ ∀ status ∈ excludeStatus, entry.1 ≠ status).length := by
  rw [childView_eq, List.filter_map, List.length_map, Rows.countChildren]
  congr 2
  funext t
  cases h : t.archivedAt <;> simp [h]

theorem nextChildNumber_eq (rows : Rows) (parent : Key) :
    rows.nextChildNumber parent = ((childView rows parent).map fun entry => entry.2.2.getD 0).foldl max 0 + 1 := by
  rw [childView_eq, List.map_map]
  rfl

theorem childView_putTask {rows : Rows} {t c : Task} (hc : rows.task t.key = some c) {k : Key}
    (h : childEntry k t = childEntry k c) : childView (rows.putTask t) k = childView rows k :=
  Table.filterMap_put_of_get hc h

theorem childView_insert {rows : Rows} {t : Task} (hnew : rows.task t.key = none) {k : Key} (h : childEntry k t = none) :
    childView (rows.putTask t) k = childView rows k := by
  unfold childView Rows.putTask
  rw [Table.put_of_get_none hnew, List.filterMap_append]
  simp [h]

structure Grows (owed : Key → Prop) (rows rows' : Rows) : Prop where
  task : ∀ k c, rows.task k = some c → ∃ c', rows'.task k = some c' ∧ c.revision ≤ c'.revision ∧
    (c'.revision = c.revision → c' = c ∧ (¬ owed k → childView rows' k = childView rows k ∧ rows'.linksOf k = rows.linksOf k))
  preset : ∀ k c, rows.preset k = some c → ∃ c', rows'.preset k = some c' ∧ c.revision ≤ c'.revision ∧
    (c'.revision = c.revision → c' = c)
  link : ∀ k l, rows.link k = some l → rows'.link k = some l
  receipt : ∀ k r, rows.receipt k = some r → rows'.receipt k = some r

namespace Grows

variable {owed owed' : Key → Prop} {rows rows₁ rows₂ : Rows}

theorem refl (owed : Key → Prop) (rows : Rows) : Grows owed rows rows where
  task _ c h := ⟨c, h, le_rfl, fun _ => ⟨rfl, fun _ => ⟨rfl, rfl⟩⟩⟩
  preset _ c h := ⟨c, h, le_rfl, fun _ => rfl⟩
  link _ _ h := h
  receipt _ _ h := h

theorem trans (h₁ : Grows (fun _ => False) rows rows₁) (h₂ : Grows (fun _ => False) rows₁ rows₂) :
    Grows (fun _ => False) rows rows₂ where
  task k c h := by
    obtain ⟨c₁, hc₁, hle₁, heq₁⟩ := h₁.task k c h
    obtain ⟨c₂, hc₂, hle₂, heq₂⟩ := h₂.task k c₁ hc₁
    refine ⟨c₂, hc₂, hle₁.trans hle₂, fun hrev => ?_⟩
    obtain ⟨rfl, hsame₂⟩ := heq₂ (by omega)
    obtain ⟨rfl, hsame₁⟩ := heq₁ hrev
    exact ⟨rfl, fun hno => ⟨(hsame₂ hno).1.trans (hsame₁ hno).1, (hsame₂ hno).2.trans (hsame₁ hno).2⟩⟩
  preset k c h := by
    obtain ⟨c₁, hc₁, hle₁, heq₁⟩ := h₁.preset k c h
    obtain ⟨c₂, hc₂, hle₂, heq₂⟩ := h₂.preset k c₁ hc₁
    refine ⟨c₂, hc₂, hle₁.trans hle₂, fun hrev => ?_⟩
    obtain rfl := heq₂ (by omega)
    exact heq₁ hrev
  link k l h := h₂.link k l (h₁.link k l h)
  receipt k r h := h₂.receipt k r (h₁.receipt k r h)

theorem mono (h : Grows owed rows rows₁) (howed : ∀ k, owed k → owed' k) : Grows owed' rows rows₁ :=
  ⟨fun k c hc => by
    obtain ⟨c', hc', hle, heq⟩ := h.task k c hc
    exact ⟨c', hc', hle, fun hrev => ⟨(heq hrev).1, fun hno => (heq hrev).2 fun hk => hno (howed k hk)⟩⟩,
  h.preset, h.link, h.receipt⟩

theorem paid (h : Grows owed rows rows₁) (howed : ∀ k c, rows.task k = some c → ¬ owed k) : Grows (fun _ => False) rows rows₁ :=
  ⟨fun k c hc => by
    obtain ⟨c', hc', hle, heq⟩ := h.task k c hc
    exact ⟨c', hc', hle, fun hrev => ⟨(heq hrev).1, fun _ => (heq hrev).2 (howed k c hc)⟩⟩,
  h.preset, h.link, h.receipt⟩

/-- A bump settles what the task was owed, and owes whoever sees another child in it. -/
theorem bump (h : Grows owed rows rows₁) {t c : Task} (hc : rows₁.task t.key = some c) (hrev : c.revision < t.revision)
    (howed : ∀ k, k ≠ t.key → ¬ owed' k → ¬ owed k ∧ childEntry k t = childEntry k c) :
    Grows owed' rows (rows₁.putTask t) where
  task k d hd := by
    obtain ⟨d', hd', hle, heq⟩ := h.task k d hd
    by_cases hk : t.key = k
    · subst hk
      obtain rfl : c = d' := Option.some.inj (hc.symm.trans hd')
      refine ⟨t, by rw [Rows.task_putTask, if_pos rfl], by omega, fun hsame => ?_⟩
      omega
    · refine ⟨d', by rw [Rows.task_putTask, if_neg hk, hd'], hle, fun hsame => ⟨(heq hsame).1, fun hno => ?_⟩⟩
      obtain ⟨hnot, hentry⟩ := howed k (Ne.symm hk) hno
      rw [childView_putTask hc hentry, Rows.linksOf_putTask]
      exact (heq hsame).2 hnot
  preset := h.preset
  link := h.link
  receipt := h.receipt

theorem insertTask (h : Grows owed rows rows₁) {t : Task} (hnew : rows₁.task t.key = none)
    (howed : ∀ k, ¬ owed' k → ¬ owed k ∧ childEntry k t = none) : Grows owed' rows (rows₁.putTask t) where
  task k d hd := by
    obtain ⟨d', hd', hle, heq⟩ := h.task k d hd
    have hk : t.key ≠ k := by
      rintro rfl
      rw [hnew] at hd'
      cases hd'
    refine ⟨d', by rw [Rows.task_putTask, if_neg hk, hd'], hle, fun hsame => ⟨(heq hsame).1, fun hno => ?_⟩⟩
    obtain ⟨hnot, hentry⟩ := howed k hno
    rw [childView_insert hnew hentry, Rows.linksOf_putTask]
    exact (heq hsame).2 hnot
  preset := h.preset
  link := h.link
  receipt := h.receipt

theorem bumpPreset (h : Grows owed rows rows₁) {p c : Preset} (hc : rows₁.preset p.key = some c)
    (hrev : c.revision < p.revision) : Grows owed rows (rows₁.putPreset p) where
  task := h.task
  preset k d hd := by
    obtain ⟨d', hd', hle, heq⟩ := h.preset k d hd
    by_cases hk : p.key = k
    · subst hk
      obtain rfl : c = d' := Option.some.inj (hc.symm.trans hd')
      refine ⟨p, by rw [Rows.preset_putPreset, if_pos rfl], by omega, fun hsame => ?_⟩
      omega
    · exact ⟨d', by rw [Rows.preset_putPreset, if_neg hk, hd'], hle, heq⟩
  link := h.link
  receipt := h.receipt

theorem insertPreset (h : Grows owed rows rows₁) {p : Preset} (hnew : rows₁.preset p.key = none) :
    Grows owed rows (rows₁.putPreset p) where
  task := h.task
  preset k d hd := by
    obtain ⟨d', hd', hle, heq⟩ := h.preset k d hd
    have hk : p.key ≠ k := by
      rintro rfl
      rw [hnew] at hd'
      cases hd'
    exact ⟨d', by rw [Rows.preset_putPreset, if_neg hk, hd'], hle, heq⟩
  link := h.link
  receipt := h.receipt

theorem insertLink (h : Grows owed rows rows₁) {l : TaskSessionLink} (hnew : rows₁.link l.key = none)
    (howed : ∀ k, ¬ owed' k → ¬ owed k ∧ (l.scopeId, l.taskId) ≠ k) : Grows owed' rows (rows₁.putLink l) where
  task k d hd := by
    obtain ⟨d', hd', hle, heq⟩ := h.task k d hd
    refine ⟨d', hd', hle, fun hsame => ⟨(heq hsame).1, fun hno => ?_⟩⟩
    obtain ⟨hnot, hother⟩ := howed k hno
    rw [Rows.linksOf_putLink rows₁ hnew, if_neg hother]
    exact (heq hsame).2 hnot
  preset := h.preset
  link k d hd := by
    have hd' := h.link k d hd
    have hk : l.key ≠ k := by
      rintro rfl
      rw [hnew] at hd'
      cases hd'
    rw [Rows.link_putLink, if_neg hk, hd']
  receipt := h.receipt

theorem insertReceipt (h : Grows owed rows rows₁) {r : TasksCommandReceipt} (hnew : rows₁.receipt r.key = none) :
    Grows owed rows (rows₁.putReceipt r) where
  task := h.task
  preset := h.preset
  link := h.link
  receipt k d hd := by
    have hd' := h.receipt k d hd
    have hk : r.key ≠ k := by
      rintro rfl
      rw [hnew] at hd'
      cases hd'
    rw [Rows.receipt_putReceipt, if_neg hk, hd']

end Grows

end Claxedo.Tasks
