import Claxedo.Tasks.Effects

/-! Why reads at different moments are one snapshot: a task that was read is written at the revision it was
read at, and what was read of its children and its links was read after it. So where the writes go through,
nothing that was read has changed. -/

namespace Claxedo.Tasks

open Claxedo.Lib Claxedo.Lib.Program

/-- A write that did what it was asked. -/
def Landed : Asked WriteOp → Prop
  | ⟨.presetUpdate _ _, answer⟩ => answer = true
  | ⟨.presetAssertRevision _ _, answer⟩ => answer = true
  | ⟨.taskUpdate _ _, answer⟩ => answer = true
  | ⟨.receiptPut _, answer⟩ => answer = true
  | ⟨.presetInsert _, _⟩ | ⟨.taskInsert _, _⟩ | ⟨.attachmentInsert _, _⟩ | ⟨.linkInsert _, _⟩ => True

/-- The writes move the task on from the revision it was read at. -/
def Backs (ws : List (Asked WriteOp)) (c : Task) : Prop :=
  ∃ next, ⟨.taskUpdate next c.revision, true⟩ ∈ ws ∧ next.key = c.key

/-- Every read is of a row the writes move on, or of the children or links of a task read before it. -/
def Pinned (ws : List (Asked WriteOp)) : List Task → List (Asked ReadOp) → Prop
  | _, [] => True
  | seen, ⟨.taskGet _, some c⟩ :: rs => Backs ws c ∧ Pinned ws (c :: seen) rs
  | seen, ⟨.taskGet k, none⟩ :: rs => (∃ c ∈ seen, c.scopeId = k.1 ∧ c.parentTaskId = some k.2) ∧ Pinned ws seen rs
  | seen, ⟨.countChildren k _ _, _⟩ :: rs => (∃ c ∈ seen, c.key = k) ∧ Pinned ws seen rs
  | seen, ⟨.nextChildNumber k, _⟩ :: rs => (∃ c ∈ seen, c.key = k) ∧ Pinned ws seen rs
  | seen, ⟨.linksByTask k, _⟩ :: rs => (∃ c ∈ seen, c.key = k) ∧ Pinned ws seen rs
  | seen, ⟨.nextNumber _ _, _⟩ :: rs => Pinned ws seen rs
  | seen, ⟨.presetGet k, c⟩ :: rs =>
    (∃ c' next ws', c = some c' ∧ ws = ⟨.presetUpdate next c'.revision, true⟩ :: ws' ∧ next.key = k) ∧ Pinned ws seen rs
  | seen, ⟨.receiptGet k, held⟩ :: rs => (held = none ∧ ∃ r, ⟨.receiptPut r, true⟩ ∈ ws ∧ r.key = k) ∧ Pinned ws seen rs
  | _, ⟨.linkCurrent _ _, _⟩ :: _ => False

inductive TableName where
  | presets | tasks | attachments | links | receipts

/-- The table a write is of. -/
def WriteOp.table {β : Type} : WriteOp β → TableName
  | .presetInsert _ | .presetUpdate _ _ | .presetAssertRevision _ _ => .presets
  | .taskInsert _ | .taskUpdate _ _ => .tasks
  | .attachmentInsert _ => .attachments
  | .linkInsert _ => .links
  | .receiptPut _ => .receipts

/-- The task an update writes. -/
def updated : Asked WriteOp → Option Task
  | ⟨.taskUpdate task _, _⟩ => some task
  | _ => none

/-- The task a read found. -/
def gotTask : Asked ReadOp → Option Task
  | ⟨.taskGet _, answer⟩ => answer
  | _ => none

/-- The reads, each answered at a moment no earlier than the one before. -/
def ReadsIn (committed : ℕ → Rows) : ℕ → List (Asked ReadOp) → Prop
  | _, [] => True
  | n, a :: rs => ∃ m, n ≤ m ∧ (committed m).read a.op = a.answer ∧ ReadsIn committed m rs

/-- Committed rows at successive moments, up to the ones a commit finds. -/
structure Moments (committed : ℕ → Rows) (rows : Rows) : Prop where
  grows : ∀ i j, i ≤ j → Grows (fun _ => False) (committed i) (committed j)
  now : ∀ i, Grows (fun _ => False) (committed i) rows
  wellFormed : ∀ i, WellFormed (committed i).forest

section
variable {rows rows' : Rows} {ws : List (Asked WriteOp)}

theorem frame_of_write {β : Type} {op : WriteOp β} {b : β} {rows₁ : Rows} (h : rows.write op = .ok (b, rows₁)) :
    (op.table ≠ .tasks → rows₁.tasks = rows.tasks) ∧ (op.table ≠ .links → rows₁.links = rows.links) ∧
      (op.table ≠ .receipts → rows₁.receipts = rows.receipts) := by
  cases op <;> simp only [Rows.write] at h <;> (try split at h) <;> cases h <;>
    exact ⟨fun hne => by first | rfl | exact absurd rfl hne, fun hne => by first | rfl | exact absurd rfl hne,
      fun hne => by first | rfl | exact absurd rfl hne⟩

/-- An update goes through over rows that stand at its revision, unless the unit has written the row before. -/
theorem revision_of_update (hw : WritesApply rows ws rows') {next : Task} {revision : ℕ}
    (hmem : ⟨.taskUpdate next revision, true⟩ ∈ ws) (hnodup : ((ws.filterMap updated).map Task.key).Nodup)
    (hthere : rows.task next.key ≠ none) : ∃ c, rows.task next.key = some c ∧ c.revision = revision := by
  induction ws generalizing rows with
  | nil => cases hmem
  | cons a ws ih =>
    rcases List.mem_cons.mp hmem with rfl | htail
    · obtain ⟨c, hc, hrev, -⟩ := writesApply_taskUpdate hw
      exact ⟨c, hc, hrev⟩
    · obtain ⟨rows₁, hwrite, hrest⟩ := hw
      have hstep : rows₁.task next.key = rows.task next.key ∧ ((ws.filterMap updated).map Task.key).Nodup := by
        obtain ⟨op, answer⟩ := a
        have hwrote := wrote_of_write hwrite
        cases op with
        | taskInsert task =>
          obtain ⟨hnew, rfl⟩ := hwrote
          refine ⟨?_, hnodup⟩
          rw [Rows.task_putTask, if_neg]
          intro heq
          exact hthere (heq ▸ hnew)
        | taskUpdate task revision =>
          obtain ⟨hnot, hnodup⟩ := List.nodup_cons.mp hnodup
          refine ⟨?_, hnodup⟩
          cases answer with
          | true =>
            obtain ⟨-, rfl⟩ := hwrote
            rw [Rows.task_putTask, if_neg]
            intro heq
            exact hnot (heq ▸ List.mem_map_of_mem (List.mem_filterMap.mpr ⟨_, htail, rfl⟩))
          | false =>
            obtain rfl : rows₁ = rows := hwrote
            rfl
        | _ => exact ⟨congrArg (Table.get Task.key next.key) ((frame_of_write hwrite).1 fun hne => by cases hne), hnodup⟩
      obtain ⟨hsame, hnodup⟩ := hstep
      obtain ⟨c, hc, hrev⟩ := ih hrest htail hnodup (hsame ▸ hthere)
      exact ⟨c, hsame ▸ hc, hrev⟩

/-- A receipt that a unit puts was not there before its writes. -/
theorem receipt_of_put {r : TasksCommandReceipt} (hw : WritesApply rows ws rows') (hmem : ⟨.receiptPut r, true⟩ ∈ ws) :
    rows.receipt r.key = none := by
  obtain ⟨ws₁, ws₂, rfl⟩ := List.append_of_mem hmem
  obtain ⟨rows₁, hfirst, hput⟩ := writesApply_append hw
  obtain ⟨hnew, -⟩ := writesApply_receiptPut hput
  by_contra hheld
  refine Trail.invariant (fun rows => rows.receipt r.key ≠ none) (fun a _ rows rows₁ hrows hwrite => ?_) hheld hfirst hnew
  obtain ⟨op, answer⟩ := a
  have hframe := (frame_of_write hwrite).2.2
  have hwrote := wrote_of_write hwrite
  cases op with
  | receiptPut receipt =>
    cases answer with
    | true =>
      obtain ⟨-, rfl⟩ := hwrote
      rw [Rows.receipt_putReceipt]
      split_ifs
      · exact Option.some_ne_none _
      · exact hrows
    | false =>
      obtain rfl : rows₁ = rows := hwrote
      exact hrows
  | _ =>
    unfold Rows.receipt
    rw [hframe fun hne => by cases hne]
    exact hrows

section
variable {committed : ℕ → Rows}

theorem Grows.task_held (h : Grows (fun _ => False) rows rows') {k : Key} {c c' : Task} (hc : rows.task k = some c)
    (hc' : rows'.task k = some c') (hrev : c'.revision = c.revision) :
    rows'.task k = some c ∧ childView rows' k = childView rows k ∧ rows'.linksOf k = rows.linksOf k := by
  obtain ⟨c'', hc'', -, hsame⟩ := h.task k c hc
  obtain rfl : c' = c'' := Option.some.inj (hc'.symm.trans hc'')
  obtain ⟨rfl, hviews⟩ := hsame hrev
  exact ⟨hc', hviews id⟩

/-- A task that was read and is written stands as it was read, and so it did at every moment since. -/
theorem Moments.held (hm : Moments committed rows) (hw : WritesApply rows ws rows')
    (hnodup : ((ws.filterMap updated).map Task.key).Nodup) {c : Task} {i : ℕ} (hc : (committed i).task c.key = some c)
    (hbacks : Backs ws c) : rows.task c.key = some c ∧
      ∀ j, i ≤ j → childView rows c.key = childView (committed j) c.key ∧ rows.linksOf c.key = (committed j).linksOf c.key := by
  obtain ⟨next, hmem, hkey⟩ := hbacks
  obtain ⟨c₀, hc₀, hle₀, -⟩ := (hm.now i).task _ _ hc
  obtain ⟨c₁, hc₁, hrev⟩ := revision_of_update hw hmem hnodup (by rw [hkey, hc₀]; exact Option.some_ne_none _)
  rw [hkey] at hc₁
  refine ⟨((hm.now i).task_held hc hc₁ hrev).1, fun j hij => ?_⟩
  obtain ⟨cⱼ, hcⱼ, hleⱼ, hsameⱼ⟩ := (hm.grows i j hij).task _ _ hc
  obtain ⟨c₂, hc₂, hle₂, -⟩ := (hm.now j).task _ _ hcⱼ
  obtain rfl : c₁ = c₂ := Option.some.inj (hc₁.symm.trans hc₂)
  exact ((hm.now j).task_held hcⱼ hc₁ (by omega)).2

/-- Pinned reads at successive moments are what the rows at the commit answer. -/
theorem Pinned.exact (hm : Moments committed rows) (hw : WritesApply rows ws rows')
    (hnodup : ((ws.filterMap updated).map Task.key).Nodup) {seen : List Task} {rs : List (Asked ReadOp)} {n : ℕ}
    (hpinned : Pinned ws seen rs) (hreads : ReadsIn committed n rs)
    (hseen : ∀ c ∈ seen, Backs ws c ∧ ∃ i ≤ n, (committed i).task c.key = some c) :
    ∀ a ∈ rs, a.op.numbers = false → rows.read a.op = a.answer := by
  induction rs generalizing seen n with
  | nil =>
    intro a ha
    cases ha
  | cons a rs ih =>
    obtain ⟨m, hnm, hread, hrest⟩ := hreads
    have hlater : ∀ c ∈ seen, Backs ws c ∧ ∃ i ≤ m, (committed i).task c.key = some c := fun c hc => by
      obtain ⟨hbacks, i, hi, hrow⟩ := hseen c hc
      exact ⟨hbacks, i, hi.trans hnm, hrow⟩
    have hview : ∀ {k : Key}, (∃ c ∈ seen, c.key = k) →
        childView rows k = childView (committed m) k ∧ rows.linksOf k = (committed m).linksOf k := by
      rintro k ⟨c, hc, rfl⟩
      obtain ⟨hbacks, i, hi, hrow⟩ := hlater c hc
      exact (hm.held hw hnodup hrow hbacks).2 m hi
    have hmain : (a.op.numbers = false → rows.read a.op = a.answer) ∧
        ∃ seen', Pinned ws seen' rs ∧ ∀ c ∈ seen', Backs ws c ∧ ∃ i ≤ m, (committed i).task c.key = some c := by
      obtain ⟨op, answer⟩ := a
      cases op with
      | taskGet k =>
        cases answer with
        | some c =>
          obtain ⟨hbacks, hpinned⟩ := hpinned
          have hrow : (committed m).task c.key = some c := Rows.task_self hread
          refine ⟨fun _ => ?_, c :: seen, hpinned, fun c' hc' => ?_⟩
          · have hheld := (hm.held hw hnodup hrow hbacks).1
            rwa [Rows.task_key hread] at hheld
          · rcases List.mem_cons.mp hc' with rfl | hc'
            · exact ⟨hbacks, m, le_rfl, hrow⟩
            · exact hlater c' hc'
        | none =>
          -- a parent that a task names is there, and stays
          obtain ⟨⟨c, hc, hscope, hparent⟩, hpinned⟩ := hpinned
          obtain ⟨hbacks, i, hi, hrow⟩ := hlater c hc
          obtain ⟨q, hq, -⟩ := (hm.wellFormed i).parent c.key c.place k.2 (Rows.forest_of_task hrow) hparent
          obtain ⟨q, hq, -⟩ := Rows.exists_of_forest hq
          obtain ⟨q', hq', -⟩ := (hm.grows i m hi).task _ _ hq
          rw [show (c.key.1, k.2) = k from Prod.ext hscope rfl] at hq'
          rw [show (committed m).read (.taskGet k) = (committed m).task k from rfl, hq'] at hread
          cases hread
      | countChildren k includeArchived excludeStatus =>
        obtain ⟨hc, hpinned⟩ := hpinned
        refine ⟨fun _ => ?_, seen, hpinned, hlater⟩
        rw [← hread]
        change rows.countChildren _ _ _ = (committed m).countChildren _ _ _
        rw [countChildren_eq, countChildren_eq, (hview hc).1]
      | nextChildNumber k =>
        obtain ⟨hc, hpinned⟩ := hpinned
        refine ⟨fun _ => ?_, seen, hpinned, hlater⟩
        rw [← hread]
        change rows.nextChildNumber _ = (committed m).nextChildNumber _
        rw [nextChildNumber_eq, nextChildNumber_eq, (hview hc).1]
      | linksByTask k =>
        obtain ⟨hc, hpinned⟩ := hpinned
        refine ⟨fun _ => ?_, seen, hpinned, hlater⟩
        rw [← hread]
        exact (hview hc).2
      | nextNumber scopeId projectId => exact ⟨fun hop => (nomatch hop), seen, hpinned, hlater⟩
      | presetGet k =>
        obtain ⟨⟨c, next, ws', rfl, rfl, hkey⟩, hpinned⟩ := hpinned
        refine ⟨fun _ => ?_, seen, hpinned, hlater⟩
        obtain ⟨c₁, hc₁, hrev, -⟩ := writesApply_presetUpdate hw
        obtain ⟨c₂, hc₂, -, hsame⟩ := (hm.now m).preset _ _ hread
        rw [hkey] at hc₁
        obtain rfl : c₁ = c₂ := Option.some.inj (hc₁.symm.trans hc₂)
        obtain rfl := hsame hrev
        exact hc₁
      | receiptGet k =>
        obtain ⟨⟨rfl, r, hmem, hkey⟩, hpinned⟩ := hpinned
        refine ⟨fun _ => ?_, seen, hpinned, hlater⟩
        exact hkey ▸ receipt_of_put hw hmem
      | linkCurrent task slot => exact hpinned.elim
    obtain ⟨hhead, seen', hpinned', hseen'⟩ := hmain
    intro b hb hop
    rcases List.mem_cons.mp hb with rfl | hb
    · exact hhead hop
    · exact ih hpinned' hrest hseen' b hb hop

end

end

section
variable {ws ws' : List (Asked WriteOp)} {seen seen' : List Task} {rs rs₁ rs₂ : List (Asked ReadOp)}

theorem Pinned.mono (h : Pinned ws seen rs) (hseen : ∀ c ∈ seen, c ∈ seen') : Pinned (ws ++ ws') seen' rs := by
  have hbacks : ∀ {c}, Backs ws c → Backs (ws ++ ws') c := by
    rintro c ⟨next, hmem, hkey⟩
    exact ⟨next, List.mem_append_left _ hmem, hkey⟩
  induction rs generalizing seen seen' with
  | nil => trivial
  | cons a rs ih =>
    obtain ⟨op, answer⟩ := a
    cases op with
    | taskGet k =>
      cases answer with
      | some c =>
        refine ⟨hbacks h.1, ih h.2 fun c' hc' => ?_⟩
        rcases List.mem_cons.mp hc' with rfl | hc'
        · exact List.mem_cons_self
        · exact List.mem_cons_of_mem _ (hseen c' hc')
      | none =>
        obtain ⟨⟨c, hc, hnamed⟩, hrest⟩ := h
        exact ⟨⟨c, hseen c hc, hnamed⟩, ih hrest hseen⟩
    | countChildren | nextChildNumber | linksByTask =>
      obtain ⟨⟨c, hc, hkey⟩, hrest⟩ := h
      exact ⟨⟨c, hseen c hc, hkey⟩, ih hrest hseen⟩
    | nextNumber => exact ih h hseen
    | presetGet k =>
      obtain ⟨⟨c, next, ws'', hc, rfl, hkey⟩, hrest⟩ := h
      exact ⟨⟨c, next, ws'' ++ ws', hc, rfl, hkey⟩, ih hrest hseen⟩
    | receiptGet k =>
      obtain ⟨⟨hnone, r, hmem, hkey⟩, hrest⟩ := h
      exact ⟨⟨hnone, r, List.mem_append_left _ hmem, hkey⟩, ih hrest hseen⟩
    | linkCurrent => exact h.elim

/-- Later reads may lean on the tasks read before them. -/
theorem Pinned.append (h₁ : Pinned ws seen rs₁) (h₂ : Pinned ws seen' rs₂)
    (hseen : ∀ c ∈ seen', c ∈ seen ∨ c ∈ rs₁.filterMap gotTask) : Pinned ws seen (rs₁ ++ rs₂) := by
  induction rs₁ generalizing seen with
  | nil =>
    have hmono : Pinned (ws ++ []) seen rs₂ := h₂.mono fun c hc => (hseen c hc).resolve_right List.not_mem_nil
    rwa [List.append_nil] at hmono
  | cons a rs₁ ih =>
    obtain ⟨op, answer⟩ := a
    cases op with
    | taskGet k =>
      cases answer with
      | some c =>
        refine ⟨h₁.1, ih h₁.2 fun c' hc' => ?_⟩
        rcases hseen c' hc' with hold | hgot
        · exact .inl (List.mem_cons_of_mem _ hold)
        · rcases List.mem_cons.mp hgot with rfl | hgot
          · exact .inl List.mem_cons_self
          · exact .inr hgot
      | none => exact ⟨h₁.1, ih h₁.2 hseen⟩
    | nextNumber => exact ih h₁ hseen
    | linkCurrent => exact h₁.elim
    | _ => exact ⟨h₁.1, ih h₁.2 hseen⟩

end

/-- The trace of a unit whose reads are pinned by its writes. -/
structure Pins (t : Trace) : Prop where
  pinned : Pinned t.writes [] t.reads
  landed : ∀ a ∈ t.writes, Landed a
  nodup : ((t.writes.filterMap updated).map Task.key).Nodup

theorem ReadsIn.got {committed : ℕ → Rows} {n : ℕ} {rs : List (Asked ReadOp)} (h : ReadsIn committed n rs) {k : Key} {c : Task}
    (hmem : ⟨.taskGet k, some c⟩ ∈ rs) : ∃ m, (committed m).task k = some c := by
  induction rs generalizing n with
  | nil => cases hmem
  | cons a rs ih =>
    obtain ⟨m, -, hread, hrest⟩ := h
    rcases List.mem_cons.mp hmem with rfl | hmem
    · exact ⟨m, hread⟩
    · exact ih hrest hmem

section
variable {committed : ℕ → Rows} {n : ℕ} {actor : TasksActor} {t : Trace} {rs : List (Asked ReadOp)}
  {ws : List (Asked WriteOp)}

theorem mem_touches {now : ℕ} {parents : List Task} {a : Asked WriteOp} (h : a ∈ touches now parents) :
    ∃ q ∈ parents, a = ⟨.taskUpdate (q.touched now) q.revision, true⟩ := by
  obtain ⟨q, hq, rfl⟩ := List.mem_map.mp h
  exact ⟨q, hq, rfl⟩

variable {parent : Option Task} {c next q : Task} {revision : ℕ} {parentTaskId : Option String} {scopeId : String}
  {result : Task × Option Task}

theorem backs_touches (now : ℕ) (hq : q ∈ parent) (hsub : ∀ a ∈ touches now parent.toList, a ∈ ws) : Backs ws q :=
  ⟨q.touched now, hsub _ (List.mem_map.mpr ⟨q, Option.mem_toList.mpr hq, rfl⟩), rfl⟩

theorem backs_head (hrev : c.revision = revision) (hkey : next.key = c.key) :
    Backs (⟨.taskUpdate next revision, true⟩ :: ws) c := ⟨next, by rw [hrev]; exact List.mem_cons_self, hkey⟩

theorem updated_touches (now : ℕ) (parents : List Task) :
    (touches now parents).filterMap updated = parents.map (Task.touched · now) := by
  rw [touches, List.filterMap_map]
  change parents.filterMap (some ∘ (Task.touched · now)) = _
  rw [List.filterMap_eq_map]

theorem pinned_parentReads {seen : List Task} (hbacks : ∀ q ∈ parent, Backs ws q)
    (hnone : parent = none → ∀ p, parentTaskId = some p → ∃ c ∈ seen, c.scopeId = scopeId ∧ c.parentTaskId = some p) :
    Pinned ws seen (parentReads scopeId parentTaskId parent) := by
  rcases parentTaskId with _ | p
  · trivial
  · rcases parent with _ | q
    · exact ⟨hnone rfl p rfl, trivial⟩
    · exact ⟨hbacks q rfl, trivial⟩

theorem pins_of_update {former nextParent : Option Task} {now₁ now₂ : ℕ}
    (hsummary : Summary t rs (⟨.taskUpdate next revision, true⟩ :: (touches now₁ former.toList ++ touches now₂ nextParent.toList)))
    (hkey : next.key = c.key)
    (hpinned : Pinned (⟨.taskUpdate next revision, true⟩ :: (touches now₁ former.toList ++ touches now₂ nextParent.toList)) [] rs)
    (hformer : ∀ q ∈ former, q.key ≠ c.key) (hnext : ∀ q ∈ nextParent, q.key ≠ c.key)
    (hother : ∀ q ∈ former, ∀ q' ∈ nextParent, q.key ≠ q'.key) : Pins t := by
  refine ⟨?_, ?_, ?_⟩
  · rw [hsummary.reads, hsummary.writes]
    exact hpinned
  · rw [hsummary.writes]
    intro a ha
    rcases List.mem_cons.mp ha with rfl | ha
    · exact (rfl : true = true)
    · rcases List.mem_append.mp ha with ha | ha
      · obtain ⟨q, -, rfl⟩ := mem_touches ha
        exact (rfl : true = true)
      · obtain ⟨q, -, rfl⟩ := mem_touches ha
        exact (rfl : true = true)
  · rw [hsummary.writes, List.filterMap_cons_some (show updated _ = some next from rfl), List.filterMap_append, updated_touches,
      updated_touches]
    rcases former with _ | q
    · rcases nextParent with _ | q'
      · simp
      · have hne : q'.key ≠ c.key := hnext q' rfl
        simp [hkey, hne.symm, show (q'.touched now₂).key = q'.key from rfl]
    · have hne : q.key ≠ c.key := hformer q rfl
      rcases nextParent with _ | q'
      · simp [hkey, hne.symm, show (q.touched now₁).key = q.key from rfl]
      · have hne' : q'.key ≠ c.key := hnext q' rfl
        have hqq : q.key ≠ q'.key := hother q rfl q' rfl
        simp [hkey, hne.symm, hne'.symm, hqq, show (q.touched now₁).key = q.key from rfl,
          show (q'.touched now₂).key = q'.key from rfl]

/-- A parent that was read is another task than the one that names it. -/
theorem ne_of_named (hwf : ∀ i, WellFormed (committed i).forest) (hreads : ReadsIn committed n rs) {k k' : Key}
    (hc : ⟨.taskGet k, some c⟩ ∈ rs) (hq : ⟨.taskGet k', some q⟩ ∈ rs) (hnamed : c.parentTaskId = some k'.2) :
    q.key ≠ c.key := by
  obtain ⟨m, hrow⟩ := hreads.got hc
  obtain ⟨m', hrow'⟩ := hreads.got hq
  intro heq
  refine (hwf m).ne_parent (Rows.forest_of_task (Rows.task_self hrow)) hnamed ?_
  rw [← heq, Rows.task_key hrow']

theorem mem_parentReads (scopeId : String) (hnone : parentTaskId = none → parent = none) (hq : q ∈ parent) :
    ∃ p, parentTaskId = some p ∧ ⟨.taskGet (scopeId, p), some q⟩ ∈ parentReads scopeId parentTaskId parent := by
  obtain rfl : parent = some q := hq
  rcases parentTaskId with _ | p
  · cases hnone rfl
  · exact ⟨p, rfl, List.mem_singleton.mpr rfl⟩

theorem pins_edit {input : TaskEditInput} (h : Follows (edit actor input) t result) : Pins t := by
  obtain ⟨c, now, hfound, -, hsummary, rfl⟩ := summary_edit h
  refine pins_of_update (c := c) (show Summary t _ (_ :: (touches 0 (none : Option Task).toList ++
    touches 0 (none : Option Task).toList)) from hsummary) rfl ?_ (fun q hq => by cases hq) (fun q hq => by cases hq)
    (fun q hq => by cases hq)
  refine ⟨backs_head hfound.revision rfl, ?_⟩
  split_ifs
  · exact ⟨⟨c, List.mem_singleton.mpr rfl, Prod.ext hfound.scopeId rfl⟩, trivial⟩
  · trivial

theorem pins_of_snapshot (hwf : ∀ i, WellFormed (committed i).forest) (hreads : ReadsIn committed n t.reads) {k : Key} {now : ℕ}
    {counted : List (Asked ReadOp)} (hfound : Found actor revision c)
    (hsummary : Summary t (⟨.taskGet k, some c⟩ :: (counted ++ parentReads actor.scopeId c.parentTaskId parent))
      (⟨.taskUpdate next revision, true⟩ :: touches now parent.toList))
    (hkey : next.key = c.key) (hnone : c.parentTaskId = none → parent = none) (hcounted : ∀ ws, Pinned ws [c] counted) :
    Pins t := by
  have hne : ∀ q ∈ parent, q.key ≠ c.key := by
    intro q hq
    obtain ⟨p, hp, hmem⟩ := mem_parentReads actor.scopeId hnone hq
    rw [hsummary.reads] at hreads
    exact ne_of_named hwf hreads List.mem_cons_self (List.mem_cons_of_mem _ (List.mem_append_right _ hmem)) hp
  refine pins_of_update (c := c) (show Summary t _ (_ :: (touches 0 (none : Option Task).toList ++
    touches now parent.toList)) from hsummary) hkey ?_ (fun q hq => by cases hq) hne (fun q hq => by cases hq)
  refine ⟨backs_head hfound.revision hkey, (hcounted _).append ?_ fun c' (hc' : c' ∈ [c]) => .inl hc'⟩
  refine pinned_parentReads (fun q hq => backs_touches now hq fun a ha => List.mem_cons_of_mem _ ha) fun _ p hp => ?_
  exact ⟨c, List.mem_singleton.mpr rfl, hfound.scopeId, hp⟩

theorem pins_setStatus (hwf : ∀ i, WellFormed (committed i).forest) (hreads : ReadsIn committed n t.reads)
    {input : TaskSetStatusInput} (h : Follows (setStatus actor input) t result) : Pins t := by
  obtain ⟨c, parent, now, now', hfound, -, hsummary, hnone, -, rfl⟩ := summary_setStatus h
  refine pins_of_snapshot hwf hreads hfound hsummary rfl hnone fun ws => ?_
  split_ifs
  · exact ⟨⟨c, List.mem_singleton.mpr rfl, Prod.ext hfound.scopeId rfl⟩, trivial⟩
  · trivial

theorem pins_archive (hwf : ∀ i, WellFormed (committed i).forest) (hreads : ReadsIn committed n t.reads) {input : RowInput}
    (h : Follows (archive actor input) t result) : Pins t := by
  obtain ⟨c, parent, now, now', hfound, -, hsummary, hnone, rfl⟩ := summary_archive h
  exact pins_of_snapshot hwf hreads hfound (show Summary t (_ :: ([_] ++ _)) _ from hsummary) rfl hnone fun ws =>
    ⟨⟨c, List.mem_singleton.mpr rfl, Prod.ext hfound.scopeId rfl⟩, trivial⟩

theorem pins_restore (hwf : ∀ i, WellFormed (committed i).forest) (hreads : ReadsIn committed n t.reads) {input : RowInput}
    (h : Follows (restore actor input) t result) : Pins t := by
  obtain ⟨c, parent, now, now', hfound, -, hsummary, hiff, -, rfl⟩ := summary_restore h
  exact pins_of_snapshot hwf hreads hfound (show Summary t (_ :: ([] ++ _)) _ from hsummary) rfl hiff.mpr fun ws => trivial

theorem pinned_filingReads {projectId : String} {filed : ℕ × Option ℕ} {ws : List (Asked WriteOp)}
    (hread : ReadsIn committed n rs) (hsub : ∀ a ∈ parentReads scopeId parentTaskId parent, a ∈ rs)
    (hnone : parentTaskId = none → parent = none) :
    Pinned ws parent.toList (filingReads scopeId projectId parent filed) := by
  rcases hparent : parent with _ | q
  · trivial
  · obtain ⟨p, -, hmem⟩ := mem_parentReads scopeId hnone (show q ∈ parent from hparent)
    obtain ⟨m, hrow⟩ := hread.got (hsub _ hmem)
    have hkey := Rows.task_key hrow
    exact ⟨⟨q, List.mem_singleton.mpr rfl, Prod.ext (congrArg Prod.fst hkey :) rfl⟩, trivial⟩

theorem got_parentReads (hnone : parentTaskId = none → parent = none) (hq : q ∈ parent.toList) :
    q ∈ (parentReads scopeId parentTaskId parent).filterMap gotTask := by
  obtain ⟨p, -, hmem⟩ := mem_parentReads scopeId hnone (Option.mem_toList.mp hq)
  exact List.mem_filterMap.mpr ⟨_, hmem, rfl⟩

theorem pins_create (hreads : ReadsIn committed n t.reads) {draft : TaskDraft} (h : Follows (create actor draft) t result) :
    Pins t := by
  obtain ⟨parent, task, attachments, now, hsummary, hiff, -, -, -, rfl⟩ := summary_create h
  refine ⟨?_, ?_, ?_⟩
  · rw [hsummary.reads] at hreads ⊢
    rw [hsummary.writes]
    refine (pinned_parentReads (fun q hq => ?_) fun hnone p hp => ?_).append
      (pinned_filingReads hreads (fun a ha => List.mem_append_left _ ha) hiff.mpr)
      fun q hq => .inr (got_parentReads hiff.mpr hq)
    · exact backs_touches now hq fun a ha => List.mem_cons_of_mem _ (List.mem_append_right _ ha)
    · rw [hiff.mp hnone] at hp
      cases hp
  · rw [hsummary.writes]
    intro a ha
    rcases List.mem_cons.mp ha with rfl | ha
    · trivial
    · rcases List.mem_append.mp ha with ha | ha
      · obtain ⟨attachment, -, rfl⟩ := List.mem_map.mp ha
        trivial
      · obtain ⟨q, -, rfl⟩ := mem_touches ha
        exact (rfl : true = true)
  · have hattach : (attachmentWrites attachments).filterMap updated = [] := by
      rw [List.filterMap_eq_nil_iff]
      intro a ha
      obtain ⟨attachment, -, rfl⟩ := List.mem_map.mp ha
      rfl
    rw [hsummary.writes, List.filterMap_cons_none (show updated ⟨.taskInsert task, ()⟩ = none from rfl), List.filterMap_append,
      hattach, updated_touches]
    cases parent <;> simp

theorem pins_reparent (hwf : ∀ i, WellFormed (committed i).forest) (hreads : ReadsIn committed n t.reads)
    {input : TaskReparentInput} (h : Follows (reparent actor input) t result) : Pins t := by
  obtain ⟨c, next, former, filed, filing, now, now₁, now₂, hfound, -, hself, hsummary, hiff, -, hnone, hfiled, rfl⟩ :=
    summary_reparent h
  obtain ⟨hgetRead, hnextReads, hformerReads, -, -, -⟩ := hsummary.reparent
  obtain ⟨m, hrow⟩ := hreads.got hgetRead
  have hckey := Rows.task_key hrow
  have hformer : ∀ q ∈ former, ∃ p, some p ≠ input.parentTaskId ∧ q.key = (actor.scopeId, p) ∧ q.key ≠ c.key := by
    intro q hq
    obtain ⟨p, hp, hmem⟩ := mem_parentReads actor.scopeId hnone hq
    obtain ⟨hparent, hother⟩ := Option.filter_eq_some_iff.mp hp
    obtain ⟨m', hrow'⟩ := hreads.got (hformerReads _ hmem)
    exact ⟨p, by simpa using hother, Rows.task_key hrow', ne_of_named hwf hreads hgetRead (hformerReads _ hmem) hparent⟩
  have hnext : ∀ q ∈ next, ∃ p, input.parentTaskId = some p ∧ q.key = (actor.scopeId, p) := by
    intro q hq
    obtain ⟨p, hp, hmem⟩ := mem_parentReads actor.scopeId hiff.mpr hq
    obtain ⟨m', hrow'⟩ := hreads.got (hnextReads _ hmem)
    exact ⟨p, hp, Rows.task_key hrow'⟩
  have hseen : ∃ c' ∈ [c], c'.key = (actor.scopeId, c.id) := ⟨c, List.mem_singleton.mpr rfl, Prod.ext hfound.scopeId rfl⟩
  refine pins_of_update (c := c) hsummary rfl ⟨backs_head hfound.revision rfl, ?_⟩ ?_ ?_ ?_
  · set ws : List (Asked WriteOp) := _ :: (touches now₁ former.toList ++ touches now₂ next.toList) with hws
    have hfilingPinned : Pinned ws next.toList filing := by
      by_cases hmoved : input.projectId ≠ c.projectId ∨ input.parentTaskId ≠ c.parentTaskId
      · rw [(hfiled.moved hmoved).1]
        exact pinned_filingReads hreads hnextReads hiff.mpr
      · rw [(hfiled.kept hmoved).1]
        trivial
    have hformerPinned : Pinned ws (c :: next.toList)
        (parentReads actor.scopeId (c.parentTaskId.filter fun parent => some parent ≠ input.parentTaskId) former) := by
      refine pinned_parentReads (fun q hq => backs_touches now₁ hq fun a ha => ?_) fun _ p hp => ?_
      · exact List.mem_cons_of_mem _ (List.mem_append_left _ ha)
      · exact ⟨c, List.mem_cons_self, hfound.scopeId, (Option.filter_eq_some_iff.mp hp).1⟩
    have hnextPinned : Pinned ws [c] (parentReads actor.scopeId input.parentTaskId next) := by
      refine pinned_parentReads (fun q hq => backs_touches now₂ hq fun a ha => ?_) fun hnot p hp => ?_
      · exact List.mem_cons_of_mem _ (List.mem_append_right _ ha)
      · rw [hiff.mp hnot] at hp
        cases hp
    have hparents := hnextPinned.append (hformerPinned.append hfilingPinned fun q hq => .inl (List.mem_cons_of_mem _ hq))
      fun q hq => by
        rcases List.mem_cons.mp hq with rfl | hq
        · exact .inl (List.mem_singleton.mpr rfl)
        · exact .inr (got_parentReads hiff.mpr hq)
    have hchildless : Pinned ws [c]
        (if input.parentTaskId ≠ none then [⟨.countChildren (actor.scopeId, c.id) true none, 0⟩] else []) := by
      split_ifs
      · exact ⟨hseen, trivial⟩
      · trivial
    have hproject : Pinned ws [c]
        (if input.projectId ≠ c.projectId then
          [⟨.countChildren (actor.scopeId, c.id) true none, 0⟩, ⟨.linksByTask (actor.scopeId, c.id), []⟩] else []) := by
      split_ifs
      · exact ⟨hseen, hseen, trivial⟩
      · trivial
    exact hproject.append (hchildless.append hparents fun q hq => .inl hq) fun q hq => .inl hq
  · intro q hq
    obtain ⟨p, -, -, hne⟩ := hformer q hq
    exact hne
  · intro q hq heq
    obtain ⟨p, hp, hkey⟩ := hnext q hq
    rw [heq, hckey] at hkey
    rw [hp] at hself
    exact hself (congrArg some (congrArg Prod.snd hkey).symm)
  · intro q hq q' hq' heq
    obtain ⟨p, hother, hkey, -⟩ := hformer q hq
    obtain ⟨p', hp', hkey'⟩ := hnext q' hq'
    rw [heq, hkey'] at hkey
    refine hother ?_
    rw [hp', show p' = p from congrArg Prod.snd hkey]

theorem pins_presetMoves (hreads : ReadsIn committed n t.reads) {preset : Preset} (h : PresetMoves actor t preset) : Pins t := by
  obtain ⟨c, -, hkey, -, presetId, hsummary⟩ := h
  rw [hsummary.reads] at hreads
  obtain ⟨m, -, hread, -⟩ := hreads
  have hrow : (committed m).preset (actor.scopeId, presetId) = some c := hread
  refine ⟨?_, ?_, ?_⟩
  · rw [hsummary.reads, hsummary.writes]
    exact ⟨⟨c, preset, [], rfl, rfl, hkey.trans (Rows.preset_key hrow)⟩, trivial⟩
  · rw [hsummary.writes]
    rintro a ha
    obtain rfl := List.mem_singleton.mp ha
    exact (rfl : true = true)
  · rw [hsummary.writes]
    exact List.nodup_nil

theorem pins_presetCreate {preset : Preset} {input : PresetDraft} (h : Follows (Presets.create actor input) t preset) : Pins t := by
  have hsummary := summary_presetCreate h
  refine ⟨?_, ?_, ?_⟩
  · rw [hsummary.reads]
    trivial
  · rw [hsummary.writes]
    rintro a ha
    obtain rfl := List.mem_singleton.mp ha
    trivial
  · rw [hsummary.writes]
    exact List.nodup_nil

theorem pins_command (hwf : ∀ i, WellFormed (committed i).forest) (hreads : ReadsIn committed n t.reads) {command : TasksCommand}
    {result : TasksCommandResult} (h : CommandRan actor t command result) : Pins t := by
  cases h with
  | presetCreate h => exact pins_presetCreate h
  | presetEdit h => exact pins_presetMoves hreads (presetMoves_edit h)
  | presetArchive h => exact pins_presetMoves hreads (presetMoves_archive h)
  | presetRestore h => exact pins_presetMoves hreads (presetMoves_restore h)
  | create h => exact pins_create hreads h
  | edit h => exact pins_edit h
  | setStatus h => exact pins_setStatus hwf hreads h
  | reparent h => exact pins_reparent hwf hreads h
  | archive h => exact pins_archive hwf hreads h
  | restore h => exact pins_restore hwf hreads h

end

end Claxedo.Tasks
