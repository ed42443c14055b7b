import Claxedo.Tasks.Pinned

/-! A unit that commits, on either store, is one that ran on the rows its commit found: what it read they
answer, the project's next number aside, and what it wrote takes them to the rows it left. -/

namespace Claxedo.Tasks

open Claxedo.Lib Claxedo.Lib.Program

section
variable {hashRequest : TasksCommand → String} {work : UnitWork} {result : UnitResult} {t : Trace}

theorem summary_unit (h : Follows (work.program hashRequest) t result) : ∃ rs ws, Summary t rs ws := by
  cases unitRan h with
  | command hunit =>
    rcases summary_commandUnit hunit with ⟨held, -, -, hsummary⟩ | ⟨t', committed, now, hran, -, -, hsummary⟩
    · exact ⟨_, _, hsummary⟩
    · obtain ⟨rs, ws, hown⟩ := hran.did.summary
      exact ⟨_, _, hsummary hown⟩
  | settle hunit =>
    rcases summary_settle hunit with ⟨-, -, -, hsummary⟩ | ⟨-, -, now, hsummary⟩
    · exact ⟨_, _, hsummary⟩
    · exact ⟨_, _, hsummary⟩

/-- A command that finds its receipt reads nothing else; every other unit's writes pin what it read. -/
theorem pins_unit {committed : ℕ → Rows} {n : ℕ} (hwf : ∀ i, WellFormed (committed i).forest)
    (hreads : ReadsIn committed n t.reads) (h : Follows (work.program hashRequest) t result) :
    Pins t ∨ ∃ k held, held ≠ none ∧ Summary t [⟨.receiptGet k, held⟩] [] := by
  cases unitRan h with
  | command hunit =>
    rcases summary_commandUnit hunit with ⟨held, hheld, -, hsummary⟩ | ⟨t', committed', now, hran, -, -, hsummary⟩
    · exact .inr ⟨_, held, hheld, hsummary⟩
    · obtain ⟨rs, ws, hown⟩ := hran.did.summary
      have hwhole := hsummary hown
      rw [hwhole.reads] at hreads
      obtain ⟨m, -, -, hrest⟩ := hreads
      obtain ⟨hpinned, hlanded, hnodup⟩ := pins_command hwf (hown.reads ▸ hrest) hran
      rw [hown.writes] at hlanded hnodup
      rw [hown.reads, hown.writes] at hpinned
      refine .inl ⟨?_, ?_, ?_⟩
      · rw [hwhole.reads, hwhole.writes]
        refine ⟨⟨rfl, _, List.mem_append_right _ (List.mem_singleton.mpr rfl), rfl⟩, ?_⟩
        exact hpinned.mono fun c hc => hc
      · rw [hwhole.writes]
        intro a ha
        rcases List.mem_append.mp ha with ha | ha
        · exact hlanded a ha
        · obtain rfl := List.mem_singleton.mp ha
          exact (rfl : true = true)
      · rw [hwhole.writes, List.filterMap_append, List.filterMap_cons_none rfl, List.filterMap_nil, List.append_nil]
        exact hnodup
  | settle hunit =>
    left
    rcases summary_settle hunit with ⟨-, -, -, hsummary⟩ | ⟨-, -, now, hsummary⟩
    · refine ⟨by rw [hsummary.reads]; trivial, ?_, by rw [hsummary.writes]; exact List.nodup_nil⟩
      rw [hsummary.writes]
      intro a ha
      rcases List.mem_cons.mp ha with rfl | ha
      · exact (rfl : true = true)
      · obtain rfl := List.mem_singleton.mp ha
        trivial
    · refine ⟨by rw [hsummary.reads]; trivial, ?_, by rw [hsummary.writes]; exact List.nodup_singleton _⟩
      rw [hsummary.writes]
      intro a ha
      rcases List.mem_cons.mp ha with rfl | ha
      · exact (rfl : true = true)
      · rcases List.mem_cons.mp ha with rfl | ha
        · trivial
        · obtain rfl := List.mem_singleton.mp ha
          exact (rfl : true = true)

end

/-! The D1 unit. -/

theorem batch_append (rows : Rows) (sts sts' : List Statement) : batch rows (sts ++ sts') = (batch rows sts).bind (batch · sts') := by
  induction sts generalizing rows with
  | nil => rfl
  | cons statement sts ih =>
    rw [List.cons_append, batch, batch, Option.bind_assoc]
    exact congrArg _ (funext fun rows => ih rows)

/-- The unit's overlay is what its batch has left so far, over the rows it commits to. -/
structure Synced (rows overlay after : Rows) : Prop where
  preset : ∀ k p, overlay.preset k = some p → after.preset k = some p
  task : ∀ k c, overlay.task k = some c → after.task k = some c
  link : ∀ k l, overlay.link k = some l → after.link k = some l
  kept : ∀ k l, rows.link k = some l → after.link k = some l

section
variable {rows overlay after : Rows}

theorem synced_empty (rows : Rows) : Synced rows {} rows :=
  ⟨fun _ _ h => (nomatch h), fun _ _ h => (nomatch h), fun _ _ h => (nomatch h), fun _ _ h => h⟩

theorem Synced.putPreset (h : Synced rows overlay after) (p : Preset) : Synced rows (overlay.putPreset p) (after.putPreset p) := by
  refine ⟨fun k c hc => ?_, h.task, h.link, h.kept⟩
  rw [Rows.preset_putPreset] at hc ⊢
  split_ifs at hc ⊢
  · exact hc
  · exact h.preset k c hc

theorem Synced.putTask (h : Synced rows overlay after) (t : Task) : Synced rows (overlay.putTask t) (after.putTask t) := by
  refine ⟨h.preset, fun k c hc => ?_, h.link, h.kept⟩
  rw [Rows.task_putTask] at hc ⊢
  split_ifs at hc ⊢
  · exact hc
  · exact h.task k c hc

theorem Synced.putLink (h : Synced rows overlay after) {l : TaskSessionLink} (hnew : after.link l.key = none) :
    Synced rows (overlay.putLink l) (after.putLink l) := by
  refine ⟨h.preset, h.task, fun k c hc => ?_, fun k c hc => ?_⟩
  · rw [Rows.link_putLink] at hc ⊢
    split_ifs at hc ⊢
    · exact hc
    · exact h.link k c hc
  · rw [Rows.link_putLink, if_neg]
    · exact h.kept k c hc
    · rintro rfl
      rw [h.kept _ c hc] at hnew
      cases hnew

end

section
variable {rows after after' now : Rows} {unit written : D1Unit}

/-- What a batch that went through so far makes of the statements a write adds. -/
theorem batch_commit {sts : List Statement} {overlay : Rows} {probes : List TasksConflictProbe}
    (hbatch : batch rows unit.statements = some after)
    (hbatch' : batch rows (unit.commit sts overlay probes).statements = some after') : batch after sts = some after' := by
  rw [D1Unit.commit, batch_append, hbatch, Option.bind_some] at hbatch'
  exact hbatch'

theorem batch_one {statement : Statement} (h : batch after [statement] = some after') : statement.apply after = some after' := by
  rw [batch] at h
  obtain ⟨rows, hrows, hbatch⟩ := Option.bind_eq_some_iff.mp h
  rw [batch] at hbatch
  rw [hrows, Option.some.inj hbatch]

theorem batch_two {first second : Statement} (h : batch after [first, second] = some after') :
    ∃ rows, first.apply after = some rows ∧ second.apply rows = some after' := by
  rw [batch] at h
  obtain ⟨rows, hrows, hbatch⟩ := Option.bind_eq_some_iff.mp h
  exact ⟨rows, hrows, batch_one hbatch⟩

theorem holds_of_any {α : Type} {pending base held : Option α} {p : α → Bool} (hpending : ∀ a, pending = some a → held = some a)
    (hnone : pending = none → held.any p = true) (h : (pending.or base).any p = true) : held.any p = true := by
  rcases pending with _ | a
  · exact hnone rfl
  · rw [hpending a rfl]
    exact h

/-- A write that reported what it was asked does it, where its statements go through. -/
theorem d1_write {β : Type} {op : WriteOp β} {answer : β} (hwrite : unit.write now op = (answer, written))
    (hlanded : Landed ⟨op, answer⟩) (hkept : ∀ k l, now.link k = some l → rows.link k = some l)
    (hsync : Synced rows unit.overlay after) (hbatch : batch rows unit.statements = some after)
    (hbatch' : batch rows written.statements = some after') :
    after.write op = .ok (answer, after') ∧ Synced rows written.overlay after' := by
  cases op with
  | presetInsert preset =>
    cases hwrite
    have happly := batch_one (batch_commit hbatch hbatch')
    simp only [Statement.apply] at happly
    split_ifs at happly with hnew
    obtain rfl := Option.some.inj happly
    exact ⟨by simp [Rows.write, hnew], hsync.putPreset preset⟩
  | presetUpdate preset revision =>
    simp only [D1Unit.write] at hwrite
    split_ifs at hwrite with hany hpending
    · cases hwrite
      obtain ⟨rows₁, hguard, happly⟩ := batch_two (batch_commit hbatch hbatch')
      simp only [Statement.apply] at hguard happly
      split_ifs at hguard with hheld
      obtain rfl := Option.some.inj hguard
      rw [if_pos hheld] at happly
      obtain rfl := Option.some.inj happly
      exact ⟨by simp [Rows.write, hheld], hsync.putPreset preset⟩
    · cases hwrite
      have happly := batch_one (batch_commit hbatch hbatch')
      have hheld := holds_of_any (hsync.preset preset.key) (fun hnone => absurd hnone hpending) hany
      simp only [Statement.apply] at happly
      rw [if_pos hheld] at happly
      obtain rfl := Option.some.inj happly
      exact ⟨by simp [Rows.write, hheld], hsync.putPreset preset⟩
    · cases hwrite
      exact absurd hlanded Bool.false_ne_true
  | presetAssertRevision k revision =>
    simp only [D1Unit.write] at hwrite
    rcases hpending : unit.overlay.preset k with _ | pending
    · rw [hpending] at hwrite
      dsimp only at hwrite
      split_ifs at hwrite with hany
      · cases hwrite
        have hguard := batch_one (batch_commit hbatch hbatch')
        simp only [Statement.apply] at hguard
        split_ifs at hguard with hheld
        obtain rfl := Option.some.inj hguard
        exact ⟨by simp [Rows.write, hheld], hsync⟩
      · cases hwrite
        exact absurd hlanded Bool.false_ne_true
    · rw [hpending] at hwrite
      cases hwrite
      rw [hbatch] at hbatch'
      obtain rfl := Option.some.inj hbatch'
      exact ⟨by simp [Rows.write, hsync.preset _ _ hpending], hsync⟩
  | taskInsert task =>
    cases hwrite
    have happly := batch_one (batch_commit hbatch hbatch')
    simp only [Statement.apply] at happly
    split_ifs at happly with hnew
    obtain rfl := Option.some.inj happly
    exact ⟨by simp [Rows.write, hnew.1], hsync.putTask task⟩
  | taskUpdate task revision =>
    simp only [D1Unit.write] at hwrite
    split_ifs at hwrite with hany hpending
    · cases hwrite
      obtain ⟨rows₁, hguard, happly⟩ := batch_two (batch_commit hbatch hbatch')
      simp only [Statement.apply] at hguard happly
      split_ifs at hguard with hheld
      obtain rfl := Option.some.inj hguard
      rw [if_pos hheld] at happly
      split_ifs at happly
      obtain rfl := Option.some.inj happly
      exact ⟨by simp [Rows.write, hheld], hsync.putTask task⟩
    · cases hwrite
      have happly := batch_one (batch_commit hbatch hbatch')
      have hheld := holds_of_any (hsync.task task.key) (fun hnone => absurd hnone hpending) hany
      simp only [Statement.apply] at happly
      rw [if_pos hheld] at happly
      split_ifs at happly
      obtain rfl := Option.some.inj happly
      exact ⟨by simp [Rows.write, hheld], hsync.putTask task⟩
    · cases hwrite
      exact absurd hlanded Bool.false_ne_true
  | attachmentInsert attachment =>
    cases hwrite
    have happly := batch_one (batch_commit hbatch hbatch')
    simp only [Statement.apply] at happly
    split_ifs at happly with hnew
    obtain rfl := Option.some.inj happly
    exact ⟨by simp [Rows.write, hnew], hsync.preset, hsync.task, hsync.link, hsync.kept⟩
  | linkInsert link =>
    simp only [D1Unit.write] at hwrite
    rcases hheld : (unit.overlay.link link.key).or (now.link link.key) with _ | held
    · rw [hheld] at hwrite
      cases hwrite
      have happly := batch_one (batch_commit hbatch hbatch')
      simp only [Statement.apply] at happly
      split_ifs at happly with hnew
      obtain rfl := Option.some.inj happly
      exact ⟨by simp [Rows.write, hnew], hsync.putLink hnew⟩
    · rw [hheld] at hwrite
      cases hwrite
      rw [hbatch] at hbatch'
      obtain rfl := Option.some.inj hbatch'
      have hstored : after.link link.key = some held := by
        rcases Option.or_eq_some_iff.mp hheld with hpending | ⟨-, hnow⟩
        · exact hsync.link _ _ hpending
        · exact hsync.kept _ _ (hkept _ _ hnow)
      exact ⟨by simp [Rows.write, hstored], hsync⟩
  | receiptPut receipt =>
    simp only [D1Unit.write] at hwrite
    split_ifs at hwrite
    · cases hwrite
      have happly := batch_one (batch_commit hbatch hbatch')
      simp only [Statement.apply] at happly
      split_ifs at happly with hnew
      obtain rfl := Option.some.inj happly
      exact ⟨by simp [Rows.write, hnew], hsync.preset, hsync.task, hsync.link, hsync.kept⟩
    · cases hwrite
      exact absurd hlanded Bool.false_ne_true

end

section
variable {ports : ℕ → Ports} {committed : ℕ → Rows} {t : Trace}

section
variable {β : Type} {answer : β} {unit unit' : D1Unit}

theorem d1_step_port {op : PortOp β} (h : (d1Handler ports committed).Step unit ⟨.port op, answer⟩ unit') :
    answer = (ports unit.asked).answer op ∧ unit' = { unit with asked := unit.asked + 1 } := by
  obtain ⟨hanswer, hunit⟩ := Prod.mk.inj (Except.ok.inj h)
  exact ⟨hanswer.symm, hunit.symm⟩

theorem d1_step_read {op : ReadOp β} (h : (d1Handler ports committed).Step unit ⟨.read op, answer⟩ unit') :
    unit.read (committed unit.asked) op = .ok answer ∧ unit' = { unit with asked := unit.asked + 1 } := by
  simp only [Handler.Step, d1Handler] at h
  rcases hread : unit.read (committed unit.asked) op with fault | b
  · rw [hread] at h
    cases h
  · rw [hread] at h
    obtain ⟨hanswer, hunit⟩ := Prod.mk.inj (Except.ok.inj h)
    exact ⟨congrArg _ hanswer, hunit.symm⟩

theorem d1_step_write {op : WriteOp β} (h : (d1Handler ports committed).Step unit ⟨.write op, answer⟩ unit') :
    ∃ written, unit.write (committed unit.asked) op = (answer, written) ∧ unit' = { written with asked := unit.asked + 1 } := by
  obtain ⟨hanswer, hunit⟩ := Prod.mk.inj (Except.ok.inj h)
  exact ⟨_, Prod.ext hanswer rfl, hunit.symm⟩

end

variable {unit unit' : D1Unit} {β : Type}

/-- What a unit heard of its host, the host said. -/
theorem d1_ports (h : Trail (d1Handler ports committed).Step unit t unit') {op : PortOp β} {b : β} (hmem : ⟨.port op, b⟩ ∈ t) :
    ∃ n, b = (ports n).answer op := by
  obtain ⟨t₁, t₂, rfl⟩ := List.append_of_mem hmem
  obtain ⟨unit₁, -, unit₂, hstep, -⟩ := Trail.split h
  exact ⟨_, (d1_step_port hstep).1⟩

theorem memory_ports {memory memory' : Memory} (h : Trail (memoryHandler ports).Step memory t memory') {op : PortOp β} {b : β}
    (hmem : ⟨.port op, b⟩ ∈ t) : ∃ n, b = (ports n).answer op := by
  obtain ⟨t₁, t₂, rfl⟩ := List.append_of_mem hmem
  obtain ⟨memory₁, -, memory₂, hstep, -⟩ := Trail.split h
  obtain ⟨hanswer, -⟩ := Prod.mk.inj (Except.ok.inj hstep)
  exact ⟨_, hanswer.symm⟩

theorem d1_write_statements (unit : D1Unit) (now : Rows) (op : WriteOp β) :
    ∃ sts, (unit.write now op).2.statements = unit.statements ++ sts := by
  have hsame : ∃ sts, unit.statements = unit.statements ++ sts := ⟨[], (List.append_nil _).symm⟩
  cases op with
  | presetInsert | taskInsert | attachmentInsert => exact ⟨_, rfl⟩
  | presetUpdate | taskUpdate =>
    simp only [D1Unit.write]
    split_ifs
    · exact ⟨_, rfl⟩
    · exact ⟨_, rfl⟩
    · exact hsame
  | presetAssertRevision =>
    simp only [D1Unit.write]
    split
    · exact hsame
    · split_ifs
      · exact ⟨_, rfl⟩
      · exact hsame
  | linkInsert =>
    simp only [D1Unit.write]
    split
    · exact hsame
    · exact ⟨_, rfl⟩
  | receiptPut =>
    simp only [D1Unit.write]
    split_ifs
    · exact ⟨_, rfl⟩
    · exact hsame

theorem d1_statements (h : Trail (d1Handler ports committed).Step unit t unit') :
    ∃ sts, unit'.statements = unit.statements ++ sts := by
  refine Trail.invariant (fun u => ∃ sts, u.statements = unit.statements ++ sts) (fun a _ u u' hu hstep => ?_)
    ⟨[], (List.append_nil _).symm⟩ h
  obtain ⟨sts, hsts⟩ := hu
  obtain ⟨op, answer⟩ := a
  cases op with
  | port op =>
    obtain ⟨-, rfl⟩ := d1_step_port hstep
    exact ⟨sts, hsts⟩
  | read op =>
    obtain ⟨-, rfl⟩ := d1_step_read hstep
    exact ⟨sts, hsts⟩
  | write op =>
    obtain ⟨written, hwrite, rfl⟩ := d1_step_write hstep
    obtain ⟨sts', hsts'⟩ := d1_write_statements u (committed u.asked) op
    rw [hwrite] at hsts'
    exact ⟨sts ++ sts', by rw [hsts', hsts, List.append_assoc]⟩

/-- A unit that writes nothing has an empty batch. -/
theorem d1_quiet (h : Trail (d1Handler ports committed).Step unit t unit') (hquiet : t.writes = []) :
    unit'.statements = unit.statements := by
  refine Trail.invariant (fun u => u.statements = unit.statements) (fun a ha u u' hu hstep => ?_) rfl h
  have hnone := List.filterMap_eq_nil_iff.mp hquiet a ha
  obtain ⟨op, answer⟩ := a
  cases op with
  | port op =>
    obtain ⟨-, rfl⟩ := d1_step_port hstep
    exact hu
  | read op =>
    obtain ⟨-, rfl⟩ := d1_step_read hstep
    exact hu
  | write op => cases hnone

/-- Where the batch goes through, the unit's writes did what they reported, one after another. -/
theorem d1_writes {rows after rows' : Rows} (h : Trail (d1Handler ports committed).Step unit t unit')
    (hkept : ∀ n k l, (committed n).link k = some l → rows.link k = some l) (hlanded : ∀ a ∈ t.writes, Landed a)
    (hsync : Synced rows unit.overlay after) (hbatch : batch rows unit.statements = some after)
    (hbatch' : batch rows unit'.statements = some rows') : WritesApply after t.writes rows' := by
  induction t generalizing unit after with
  | nil =>
    obtain rfl : unit = unit' := h
    rw [hbatch] at hbatch'
    exact Option.some.inj hbatch'
  | cons a t ih =>
    obtain ⟨unit₁, hstep, hrest⟩ := h
    obtain ⟨op, answer⟩ := a
    cases op with
    | port op =>
      obtain ⟨-, rfl⟩ := d1_step_port hstep
      exact ih hrest hlanded hsync hbatch
    | read op =>
      obtain ⟨-, rfl⟩ := d1_step_read hstep
      exact ih hrest hlanded hsync hbatch
    | write op =>
      obtain ⟨written, hwrite, rfl⟩ := d1_step_write hstep
      obtain ⟨sts, hsts⟩ := d1_statements hrest
      rw [hsts, batch_append] at hbatch'
      obtain ⟨after₁, hbatch₁, -⟩ := Option.bind_eq_some_iff.mp hbatch'
      rw [← batch_append, ← hsts] at hbatch'
      obtain ⟨happly, hsync₁⟩ := d1_write hwrite (hlanded ⟨op, answer⟩ List.mem_cons_self) (hkept _) hsync hbatch hbatch₁
      exact ⟨after₁, happly, ih hrest (fun a ha => hlanded a (List.mem_cons_of_mem _ ha)) hsync₁ hbatch₁⟩

theorem ReadsIn.mono {n m : ℕ} {rs : List (Asked ReadOp)} (h : ReadsIn committed m rs) (hle : n ≤ m) :
    ReadsIn committed n rs := by
  cases rs with
  | nil => trivial
  | cons a rs =>
    obtain ⟨i, hi, hread, hrest⟩ := h
    exact ⟨i, hle.trans hi, hread, hrest⟩

theorem d1_read (now : Rows) (op : ReadOp β) (hempty : unit.overlay = {}) :
    unit.read now op = .ok (now.read op) := by
  have hnothing : unit.hasWritten = false := by simp [D1Unit.hasWritten, hempty]
  cases op with
  | linkCurrent task slot =>
    rw [D1Unit.read, hempty]
    change Except.ok ((([] ++ (now.linkCurrent task slot).toList).insertionSort _).head?) = Except.ok (now.linkCurrent task slot)
    cases now.linkCurrent task slot <;> rfl
  | countChildren | nextNumber | nextChildNumber | linksByTask =>
    simp only [D1Unit.read, D1Unit.listed, hnothing]
    rfl
  | presetGet | taskGet | receiptGet =>
    rw [D1Unit.read, hempty]
    rfl

/-- A unit that reads before it writes reads committed rows only, each later than the one before. -/
theorem d1_reads (h : Trail (d1Handler ports committed).Step unit t unit')
    (hordered : t.Pairwise fun a b => asWrite a = none ∨ asRead b = none) (hempty : unit.overlay = {}) :
    ReadsIn committed unit.asked t.reads := by
  induction t generalizing unit with
  | nil => trivial
  | cons a t ih =>
    obtain ⟨unit₁, hstep, hrest⟩ := h
    obtain ⟨hfirst, htail⟩ := List.pairwise_cons.mp hordered
    obtain ⟨op, answer⟩ := a
    cases op with
    | port op =>
      obtain ⟨-, rfl⟩ := d1_step_port hstep
      exact (ih hrest htail hempty).mono (Nat.le_succ _)
    | read op =>
      obtain ⟨hread, rfl⟩ := d1_step_read hstep
      rw [d1_read _ op hempty] at hread
      exact ⟨unit.asked, le_rfl, Except.ok.inj hread, (ih hrest htail hempty).mono (Nat.le_succ _)⟩
    | write op =>
      have hnone : Trace.reads t = [] := List.filterMap_eq_nil_iff.mpr fun b hb =>
        (hfirst b hb).resolve_left (Option.some_ne_none _)
      change ReadsIn committed unit.asked (Trace.reads t)
      rw [hnone]
      trivial

/-- A unit of the memory store runs on the rows alone. -/
theorem memory_trail {memory memory' : Memory} (h : Trail (memoryHandler ports).Step memory t memory')
    (hordered : t.Pairwise fun a b => asWrite a = none ∨ asRead b = none) :
    (∀ a ∈ t.reads, memory.rows.read a.op = a.answer) ∧ WritesApply memory.rows t.writes memory'.rows := by
  induction t generalizing memory with
  | nil =>
    obtain rfl : memory = memory' := h
    exact ⟨fun a ha => (nomatch ha), rfl⟩
  | cons a t ih =>
    obtain ⟨memory₁, hstep, hrest⟩ := h
    obtain ⟨hfirst, htail⟩ := List.pairwise_cons.mp hordered
    obtain ⟨op, answer⟩ := a
    cases op with
    | port op =>
      obtain ⟨-, rfl⟩ := Prod.mk.inj (Except.ok.inj hstep)
      have hlater := ih hrest htail
      exact hlater
    | read op =>
      obtain ⟨hread, rfl⟩ := Prod.mk.inj (Except.ok.inj hstep)
      obtain ⟨hreads, hwrites⟩ := ih hrest htail
      refine ⟨fun a ha => ?_, hwrites⟩
      rcases List.mem_cons.mp ha with rfl | ha
      · exact hread
      · exact hreads a ha
    | write op =>
      have hnone : Trace.reads t = [] := List.filterMap_eq_nil_iff.mpr fun b hb =>
        (hfirst b hb).resolve_left (Option.some_ne_none _)
      simp only [Handler.Step, memoryHandler] at hstep
      rcases hwrite : memory.rows.write op with fault | ⟨b, rows⟩
      · rw [hwrite] at hstep
        cases hstep
      · rw [hwrite] at hstep
        obtain ⟨rfl, rfl⟩ := Prod.mk.inj (Except.ok.inj hstep)
        obtain ⟨-, hwrites⟩ := ih hrest htail
        refine ⟨fun a ha => ?_, rows, hwrite, hwrites⟩
        change a ∈ Trace.reads t at ha
        rw [hnone] at ha
        cases ha

end

end Claxedo.Tasks
