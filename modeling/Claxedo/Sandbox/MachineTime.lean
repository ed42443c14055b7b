import Claxedo.Lib.Interval
import Claxedo.Sandbox.D1Store

/-! `readMachineTime`: what a workspace's boots and its lease row add up to in a range. An epoch is
metered from the start its row recorded to the last write that took it off its host, or to the end
of the range while it is still on one; the reads here are of a workspace the queried person owns. -/

namespace Claxedo.Sandbox

open Lib (Interval)

/-- A line of the report, for one driver and machine class of the workspace. -/
structure MachineTimeRow where
  driver : String
  machineClass : Option String
  activeMs : ℤ
  runningSince : Option ℤ
  lastStoppedAt : Option ℤ

/-- The epoch still on a host, from its start, or `since`, to `till`. -/
def hostedSpent (row : Option SandboxLeaseRow) (since till : ℤ) : List MachineTimeRow :=
  match row with
  | none => []
  | some row =>
    match row.start with
    | none => []
    | some start =>
      if hosted row ∧ start.startedAt < till then
        [⟨row.driver, row.machineClass, till - max start.startedAt since, some start.startedAt, none⟩]
      else []

/-- Every ended boot, clipped to the range. -/
def endedSpent (boots : List Boot) (since till : ℤ) : List MachineTimeRow :=
  (boots.filter fun boot => since < boot.stoppedAt ∧ boot.startedAt < till).map fun boot =>
    ⟨boot.driver, boot.machineClass, min boot.stoppedAt till - max boot.startedAt since, none, some boot.stoppedAt⟩

def spent (tables : Tables) (since till : ℤ) : List MachineTimeRow :=
  endedSpent tables.boots since till ++ hostedSpent tables.row since till

/-- The `group by driver, machine_class`; an aggregate passes over the nulls. -/
def readMachineTime (tables : Tables) (since till : ℤ) : List MachineTimeRow :=
  let lines := spent tables since till
  (lines.map fun line => (line.driver, line.machineClass)).dedup.map fun (driver, machineClass) =>
    let group := lines.filter fun line => (line.driver, line.machineClass) = (driver, machineClass)
    ⟨driver, machineClass, (group.map (·.activeMs)).sum, (group.filterMap (·.runningSince)).max?,
      (group.filterMap (·.lastStoppedAt)).max?⟩

/-- The machine time the report gives the workspace, over all its lines. -/
def machineTime (tables : Tables) (since till : ℤ) : ℤ :=
  ((readMachineTime tables since till).map (·.activeMs)).sum

/-- The split into drivers and classes changes no total. -/
theorem machineTime_eq_spent (tables : Tables) (since till : ℤ) :
    machineTime tables since till = ((spent tables since till).map (·.activeMs)).sum := by
  unfold machineTime readMachineTime
  rw [List.map_map]
  exact Lib.sum_groups (fun line : MachineTimeRow => (line.driver, line.machineClass)) (·.activeMs)
    (List.nodup_dedup _) fun line hline => List.mem_dedup.mpr (List.mem_map_of_mem hline)

def Boot.interval (boot : Boot) : Interval := ⟨boot.startedAt, boot.stoppedAt⟩

/-- What is still running at `till`, as an interval. -/
def runningIntervals (row : Option SandboxLeaseRow) (till : ℤ) : List Interval :=
  match row with
  | none => []
  | some row => if hosted row then (row.start.map fun start => ⟨start.startedAt, till⟩).toList else []

variable {till : ℤ}

theorem sum_endedSpent {boots : List Boot} (hle : ∀ b ∈ boots, b.startedAt ≤ b.stoppedAt) {since : ℤ} (hrange : since ≤ till) :
    ((endedSpent boots since till).map (·.activeMs)).sum =
      ((boots.map Boot.interval).map (Interval.clipped since till)).sum := by
  induction boots with
  | nil => rfl
  | cons b boots ih =>
    have hb := hle b (by simp)
    have ih := ih fun b hb => hle b (List.mem_cons_of_mem _ hb)
    have hone : (Interval.clipped since till b.interval) =
        if since < b.stoppedAt ∧ b.startedAt < till then min b.stoppedAt till - max b.startedAt since else 0 := by
      simp only [Interval.clipped, Boot.interval]
      split_ifs <;> omega
    unfold endedSpent at ih ⊢
    rw [List.map_cons, List.map_cons, List.sum_cons, hone, ← ih, List.filter_cons]
    by_cases hin : since < b.stoppedAt ∧ b.startedAt < till
    · simp [hin]
    · simp [hin]

theorem sum_hostedSpent (row : Option SandboxLeaseRow) {since : ℤ} (hrange : since ≤ till) :
    ((hostedSpent row since till).map (·.activeMs)).sum =
      ((runningIntervals row till).map (Interval.clipped since till)).sum := by
  rcases row with _ | row
  · rfl
  rcases hstart : row.start with _ | start
  · simp [hostedSpent, runningIntervals, hstart]
  by_cases hh : hosted row
  · by_cases hlt : start.startedAt < till
    · simp [hostedSpent, runningIntervals, hstart, hh, hlt, Interval.clipped]
      omega
    · simp [hostedSpent, runningIntervals, hstart, hh, hlt, Interval.clipped]
      omega
  · simp [hostedSpent, runningIntervals, hstart, hh]

/-- The boot a row's epoch ends with, when a write under `guard` takes it off its host. -/
def endedBoot (guard : SandboxLeaseGuard) (stoppedAt : ℤ) (row : Option SandboxLeaseRow) : Option Boot :=
  row.bind fun row => row.start.bind fun start =>
    if guard.holds row ∧ hosted row then
      some ⟨row.epoch, row.driver, row.machineClass, min start.startedAt stoppedAt, stoppedAt⟩
    else none

theorem closeBoot_eq (guard : SandboxLeaseGuard) (stoppedAt : ℤ) (row : Option SandboxLeaseRow) (boots : List Boot) :
    closeBoot guard stoppedAt row boots =
      match endedBoot guard stoppedAt row with
      | some boot => recordBoot boot boots
      | none => boots := by
  rcases row with _ | row
  · rfl
  rcases hstart : row.start with _ | start
  · simp [closeBoot, endedBoot, hstart]
  by_cases hh : guard.holds row ∧ hosted row <;> simp [closeBoot, endedBoot, hstart, hh]

theorem endedBoot_some {guard : SandboxLeaseGuard} {stoppedAt : ℤ} {row : Option SandboxLeaseRow} {boot : Boot}
    (h : endedBoot guard stoppedAt row = some boot) :
    ∃ r start, row = some r ∧ r.start = some start ∧ hosted r ∧ boot.epoch = r.epoch ∧
      boot.startedAt = min start.startedAt boot.stoppedAt := by
  rcases row with _ | r
  · simp [endedBoot] at h
  rcases hstart : r.start with _ | start
  · simp [endedBoot, hstart] at h
  simp only [endedBoot, hstart, Option.bind_some, Option.ite_none_right_eq_some, Option.some.injEq] at h
  obtain ⟨⟨-, hh⟩, rfl⟩ := h
  exact ⟨r, start, rfl, hstart, hh, rfl, rfl⟩

/-- The boot a write ends on these tables. -/
def LeaseWrite.ends (tables : Tables) : LeaseWrite → Option Boot
  | .insert _ => none
  | .takeOver _ readEpoch now => endedBoot { epoch := some readEpoch } now tables.row
  | .fenced guard _ _ closes => closes.bind fun stoppedAt => endedBoot guard stoppedAt tables.row
  | .delete now => endedBoot {} now tables.row

theorem commit_boots (tables : Tables) (write : LeaseWrite) :
    (write.commit tables).1.boots =
      match write.ends tables with
      | some boot => recordBoot boot tables.boots
      | none => tables.boots := by
  cases write with
  | insert values => cases hrow : tables.row <;> simp [LeaseWrite.commit, LeaseWrite.ends, hrow]
  | takeOver values readEpoch now =>
    rcases hrow : tables.row with _ | row
    · simp [LeaseWrite.commit, LeaseWrite.ends, hrow, endedBoot]
    by_cases he : row.epoch = readEpoch
    · simp only [LeaseWrite.commit, LeaseWrite.ends, hrow, if_pos he, closeBoot_eq]
    · have hnone : endedBoot { epoch := some readEpoch } now (some row) = none := by
        cases hs : row.start <;> simp [endedBoot, SandboxLeaseGuard.holds, hs, Ne.symm he]
      simp [LeaseWrite.commit, LeaseWrite.ends, hrow, he, hnone]
  | fenced guard columns values closes =>
    rcases hrow : tables.row with _ | row
    · cases closes <;> simp [LeaseWrite.commit, LeaseWrite.ends, hrow, endedBoot]
    by_cases hg : guard.holds row
    · cases closes <;> simp [LeaseWrite.commit, LeaseWrite.ends, hrow, hg, closeBoot_eq]
    · have hnone : ∀ t, endedBoot guard t (some row) = none := by
        intro t
        cases hs : row.start <;> simp [endedBoot, hs, hg]
      cases closes <;> simp [LeaseWrite.commit, LeaseWrite.ends, hrow, hg, hnone]
  | delete now => simp only [LeaseWrite.commit, LeaseWrite.ends, closeBoot_eq]

section
variable (regions : Regions) (workspaceId : String)

/-- The write a label sends to the database. -/
def landing (s : D1State) : D1Label → Option LeaseWrite
  | .write id =>
    match s.find id with
    | some ⟨call, .writing _ read⟩ =>
      match attempt regions workspaceId read call with
      | .write write => some write
      | .answer _ => none
    | _ => none
  | _ => none

variable {tables : Tables} {write : LeaseWrite} {b : Boot} {boots ended : List Boot} {s : D1State}

theorem commit_of_not_tookEffect {read : Option SandboxLeaseRow} {call : LeaseCall}
    (ha : attempt regions workspaceId read call = .write write) (hn : ¬ tookEffect call (write.commit tables).2) :
    (write.commit tables).1 = tables := by
  have hnot : (write.commit tables).2 = none ∧ ∀ now, write ≠ .delete now := by
    cases call <;> simp_all [tookEffect, attempt] <;> grind [writeFenced]
  obtain ⟨hnone, hdelete⟩ := hnot
  cases write with
  | insert values => cases hrow : tables.row <;> simp_all [LeaseWrite.commit]
  | takeOver values readEpoch now =>
    rcases hrow : tables.row with _ | row
    · simp [LeaseWrite.commit, hrow] at hnone
    · by_cases he : row.epoch = readEpoch <;> simp_all [LeaseWrite.commit]
  | fenced guard columns values closes =>
    rcases hrow : tables.row with _ | row
    · simp [LeaseWrite.commit, hrow]
    · by_cases hg : guard.holds row <;> simp_all [LeaseWrite.commit]
  | delete now => exact absurd rfl (hdelete now)

theorem d1Step_tables (s : D1State) (label : D1Label) :
    (d1Step regions workspaceId s label).tables =
      match landing regions workspaceId s label with
      | some write => (write.commit s.tables).1
      | none => s.tables := by
  cases label with
  | «begin» id call =>
    simp only [d1Step, landing]
    split_ifs <;> rfl
  | read id =>
    simp only [d1Step, landing]
    split
    · split_ifs
      · rfl
      · split <;> rfl
    · rfl
  | write id =>
    rcases hfind : s.find id with _ | ⟨call, pass | ⟨pass, read⟩⟩
    · simp [d1Step, landing, hfind]
    · simp [d1Step, landing, hfind]
    cases ha : attempt regions workspaceId read call with
    | answer answer => simp [d1Step, landing, hfind, commitCall, ha, D1State.finish]
    | write write =>
      simp only [d1Step, landing, hfind, commitCall, ha]
      by_cases hl : tookEffect call (write.commit s.tables).2
      · rw [if_pos hl]
      · rw [if_neg hl, commit_of_not_tookEffect regions workspaceId ha hl]
        cases call <;> rfl

/-- `moment` is not before the end of any boot of an epoch other than `epoch`. -/
def After (boots : List Boot) (epoch : ℕ) (moment : ℤ) : Prop :=
  ∀ c ∈ boots, c.epoch ≠ epoch → c.stoppedAt ≤ moment

instance (boots : List Boot) (epoch : ℕ) (moment : ℤ) : Decidable (After boots epoch moment) :=
  inferInstanceAs (Decidable (∀ c ∈ boots, c.epoch ≠ epoch → c.stoppedAt ≤ moment))

/-- The moments a write records come after the boots of the epochs before it, and a new epoch's
number is not one that a boot is already recorded under. -/
def Timely (tables : Tables) (write : LeaseWrite) : Prop :=
  (∀ b ∈ write.ends tables, After tables.boots b.epoch b.stoppedAt) ∧
  ∀ row ∈ (write.commit tables).1.row,
    (∀ start ∈ row.start, After (write.commit tables).1.boots row.epoch start.startedAt) ∧
    ((∀ old ∈ tables.row, old.epoch ≠ row.epoch) → ∀ b ∈ (write.commit tables).1.boots, b.epoch ≠ row.epoch)

def TimelyStep (s : D1State) (label : D1Label) : Prop :=
  ∀ write ∈ landing regions workspaceId s label, Timely s.tables write

instance (tables : Tables) (write : LeaseWrite) : Decidable (Timely tables write) :=
  inferInstanceAs (Decidable (_ ∧ _))

instance (s : D1State) (label : D1Label) : Decidable (TimelyStep regions workspaceId s label) :=
  inferInstanceAs (Decidable (∀ write ∈ landing regions workspaceId s label, Timely s.tables write))

/-- What `recordBoot` leaves under an epoch: the boots of the others, and this one's own, whose
start is the first recorded and whose end is the later of the two. -/
theorem mem_recordBoot {c : Boot} (h : c ∈ recordBoot b boots) :
    (c.epoch ≠ b.epoch ∧ c ∈ boots) ∨
    (c = b ∧ ∀ o ∈ boots, o.epoch ≠ b.epoch) ∨
    (∃ o ∈ boots, o.epoch = b.epoch ∧ c = { o with stoppedAt := max o.stoppedAt b.stoppedAt }) := by
  unfold recordBoot at h
  split_ifs at h with hany
  · obtain ⟨o, ho, rfl⟩ := List.mem_map.mp h
    by_cases he : o.epoch = b.epoch
    · exact .inr (.inr ⟨o, ho, he, by rw [if_pos he]⟩)
    · refine .inl ⟨?_, ?_⟩ <;> rw [if_neg he]
      · exact he
      · exact ho
  · have hno : ∀ o ∈ boots, o.epoch ≠ b.epoch := by simpa using hany
    rcases List.mem_append.mp h with h | h
    · exact .inl ⟨hno c h, h⟩
    · exact .inr (.inl ⟨by simpa using h, hno⟩)

theorem After.recordBoot {moment : ℤ} (h : After boots b.epoch moment) :
    After (recordBoot b boots) b.epoch moment := by
  intro c hc hne
  rcases mem_recordBoot hc with ⟨-, hc⟩ | ⟨rfl, -⟩ | ⟨o, -, ho, rfl⟩
  · exact h c hc hne
  · exact absurd rfl hne
  · exact absurd ho hne

/-- Every boot ends at or after its start, each epoch has one, and no two share a moment. -/
structure ApartBoots (boots : List Boot) : Prop where
  started : ∀ b ∈ boots, b.startedAt ≤ b.stoppedAt
  once : boots.Pairwise fun b c => b.epoch ≠ c.epoch
  apart : boots.Pairwise fun b c => Interval.Apart b.interval c.interval

theorem ApartBoots.recordBoot (h : ApartBoots boots) (hb : b.startedAt ≤ b.stoppedAt)
    (hold : ∀ o ∈ boots, o.epoch = b.epoch → After boots b.epoch o.startedAt) (hnew : After boots b.epoch b.startedAt) :
    ApartBoots (recordBoot b boots) := by
  unfold Sandbox.recordBoot
  split_ifs with hany
  · -- Extended: only this epoch's own boot moves its end, and every other one ended before it began.
    have hfar : ∀ o ∈ boots, ∀ c ∈ boots, o.epoch = b.epoch → c.epoch ≠ b.epoch → c.stoppedAt ≤ o.startedAt :=
      fun o ho c hc he hne => hold o ho he c hc hne
    refine ⟨?_, ?_, ?_⟩
    · intro c hc
      obtain ⟨o, ho, rfl⟩ := List.mem_map.mp hc
      have := h.started o ho
      split_ifs <;> simp <;> omega
    · rw [List.pairwise_map]
      refine h.once.imp fun {o c} hne => ?_
      split_ifs <;> exact hne
    · rw [List.pairwise_map]
      refine (h.once.and h.apart).imp_of_mem fun {o c} ho hc hoc => ?_
      obtain ⟨hne, hapart⟩ := hoc
      split_ifs with he hc' hc'
      · exact absurd (he.trans hc'.symm) hne
      · exact (Interval.Apart.of_le (hfar o ho c hc he hc')).symm
      · exact Interval.Apart.of_le (hfar c hc o ho hc' he)
      · exact hapart
  · have hno : ∀ o ∈ boots, o.epoch ≠ b.epoch := by simpa using hany
    refine ⟨?_, ?_, ?_⟩
    · intro c hc
      rcases List.mem_append.mp hc with hc | hc
      · exact h.started c hc
      · obtain rfl : c = b := by simpa using hc
        exact hb
    · exact List.pairwise_append.mpr ⟨h.once, List.pairwise_singleton _ _, fun o ho c hc => by
        obtain rfl : c = b := by simpa using hc
        exact hno o ho⟩
    · exact List.pairwise_append.mpr ⟨h.apart, List.pairwise_singleton _ _, fun o ho c hc => by
        obtain rfl : c = b := by simpa using hc
        exact Interval.Apart.of_le (hnew o ho (hno o ho))⟩

/-- The boots share no moment, and the row's epoch began after all the others ended. -/
structure InOrder (tables : Tables) : Prop where
  boots : ApartBoots tables.boots
  own : ∀ row ∈ tables.row, ∀ b ∈ tables.boots, b.epoch = row.epoch → After tables.boots row.epoch b.startedAt
  start : ∀ row ∈ tables.row, ∀ start ∈ row.start, After tables.boots row.epoch start.startedAt

theorem InOrder.empty : InOrder ({} : D1State).tables where
  boots := ⟨fun _ hb => absurd hb List.not_mem_nil, .nil, .nil⟩
  own row hrow := absurd hrow (Option.not_mem_none row)
  start row hrow := absurd hrow (Option.not_mem_none row)

theorem ends_row (h : write.ends tables = some b) :
    ∃ row start, tables.row = some row ∧ row.start = some start ∧ b.epoch = row.epoch ∧
      b.startedAt = min start.startedAt b.stoppedAt := by
  have hended : ∃ guard stoppedAt, endedBoot guard stoppedAt tables.row = some b := by
    cases write with
    | insert values => cases h
    | takeOver values readEpoch now => exact ⟨_, _, h⟩
    | fenced guard columns values closes =>
      obtain ⟨stoppedAt, -, h⟩ := Option.bind_eq_some_iff.mp h
      exact ⟨_, _, h⟩
    | delete now => exact ⟨_, _, h⟩
  obtain ⟨guard, stoppedAt, h⟩ := hended
  obtain ⟨row, start, hrow, hstart, -, he, hs⟩ := endedBoot_some h
  exact ⟨row, start, hrow, hstart, he, hs⟩

/-- One timely write keeps the boots apart. -/
theorem InOrder.commit (h : InOrder tables) (ht : Timely tables write) :
    InOrder (write.commit tables).1 := by
  obtain ⟨hends, hrow'⟩ := ht
  -- The boots after the write, with what is known of the row's own ones.
  have hboots : ApartBoots (write.commit tables).1.boots ∧ ∀ row ∈ tables.row,
      ∀ b ∈ (write.commit tables).1.boots, b.epoch = row.epoch →
        After (write.commit tables).1.boots row.epoch b.startedAt := by
    rw [commit_boots]
    cases hb : write.ends tables with
    | none => exact ⟨h.boots, h.own⟩
    | some b =>
      obtain ⟨row, start, hrow, hstart, hepoch, hmin⟩ := ends_row hb
      have hold : ∀ o ∈ tables.boots, o.epoch = b.epoch → After tables.boots b.epoch o.startedAt := by
        rw [hepoch]
        exact h.own row hrow
      have hnew : After tables.boots b.epoch b.startedAt := by
        intro c hc hne
        have hs := h.start row hrow start hstart c hc (hepoch ▸ hne)
        have he := hends b hb c hc hne
        omega
      refine ⟨h.boots.recordBoot (by omega) hold hnew, ?_⟩
      intro row' hrow'' c hc hce
      obtain rfl : row' = row := by simpa [hrow] using hrow''.symm
      rw [← hepoch] at hce ⊢
      rcases mem_recordBoot hc with ⟨hne, -⟩ | ⟨rfl, -⟩ | ⟨o, ho, hoe, rfl⟩
      · exact absurd hce hne
      · exact hnew.recordBoot
      · exact (hold o ho hoe).recordBoot
  refine ⟨hboots.1, ?_, fun row hrow => (hrow' row hrow).1⟩
  intro row hrow b hb hbe
  by_cases hsame : ∃ old ∈ tables.row, old.epoch = row.epoch
  · obtain ⟨old, hold, he⟩ := hsame
    rw [← he]
    exact hboots.2 old hold b hb (hbe.trans he.symm)
  · push Not at hsame
    exact absurd hbe ((hrow' row hrow).2 hsame b hb)

theorem InOrder.d1Step {label : D1Label} (h : InOrder s.tables) (ht : TimelyStep regions workspaceId s label) :
    InOrder (d1Step regions workspaceId s label).tables := by
  rw [d1Step_tables]
  cases hl : landing regions workspaceId s label with
  | none => exact h
  | some write => exact h.commit (ht write hl)

/-- The boots a run's writes ended, in the order they landed. -/
def endings : D1State → List D1Label → List Boot
  | _, [] => []
  | s, label :: labels =>
    ((landing regions workspaceId s label).bind (LeaseWrite.ends s.tables)).toList ++
      endings (d1Step regions workspaceId s label) labels

/-- `boots` holds one row for each epoch ended: from the start its first ending found to the
latest of its ends. -/
structure Summarizes (boots ended : List Boot) : Prop where
  first : ∀ b ∈ boots, ∃ f, ended.find? (·.epoch = b.epoch) = some f ∧ b.startedAt = f.startedAt
  last : ∀ b ∈ boots, ∀ t, t < b.stoppedAt ↔ ∃ e ∈ ended, e.epoch = b.epoch ∧ t < e.stoppedAt
  all : ∀ e ∈ ended, ∃ b ∈ boots, b.epoch = e.epoch

theorem Summarizes.empty : Summarizes ({} : D1State).tables.boots [] where
  first _ hb := absurd hb List.not_mem_nil
  last _ hb := absurd hb List.not_mem_nil
  all _ he := absurd he List.not_mem_nil

theorem Summarizes.record (h : Summarizes boots ended) (b : Boot) :
    Summarizes (recordBoot b boots) (ended ++ [b]) := by
  refine ⟨?_, ?_, ?_⟩
  · intro c hc
    rcases mem_recordBoot hc with ⟨-, hc⟩ | ⟨rfl, hno⟩ | ⟨o, ho, -, rfl⟩
    · obtain ⟨f, hf, hs⟩ := h.first c hc
      exact ⟨f, by rw [List.find?_append, hf]; rfl, hs⟩
    · have hnone : ended.find? (·.epoch = c.epoch) = none := by
        rw [List.find?_eq_none]
        intro e he
        obtain ⟨o, ho, hoe⟩ := h.all e he
        simpa [← hoe] using hno o ho
      exact ⟨c, by rw [List.find?_append, hnone]; simp, rfl⟩
    · obtain ⟨f, hf, hs⟩ := h.first o ho
      exact ⟨f, by rw [List.find?_append, hf]; rfl, hs⟩
  · intro c hc t
    rcases mem_recordBoot hc with ⟨hne, hc⟩ | ⟨rfl, hno⟩ | ⟨o, ho, hoe, rfl⟩
    · rw [h.last c hc t]
      simp [or_and_right, exists_or, Ne.symm hne]
    · have hnone : ¬ ∃ e ∈ ended, e.epoch = c.epoch ∧ t < e.stoppedAt := by
        rintro ⟨e, he, hec, -⟩
        obtain ⟨o, ho, hoe⟩ := h.all e he
        exact hno o ho (hoe.trans hec)
      simp only [List.mem_append, List.mem_singleton, or_and_right, exists_or, hnone, false_or]
      refine ⟨fun ht => ⟨c, rfl, rfl, ht⟩, ?_⟩
      rintro ⟨_, rfl, -, ht⟩
      exact ht
    · simp only [lt_max_iff, h.last o ho t, List.mem_append, List.mem_singleton, or_and_right, exists_or]
      refine or_congr Iff.rfl ⟨fun ht => ⟨b, rfl, hoe.symm, ht⟩, ?_⟩
      rintro ⟨_, rfl, -, ht⟩
      exact ht
  · intro e he
    have hkeep : ∀ o ∈ boots, ∃ c ∈ recordBoot b boots, c.epoch = o.epoch := by
      intro o ho
      unfold recordBoot
      split_ifs with hany
      · exact ⟨_, List.mem_map_of_mem ho, by split_ifs <;> rfl⟩
      · exact ⟨o, List.mem_append_left _ ho, rfl⟩
    have hself : ∃ c ∈ recordBoot b boots, c.epoch = b.epoch := by
      by_cases hany : boots.any (·.epoch = b.epoch)
      · obtain ⟨o, ho, hoe⟩ := List.any_eq_true.mp hany
        obtain ⟨c, hc, hce⟩ := hkeep o ho
        exact ⟨c, hc, hce.trans (by simpa using hoe)⟩
      · exact ⟨b, by simp [recordBoot, hany], rfl⟩
    rcases List.mem_append.mp he with he | he
    · obtain ⟨o, ho, hoe⟩ := h.all e he
      obtain ⟨c, hc, hce⟩ := hkeep o ho
      exact ⟨c, hc, hce.trans hoe⟩
    · obtain rfl : e = b := by simpa using he
      exact hself

theorem Summarizes.d1Step (h : Summarizes s.tables.boots ended) (label : D1Label) :
    Summarizes (d1Step regions workspaceId s label).tables.boots
      (ended ++ ((landing regions workspaceId s label).bind (LeaseWrite.ends s.tables)).toList) := by
  rw [d1Step_tables]
  cases hl : landing regions workspaceId s label with
  | none => simpa using h
  | some write =>
    simp only [commit_boots, Option.bind_some]
    cases write.ends s.tables with
    | none => simpa using h
    | some b => exact h.record b

theorem Summarizes.run (h : Summarizes s.tables.boots ended) (labels : List D1Label) :
    Summarizes (Lib.run (Sandbox.d1Step regions workspaceId) s labels).tables.boots
      (ended ++ endings regions workspaceId s labels) := by
  induction labels generalizing s ended with
  | nil => simpa [endings] using h
  | cons label labels ih =>
    rw [Lib.run_cons, endings, ← List.append_assoc]
    exact ih (h.d1Step regions workspaceId label)

end

/-- A moment of an ended boot: between the start the epoch's first ending found on the row and
the latest of its endings. -/
def EndedMoment (ended : List Boot) (t : ℤ) : Prop :=
  ∃ first, ended.find? (·.epoch = first.epoch) = some first ∧ first.startedAt ≤ t ∧
    ∃ e ∈ ended, e.epoch = first.epoch ∧ t < e.stoppedAt

/-- A moment of the epoch still on a host. -/
def RunningMoment (row : Option SandboxLeaseRow) (t : ℤ) : Prop :=
  ∃ r ∈ row, hosted r ∧ ∃ start ∈ r.start, start.startedAt ≤ t

/-- The epoch on a host is not one revived on a start that a recorded boot of its own already covers. -/
def NotRevived (tables : Tables) : Prop :=
  ∀ row ∈ tables.row, hosted row → ∀ start ∈ row.start, ∀ b ∈ tables.boots, b.epoch = row.epoch →
    b.stoppedAt ≤ start.startedAt

instance (tables : Tables) : Decidable (NotRevived tables) :=
  inferInstanceAs (Decidable (∀ row ∈ tables.row, hosted row → ∀ start ∈ row.start, ∀ b ∈ tables.boots,
    b.epoch = row.epoch → b.stoppedAt ≤ start.startedAt))

theorem Summarizes.endedMoment_iff {boots ended : List Boot} (h : Summarizes boots ended) (t : ℤ) :
    Interval.Covered (boots.map Boot.interval) t ↔ EndedMoment ended t := by
  constructor
  · rintro ⟨i, hi, hstart, hstop⟩
    obtain ⟨b, hb, rfl⟩ := List.mem_map.mp hi
    obtain ⟨f, hf, hs⟩ := h.first b hb
    have hfe : f.epoch = b.epoch := by simpa using List.find?_some hf
    refine ⟨f, by rw [hfe]; exact hf, by rw [← hs]; exact hstart, ?_⟩
    obtain ⟨e, he, hee, ht⟩ := (h.last b hb t).mp hstop
    exact ⟨e, he, hee.trans hfe.symm, ht⟩
  · rintro ⟨f, hf, hstart, e, he, hee, ht⟩
    obtain ⟨b, hb, hbf⟩ := h.all f (List.mem_of_find?_eq_some hf)
    obtain ⟨f', hf', hs⟩ := h.first b hb
    have hff : f' = f := by
      rw [hbf, hf] at hf'
      exact (Option.some.inj hf').symm
    refine ⟨b.interval, List.mem_map_of_mem hb, ?_, ?_⟩
    · change b.startedAt ≤ t
      rw [hs, hff]
      exact hstart
    · exact (h.last b hb t).mpr ⟨e, he, hee.trans hbf.symm, ht⟩

theorem runningMoment_iff (row : Option SandboxLeaseRow) {t : ℤ} (ht : t < till) :
    Interval.Covered (runningIntervals row till) t ↔ RunningMoment row t := by
  rcases row with _ | row
  · simp [Interval.Covered, runningIntervals, RunningMoment]
  rcases hstart : row.start with _ | start
  · simp [Interval.Covered, runningIntervals, RunningMoment, hstart]
  by_cases hh : hosted row <;>
    simp [Interval.Covered, runningIntervals, RunningMoment, hstart, hh, Interval.Holds, ht]

/-- The epoch still on a host shares no moment with a recorded boot. -/
theorem InOrder.running_apart {tables : Tables} (h : InOrder tables) (hn : NotRevived tables) (till : ℤ) :
    ((tables.boots.map Boot.interval) ++ runningIntervals tables.row till).Pairwise Interval.Apart := by
  refine List.pairwise_append.mpr ⟨List.pairwise_map.mpr h.boots.apart, ?_, ?_⟩
  · unfold runningIntervals
    split
    · exact .nil
    · rename_i row _
      split_ifs
      · cases row.start <;> simp
      · exact .nil
  · intro i hi j hj
    obtain ⟨b, hb, rfl⟩ := List.mem_map.mp hi
    rcases hrow : tables.row with _ | row
    · simp [runningIntervals, hrow] at hj
    by_cases hh : hosted row
    · obtain ⟨start, hstart, rfl⟩ : ∃ start, row.start = some start ∧ j = ⟨start.startedAt, till⟩ := by
        rcases hs : row.start with _ | start <;> simp_all [runningIntervals]
      refine Interval.Apart.of_le ?_
      by_cases he : b.epoch = row.epoch
      · exact hn row hrow hh start hstart b hb he
      · exact h.start row hrow start hstart b hb he
    · simp [runningIntervals, hrow, hh] at hj

section
open Classical

/-- Over every run whose writes record their moments in order, and wherever the epoch on a host was
not revived on a start already recorded as ended, the machine time is the number of moments of the
range that lie in an ended boot or in the epoch still running, and no moment lies in both. -/
theorem machineTime_counts_each_moment_once (regions : Regions) (workspaceId : String) (labels : List D1Label)
    (ht : Lib.Meets (d1Step regions workspaceId) (TimelyStep regions workspaceId) {} labels)
    (hn : NotRevived (Lib.run (d1Step regions workspaceId) {} labels).tables) (since till : ℤ) (hrange : since ≤ till) :
    machineTime (Lib.run (d1Step regions workspaceId) {} labels).tables since till =
      ((Finset.Ico since till).filter fun t => EndedMoment (endings regions workspaceId {} labels) t ∨
        RunningMoment (Lib.run (d1Step regions workspaceId) {} labels).tables.row t).card ∧
    machineTime (Lib.run (d1Step regions workspaceId) {} labels).tables since till ≤ till - since ∧
    ∀ t, EndedMoment (endings regions workspaceId {} labels) t →
      ¬ RunningMoment (Lib.run (d1Step regions workspaceId) {} labels).tables.row t := by
  set tables := (Lib.run (d1Step regions workspaceId) {} labels).tables with htables
  have hsum : Summarizes tables.boots (endings regions workspaceId {} labels) :=
    Summarizes.empty.run regions workspaceId labels
  have hord : InOrder tables :=
    Lib.invariant_of_meets (fun s : D1State => InOrder s.tables)
      (fun s label hs hc => hs.d1Step regions workspaceId hc) InOrder.empty ht
  have hmoments : machineTime tables since till =
      (((tables.boots.map Boot.interval) ++ runningIntervals tables.row till).map
        (Interval.clipped since till)).sum := by
    rw [machineTime_eq_spent, spent, List.map_append, List.sum_append, List.map_append, List.sum_append,
      sum_endedSpent hord.boots.started hrange, sum_hostedSpent _ hrange]
  refine ⟨?_, ?_, ?_⟩
  · rw [hmoments, Interval.sum_clipped_eq_card since till (hord.running_apart hn till)]
    congr 2
    refine Finset.filter_congr fun t htr => ?_
    rw [← hsum.endedMoment_iff, ← runningMoment_iff tables.row (Finset.mem_Ico.mp htr).2]
    simp [Interval.Covered, or_and_right, exists_or]
  · rw [hmoments]
    exact Interval.sum_clipped_le hrange (hord.running_apart hn till)
  · intro t hend hrun
    obtain ⟨i, hi, hit⟩ := (hsum.endedMoment_iff t).mpr hend
    obtain ⟨j, hj, hjt⟩ := (runningMoment_iff tables.row (Int.lt_succ t)).mpr hrun
    exact (List.pairwise_append.mp (hord.running_apart hn (t + 1))).2.2 i hi j hj t hit hjt

end

/-- The clock a call stamps its write with. -/
def LeaseCall.now : LeaseCall → ℤ
  | .acquire _ now | .recordTarget _ _ _ now | .update _ _ _ now | .recordFailure _ _ _ now | .release now => now

/-- Calls made one after another, each written before the next one reads. -/
def inTurn : ℕ → List LeaseCall → List D1Label
  | _, [] => []
  | id, call :: calls => .begin id call :: .read id :: .write id :: inTurn (id + 1) calls

/-- The row each of the calls leaves, with the moment it was written. -/
def rowHistory (regions : Regions) (workspaceId : String) (calls : List LeaseCall) : List (ℤ × Option SandboxLeaseRow) :=
  calls.inits.filterMap fun made => made.getLast?.map fun call =>
    (call.now, (Lib.run (d1Step regions workspaceId) {} (inTurn 0 made)).tables.row)

/-- Whether the row was hosted at `t`: serving, or acquiring on a reported host with its start recorded. -/
def hostedAt (history : List (ℤ × Option SandboxLeaseRow)) (t : ℤ) : Bool :=
  match (history.filter fun entry => entry.1 ≤ t).getLast? with
  | some (_, some row) => hosted row ∧ row.start.isSome
  | _ => false

namespace Example

def start (startedAt : ℤ) : SandboxStartProgress :=
  { requestedAt := startedAt, startedAt := startedAt, bootMode := .coldStart, markedAt := startedAt, phases := [],
    failures := none }

def acquireAt (now : ℤ) : LeaseCall :=
  .acquire { homeRegion := "us-east", driver := "test", staleAfterMs := 10, labels := none, machineClass := none,
             start := some (start now) } now

def targetAt (epoch : ℕ) (now : ℤ) : LeaseCall :=
  .recordTarget epoch { sandboxId := "sbx", url := some "http://sbx", hostId := "host", driverResourceId := none,
                        labels := [], persistence := none } "route" now

/-- A boot from 0, its host reported at 1, stopped at 3. -/
def bootAndStop : List LeaseCall := [acquireAt 0, targetAt 1 1, .update 1 { status := some .stopped } none 3]

/-- The same workspace started again at 5, and still serving. -/
def bootTwice : List LeaseCall := bootAndStop ++ [acquireAt 5, targetAt 2 6]

end Example

/-- A boot is metered from its recorded start, before the driver reports the host: the report counts
the moments from 0 to 3, of which the row was hosted from 1 on. -/
theorem machineTime_exceeds_hosted_moments :
    ¬ ∀ (regions : Regions) (calls : List LeaseCall) (since till : ℤ),
      (calls.map LeaseCall.now).Pairwise (· ≤ ·) → since ≤ till → (∀ call ∈ calls, call.now ≤ till) →
      (∀ call ∈ calls, ∀ epoch patch expected now, call = .update epoch patch expected now → patch.endedAt = none) →
      machineTime (Lib.run (d1Step regions "ws") {} (inTurn 0 calls)).tables since till =
        ((Finset.Ico since till).filter fun t => hostedAt (rowHistory regions "ws" calls) t).card := by
  intro h
  have hended : ∀ call ∈ Example.bootAndStop, ∀ epoch patch expected now,
      call = .update epoch patch expected now → patch.endedAt = none := by
    intro call hcall epoch patch expected now hupdate
    subst hupdate
    simp only [Example.bootAndStop, Example.acquireAt, Example.targetAt, List.mem_cons, List.not_mem_nil, or_false,
      reduceCtorEq, false_or, LeaseCall.update.injEq] at hcall
    rw [hcall.2.1]
  have heq := h { known := ["us-east"] } Example.bootAndStop 0 4 (by decide +kernel) (by decide) (by decide +kernel)
    hended
  exact absurd heq (by decide +kernel)

/-- Two boots, the second still running at 10: three moments and five, out of ten. -/
theorem machineTime_counts_two_boots :
    Lib.Meets (d1Step { known := ["us-east"] } "ws") (TimelyStep { known := ["us-east"] } "ws") {}
      (inTurn 0 Example.bootTwice) ∧
    NotRevived (Lib.run (d1Step { known := ["us-east"] } "ws") {} (inTurn 0 Example.bootTwice)).tables ∧
    machineTime (Lib.run (d1Step { known := ["us-east"] } "ws") {} (inTurn 0 Example.bootTwice)).tables 0 10 ≤ 10 ∧
    machineTime (Lib.run (d1Step { known := ["us-east"] } "ws") {} (inTurn 0 Example.bootTwice)).tables 0 10 = 8 := by
  have ht : Lib.Meets (d1Step { known := ["us-east"] } "ws") (TimelyStep { known := ["us-east"] } "ws") {}
      (inTurn 0 Example.bootTwice) := by decide +kernel
  have hn : NotRevived (Lib.run (d1Step { known := ["us-east"] } "ws") {} (inTurn 0 Example.bootTwice)).tables := by
    decide +kernel
  have hcount := machineTime_counts_each_moment_once { known := ["us-east"] } "ws" _ ht hn 0 10 (by decide)
  exact ⟨ht, hn, hcount.2.1, by decide +kernel⟩

end Claxedo.Sandbox
