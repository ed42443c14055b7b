import Claxedo.Lib.Run
import Claxedo.Presentation.State

/-! One tool call on its own: what is kept of it, what a report makes of that, and what it shows of the call. -/

namespace Claxedo.Presentation

open Claxedo.Lib

/-- What a part shows of its call. -/
inductive Shown where
  | pending
  | running
  | completed (output : String) (files : List FileShown)
  | error (text : String)
  deriving DecidableEq

def Shown.finished : Shown → Bool
  | .completed .. | .error _ => true
  | _ => false

structure CallRecord where
  status : Option ToolStatus
  output : Option String
  files : List FileShown
  error : Option String

inductive Report where
  | start
  | input
  | status (status : ToolStatus)
  | content (text : Option String)
  | output (text : String) (files : List FileShown)
  | error (text : String)
  | location
  | terminal
  | close (text : String)

namespace CallRecord

def empty : CallRecord := ⟨none, none, [], none⟩

def shownAs (output : String) (files : List FileShown) (error : String) : ToolStatus → Shown
  | .pending => .pending
  | .running => .running
  | .completed => .completed output files
  | .error => .error error

/-- The call as it is kept, in a status. -/
def drawn (r : CallRecord) (status : ToolStatus) : Shown :=
  shownAs (r.output.getD "") r.files (r.error.getD "tool failed") status

def isTerminal (r : CallRecord) : Bool := r.status = some .completed || r.status = some .error

def isOpen (r : CallRecord) : Bool := r.status = some .pending || r.status = some .running

def report (r : CallRecord) : Report → CallRecord × Option Shown
  | .start => ({ r with status := some (r.status.getD .running) }, some (r.drawn (r.status.getD .running)))
  | .input => ({ r with status := some .running }, some .running)
  | .status status => ({ r with status := some status }, some (r.drawn status))
  | .content text => (r, some (shownAs (text.getD "") r.files "tool failed" (r.status.getD .running)))
  | .output text files =>
    if r.isTerminal then (r, none)
    else
      let files := if files = [] then r.files else files
      (⟨some .completed, some text, files, r.error⟩, some (.completed text files))
  | .error text => if r.isTerminal then (r, none) else ({ r with status := some .error, error := some text }, some (.error text))
  | .location => (r, some .running)
  | .terminal => (r, some (r.drawn (r.status.getD .running)))
  | .close text => if r.isOpen then ({ r with status := some .error, error := some text }, some (.error text)) else (r, none)

/-- How a finished call is kept. -/
def settled (r : CallRecord) : Option Shown :=
  match r.status with
  | some .completed => some (r.drawn .completed)
  | some .error => some (r.drawn .error)
  | _ => none

/-- A finished call has no report but one that shows it as it is kept. -/
def Spares (r : CallRecord) : Report → Prop
  | .input | .location => r.isTerminal = false
  | .status status => r.isTerminal → r.status = some status
  | .content text =>
    (r.status = some .completed → text.getD "" = r.output.getD "") ∧
      (r.status = some .error → r.error.getD "tool failed" = "tool failed")
  | _ => True

/-- A call is shown by what it points to only once its status is kept, and by a location only while it is open. -/
def Follows (r : CallRecord) : Report → Prop
  | .content _ | .terminal => r.status.isSome
  | .location => r.isOpen
  | _ => True

end CallRecord

namespace CallRecord

variable {r : CallRecord} {rep : Report} {x p : Shown}

theorem isTerminal_iff : r.isTerminal = true ↔ r.status = some .completed ∨ r.status = some .error := by
  simp [isTerminal]

theorem isOpen_iff : r.isOpen = true ↔ r.status = some .pending ∨ r.status = some .running := by
  simp [isOpen]

theorem settled_eq_some : r.settled = some p ↔
    r.status = some .completed ∧ p = r.drawn .completed ∨ r.status = some .error ∧ p = r.drawn .error := by
  rcases r with ⟨_ | status, output, files, error⟩
  · simp [settled]
  · cases status <;> simp [settled, eq_comm]

theorem settled_of_drawn {status : ToolStatus} (h : (r.drawn status).finished = true) :
    CallRecord.settled { r with status := some status } = some (r.drawn status) := by
  cases status <;> first | rfl | cases h

theorem status_of_finished {output error : String} {files : List FileShown}
    (h : (shownAs output files error (r.status.getD .running)).finished = true) :
    r.status = some .completed ∨ r.status = some .error := by
  rcases r with ⟨_ | status, output, files, error⟩
  · cases h
  · cases status <;> first | exact .inl rfl | exact .inr rfl | cases h

/-- A report shows a call finished only as it is kept from then on. -/
theorem settled_of_shown (hspares : r.Spares rep) (hshown : (r.report rep).2 = some x) (hfin : x.finished = true) :
    (r.report rep).1.settled = some x := by
  cases rep with
  | start | status =>
    obtain rfl := Option.some.inj hshown
    exact settled_of_drawn hfin
  | input | location =>
    obtain rfl := Option.some.inj hshown
    cases hfin
  | content text =>
    obtain rfl := Option.some.inj hshown
    rw [settled_eq_some]
    rcases status_of_finished hfin with h | h
    · left
      refine ⟨h, ?_⟩
      simp [report, drawn, shownAs, h, hspares.1 h]
    · right
      refine ⟨h, ?_⟩
      simp [report, drawn, shownAs, h, hspares.2 h]
  | terminal =>
    obtain rfl := Option.some.inj hshown
    rw [settled_eq_some]
    rcases status_of_finished hfin with h | h
    · exact .inl ⟨h, by simp [report, h]⟩
    · exact .inr ⟨h, by simp [report, h]⟩
  | output | error | close =>
    simp only [report] at hshown ⊢
    split_ifs at hshown ⊢ <;> cases hshown <;> rfl

theorem with_status {status : ToolStatus} (h : r.status = some status) : { r with status := some status } = r := by
  rw [← h]

/-- The status of a call kept as finished, and how it is drawn in it. -/
theorem status_of_settled (h : r.settled = some p) :
    ∃ status, r.status = some status ∧ r.isTerminal = true ∧ r.isOpen = false ∧ p = r.drawn status := by
  rcases settled_eq_some.mp h with ⟨hstatus, rfl⟩ | ⟨hstatus, rfl⟩
  · exact ⟨_, hstatus, by simp [isTerminal, hstatus], by simp [isOpen, hstatus], rfl⟩
  · exact ⟨_, hstatus, by simp [isTerminal, hstatus], by simp [isOpen, hstatus], rfl⟩

/-- A finished call stays as it is kept, and a report that spares it shows it so. -/
theorem settled_of_spares (hspares : r.Spares rep) (h : r.settled = some p) :
    (r.report rep).1.settled = some p ∧ ∀ x, (r.report rep).2 = some x → x = p := by
  obtain ⟨status, hstatus, hterm, hopen, rfl⟩ := status_of_settled h
  cases rep with
  | start => simpa [report, hstatus, with_status hstatus] using h
  | terminal => simpa [report, hstatus] using h
  | input | location => simp [Spares, hterm] at hspares
  | status status' =>
    obtain rfl : status = status' := by simpa [hstatus] using hspares hterm
    simpa [report, with_status hstatus] using h
  | content text =>
    refine ⟨h, fun x hx => ?_⟩
    obtain rfl := Option.some.inj hx
    rcases isTerminal_iff.mp hterm with hend | hend
    · obtain rfl : ToolStatus.completed = status := by simpa [hend] using hstatus
      simp [hstatus, drawn, shownAs, hspares.1 hstatus]
    · obtain rfl : ToolStatus.error = status := by simpa [hend] using hstatus
      simp [hstatus, drawn, shownAs, hspares.2 hstatus]
  | output | error => simp [report, hterm, h]
  | close => simp [report, hopen, h]

/-- How a call of which `isTerminal` holds is kept. -/
theorem exists_settled (h : r.isTerminal = true) : ∃ status, r.status = some status ∧ r.settled = some (r.drawn status) := by
  rcases isTerminal_iff.mp h with h | h <;> exact ⟨_, h, by simp [settled, h]⟩

theorem shown_of_not_spares (hspares : ¬ r.Spares rep) :
    ∃ p x, r.settled = some p ∧ (r.report rep).2 = some x ∧ x ≠ p := by
  cases rep with
  | input | location =>
    obtain ⟨status, hstatus, hsettled⟩ := exists_settled (r := r) (by simpa [Spares] using hspares)
    refine ⟨_, _, hsettled, rfl, ?_⟩
    rcases settled_eq_some.mp hsettled with ⟨-, heq⟩ | ⟨-, heq⟩ <;> rw [heq] <;> simp [drawn, shownAs]
  | status status =>
    simp only [Spares, Classical.not_imp] at hspares
    obtain ⟨status', hstatus, hsettled⟩ := exists_settled hspares.1
    refine ⟨_, _, hsettled, rfl, ?_⟩
    have hne : status ≠ status' := fun h => hspares.2 (by rw [hstatus, h])
    cases status <;> cases status' <;> simp_all [drawn, shownAs]
  | content text =>
    simp only [Spares, not_and_or, Classical.not_imp] at hspares
    rcases hspares with ⟨hstatus, hne⟩ | ⟨hstatus, hne⟩
    · exact ⟨_, _, by simp [settled, hstatus]; rfl, rfl, by simpa [hstatus, drawn, shownAs] using hne⟩
    · exact ⟨_, _, by simp [settled, hstatus]; rfl, rfl, by simpa [hstatus, drawn, shownAs, eq_comm] using hne⟩
  | _ => exact absurd trivial hspares

end CallRecord

/-- What is kept of a call, and what was shown of it in order. -/
structure CallTrace where
  record : CallRecord
  shown : List Shown

namespace CallTrace

def start : CallTrace := ⟨.empty, []⟩

def step (t : CallTrace) (rep : Report) : CallTrace :=
  ⟨(t.record.report rep).1, t.shown ++ (t.record.report rep).2.toList⟩

/-- What a call was once shown to have come to, it is shown to have come to ever after. -/
def Stays (shown : List Shown) : Prop := shown.Pairwise fun p q => p.finished → q = p

/-- The last that was shown of the call is its end, or the sweep finds it open. -/
def Tracks (t : CallTrace) : Prop := ∀ x, t.shown.getLast? = some x → x.finished = true ∨ t.record.isOpen = true

section
variable {t : CallTrace} {rep : Report} {reps : List Report} {p : Shown}

theorem stays_append_option {shown : List Shown} {x : Option Shown} :
    Stays (shown ++ x.toList) ↔ Stays shown ∧ ∀ q, x = some q → ∀ p ∈ shown, p.finished = true → q = p := by
  cases x with
  | none => simp
  | some x =>
    simp only [Stays, Option.toList_some, List.pairwise_append, List.pairwise_cons, List.not_mem_nil, List.mem_singleton,
      Option.some.injEq, forall_eq', forall_eq, List.Pairwise.nil]
    tauto

/-- How a call is kept once it is finished has been shown. -/
theorem settled_mem_step (h : ∀ p, t.record.settled = some p → p ∈ t.shown) :
    (t.step rep).record.settled = some p → p ∈ (t.step rep).shown := by
  intro hp
  rw [step, List.mem_append]
  cases rep with
  | start | status =>
    right
    rcases CallRecord.settled_eq_some.mp hp with ⟨hstatus, rfl⟩ | ⟨hstatus, rfl⟩ <;>
      · have hdrawn := Option.some.inj hstatus
        simp only [CallRecord.report, hdrawn, Option.toList_some, List.mem_singleton]
        rfl
  | input => cases hp
  | content | location | terminal => exact .inl (h p hp)
  | output | error | close =>
    simp only [step, CallRecord.report] at hp ⊢
    split_ifs at hp ⊢
    all_goals first | exact .inl (h p hp) | (cases hp; right; simp [CallRecord.drawn, CallRecord.shownAs])

theorem settled_mem (reps : List Report) :
    (run step start reps).record.settled = some p → p ∈ (run step start reps).shown := by
  induction reps using List.reverseRecOn generalizing p with
  | nil => intro h; cases h
  | append_singleton reps rep ih =>
    rw [run_snoc]
    exact settled_mem_step fun _ => ih

/-- Whatever was shown finished is how the call is kept, while every report spares it. -/
theorem settled_of_mem (h : Meets step (fun t rep => t.record.Spares rep) start reps) :
    ∀ p ∈ (run step start reps).shown, p.finished = true → (run step start reps).record.settled = some p := by
  refine invariant_of_meets (fun t => ∀ p ∈ t.shown, p.finished = true → t.record.settled = some p) ?_ (by simp [start]) h
  intro t rep ht hspares p hp hfin
  rcases List.mem_append.mp hp with hp | hp
  · exact (CallRecord.settled_of_spares hspares (ht p hp hfin)).1
  · exact CallRecord.settled_of_shown hspares (Option.mem_toList.mp hp) hfin

/-- A finished call stays finished exactly as long as every report on it spares it. -/
theorem stays_iff_meets (reps : List Report) :
    Stays (run step start reps).shown ↔ Meets step (fun t rep => t.record.Spares rep) start reps := by
  induction reps using List.reverseRecOn with
  | nil => simp [Stays, Meets, start]
  | append_singleton reps rep ih =>
    rw [run_snoc, meets_append, ← ih, step, stays_append_option]
    refine and_congr_right fun hstays => ?_
    have hkept := settled_of_mem (ih.mp hstays)
    constructor
    · intro hnew
      refine ⟨by_contra fun hnot => ?_, trivial⟩
      obtain ⟨p, x, hsettled, hx, hne⟩ := CallRecord.shown_of_not_spares hnot
      have hfin : p.finished = true := by
        rcases CallRecord.settled_eq_some.mp hsettled with ⟨-, rfl⟩ | ⟨-, rfl⟩ <;> rfl
      exact hne (hnew x hx p (settled_mem reps hsettled) hfin)
    · rintro ⟨hspares, -⟩ q hq p hp hfin
      exact (CallRecord.settled_of_spares hspares (hkept p hp hfin)).2 q hq

theorem isOpen_of_follows {r : CallRecord} {x : Shown} (hfollows : r.Follows rep) (hshown : (r.report rep).2 = some x)
    (hfin : x.finished = false) : (r.report rep).1.isOpen = true := by
  have hdrawn {output error : String} {files : List FileShown} {status : ToolStatus}
      (h : (CallRecord.shownAs output files error status).finished = false) : status = .pending ∨ status = .running := by
    cases status <;> first | exact .inl rfl | exact .inr rfl | cases h
  rw [CallRecord.isOpen_iff]
  cases rep with
  | start | status =>
    obtain rfl := Option.some.inj hshown
    exact (hdrawn hfin).imp (congrArg some) (congrArg some)
  | input => exact .inr rfl
  | location => exact CallRecord.isOpen_iff.mp hfollows
  | content | terminal =>
    obtain rfl := Option.some.inj hshown
    obtain ⟨status, hstatus⟩ := Option.isSome_iff_exists.mp hfollows
    rw [hstatus, Option.getD_some] at hfin
    exact (hdrawn hfin).imp (hstatus ▸ congrArg some) (hstatus ▸ congrArg some)
  | output | error | close =>
    simp only [CallRecord.report] at hshown
    split_ifs at hshown <;> cases hshown <;> cases hfin

theorem record_of_shown_none {r : CallRecord} (h : (r.report rep).2 = none) : (r.report rep).1 = r := by
  cases rep with
  | output | error | close =>
    simp only [CallRecord.report] at h ⊢
    split_ifs at h ⊢
    rfl
  | _ => cases h

theorem getLast?_step {y : Shown} (h : (t.record.report rep).2 = some y) : (t.step rep).shown.getLast? = some y := by
  rw [step, h, Option.toList_some, List.getLast?_append_of_ne_nil _ (List.cons_ne_nil _ _)]
  rfl

theorem step_of_shown_none (h : (t.record.report rep).2 = none) : t.step rep = t := by
  rw [step, record_of_shown_none h, h, Option.toList_none, List.append_nil]

theorem tracks_step (hfollows : t.record.Follows rep) (h : Tracks t) : Tracks (t.step rep) := by
  rcases hshown : (t.record.report rep).2 with _ | y
  · rw [step_of_shown_none hshown]
    exact h
  · intro x hx
    obtain rfl : y = x := by simpa [getLast?_step hshown] using hx
    rcases hfin : y.finished with _ | _
    · exact .inr (isOpen_of_follows hfollows hshown hfin)
    · exact .inl rfl

/-- What is shown without a status kept for it is left behind by a sweep. -/
theorem not_tracks_step (hfollows : ¬ t.record.Follows rep) : ¬ Tracks (t.step rep) := by
  intro h
  cases rep with
  | content | terminal =>
    have hnone : t.record.status = none := by simpa [CallRecord.Follows] using hfollows
    have hrunning := h .running (getLast?_step (by simp [CallRecord.report, CallRecord.drawn, CallRecord.shownAs, hnone]))
    rcases hrunning with hfin | hopen
    · cases hfin
    · simp [step, CallRecord.report, CallRecord.isOpen, hnone] at hopen
  | location =>
    rcases h .running (getLast?_step rfl) with hfin | hopen
    · cases hfin
    · exact hfollows hopen
  | _ => exact hfollows trivial

/-- A call last shown finished is not open. -/
def Ended (t : CallTrace) : Prop := ∀ x, t.shown.getLast? = some x → x.finished = true → t.record.isOpen = false

theorem isOpen_of_terminal {r : CallRecord} (h : r.status = some .completed ∨ r.status = some .error) : r.isOpen = false := by
  rcases h with h | h <;> simp [CallRecord.isOpen, h]

theorem ended_step (h : Ended t) : Ended (t.step rep) := by
  rcases hshown : (t.record.report rep).2 with _ | y
  · rw [step_of_shown_none hshown]
    exact h
  · intro x hx hfin
    obtain rfl : y = x := by simpa [getLast?_step hshown] using hx
    cases rep with
    | start | status =>
      obtain rfl := Option.some.inj hshown
      exact isOpen_of_terminal ((CallRecord.settled_eq_some.mp (CallRecord.settled_of_drawn hfin)).imp And.left And.left)
    | input | location =>
      obtain rfl := Option.some.inj hshown
      cases hfin
    | content | terminal =>
      obtain rfl := Option.some.inj hshown
      exact isOpen_of_terminal (CallRecord.status_of_finished hfin)
    | output | error | close =>
      simp only [step, CallRecord.report] at hshown ⊢
      split_ifs at hshown ⊢ <;> rfl

theorem ended_run (reps : List Report) : Ended (run step start reps) :=
  invariant_of_run Ended (fun _ _ => ended_step) (fun x hx => by cases hx) reps

theorem getLast?_close {error : String} (h : t.record.isOpen = true) :
    (t.step (.close error)).shown.getLast? = some (.error error) :=
  getLast?_step (by simp [CallRecord.report, h])

/-- A sweep leaves the call last shown finished exactly where it finds it as it was last shown. -/
theorem finished_of_close_iff (error : String) :
    (∀ x, (t.step (.close error)).shown.getLast? = some x → x.finished = true) ↔ Tracks t := by
  rcases hopen : t.record.isOpen with _ | _
  · have hsame : t.step (.close error) = t := step_of_shown_none (by simp [CallRecord.report, hopen])
    simp [hsame, Tracks, hopen]
  · simp [getLast?_close hopen, Tracks, hopen, Shown.finished]

theorem isOpen_close (error : String) : (t.step (.close error)).record.isOpen = false := by
  rcases hopen : t.record.isOpen with _ | _
  · rw [step_of_shown_none (by simp [CallRecord.report, hopen]), hopen]
  · rw [step, CallRecord.report, if_pos hopen]
    rfl

end

end CallTrace

end Claxedo.Presentation
