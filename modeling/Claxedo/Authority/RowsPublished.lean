import Claxedo.Authority.SessionRows

/-! Publications and stamps as they reach the registry, session by session: what a run leaves of one session's row is what its
reports come to, and a publication applied again right after itself leaves everything as it is. -/

namespace Claxedo.Authority

open Claxedo.Lib

section
variable (served : String → Bool) (existing : String → Option RegisteredSession)

theorem planRow_parts (plan : HostSessionRowsPlan) (row : HostSessionRow) :
    (plan.planRow served existing row).update =
        plan.update ++ (if refusal served existing row.toSessionRef = none then [row] else []) ∧
      (plan.planRow served existing row).adopt =
        plan.adopt ++ (if refusal served existing row.toSessionRef = none ∧ (existing row.sessionId).isNone = true then [row] else []) ∧
      (plan.planRow served existing row).remove = plan.remove := by
  unfold HostSessionRowsPlan.planRow HostSessionRowsPlan.admit
  rcases hr : refusal served existing row.toSessionRef with _ | reason
  · by_cases hn : (existing row.sessionId).isNone = true
    · simp [hn]
    · simp [hn]
  · simp

theorem foldl_planRow (rows : List HostSessionRow) (plan : HostSessionRowsPlan) :
    (rows.foldl (HostSessionRowsPlan.planRow served existing) plan).update =
        plan.update ++ rows.filter (fun row => refusal served existing row.toSessionRef = none) ∧
      (rows.foldl (HostSessionRowsPlan.planRow served existing) plan).adopt =
        plan.adopt ++ rows.filter (fun row => refusal served existing row.toSessionRef = none ∧
            (existing row.sessionId).isNone = true) ∧
      (rows.foldl (HostSessionRowsPlan.planRow served existing) plan).remove = plan.remove := by
  induction rows generalizing plan with
  | nil => simp
  | cons row rows ih =>
    obtain ⟨hupdate, hadopt, hremove⟩ := planRow_parts served existing plan row
    obtain ⟨ih1, ih2, ih3⟩ := ih (plan.planRow served existing row)
    rw [List.foldl_cons, ih1, ih2, ih3, hupdate, hadopt, hremove, List.filter_cons, List.filter_cons]
    refine ⟨?_, ?_, rfl⟩
    · split_ifs <;> simp_all
    · split_ifs <;> simp_all

theorem foldl_planRemoval (refs : List SessionRef) (plan : HostSessionRowsPlan) :
    (refs.foldl (HostSessionRowsPlan.planRemoval served existing) plan).update = plan.update ∧
      (refs.foldl (HostSessionRowsPlan.planRemoval served existing) plan).adopt = plan.adopt ∧
      (refs.foldl (HostSessionRowsPlan.planRemoval served existing) plan).remove =
        plan.remove ++ refs.filter (fun ref => refusal served existing ref = none) := by
  induction refs generalizing plan with
  | nil => simp
  | cons ref refs ih =>
    rw [List.foldl_cons, List.filter_cons]
    obtain ⟨ih1, ih2, ih3⟩ := ih (plan.planRemoval served existing ref)
    rw [ih1, ih2, ih3]
    unfold HostSessionRowsPlan.planRemoval HostSessionRowsPlan.admit
    rcases hr : refusal served existing ref with _ | reason <;> simp

/-- The plan updates the admitted rows, adopts those of sessions not seen before, and removes the admitted references. -/
theorem plan_parts (publication : HostSessionRowsPublication) :
    (planHostSessionRows served existing publication).update =
        publication.rows.filter (fun row => refusal served existing row.toSessionRef = none) ∧
      (planHostSessionRows served existing publication).adopt =
        publication.rows.filter (fun row => refusal served existing row.toSessionRef = none ∧ (existing row.sessionId).isNone = true) ∧
      (planHostSessionRows served existing publication).remove =
        publication.removed.filter (fun ref => refusal served existing ref = none) := by
  unfold planHostSessionRows
  obtain ⟨h1, h2, h3⟩ := foldl_planRemoval served existing publication.removed
    (publication.rows.foldl (HostSessionRowsPlan.planRow served existing) {})
  obtain ⟨h1', h2', h3'⟩ := foldl_planRow served existing publication.rows {}
  rw [h1, h2, h3, h1', h2', h3']
  exact ⟨rfl, rfl, rfl⟩

end

/-- What an event reports of a session. -/
def SessionRowsEvent.reports (ref : SessionRef) : SessionRowsEvent → List RowReport
  | .publish _ served existing publication =>
    ((planHostSessionRows served existing publication).update.filter fun row => row.toSessionRef = ref).map .published
  | .stamp ref' kind stampedAt => if ref' = ref then [.stamped kind stampedAt] else []

def SessionRowsEvent.removes (ref : SessionRef) : SessionRowsEvent → Bool
  | .publish _ served existing publication => ref ∈ (planHostSessionRows served existing publication).remove
  | .stamp .. => false

/-- The row an event adopts a session with. -/
def SessionRowsEvent.adopts (ref : SessionRef) : SessionRowsEvent → Option HostSessionRow
  | .publish _ served existing publication =>
    ((planHostSessionRows served existing publication).adopt.find? fun row => row.sessionId = ref.sessionId).filter fun row =>
      row.toSessionRef = ref
  | .stamp .. => none

namespace Sessions

variable {rows : Sessions} {ref : SessionRef} {held : SessionRow}

variable {f : SessionRow → SessionRow}

theorem get_update (rows : Sessions) (ref : SessionRef) (hf : ∀ held, (f held).toSessionRef = held.toSessionRef)
    (sessionId : String) :
    get sessionId (update ref f rows) = (get sessionId rows).map fun held => if names ref held then f held else held := by
  unfold get update
  refine Table.get_map (fun held => ?_) sessionId rows
  split_ifs
  · exact congrArg SessionRef.sessionId (hf held)
  · rfl

/-- The registry holds the session in the workspace, not deleted. -/
structure Holds (rows : Sessions) (ref : SessionRef) (held : SessionRow) : Prop where
  get : rows.get ref.sessionId = some held
  ref : held.toSessionRef = ref
  alive : held.deletedAt = none

theorem Holds.update (h : Holds rows ref held) (hf : ∀ held, (f held).toSessionRef = held.toSessionRef)
    (hdeleted : ∀ held, (f held).deletedAt = held.deletedAt) : Holds (update ref f rows) ref (f held) := by
  refine ⟨?_, (hf held).trans h.ref, (hdeleted held).trans h.alive⟩
  rw [get_update rows ref hf, h.get, Option.map_some, if_pos]
  simp [names, h.ref, h.alive]

theorem Holds.update_ne (h : Holds rows ref held) {ref' : SessionRef} (hne : ref' ≠ ref)
    (hf : ∀ held, (f held).toSessionRef = held.toSessionRef) : Holds (Sessions.update ref' f rows) ref held := by
  refine ⟨?_, h.ref, h.alive⟩
  rw [get_update rows ref' hf, h.get, Option.map_some, if_neg]
  simp [names, h.ref, Ne.symm hne]

theorem Holds.adopt (h : Holds rows ref held) (row : HostSessionRow) : Holds (rows.adopt row) ref held := by
  unfold Sessions.adopt
  rcases Sessions.get row.sessionId rows with _ | found
  · refine ⟨?_, h.ref, h.alive⟩
    unfold Sessions.get
    rw [Table.get_append, show Table.get _ ref.sessionId rows = some held from h.get]
    rfl
  · exact h

theorem Holds.adoptAll (h : Holds rows ref held) (adopted : List HostSessionRow) :
    Holds (adopted.foldl Sessions.adopt rows) ref held := by
  induction adopted generalizing rows with
  | nil => exact h
  | cons row adopted ih => exact ih (h.adopt row)

theorem updateReturning_fst (updated : List HostSessionRow) (state : Sessions × List SessionRow) :
    (updated.foldl updateReturning state).1 =
      updated.foldl (fun rows row => Sessions.update row.toSessionRef (listFields row) rows) state.1 := by
  induction updated generalizing state with
  | nil => rfl
  | cons row updated ih => exact ih _

theorem Holds.updateAll (h : Holds rows ref held) (updated : List HostSessionRow) :
    Holds (updated.foldl (fun rows row => Sessions.update row.toSessionRef (listFields row) rows) rows) ref
      (told held ((updated.filter fun row => row.toSessionRef = ref).map .published)) := by
  induction updated generalizing rows held with
  | nil => exact h
  | cons row updated ih =>
    rw [List.foldl_cons, List.filter_cons]
    by_cases href : row.toSessionRef = ref
    · rw [if_pos (by simpa using href), List.map_cons]
      exact ih (href ▸ h.update (f := listFields row) (fun _ => rfl) fun _ => rfl)
    · rw [if_neg (by simpa using href)]
      exact ih (h.update_ne href fun _ => rfl)

theorem Holds.removeAll (h : Holds rows ref held) {removed : List SessionRef} (hnot : ref ∉ removed) (now : ℕ) :
    Holds (removed.foldl (fun rows ref => Sessions.update ref (fun held => { held with deletedAt := some now }) rows) rows) ref held := by
  induction removed generalizing rows with
  | nil => exact h
  | cons ref' removed ih =>
    rw [List.mem_cons, not_or] at hnot
    exact ih (h.update_ne (Ne.symm hnot.1) fun _ => rfl) hnot.2

theorem Holds.step (h : Holds rows ref held) {event : SessionRowsEvent} (hkeeps : event.removes ref = false) :
    Holds (rows.step event) ref (told held (event.reports ref)) := by
  cases event with
  | publish now served existing publication =>
    unfold Sessions.step publish
    dsimp only
    rw [updateReturning_fst]
    refine Holds.removeAll ?_ (by simpa [SessionRowsEvent.removes] using hkeeps) now
    exact (h.adoptAll _).updateAll _
  | stamp ref' kind stampedAt =>
    unfold Sessions.step SessionRowsEvent.reports
    dsimp only
    split_ifs with href
    · exact href ▸ h.update (f := stamp kind stampedAt) (fun _ => rfl) fun _ => rfl
    · exact h.update_ne href fun _ => rfl

theorem Holds.run (h : Holds rows ref held) {events : List SessionRowsEvent} (hkeeps : ∀ event ∈ events, event.removes ref = false) :
    Holds (run Sessions.step rows events) ref (told held (events.flatMap (SessionRowsEvent.reports ref))) := by
  induction events generalizing rows held with
  | nil => exact h
  | cons event events ih =>
    obtain ⟨hevent, hevents⟩ := List.forall_mem_cons.mp hkeeps
    rw [run_cons, List.flatMap_cons]
    unfold told
    rw [List.foldl_append]
    exact ih (h.step hevent) hevents

/-- A session the registry does not know is adopted by the first publication that admits it, and then told of by it. -/
theorem Holds.adopted (hnone : rows.get ref.sessionId = none) {event : SessionRowsEvent} {row : HostSessionRow}
    (hadopts : event.adopts ref = some row) (hkeeps : event.removes ref = false) :
    Holds (rows.step event) ref (told row.adopted (event.reports ref)) := by
  cases event with
  | stamp => cases hadopts
  | publish now served existing publication =>
    obtain ⟨hfind, href⟩ := Option.filter_eq_some_iff.mp hadopts
    have href : row.toSessionRef = ref := by simpa using href
    have hadopted (adopted : List HostSessionRow) (hfind : (adopted.find? fun row => row.sessionId = ref.sessionId) = some row) :
        ∀ rows : Sessions, rows.get ref.sessionId = none → Holds (adopted.foldl Sessions.adopt rows) ref row.adopted := by
      induction adopted with
      | nil => cases hfind
      | cons other adopted ih =>
        intro rows hnone
        rw [List.find?_cons] at hfind
        rw [List.foldl_cons]
        by_cases hother : other.sessionId = ref.sessionId
        · simp only [hother, decide_true] at hfind
          obtain rfl := Option.some.inj hfind
          refine Holds.adoptAll ⟨?_, href, rfl⟩ adopted
          have hget : Sessions.get other.sessionId rows = none := hother ▸ hnone
          unfold Sessions.adopt
          rw [hget]
          unfold Sessions.get at *
          rw [Table.get_append, hnone, Option.none_or, Table.get_cons, if_pos]
          exact hother
        · simp only [hother, decide_false] at hfind
          refine ih hfind _ ?_
          unfold Sessions.adopt
          rcases Sessions.get other.sessionId rows with _ | found
          · unfold Sessions.get at *
            rw [Table.get_append, hnone, Option.none_or, Table.get_cons,
              if_neg (show ¬ other.adopted.sessionId = ref.sessionId from hother)]
            rfl
          · exact hnone
    unfold Sessions.step publish
    dsimp only
    rw [updateReturning_fst]
    refine Holds.removeAll ?_ (by simpa [SessionRowsEvent.removes] using hkeeps) now
    exact (hadopted _ hfind rows hnone).updateAll _

/-- Every row stays, and none of its dates goes back. -/
def Forwards (rows after : Sessions) : Prop :=
  ∀ sessionId held, rows.get sessionId = some held → ∃ row, after.get sessionId = some row ∧ held.Forward row

theorem Forwards.refl (rows : Sessions) : Forwards rows rows := fun _ held h => ⟨held, h, SessionRow.Forward.refl held⟩

theorem Forwards.trans {a b c : Sessions} (h : Forwards a b) (h' : Forwards b c) : Forwards a c := by
  intro sessionId held hheld
  obtain ⟨row, hrow, hforward⟩ := h sessionId held hheld
  obtain ⟨row', hrow', hforward'⟩ := h' sessionId row hrow
  exact ⟨row', hrow', hforward.trans hforward'⟩

theorem Forwards.foldl {α : Type} {f : Sessions → α → Sessions} (hf : ∀ rows a, Forwards rows (f rows a)) (as : List α)
    (rows : Sessions) :
    Forwards rows (as.foldl f rows) := by
  induction as generalizing rows with
  | nil => exact Forwards.refl rows
  | cons a as ih => exact (hf rows a).trans (ih (f rows a))

theorem Forwards.update (rows : Sessions) (ref : SessionRef) (hf : ∀ held, (f held).toSessionRef = held.toSessionRef)
    (hforward : ∀ held : SessionRow, held.Forward (f held)) :
    Forwards rows (update ref f rows) := by
  intro sessionId held hheld
  refine ⟨_, by rw [get_update rows ref hf, hheld]; rfl, ?_⟩
  dsimp only
  split_ifs
  · exact hforward held
  · exact SessionRow.Forward.refl held

theorem Forwards.adopt (rows : Sessions) (row : HostSessionRow) : Forwards rows (rows.adopt row) := by
  intro sessionId held hheld
  refine ⟨held, ?_, SessionRow.Forward.refl held⟩
  unfold Sessions.adopt
  rcases Sessions.get row.sessionId rows with _ | found
  · unfold Sessions.get at *
    rw [Table.get_append, hheld]
    rfl
  · exact hheld

theorem Forwards.removeAll (rows : Sessions) (now : ℕ) (removed : List SessionRef) :
    Forwards rows (removed.foldl (fun rows ref => Sessions.update ref (fun held => { held with deletedAt := some now }) rows) rows) :=
  Forwards.foldl (fun (rows : Sessions) (ref : SessionRef) =>
    Forwards.update rows ref (f := fun held => { held with deletedAt := some now }) (fun _ => rfl) fun _ =>
      ⟨rfl, (fun hnone => nomatch hnone), le_rfl, le_rfl, le_rfl, le_rfl⟩) _ _

theorem Forwards.updateAll (rows : Sessions) (updated : List HostSessionRow) :
    Forwards rows (updated.foldl (fun rows row => Sessions.update row.toSessionRef (listFields row) rows) rows) :=
  Forwards.foldl (fun (rows : Sessions) (row : HostSessionRow) =>
    Forwards.update rows row.toSessionRef (f := listFields row) (fun _ => rfl) fun held => forward_apply held (.published row)) _ _

theorem Forwards.step (rows : Sessions) (event : SessionRowsEvent) : Forwards rows (rows.step event) := by
  cases event with
  | publish now served existing publication =>
    unfold Sessions.step publish
    dsimp only
    rw [updateReturning_fst]
    exact ((Forwards.foldl Forwards.adopt _ rows).trans (Forwards.updateAll _ _)).trans (Forwards.removeAll _ now _)
  | stamp ref kind stampedAt =>
    exact Forwards.update rows ref (f := stamp kind stampedAt) (fun _ => rfl) fun held => forward_apply held (.stamped kind stampedAt)

theorem Forwards.run (rows : Sessions) (events : List SessionRowsEvent) : Forwards rows (run Sessions.step rows events) := by
  induction events generalizing rows with
  | nil => exact Forwards.refl rows
  | cons event events ih => exact (Forwards.step rows event).trans (ih _)

end Sessions

end Claxedo.Authority
