import Claxedo.Authority.RowsPublished

/-! A publication applied again right after itself leaves every row as it is, and owes nobody a notice. -/

namespace Claxedo.Authority

open Claxedo.Lib

/-- The sessions as a publication reads them before its batch. -/
def Sessions.registered (rows : Sessions) (sessionId : String) : Option RegisteredSession :=
  (rows.get sessionId).map fun held => ⟨held.workspaceId, held.deletedAt.isSome⟩

/-- A date is not before itself, and a turn does not end after itself: what `listFieldsStatement` leaves it leaves again. -/
theorem listFields_listFields (row : HostSessionRow) (held : SessionRow) :
    listFields row (listFields row held) = listFields row held := by
  have hcurrent : (listFields row held).current row.status.reportedAt = held.current row.status.reportedAt := by
    have hstatusAt : (listFields row held).statusAt =
        if held.current row.status.reportedAt then some row.status.reportedAt else held.statusAt := rfl
    unfold SessionRow.current at *
    rw [hstatusAt]
    split_ifs with hc
    · rw [hc, Option.all_some, decide_eq_true le_rfl]
    · rfl
  have hlater : (row.lastTurn.filter fun turn => (listFields row held).lastTurnCompletedAt.all fun completedAt =>
      completedAt < turn.completedAt) = none := by
    rcases hturn : row.lastTurn with _ | turn
    · rfl
    · rw [Option.filter_some, if_neg]
      cases hl : held.lastTurnCompletedAt.all fun completedAt => decide (completedAt < turn.completedAt) with
      | true => simp [listFields, hturn, Option.filter_some, hl]
      | false => simp [listFields, hturn, Option.filter_some, hl]
  have htitle : row.title.or (row.title.or held.title) = row.title.or held.title := by rcases row.title <;> rfl
  rw [listFields, hcurrent, hlater]
  rcases hlast : row.lastHumanTurnAt with _ | last <;>
    cases hc : held.current row.status.reportedAt <;> simp [listFields, hlast, hc, htitle]

theorem refusal_eq_none_iff {served : String → Bool} {existing : String → Option RegisteredSession} {ref : SessionRef} :
    refusal served existing ref = none ↔
      served ref.workspaceId = true ∧
        ∀ session ∈ existing ref.sessionId, session.workspaceId = ref.workspaceId ∧ session.deleted = false := by
  unfold refusal
  rcases existing ref.sessionId with _ | session
  · simp
  · by_cases hs : served ref.workspaceId = true
    · by_cases hw : session.workspaceId = ref.workspaceId
      · cases hd : session.deleted <;> simp [hs, hw, hd]
      · simp [hs, hw]
    · simp [hs]

namespace Sessions

/-- Where one session has at most one row, as the key of the table has it. -/
def Keyed (rows : Sessions) : Prop := (rows.map fun row => row.sessionId).Nodup

variable {rows : Sessions} {ref : SessionRef}

theorem Keyed.update (h : Keyed rows) (ref : SessionRef) {f : SessionRow → SessionRow}
    (hf : ∀ held, (f held).toSessionRef = held.toSessionRef) : Keyed (update ref f rows) := by
  unfold Keyed Sessions.update at *
  rw [List.map_map]
  refine (congrArg List.Nodup (List.map_congr_left fun held _ => ?_)).mpr h
  rw [Function.comp_apply]
  split_ifs
  · exact congrArg SessionRef.sessionId (hf held)
  · rfl

theorem Keyed.adopt (h : Keyed rows) (row : HostSessionRow) : Keyed (rows.adopt row) := by
  unfold Sessions.adopt
  rcases hget : Sessions.get row.sessionId rows with _ | found
  · unfold Keyed at *
    rw [List.map_append, List.nodup_append]
    refine ⟨h, List.nodup_singleton _, fun a ha b hb hab => ?_⟩
    obtain ⟨held, hheld, rfl⟩ := List.mem_map.mp ha
    rw [List.map_singleton, List.mem_singleton] at hb
    exact Table.get_eq_none_iff.mp hget held hheld (hab.trans hb)
  · exact h

theorem Keyed.foldl {α : Type} {f : Sessions → α → Sessions} (hf : ∀ rows a, Keyed rows → Keyed (f rows a)) (as : List α)
    (h : Keyed rows) : Keyed (as.foldl f rows) := by
  induction as generalizing rows with
  | nil => exact h
  | cons a as ih => exact ih (hf rows a h)

theorem Keyed.step (h : Keyed rows) (event : SessionRowsEvent) : Keyed (rows.step event) := by
  cases event with
  | publish now served existing publication =>
    unfold Sessions.step publish
    dsimp only
    rw [updateReturning_fst]
    refine Keyed.foldl (fun rows ref h => h.update ref (f := fun held => { held with deletedAt := some now }) fun _ => rfl) _ ?_
    refine Keyed.foldl (fun rows row h => h.update row.toSessionRef (f := listFields row) fun _ => rfl) _ ?_
    exact Keyed.foldl (fun rows row h => h.adopt row) _ h
  | stamp ref kind stampedAt => exact h.update ref (f := stamp kind stampedAt) fun _ => rfl

theorem Keyed.run (h : Keyed rows) (events : List SessionRowsEvent) : Keyed (run Sessions.step rows events) :=
  invariant_of_run Keyed (fun _ event h => h.step event) h events

theorem get_adoptAll (rows : Sessions) {adopted : List HostSessionRow} {row : HostSessionRow} (hmem : row ∈ adopted) :
    ∃ held, (adopted.foldl adopt rows).get row.sessionId = some held := by
  induction adopted generalizing rows with
  | nil => cases hmem
  | cons other adopted ih =>
    rcases List.mem_cons.mp hmem with rfl | hmem
    · obtain ⟨held, hheld⟩ : ∃ held, (rows.adopt row).get row.sessionId = some held := by
        unfold Sessions.adopt
        rcases hget : Sessions.get row.sessionId rows with _ | found
        · refine ⟨row.adopted, ?_⟩
          unfold Sessions.get at *
          rw [Table.get_append, hget, Option.none_or, Table.get_cons, if_pos]
          rfl
        · exact ⟨found, hget⟩
      obtain ⟨held', hheld', _⟩ := Forwards.foldl Forwards.adopt adopted (rows.adopt row) row.sessionId held hheld
      exact ⟨held', hheld'⟩
    · exact ih _ hmem

theorem Holds.removed {held : SessionRow} (h : Holds rows ref held) {removed : List SessionRef} (hmem : ref ∈ removed) (now : ℕ) :
    ∃ row, (removed.foldl (fun rows ref => Sessions.update ref (fun held => { held with deletedAt := some now }) rows) rows).get
      ref.sessionId = some row ∧ row.deletedAt ≠ none := by
  induction removed generalizing rows with
  | nil => cases hmem
  | cons other removed ih =>
    rw [List.foldl_cons]
    by_cases href : other = ref
    · subst href
      have hget : (Sessions.update other (fun held => { held with deletedAt := some now }) rows).get other.sessionId =
          some { held with deletedAt := some now } := by
        rw [get_update rows other (f := fun held => { held with deletedAt := some now }) fun _ => rfl, h.get, Option.map_some, if_pos]
        simp [names, h.ref, h.alive]
      obtain ⟨row, hrow, hforward⟩ := Forwards.removeAll _ now removed other.sessionId _ hget
      exact ⟨row, hrow, fun hnone => by cases hforward.deletedAt hnone⟩
    · have hmem' : ref ∈ removed := (List.mem_cons.mp hmem).resolve_left (Ne.symm href)
      exact ih (h.update_ne href fun _ => rfl) hmem'

theorem publish_fst (rows : Sessions) (now : ℕ) (plan : HostSessionRowsPlan) :
    (rows.publish now plan).1 =
      plan.remove.foldl (fun rows ref => Sessions.update ref (fun held => { held with deletedAt := some now }) rows)
        (plan.update.foldl (fun rows row => Sessions.update row.toSessionRef (listFields row) rows) (plan.adopt.foldl adopt rows)) := by
  unfold publish
  dsimp only
  rw [updateReturning_fst]

theorem Holds.of_registered {served : String → Bool} {held : SessionRow} (hadmitted : refusal served rows.registered ref = none)
    (hget : rows.get ref.sessionId = some held) : Holds rows ref held := by
  have hsession := (refusal_eq_none_iff.mp hadmitted).2
  unfold registered at hsession
  rw [hget, Option.map_some] at hsession
  obtain ⟨hworkspace, hdeleted⟩ := hsession _ rfl
  have hid : held.sessionId = ref.sessionId := (Table.mem_of_get hget).2
  refine ⟨hget, ?_, by simpa using hdeleted⟩
  rcases href : held.toSessionRef with ⟨workspaceId, sessionId⟩
  rcases ref with ⟨workspaceId', sessionId'⟩
  simp only [href] at hworkspace hid
  rw [hworkspace, hid]

theorem admitted_before {before after : Sessions} (hforward : Forwards before after) {served : String → Bool}
    (hadmitted : refusal served after.registered ref = none) : refusal served before.registered ref = none := by
  refine refusal_eq_none_iff.mpr ⟨(refusal_eq_none_iff.mp hadmitted).1, fun session hsession => ?_⟩
  unfold registered at hsession
  rcases hget : before.get ref.sessionId with _ | held
  · rw [hget] at hsession
    cases hsession
  · rw [hget, Option.map_some, Option.mem_some_iff] at hsession
    obtain ⟨row, hrow, hheld⟩ := hforward _ _ hget
    have hholds := Holds.of_registered hadmitted hrow
    subst hsession
    exact ⟨congrArg SessionRef.workspaceId (hheld.ref.symm.trans hholds.ref), by simp [hheld.deletedAt hholds.alive]⟩

theorem get_updateAll_none {α : Type} (refs : α → SessionRef) (f : α → SessionRow → SessionRow)
    (hf : ∀ a held, (f a held).toSessionRef = held.toSessionRef) (as : List α) {sessionId : String}
    (hnone : rows.get sessionId = none) : (as.foldl (fun rows a => update (refs a) (f a) rows) rows).get sessionId = none := by
  induction as generalizing rows with
  | nil => exact hnone
  | cons a as ih => exact ih (by rw [get_update rows (refs a) (hf a), hnone, Option.map_none])

section
variable {before rows : Sessions} {served : String → Bool} {publication : HostSessionRowsPublication} {now : ℕ} {ref : SessionRef}

/-- Who is admitted once more holds what the publication's updates left, and was not removed by it. -/
theorem Holds.told {held : SessionRow}
    (h : Holds (rows.publish now (planHostSessionRows served before.registered publication)).1 ref held)
    (hadmitted : refusal served before.registered ref = none) :
    ref ∉ publication.removed ∧
      ∃ adopted, held = Authority.told adopted (((planHostSessionRows served before.registered publication).update.filter fun row =>
        row.toSessionRef = ref).map .published) := by
  obtain ⟨_, _, hremove⟩ := plan_parts served before.registered publication
  rw [publish_fst] at h
  generalize hplan : planHostSessionRows served before.registered publication = plan at *
  set adopted := plan.adopt.foldl Sessions.adopt rows with hadopted
  set updated := plan.update.foldl (fun rows row => Sessions.update row.toSessionRef (listFields row) rows) adopted with hupdated
  rcases hget : adopted.get ref.sessionId with _ | first
  · have hnone : updated.get ref.sessionId = none := get_updateAll_none (fun row : HostSessionRow => row.toSessionRef) listFields
      (fun _ _ => rfl) plan.update hget
    have hnone' := get_updateAll_none (fun ref : SessionRef => ref) (fun _ held => { held with deletedAt := some now }) (fun _ _ => rfl)
      plan.remove hnone
    cases hnone'.symm.trans h.get
  · obtain ⟨second, hsecond, hfirst⟩ := Forwards.updateAll adopted plan.update ref.sessionId first hget
    obtain ⟨third, hthird, hlast⟩ := Forwards.removeAll updated now plan.remove ref.sessionId second hsecond
    obtain rfl := Option.some.inj (hthird.symm.trans h.get)
    have hholds : Holds adopted ref first :=
      ⟨hget, (hfirst.ref.symm.trans hlast.ref.symm).trans h.ref, hfirst.deletedAt (hlast.deletedAt h.alive)⟩
    have htold := hholds.updateAll plan.update
    have hnot : ref ∉ publication.removed := by
      intro hmem
      have hmem' : ref ∈ plan.remove := by
        rw [hremove]
        exact List.mem_filter.mpr ⟨hmem, by simpa using hadmitted⟩
      obtain ⟨row, hrow, hdeleted⟩ := htold.removed hmem' now
      obtain rfl := Option.some.inj (hrow.symm.trans h.get)
      exact hdeleted h.alive
    refine ⟨hnot, first, ?_⟩
    have hnot' : ref ∉ plan.remove := by
      rw [hremove]
      exact fun hmem => hnot (List.mem_of_mem_filter hmem)
    exact Option.some.inj (h.get.symm.trans (htold.removeAll hnot' now).get)

/-- A publication's updates and removals change nothing, and return rows that are held, where what they would write is held already. -/
theorem updateReturning_same {rows : Sessions} {updated : List HostSessionRow}
    (hsame : ∀ row ∈ updated, ∀ held ∈ rows, names row.toSessionRef held = true → listFields row held = held)
    (returned : List SessionRow)
    (hreturned : ∀ held ∈ returned, held ∈ rows) :
    (updated.foldl updateReturning (rows, returned)).1 = rows ∧
      ∀ held ∈ (updated.foldl updateReturning (rows, returned)).2, held ∈ rows := by
  induction updated generalizing returned with
  | nil => exact ⟨rfl, hreturned⟩
  | cons row updated ih =>
    obtain ⟨hrow, hrows⟩ := List.forall_mem_cons.mp hsame
    have hupdate : update row.toSessionRef (listFields row) rows = rows := by
      unfold update
      refine (List.map_congr_left fun held hheld => ?_).trans (List.map_id rows)
      split_ifs with hnames
      · exact hrow held hheld hnames
      · rfl
    rw [List.foldl_cons, show updateReturning (rows, returned) row = (rows, returned ++ rows.filter (names row.toSessionRef)) from by
      unfold updateReturning
      rw [hupdate]]
    refine ih hrows _ fun held hheld => ?_
    rcases List.mem_append.mp hheld with hheld | hheld
    · exact hreturned held hheld
    · exact List.mem_of_mem_filter hheld

theorem removeAll_same {rows : Sessions} {removed : List SessionRef} (hnone : ∀ ref ∈ removed, ∀ held ∈ rows, names ref held = false)
    (now : ℕ) : removed.foldl (fun rows ref => Sessions.update ref (fun held => { held with deletedAt := some now }) rows) rows = rows := by
  induction removed with
  | nil => rfl
  | cons ref removed ih =>
    obtain ⟨href, hrefs⟩ := List.forall_mem_cons.mp hnone
    have hupdate : update ref (fun held => { held with deletedAt := some now }) rows = rows := by
      unfold update
      refine (List.map_congr_left fun held hheld => ?_).trans (List.map_id rows)
      rw [if_neg (by simp [href held hheld])]
      rfl
    rw [List.foldl_cons, hupdate, ih hrefs]

theorem holds_of_names {rows : Sessions} (hkeyed : Keyed rows) {held : SessionRow} (hmem : held ∈ rows) {ref : SessionRef}
    (hnames : names ref held = true) : Holds rows ref held := by
  unfold names at hnames
  rw [Bool.and_eq_true, decide_eq_true_eq, Option.isNone_iff_eq_none] at hnames
  obtain ⟨rfl, halive⟩ := hnames
  exact ⟨Table.get_of_mem hkeyed hmem, rfl, halive⟩

/-- A publication that reads the sessions after itself does nothing more. -/
theorem publish_publish (hkeyed : Keyed rows) (hforward : Forwards before rows)
    (hdistinct : (publication.rows.map fun row => row.sessionId).Nodup) (now' : ℕ) :
    (rows.publish now (planHostSessionRows served before.registered publication)).1.publish now'
        (planHostSessionRows served (rows.publish now (planHostSessionRows served before.registered publication)).1.registered publication) =
      ((rows.publish now (planHostSessionRows served before.registered publication)).1, []) := by
  have hstep : rows.step (.publish now served before.registered publication) =
    (rows.publish now (planHostSessionRows served before.registered publication)).1 := rfl
  have hkeyed' := hkeyed.step (.publish now served before.registered publication)
  have hafter := hforward.trans (Forwards.step rows (.publish now served before.registered publication))
  rw [hstep] at hkeyed' hafter
  have htold {ref : SessionRef} {held : SessionRow} := @Holds.told before rows served publication now ref held
  have hadopted {row : HostSessionRow} (hmem : row ∈ (planHostSessionRows served before.registered publication).adopt) :
      ∃ held, (rows.publish now (planHostSessionRows served before.registered publication)).1.get row.sessionId = some held := by
    obtain ⟨first, hfirst⟩ := get_adoptAll rows hmem
    obtain ⟨held, hheld, _⟩ := ((Forwards.updateAll _ _).trans (Forwards.removeAll _ now _)) row.sessionId first hfirst
    rw [publish_fst]
    exact ⟨held, hheld⟩
  generalize hgen : (rows.publish now (planHostSessionRows served before.registered publication)).1 = after at *
  obtain ⟨hupdate, hadopt, hremove⟩ := plan_parts served after.registered publication
  obtain ⟨hupdate₁, hadopt₁, _⟩ := plan_parts served before.registered publication
  have hnoadopt : (planHostSessionRows served after.registered publication).adopt = [] := by
    rw [hadopt, List.filter_eq_nil_iff]
    intro row hrow
    rw [decide_eq_true_eq]
    rintro ⟨hadmitted, hnone⟩
    have hafternone : after.get row.sessionId = none := by
      simpa [registered] using hnone
    have hbeforenone : before.get row.sessionId = none := by
      rcases hget : before.get row.sessionId with _ | held
      · rfl
      · obtain ⟨held', hheld', _⟩ := hafter _ _ hget
        cases hafternone.symm.trans hheld'
    have hmem : row ∈ (planHostSessionRows served before.registered publication).adopt := by
      rw [hadopt₁]
      refine List.mem_filter.mpr ⟨hrow, decide_eq_true ⟨admitted_before hafter hadmitted, ?_⟩⟩
      simp [registered, hbeforenone]
    obtain ⟨held, hheld⟩ := hadopted hmem
    cases hafternone.symm.trans hheld
  have hsame : ∀ row ∈ (planHostSessionRows served after.registered publication).update, ∀ held ∈ after,
      names row.toSessionRef held = true → listFields row held = held := by
    intro row hrow held hheld hnames
    rw [hupdate] at hrow
    obtain ⟨hrow, hadmitted⟩ := List.mem_filter.mp hrow
    rw [decide_eq_true_eq] at hadmitted
    have hadmitted₁ := admitted_before hafter hadmitted
    obtain ⟨_, adopted, rfl⟩ := htold (holds_of_names hkeyed' hheld hnames) hadmitted₁
    rw [hupdate₁, List.filter_filter, Table.filter_eq_singleton hdistinct hrow]
    · exact listFields_listFields row adopted
    · simp [hadmitted₁]
    · intro other _ hother
      rw [Bool.and_eq_true, decide_eq_true_eq] at hother
      exact congrArg SessionRef.sessionId hother.1
  have hgone : ∀ ref ∈ (planHostSessionRows served after.registered publication).remove, ∀ held ∈ after, names ref held = false := by
    intro ref href held hheld
    rw [hremove] at href
    obtain ⟨href, hadmitted⟩ := List.mem_filter.mp href
    rw [decide_eq_true_eq] at hadmitted
    by_contra hnames
    rw [Bool.not_eq_false] at hnames
    exact (htold (holds_of_names hkeyed' hheld hnames) (admitted_before hafter hadmitted)).1 href
  obtain ⟨hfst, hreturned⟩ := updateReturning_same hsame [] fun held hheld => by cases hheld
  unfold publish
  rw [hnoadopt]
  dsimp only [List.foldl_nil]
  rw [hfst, removeAll_same hgone]
  refine Prod.ext rfl (List.filter_eq_nil_iff.mpr fun held hheld => ?_)
  rw [show after.get held.sessionId = some held from Table.get_of_mem hkeyed' (hreturned held hheld)]
  simp [changed]

end

/-- What the events report of a session. -/
def reportsOf (ref : SessionRef) (events : List SessionRowsEvent) : List RowReport := events.flatMap (SessionRowsEvent.reports ref)

/-- Where a session's row stands when the first event comes: it is held, or that event adopts it. -/
inductive Starts (rows : Sessions) (ref : SessionRef) : List SessionRowsEvent → SessionRow → Prop where
  | held {events : List SessionRowsEvent} {held : SessionRow} (holds : Holds rows ref held) : Starts rows ref events held
  | adopted {event : SessionRowsEvent} {events : List SessionRowsEvent} {row : HostSessionRow} (hnone : rows.get ref.sessionId = none)
      (hadopts : event.adopts ref = some row) : Starts rows ref (event :: events) row.adopted

section
variable {rows : Sessions} {ref : SessionRef} {events : List SessionRowsEvent} {held : SessionRow}

/-- What a run leaves of a session's row is what its reports come to. -/
theorem Starts.run (h : Starts rows ref events held) (hkeeps : ∀ event ∈ events, event.removes ref = false) :
    Holds (run Sessions.step rows events) ref (Authority.told held (reportsOf ref events)) := by
  cases h with
  | held holds => exact holds.run hkeeps
  | adopted hnone hadopts =>
    obtain ⟨hevent, hevents⟩ := List.forall_mem_cons.mp hkeeps
    have hrest := (Holds.adopted hnone hadopts hevent).run hevents
    rw [run_cons]
    unfold reportsOf
    rw [List.flatMap_cons]
    unfold Authority.told at *
    rw [List.foldl_append]
    exact hrest

/-- The row a session is adopted with is told of right then. -/
theorem published_of_adopts {event : SessionRowsEvent} {row : HostSessionRow} (hadopts : event.adopts ref = some row) :
    .published row ∈ event.reports ref := by
  cases event with
  | stamp => cases hadopts
  | publish now served existing publication =>
    obtain ⟨hfind, href⟩ := Option.filter_eq_some_iff.mp hadopts
    obtain ⟨hupdate, hadopt, _⟩ := plan_parts served existing publication
    have hmem := List.mem_of_find?_eq_some hfind
    rw [hadopt] at hmem
    obtain ⟨hrow, hadmitted⟩ := List.mem_filter.mp hmem
    rw [decide_eq_true_eq] at hadmitted
    refine List.mem_map.mpr ⟨row, List.mem_filter.mpr ⟨?_, href⟩, rfl⟩
    rw [hupdate]
    exact List.mem_filter.mpr ⟨hrow, by simpa using hadmitted.1⟩

/-- Of one set of reports a session's row comes to one thing, in whatever order they came and whichever of them adopted it. -/
theorem Starts.settles (h : Starts rows ref events held) {events' : List SessionRowsEvent} {held' : SessionRow}
    (h' : Starts rows ref events' held') (hmem : ∀ r, r ∈ reportsOf ref events ↔ r ∈ reportsOf ref events')
    (hagrees : Agrees (reportsOf ref events)) :
    Settles (Authority.told held (reportsOf ref events)) (Authority.told held' (reportsOf ref events')) := by
  cases h with
  | held holds =>
    cases h' with
    | held holds' =>
      obtain rfl := Option.some.inj (holds.get.symm.trans holds'.get)
      exact Authority.settles hmem hagrees
    | adopted hnone => cases hnone.symm.trans holds.get
  | adopted hnone hadopts =>
    cases h' with
    | held holds' => cases hnone.symm.trans holds'.get
    | adopted _ hadopts' =>
      refine (Authority.settles hmem hagrees).trans (settles_adopted ?_ ?_)
      · exact (hmem _).mp (List.mem_append_left _ (published_of_adopts hadopts))
      · exact List.mem_append_left _ (published_of_adopts hadopts')

end

end Sessions

/-! What the registry's session rows come to under every run of publications and stamps. -/

open Sessions

/-- A row tells what the newest of its reports told. -/
structure OfNewest (held row : SessionRow) (reports : List RowReport) : Prop where
  status : ∀ report ∈ reports, (∀ r ∈ reports, r.status.reportedAt ≤ report.status.reportedAt) →
    date held.statusAt ≤ report.status.reportedAt → row.statusColumns = report.status
  work : ∀ published, .published published ∈ reports → (∀ r ∈ reports, r.status.reportedAt ≤ published.status.reportedAt) →
    date held.statusAt ≤ published.status.reportedAt → row.backgroundWork = published.status.backgroundWork.getD {}
  lastTurn : ∀ report ∈ reports, ∀ turn ∈ report.lastTurn, (∀ r ∈ reports, ∀ turn' ∈ r.lastTurn, turn'.completedAt ≤ turn.completedAt) →
    date held.lastTurnCompletedAt < turn.completedAt → row.lastTurnColumns = turn

theorem ofNewest_told {held : SessionRow} {reports : List RowReport}
    (hagrees : Agrees reports) : OfNewest held (told held reports) reports where
  status := fun _ hmem hmax hheld => status_newest hagrees hmem hmax hheld
  work := fun _ hmem hmax hheld => work_newest hagrees hmem hmax hheld
  lastTurn := fun _ hmem _ hturn hmax hheld => lastTurn_newest hagrees hmem hturn hmax hheld

/-- No date of a row goes back in a run; a row's status and wait are of one report; what it comes to is what its newest reports told,
in whatever order they came; a publication applied again right after itself changes nothing. -/
theorem published_rows_forward {rows : Sessions} (hkeyed : rows.Keyed) (events : List SessionRowsEvent) :
    (∀ before after, events = before ++ after → Forwards (run Sessions.step rows before) (run Sessions.step rows events)) ∧
    (∀ ref held, Starts rows ref events held → (∀ event ∈ events, event.removes ref = false) →
      ∃ row, Holds (run Sessions.step rows events) ref row ∧ FromOne held row (reportsOf ref events) ∧
        (Agrees (reportsOf ref events) → OfNewest held row (reportsOf ref events) ∧
          ∀ events' held', Starts rows ref events' held' → (∀ event ∈ events', event.removes ref = false) →
            (∀ r, r ∈ reportsOf ref events ↔ r ∈ reportsOf ref events') →
            ∃ row', Holds (run Sessions.step rows events') ref row' ∧ Settles row row')) ∧
    ∀ before after, events = before ++ after → ∀ (now now' : ℕ) (served : String → Bool) (publication : HostSessionRowsPublication),
      (publication.rows.map fun row => row.sessionId).Nodup →
      ∀ published, ((run Sessions.step rows events).publish now
        (planHostSessionRows served (run Sessions.step rows before).registered publication)).1 = published →
      published.publish now' (planHostSessionRows served published.registered publication) = (published, []) := by
  have hforward (before after : List SessionRowsEvent) (hevents : events = before ++ after) :
      Forwards (run Sessions.step rows before) (run Sessions.step rows events) := by
    rw [hevents, run_append]
    exact Forwards.run _ after
  refine ⟨hforward, ?_, ?_⟩
  · intro ref held hstarts hkeeps
    refine ⟨_, hstarts.run hkeeps, fromOne_told held _, fun hagrees => ⟨ofNewest_told hagrees, ?_⟩⟩
    intro events' held' hstarts' hkeeps' hmem
    exact ⟨_, hstarts'.run hkeeps', hstarts.settles hstarts' hmem hagrees⟩
  · rintro before after hevents now now' served publication hdistinct published rfl
    exact publish_publish (hkeyed.run events) (hforward before after hevents) hdistinct now'

/-- One row published once. -/
def publishing (row : HostSessionRow) : SessionRowsEvent := .publish 0 (fun _ => true) (fun _ => none) { rows := [row] }

def readBusy : HostSessionRow where
  workspaceId := "w"
  sessionId := "s"
  title := some "before"
  createdAt := 1
  updatedAt := 1
  archivedAt := some 2
  status := ⟨.busy, false, some { shells := 1 }, 5⟩

def readIdle : HostSessionRow := { readBusy with title := some "after", archivedAt := none, status := ⟨.idle, false, none, 5⟩ }

/-- A row is published and a turn stamps it. -/
def stamped : List SessionRowsEvent := [publishing readBusy, .stamp readBusy.toSessionRef .idle 7]

/-- The publication comes a second time, after the stamp. -/
def repeated : List SessionRowsEvent := stamped ++ [publishing readBusy]

/-- Both come to the one row: the stamp's status, beside the background work of the publication. -/
theorem published_rows_forward_two :
    Forwards (run Sessions.step [] stamped) (run Sessions.step [] repeated) ∧
      (∃ row, Holds (run Sessions.step [] stamped) readBusy.toSessionRef row ∧
        FromOne readBusy.adopted row (reportsOf readBusy.toSessionRef stamped) ∧
        row.statusColumns = (RowReport.stamped .idle 7).status ∧
        ∃ row', Holds (run Sessions.step [] repeated) readBusy.toSessionRef row' ∧ Settles row row') ∧
      ((run Sessions.step [] stamped).publish 3
        (planHostSessionRows (fun _ => true) (Sessions.registered []) { rows := [readIdle] })).1.publish 4
          (planHostSessionRows (fun _ => true) ((run Sessions.step [] stamped).publish 3
            (planHostSessionRows (fun _ => true) (Sessions.registered []) { rows := [readIdle] })).1.registered { rows := [readIdle] }) =
        (((run Sessions.step [] stamped).publish 3
          (planHostSessionRows (fun _ => true) (Sessions.registered []) { rows := [readIdle] })).1, []) := by
  have hkeyed : Keyed [] := List.nodup_nil
  have hreports : reportsOf readBusy.toSessionRef stamped = [.published readBusy, .stamped .idle 7] := by decide
  have hreports' : reportsOf readBusy.toSessionRef repeated = [.published readBusy, .stamped .idle 7, .published readBusy] := by decide
  have hagrees : Agrees (reportsOf readBusy.toSessionRef stamped) := by
    rw [hreports]
    constructor
    · simp
    · simp [RowReport.status, readBusy]
    · simp [RowReport.lastTurn, readBusy]
  obtain ⟨row, hholds, hfrom, hsettles⟩ := (published_rows_forward hkeyed stamped).2.1 readBusy.toSessionRef readBusy.adopted
    (.adopted rfl (by decide)) (by decide)
  obtain ⟨hnewest, hothers⟩ := hsettles hagrees
  refine ⟨(published_rows_forward hkeyed repeated).1 stamped [publishing readBusy] rfl, ⟨row, hholds, hfrom, ?_, ?_⟩, ?_⟩
  · refine hnewest.status _ (by simp [hreports]) ?_ bot_le
    rw [hreports]
    decide
  · refine hothers repeated readBusy.adopted (.adopted rfl (by decide)) (by decide) fun r => ?_
    rw [hreports, hreports']
    simp only [List.mem_cons, List.not_mem_nil, or_false]
    tauto
  · exact (published_rows_forward hkeyed stamped).2.2 [] stamped rfl 3 4 (fun _ => true) { rows := [readIdle] }
      (List.nodup_singleton _) _ rfl

/-- A turn's stamp stands beside the background work of an earlier publication; of two reads of one date, and of any two reads' titles
and archive states, those that come last stand. -/
theorem not_published_rows_newest :
    (((run Sessions.step [] [publishing readBusy, .stamp ⟨"w", "s"⟩ .idle 7]).get "s").map fun row =>
        (row.status, row.statusAt, row.backgroundWork)) = some (some .idle, some 7, { shells := 1 }) ∧
      (((run Sessions.step [] [publishing readIdle, publishing readBusy]).get "s").map fun row =>
        (row.status, row.title, row.archivedAt)) = some (some .busy, some "before", some 2) ∧
      (((run Sessions.step [] [publishing readBusy, publishing readIdle]).get "s").map fun row =>
        (row.status, row.title, row.archivedAt)) = some (some .idle, some "after", none) := by
  decide

end Claxedo.Authority
