import Claxedo.Lib.Newest
import Claxedo.Lib.Run
import Claxedo.Lib.Table

/-! The registry's session rows as hosts publish them: `publishD1HostSessionRows`, the plan it follows, and the stamp a turn's
admission or release puts on the status. -/

namespace Claxedo.Authority

open Claxedo.Lib

inductive SessionRowStatusKind where
  | idle
  | busy
  | retry
  | interrupted
  deriving DecidableEq

structure BackgroundWork where
  agents : ℕ := 0
  shells : ℕ := 0
  other : ℕ := 0
  deriving DecidableEq

/-- `at` is the source's name of the date. -/
structure SessionRowStatus where
  kind : SessionRowStatusKind
  awaitingInput : Bool
  backgroundWork : Option BackgroundWork := none
  reportedAt : ℕ
  deriving DecidableEq

inductive SessionTurnStatus where
  | completed
  | failed
  | cancelled
  deriving DecidableEq

structure SessionLastTurn where
  status : SessionTurnStatus
  completedAt : ℕ
  deriving DecidableEq

structure SessionRef where
  workspaceId : String
  sessionId : String
  deriving DecidableEq

/-- A session's list entry as its machine holds it. -/
structure HostSessionRow extends SessionRef where
  title : Option String := none
  createdAt : ℕ
  updatedAt : ℕ
  lastHumanTurnAt : Option ℕ := none
  archivedAt : Option ℕ := none
  status : SessionRowStatus
  lastTurn : Option SessionLastTurn := none
  deriving DecidableEq

structure HostSessionRowsPublication where
  rows : List HostSessionRow := []
  removed : List SessionRef := []

inductive RefusalReason where
  | workspaceNotServed
  | sessionElsewhere
  | sessionDeleted

structure RegisteredSession where
  workspaceId : String
  deleted : Bool

structure HostSessionRowsPlan where
  adopt : List HostSessionRow := []
  update : List HostSessionRow := []
  remove : List SessionRef := []
  accepted : ℕ := 0
  refused : List (SessionRef × RefusalReason) := []

section
variable (served : String → Bool) (existing : String → Option RegisteredSession)

/-- Why a session is not admitted, if it is not. -/
def refusal (ref : SessionRef) : Option RefusalReason :=
  if served ref.workspaceId then
    match existing ref.sessionId with
    | none => none
    | some session =>
      if session.workspaceId ≠ ref.workspaceId then some .sessionElsewhere
      else if session.deleted then some .sessionDeleted else none
  else some .workspaceNotServed

def HostSessionRowsPlan.admit (plan : HostSessionRowsPlan) (ref : SessionRef) : HostSessionRowsPlan :=
  match refusal served existing ref with
  | none => { plan with accepted := plan.accepted + 1 }
  | some reason => { plan with refused := plan.refused ++ [(ref, reason)] }

def HostSessionRowsPlan.planRow (plan : HostSessionRowsPlan) (row : HostSessionRow) : HostSessionRowsPlan :=
  let plan := plan.admit served existing row.toSessionRef
  if refusal served existing row.toSessionRef = none then
    { plan with
      adopt := if (existing row.sessionId).isNone then plan.adopt ++ [row] else plan.adopt
      update := plan.update ++ [row] }
  else plan

def HostSessionRowsPlan.planRemoval (plan : HostSessionRowsPlan) (ref : SessionRef) : HostSessionRowsPlan :=
  let plan := plan.admit served existing ref
  if refusal served existing ref = none then { plan with remove := plan.remove ++ [ref] } else plan

def planHostSessionRows (publication : HostSessionRowsPublication) : HostSessionRowsPlan :=
  publication.removed.foldl (HostSessionRowsPlan.planRemoval served existing)
    (publication.rows.foldl (HostSessionRowsPlan.planRow served existing) {})

end

/-- A row of `sessions`. -/
structure SessionRow extends SessionRef where
  title : Option String
  createdAt : ℕ
  updatedAt : ℕ
  deletedAt : Option ℕ := none
  lastHumanTurnAt : Option ℕ := none
  archivedAt : Option ℕ := none
  status : Option SessionRowStatusKind := none
  statusAt : Option ℕ := none
  awaitingInput : Bool := false
  backgroundWork : BackgroundWork := {}
  lastTurnStatus : Option SessionTurnStatus := none
  lastTurnCompletedAt : Option ℕ := none

/-- A row as a session is adopted with. -/
def HostSessionRow.adopted (row : HostSessionRow) : SessionRow where
  toSessionRef := row.toSessionRef
  title := row.title
  createdAt := row.createdAt
  updatedAt := row.updatedAt

/-- The status held is not dated after `reportedAt`. -/
def SessionRow.current (held : SessionRow) (reportedAt : ℕ) : Bool := held.statusAt.all fun statusAt => statusAt ≤ reportedAt

/-- What `listFieldsStatement` sets. -/
def listFields (row : HostSessionRow) (held : SessionRow) : SessionRow :=
  let status := row.status
  let current := held.current status.reportedAt
  let later := row.lastTurn.filter fun turn => held.lastTurnCompletedAt.all fun completedAt => completedAt < turn.completedAt
  { held with
    title := row.title.or held.title
    updatedAt := max held.updatedAt row.updatedAt
    lastHumanTurnAt :=
      match row.lastHumanTurnAt with
      | none => held.lastHumanTurnAt
      | some lastHumanTurnAt => some (max (held.lastHumanTurnAt.getD 0) lastHumanTurnAt)
    archivedAt := row.archivedAt
    status := if current then some status.kind else held.status
    awaitingInput := if current then status.awaitingInput else held.awaitingInput
    backgroundWork := if current then status.backgroundWork.getD {} else held.backgroundWork
    statusAt := if current then some status.reportedAt else held.statusAt
    lastTurnStatus :=
      match later with
      | none => held.lastTurnStatus
      | some turn => some turn.status
    lastTurnCompletedAt :=
      match later with
      | none => held.lastTurnCompletedAt
      | some turn => some turn.completedAt }

/-- `SESSION_STATUS_STAMP_SQL`: busy as of a turn's admission, idle as of its release. -/
def stamp (kind : SessionRowStatusKind) (stampedAt : ℕ) (held : SessionRow) : SessionRow :=
  let current := held.current stampedAt
  { held with
    status := if current then some kind else held.status
    awaitingInput := if current then false else held.awaitingInput
    statusAt := if current then some stampedAt else held.statusAt }

abbrev Sessions := List SessionRow

namespace Sessions

def get (sessionId : String) (rows : Sessions) : Option SessionRow := Table.get (fun row => row.sessionId) sessionId rows

/-- `where session_id = ? and workspace_id = ? and deleted_at is null`. -/
def names (ref : SessionRef) (held : SessionRow) : Bool := decide (held.toSessionRef = ref) && held.deletedAt.isNone

def update (ref : SessionRef) (f : SessionRow → SessionRow) (rows : Sessions) : Sessions :=
  rows.map fun held => if names ref held then f held else held

/-- The adoption's `insert ... on conflict do nothing`. -/
def adopt (rows : Sessions) (row : HostSessionRow) : Sessions :=
  match get row.sessionId rows with
  | none => rows ++ [row.adopted]
  | some _ => rows

/-- An update with the rows it returns. -/
def updateReturning (state : Sessions × List SessionRow) (row : HostSessionRow) : Sessions × List SessionRow :=
  let rows := update row.toSessionRef (listFields row) state.1
  (rows, state.2 ++ rows.filter (names row.toSessionRef))

/-- The columns of a status notice: what a notice is due for is a change of one of these. -/
def reported (row : SessionRow) :
    Option SessionRowStatusKind × Bool × BackgroundWork × Option SessionTurnStatus × Option ℕ :=
  (row.status, row.awaitingInput, row.backgroundWork, row.lastTurnStatus, row.lastTurnCompletedAt)

def changed (before : Option SessionRow) (after : SessionRow) : Bool :=
  after.status.isSome && before.all fun before => reported before ≠ reported after

/-- The publication's batch as it was planned, and the rows its readers are owed a notice of. -/
def publish (rows : Sessions) (now : ℕ) (plan : HostSessionRowsPlan) : Sessions × List SessionRow :=
  let adopted := plan.adopt.foldl adopt rows
  let updated := plan.update.foldl updateReturning (adopted, [])
  let removed := plan.remove.foldl (fun rows ref => update ref (fun held => { held with deletedAt := some now }) rows) updated.1
  (removed, updated.2.filter fun after => changed (get after.sessionId rows) after)

end Sessions

/-- What reaches the registry: a publication, with the workspaces its host serves and the sessions as they were read before its batch,
and the stamps of turns. -/
inductive SessionRowsEvent where
  | publish (now : ℕ) (served : String → Bool) (existing : String → Option RegisteredSession) (publication : HostSessionRowsPublication)
  | stamp (ref : SessionRef) (kind : SessionRowStatusKind) (stampedAt : ℕ)

def Sessions.step (rows : Sessions) : SessionRowsEvent → Sessions
  | .publish now served existing publication => (rows.publish now (planHostSessionRows served existing publication)).1
  | .stamp ref kind stampedAt => rows.update ref (stamp kind stampedAt)

/-! A published session row does not move backwards. Its dates only grow; its status and wait are of one report, the newest that
came; what a row comes to does not depend on the order its publications arrive in, or on how often. -/

/-- What is told of one row: it is published, or a turn stamps it. -/
inductive RowReport where
  | published (row : HostSessionRow)
  | stamped (kind : SessionRowStatusKind) (stampedAt : ℕ)
  deriving DecidableEq

/-- A date, before all of them where there is none. -/
def date : Option ℕ → WithBot ℕ
  | none => ⊥
  | some x => x

/-- A kind and a wait, with the date they were reported. -/
structure StatusColumns where
  kind : Option SessionRowStatusKind
  awaitingInput : Bool
  reportedAt : WithBot ℕ

structure LastTurnColumns where
  status : Option SessionTurnStatus
  completedAt : WithBot ℕ

namespace RowReport

def apply (held : SessionRow) : RowReport → SessionRow
  | published row => listFields row held
  | stamped kind stampedAt => stamp kind stampedAt held

def reportedAt : RowReport → ℕ
  | published row => row.status.reportedAt
  | stamped _ stampedAt => stampedAt

def status : RowReport → StatusColumns
  | published row => ⟨some row.status.kind, row.status.awaitingInput, row.status.reportedAt⟩
  | stamped kind stampedAt => ⟨some kind, false, stampedAt⟩

def updatedAt : RowReport → Option ℕ
  | published row => some row.updatedAt
  | stamped .. => none

def lastHumanTurnAt : RowReport → Option (WithBot ℕ)
  | published row => row.lastHumanTurnAt.map fun x => x
  | stamped .. => none

def lastTurn : RowReport → Option LastTurnColumns
  | published row => row.lastTurn.map fun turn => ⟨some turn.status, turn.completedAt⟩
  | stamped .. => none

end RowReport

namespace SessionRow

def statusColumns (row : SessionRow) : StatusColumns := ⟨row.status, row.awaitingInput, date row.statusAt⟩

def lastTurnColumns (row : SessionRow) : LastTurnColumns := ⟨row.lastTurnStatus, date row.lastTurnCompletedAt⟩

/-- No date goes back, the row stays the session's, and what is deleted stays so. -/
structure Forward (held after : SessionRow) : Prop where
  ref : after.toSessionRef = held.toSessionRef
  deletedAt : after.deletedAt = none → held.deletedAt = none
  updatedAt : held.updatedAt ≤ after.updatedAt
  lastHumanTurnAt : date held.lastHumanTurnAt ≤ date after.lastHumanTurnAt
  statusAt : date held.statusAt ≤ date after.statusAt
  lastTurnCompletedAt : date held.lastTurnCompletedAt ≤ date after.lastTurnCompletedAt

theorem Forward.refl (row : SessionRow) : Forward row row := ⟨rfl, id, le_rfl, le_rfl, le_rfl, le_rfl⟩

theorem Forward.trans {a b c : SessionRow} (h : Forward a b) (h' : Forward b c) : Forward a c :=
  ⟨h'.ref.trans h.ref, h.deletedAt ∘ h'.deletedAt, h.updatedAt.trans h'.updatedAt,
      h.lastHumanTurnAt.trans h'.lastHumanTurnAt, h.statusAt.trans h'.statusAt,
    h.lastTurnCompletedAt.trans h'.lastTurnCompletedAt⟩

theorem current_iff (held : SessionRow) (reportedAt : ℕ) :
    held.current reportedAt = true ↔ date held.statusAt ≤ reportedAt := by
  unfold current date
  rcases held.statusAt with _ | statusAt
  · simp
  · simp

end SessionRow

open SessionRow

section
variable (held : SessionRow) (report : RowReport)

theorem apply_toSessionRef : (report.apply held).toSessionRef = held.toSessionRef := by cases report <;> rfl

theorem apply_deletedAt : (report.apply held).deletedAt = held.deletedAt := by cases report <;> rfl

/-- A report's status replaces the held one where it is not dated before it. -/
theorem statusColumns_apply :
    (report.apply held).statusColumns = pick StatusColumns.reportedAt (fun a b => a ≤ b) held.statusColumns report.status := by
  cases report with
  | published row =>
    by_cases hcurrent : held.current row.status.reportedAt = true
    · refine Eq.trans ?_ (pick_of StatusColumns.reportedAt (fun a b => a ≤ b)
        ((current_iff held row.status.reportedAt).mp hcurrent)).symm
      simp [RowReport.apply, listFields, statusColumns, RowReport.status, hcurrent, date]
    · refine Eq.trans ?_ (pick_of_not StatusColumns.reportedAt (fun a b => a ≤ b)
        fun h => hcurrent ((current_iff held row.status.reportedAt).mpr h)).symm
      simp [RowReport.apply, listFields, statusColumns, hcurrent]
  | stamped kind stampedAt =>
    by_cases hcurrent : held.current stampedAt = true
    · refine Eq.trans ?_ (pick_of StatusColumns.reportedAt (fun a b => a ≤ b) ((current_iff held stampedAt).mp hcurrent)).symm
      simp [RowReport.apply, stamp, statusColumns, RowReport.status, hcurrent, date]
    · refine Eq.trans ?_ (pick_of_not StatusColumns.reportedAt (fun a b => a ≤ b)
        fun h => hcurrent ((current_iff held stampedAt).mpr h)).symm
      simp [RowReport.apply, stamp, statusColumns, hcurrent]

theorem updatedAt_apply :
    (report.apply held).updatedAt =
      pickSome id (fun a b => a ≤ b) held.updatedAt report.updatedAt := by
  cases report with
  | published row =>
    simp only [RowReport.apply, listFields, RowReport.updatedAt]
    by_cases h : held.updatedAt ≤ row.updatedAt
    · exact (max_eq_right h).trans (pick_of id (fun a b => a ≤ b) h).symm
    · exact (max_eq_left (le_of_not_ge h)).trans (pick_of_not id (fun a b => a ≤ b) h).symm
  | stamped kind stampedAt => rfl

theorem lastHumanTurnAt_apply :
    date (report.apply held).lastHumanTurnAt =
      pickSome id (fun a b => a ≤ b) (date held.lastHumanTurnAt) report.lastHumanTurnAt := by
  cases report with
  | published row =>
    rcases hlast : row.lastHumanTurnAt with _ | last
    · simp [RowReport.apply, listFields, RowReport.lastHumanTurnAt, hlast, pickSome]
    · simp only [RowReport.apply, listFields, RowReport.lastHumanTurnAt, hlast]
      rcases hheld : held.lastHumanTurnAt with _ | before
      · refine Eq.trans ?_ (pick_of id (fun a b => a ≤ b) (show date none ≤ (last : WithBot ℕ) from bot_le)).symm
        simp [date]
      · by_cases hle : before ≤ last
        · refine Eq.trans ?_ (pick_of id (fun a b => a ≤ b) (show date (some before) ≤ (last : WithBot ℕ) from
            WithBot.coe_le_coe.mpr hle)).symm
          simp [date, max_eq_right hle]
        · refine Eq.trans ?_ (pick_of_not id (fun a b => a ≤ b) (show ¬ date (some before) ≤ (last : WithBot ℕ) from
            fun h => hle (WithBot.coe_le_coe.mp h))).symm
          simp [date, max_eq_left (le_of_not_ge hle)]
  | stamped kind stampedAt => rfl

theorem lastTurnColumns_apply :
    (report.apply held).lastTurnColumns =
      pickSome LastTurnColumns.completedAt (fun a b => a < b) held.lastTurnColumns report.lastTurn := by
  cases report with
  | published row =>
    rcases hturn : row.lastTurn with _ | turn
    · simp [RowReport.apply, listFields, RowReport.lastTurn, lastTurnColumns, hturn, pickSome]
    · simp only [RowReport.apply, listFields, RowReport.lastTurn, lastTurnColumns, hturn, Option.map_some, Option.filter_some]
      rcases hheld : held.lastTurnCompletedAt with _ | completedAt
      · refine Eq.trans ?_ (pick_of LastTurnColumns.completedAt (fun a b => a < b) (show date none < (turn.completedAt : WithBot ℕ) from
          WithBot.bot_lt_coe _)).symm
        simp [date]
      · by_cases hlt : completedAt < turn.completedAt
        · refine Eq.trans ?_ (pick_of LastTurnColumns.completedAt (fun a b => a < b)
            (show date (some completedAt) < (turn.completedAt : WithBot ℕ) from
            WithBot.coe_lt_coe.mpr hlt)).symm
          simp [hlt, date]
        · refine Eq.trans ?_ (pick_of_not LastTurnColumns.completedAt (fun a b => a < b)
            (show ¬ date (some completedAt) < (turn.completedAt : WithBot ℕ) from
            fun h => hlt (WithBot.coe_lt_coe.mp h))).symm
          simp [hlt]
  | stamped kind stampedAt => rfl

theorem forward_apply : held.Forward (report.apply held) where
  ref := apply_toSessionRef held report
  deletedAt := fun h => (apply_deletedAt held report).symm.trans h
  updatedAt := by
    rw [updatedAt_apply]
    rcases report.updatedAt with _ | x
    · exact le_rfl
    · exact (le_pick id follows_le held.updatedAt x).1
  lastHumanTurnAt := by
    rw [lastHumanTurnAt_apply]
    rcases report.lastHumanTurnAt with _ | x
    · exact le_rfl
    · exact (le_pick id follows_le (date held.lastHumanTurnAt) x).1
  statusAt := by
    have h := (le_pick StatusColumns.reportedAt follows_le held.statusColumns report.status).1
    rw [← statusColumns_apply] at h
    exact h
  lastTurnCompletedAt := by
    have h := lastTurnColumns_apply held report
    rcases hx : report.lastTurn with _ | x
    · rw [hx] at h
      exact le_of_eq (congrArg LastTurnColumns.completedAt h).symm
    · rw [hx] at h
      have hle := (le_pick LastTurnColumns.completedAt follows_lt held.lastTurnColumns x).1
      exact hle.trans (le_of_eq (congrArg LastTurnColumns.completedAt h).symm)

end

/-- Reports of one date, and those of one turn's end, tell the same. -/
structure Agrees (reports : List RowReport) : Prop where
  work : ∀ row, .published row ∈ reports → ∀ row', .published row' ∈ reports → row.status.reportedAt = row'.status.reportedAt →
    row.status.backgroundWork.getD {} = row'.status.backgroundWork.getD {}
  status : ∀ r ∈ reports, ∀ r' ∈ reports, r.status.reportedAt = r'.status.reportedAt → r.status = r'.status
  lastTurn : ∀ r ∈ reports, ∀ r' ∈ reports, ∀ turn ∈ r.lastTurn, ∀ turn' ∈ r'.lastTurn,
    turn.completedAt = turn'.completedAt → turn = turn'

/-- What a row comes to but its title and its archive state. -/
structure Settles (a b : SessionRow) : Prop where
  updatedAt : a.updatedAt = b.updatedAt
  lastHumanTurnAt : date a.lastHumanTurnAt = date b.lastHumanTurnAt
  status : a.statusColumns = b.statusColumns
  lastTurn : a.lastTurnColumns = b.lastTurnColumns

def told (held : SessionRow) (reports : List RowReport) : SessionRow := reports.foldl RowReport.apply held

theorem told_append (held : SessionRow) (reports : List RowReport) (report : RowReport) :
    told held (reports ++ [report]) = report.apply (told held reports) := List.foldl_append

theorem statusColumns_told (held : SessionRow) (reports : List RowReport) :
    (told held reports).statusColumns =
      newest StatusColumns.reportedAt (fun a b => a ≤ b) held.statusColumns (reports.map RowReport.status) :=
  foldl_newest (fun held report => statusColumns_apply held report) held reports

theorem lastTurnColumns_told (held : SessionRow) (reports : List RowReport) :
    (told held reports).lastTurnColumns =
      newest LastTurnColumns.completedAt (fun a b => a < b) held.lastTurnColumns (reports.filterMap RowReport.lastTurn) :=
  foldl_newest_filterMap (fun held report => lastTurnColumns_apply held report) held reports

theorem updatedAt_told (held : SessionRow) (reports : List RowReport) :
    (told held reports).updatedAt = newest id (fun a b => a ≤ b) held.updatedAt (reports.filterMap RowReport.updatedAt) :=
  foldl_newest_filterMap (fun held report => updatedAt_apply held report) held reports

theorem lastHumanTurnAt_told (held : SessionRow) (reports : List RowReport) :
    date (told held reports).lastHumanTurnAt =
      newest id (fun a b => a ≤ b) (date held.lastHumanTurnAt) (reports.filterMap RowReport.lastHumanTurnAt) :=
  foldl_newest_filterMap (g := fun held : SessionRow => date held.lastHumanTurnAt)
    (fun held report => lastHumanTurnAt_apply held report) held reports

variable {held : SessionRow} {reports : List RowReport}

/-- The order of the reports, and how often each comes, does not matter. -/
theorem settles {reports' : List RowReport} (hmem : ∀ r, r ∈ reports ↔ r ∈ reports') (hagrees : Agrees reports) :
    Settles (told held reports) (told held reports') where
  updatedAt := by
    rw [updatedAt_told, updatedAt_told]
    exact newest_congr follows_le (fun x => by simp only [List.mem_filterMap, hmem]) fun x _ y _ hxy => hxy
  lastHumanTurnAt := by
    rw [lastHumanTurnAt_told, lastHumanTurnAt_told]
    exact newest_congr follows_le (fun x => by simp only [List.mem_filterMap, hmem]) fun x _ y _ hxy => hxy
  status := by
    rw [statusColumns_told, statusColumns_told]
    refine newest_congr follows_le (fun x => by simp only [List.mem_map, hmem]) fun x hx y hy hxy => ?_
    obtain ⟨r, hr, rfl⟩ := List.mem_map.mp hx
    obtain ⟨r', hr', rfl⟩ := List.mem_map.mp hy
    exact hagrees.status r hr r' hr' hxy
  lastTurn := by
    rw [lastTurnColumns_told, lastTurnColumns_told]
    refine newest_congr follows_lt (fun x => by simp only [List.mem_filterMap, hmem]) fun x hx y hy hxy => ?_
    obtain ⟨r, hr, hturn⟩ := List.mem_filterMap.mp hx
    obtain ⟨r', hr', hturn'⟩ := List.mem_filterMap.mp hy
    exact hagrees.lastTurn r hr r' hr' x hturn y hturn' hxy

theorem Settles.trans {a b c : SessionRow} (h : Settles a b) (h' : Settles b c) : Settles a c :=
  ⟨h.updatedAt.trans h'.updatedAt, h.lastHumanTurnAt.trans h'.lastHumanTurnAt, h.status.trans h'.status, h.lastTurn.trans h'.lastTurn⟩

/-- Which of the rows told of a session is adopted with does not matter. -/
theorem settles_adopted {row row' : HostSessionRow} (hrow : .published row ∈ reports) (hrow' : .published row' ∈ reports) :
    Settles (told row.adopted reports) (told row'.adopted reports) where
  updatedAt := by
    rw [updatedAt_told, updatedAt_told]
    refine newest_of_mem follows_le ?_ ?_ fun x _ y _ hxy => hxy
    · exact List.mem_filterMap.mpr ⟨_, hrow, rfl⟩
    · exact List.mem_filterMap.mpr ⟨_, hrow', rfl⟩
  lastHumanTurnAt := by
    rw [lastHumanTurnAt_told, lastHumanTurnAt_told]
    rfl
  status := by
    rw [statusColumns_told, statusColumns_told]
    rfl
  lastTurn := by
    rw [lastTurnColumns_told, lastTurnColumns_told]
    rfl

theorem status_newest {report : RowReport} (hagrees : Agrees reports) (hmem : report ∈ reports)
    (hmax : ∀ r ∈ reports, r.status.reportedAt ≤ report.status.reportedAt) (hheld : date held.statusAt ≤ report.status.reportedAt) :
    (told held reports).statusColumns = report.status := by
  rw [statusColumns_told]
  refine newest_eq follows_le (List.mem_map_of_mem hmem) hheld (fun y hy => ?_) fun y hy hkey => ?_
  · obtain ⟨r, hr, rfl⟩ := List.mem_map.mp hy
    exact hmax r hr
  · obtain ⟨r, hr, rfl⟩ := List.mem_map.mp hy
    exact hagrees.status r hr report hmem hkey

theorem work_newest {row : HostSessionRow} (hagrees : Agrees reports) (hmem : .published row ∈ reports)
    (hmax : ∀ r ∈ reports, r.status.reportedAt ≤ row.status.reportedAt) (hheld : date held.statusAt ≤ row.status.reportedAt) :
    (told held reports).backgroundWork = row.status.backgroundWork.getD {} := by
  induction reports using List.reverseRecOn with
  | nil => cases hmem
  | append_singleton reports report ih =>
    have hsub : ∀ r ∈ reports, r ∈ reports ++ [report] := fun r hr => List.mem_append_left _ hr
    have hagrees' : Agrees reports := by
      refine ⟨fun row hrow row' hrow' => hagrees.work row (hsub _ hrow) row' (hsub _ hrow'), ?_, ?_⟩
      · exact fun r hr r' hr' => hagrees.status r (hsub r hr) r' (hsub r' hr')
      · exact fun r hr r' hr' => hagrees.lastTurn r (hsub r hr) r' (hsub r' hr')
    have hih : .published row ∈ reports → (told held reports).backgroundWork = row.status.backgroundWork.getD {} :=
      fun hrow => ih hagrees' hrow fun r hr => hmax r (hsub r hr)
    rw [told_append]
    cases report with
    | stamped kind stampedAt => exact hih (by simpa using hmem)
    | published row' =>
      have hlast : .published row' ∈ reports ++ [.published row'] := List.mem_append_right _ (List.mem_singleton_self _)
      by_cases hcurrent : (told held reports).current row'.status.reportedAt = true
      · have hwork : (RowReport.apply (told held reports) (.published row')).backgroundWork = row'.status.backgroundWork.getD {} := by
          simp [RowReport.apply, listFields, hcurrent]
        rw [hwork]
        rcases List.mem_append.mp hmem with hrow | hrow
        · -- the row held is dated as the newest, so one that replaces it is of its date
          have hdate : date (told held reports).statusAt = row.status.reportedAt := congrArg StatusColumns.reportedAt
            (status_newest hagrees' hrow (fun r hr => hmax r (hsub r hr)) hheld)
          have hle : (row.status.reportedAt : WithBot ℕ) ≤ row'.status.reportedAt :=
            (le_of_eq hdate.symm).trans ((current_iff _ _).mp hcurrent)
          have hle' : (row'.status.reportedAt : WithBot ℕ) ≤ row.status.reportedAt := hmax _ hlast
          exact hagrees.work _ hlast _ hmem (WithBot.coe_injective (le_antisymm hle' hle))
        · cases List.mem_singleton.mp hrow
          rfl
      · have hwork : (RowReport.apply (told held reports) (.published row')).backgroundWork = (told held reports).backgroundWork := by
          simp [RowReport.apply, listFields, hcurrent]
        rw [hwork]
        rcases List.mem_append.mp hmem with hrow | hrow
        · exact hih hrow
        · -- nothing that came is dated after the newest
          cases List.mem_singleton.mp hrow
          refine absurd ((current_iff _ _).mpr ?_) hcurrent
          have hstatus := statusColumns_told held reports
          rcases newest_cases StatusColumns.reportedAt follows_le held.statusColumns (reports.map RowReport.status) with hsame | hnew
          · rw [hsame.1] at hstatus
            exact (le_of_eq (congrArg StatusColumns.reportedAt hstatus)).trans hheld
          · obtain ⟨r, hr, hrstatus⟩ := List.mem_map.mp hnew.1
            rw [← hrstatus] at hstatus
            exact (le_of_eq (congrArg StatusColumns.reportedAt hstatus)).trans (hmax r (hsub r hr))

theorem lastTurn_newest {report : RowReport} {turn : LastTurnColumns} (hagrees : Agrees reports) (hmem : report ∈ reports)
    (hturn : report.lastTurn = some turn) (hmax : ∀ r ∈ reports, ∀ turn' ∈ r.lastTurn, turn'.completedAt ≤ turn.completedAt)
    (hheld : date held.lastTurnCompletedAt < turn.completedAt) : (told held reports).lastTurnColumns = turn := by
  rw [lastTurnColumns_told]
  refine newest_eq follows_lt (List.mem_filterMap.mpr ⟨report, hmem, hturn⟩) hheld (fun y hy => ?_) fun y hy hkey => ?_
  · obtain ⟨r, hr, hy'⟩ := List.mem_filterMap.mp hy
    exact hmax r hr y hy'
  · obtain ⟨r, hr, hy'⟩ := List.mem_filterMap.mp hy
    exact hagrees.lastTurn r hr report hmem y hy' turn hturn hkey

/-- The publications whose status is written, in turn. -/
def written (held : SessionRow) : List RowReport → List HostSessionRow
  | [] => []
  | report :: reports =>
    match report with
    | .published row => (if held.current row.status.reportedAt then [row] else []) ++ written (report.apply held) reports
    | .stamped .. => written (report.apply held) reports

/-- The background work of the last publication written, and what the row held where none was. -/
def workWritten (held : SessionRow) (reports : List RowReport) : BackgroundWork :=
  ((written held reports).getLast?.map fun row => row.status.backgroundWork.getD {}).getD held.backgroundWork

/-- Where a row's status columns are from: what was held, or one report, the one they are dated by. Its background work is that
report's where a host published it; a turn's stamp leaves that of the last publication written. -/
def FromOne (held after : SessionRow) (reports : List RowReport) : Prop :=
  (after.statusColumns = held.statusColumns ∧ after.backgroundWork = held.backgroundWork) ∨
    ∃ report ∈ reports, after.statusColumns = report.status ∧
      match report with
      | .published row => after.backgroundWork = row.status.backgroundWork.getD {}
      | .stamped .. => after.backgroundWork = workWritten held reports

theorem written_append (held : SessionRow) (reports : List RowReport) (report : RowReport) :
    written held (reports ++ [report]) = written held reports ++ written (told held reports) [report] := by
  induction reports generalizing held with
  | nil => rfl
  | cons first reports ih =>
    unfold told at *
    rw [List.cons_append, List.foldl_cons]
    cases first with
    | published row => rw [written, written, ih, List.append_assoc]
    | stamped => rw [written, written, ih]

theorem work_told (held : SessionRow) (reports : List RowReport) :
    (told held reports).backgroundWork = workWritten held reports := by
  induction reports using List.reverseRecOn with
  | nil => rfl
  | append_singleton reports report ih =>
    unfold workWritten at *
    rw [told_append, written_append]
    cases report with
    | stamped kind stampedAt =>
      rw [written, written, List.append_nil]
      exact ih
    | published row =>
      by_cases hcurrent : (told held reports).current row.status.reportedAt = true
      · simp [written, RowReport.apply, listFields, hcurrent]
      · simp [written, RowReport.apply, listFields, hcurrent, ih]

theorem fromOne_told (held : SessionRow) (reports : List RowReport) : FromOne held (told held reports) reports := by
  induction reports using List.reverseRecOn with
  | nil => exact .inl ⟨rfl, rfl⟩
  | append_singleton reports report ih =>
    have hwork := work_told held (reports ++ [report])
    have hlast : report ∈ reports ++ [report] := List.mem_append_right _ (List.mem_singleton_self report)
    unfold FromOne at *
    rw [told_append] at hwork ⊢
    cases hcurrent : (told held reports).current report.reportedAt with
    | false =>
      have hsame : (report.apply (told held reports)).statusColumns = (told held reports).statusColumns ∧
          (report.apply (told held reports)).backgroundWork = (told held reports).backgroundWork := by
        cases report <;> simp only [RowReport.reportedAt] at hcurrent <;>
          simp [RowReport.apply, listFields, stamp, statusColumns, hcurrent]
      rw [hsame.1, hsame.2]
      refine ih.imp_right fun ⟨before, hmem, hstatus, hbefore⟩ => ⟨before, List.mem_append_left _ hmem, hstatus, ?_⟩
      cases before with
      | published row => exact hbefore
      | stamped => exact hsame.2.symm.trans hwork
    | true =>
      refine .inr ⟨report, hlast, ?_, ?_⟩
      · rw [statusColumns_apply]
        refine pick_of StatusColumns.reportedAt (fun a b => a ≤ b) ?_
        cases report <;> exact (current_iff _ _).mp hcurrent
      · cases report with
        | published row =>
          simp only [RowReport.reportedAt] at hcurrent
          simp [RowReport.apply, listFields, hcurrent]
        | stamped kind stampedAt => exact hwork

end Claxedo.Authority
