import Claxedo.Lib.Table

/-! The registration operations and the sessions of the control plane, and the four batches that write
them. A batch lands whole, or, where its assertion does not hold, not at all. -/

namespace Claxedo.Registration

open Claxedo.Lib

inductive SessionRegistrationState where
  | reserved
  | registered
  | reconciliationRequired
  | compensationPending
  | compensated
  deriving DecidableEq

inductive Kind where
  | create
  | fork
  deriving DecidableEq

inductive Backing where
  | cloudVm
  | localWorktree
  deriving DecidableEq

structure WorkspaceAccessRow where
  workspaceId : String
  orgId : String
  projectId : String
  backing : Backing

def SessionRegistrationState.text : SessionRegistrationState → String
  | .reserved => "reserved"
  | .registered => "registered"
  | .reconciliationRequired => "reconciliation_required"
  | .compensationPending => "compensation_pending"
  | .compensated => "compensated"

/-- The transitions that calls ask for. -/
inductive Move where
  | markAmbiguous
  | beginCompensation
  | completeCompensation

def Move.origins : Move → List SessionRegistrationState
  | .markAmbiguous => [.reserved, .compensationPending]
  | .beginCompensation => [.reserved, .reconciliationRequired]
  | .completeCompensation => [.compensationPending]

def Move.target : Move → SessionRegistrationState
  | .markAmbiguous => .reconciliationRequired
  | .beginCompensation => .compensationPending
  | .completeCompensation => .compensated

structure RegistrationRow where
  operationId : String
  sessionId : String
  workspaceId : String
  orgId : String
  projectId : String
  creatorActorId : String
  operationKind : Kind
  parentSessionId : Option String
  requestedTitle : Option String
  state : SessionRegistrationState
  stateReason : Option String := none
  createdAt : ℕ
  updatedAt : ℕ
  sessionHostRoot : Option String
  deriving DecidableEq

structure SessionRow where
  sessionId : String
  operationId : String
  workspaceId : String
  orgId : String
  projectId : String
  creatorActorId : String
  title : Option String
  createdAt : ℕ
  updatedAt : ℕ
  deleted : Bool := false
  sessionHostRoot : Option String

structure Tables where
  registrations : List RegistrationRow := []
  sessions : List SessionRow := []

structure HostWorkspaceAssignment where
  workspaceId : String
  hostId : String
  ownerActorId : String

/-- What other tables and the clock answer at a moment: who is an active actor, which workspaces
stand, who may create a session in one and who may send in a session, and who serves a workspace. -/
structure Access where
  active : String → Bool
  workspaces : List WorkspaceAccessRow
  creates : String → WorkspaceAccessRow → Bool
  sends : String → SessionRow → Bool
  assignments : List HostWorkspaceAssignment
  now : ℕ

structure ReservationIntent where
  operationId : String
  sessionId : String
  workspaceId : String
  kind : Kind
  parentSessionId : Option String
  title : Option String
  harnessId : Option String

/-- The row a reservation is about to be. -/
def intended (intent : ReservationIntent) (workspace : WorkspaceAccessRow) (actorId : String)
    (sessionHostRoot : Option String) (now : ℕ) : RegistrationRow :=
  { operationId := intent.operationId, sessionId := intent.sessionId, workspaceId := workspace.workspaceId,
    orgId := workspace.orgId, projectId := workspace.projectId, creatorActorId := actorId, operationKind := intent.kind,
    parentSessionId := intent.parentSessionId, requestedTitle := intent.title, state := .reserved, createdAt := now,
    updatedAt := now, sessionHostRoot }

def SESSION_ADOPTION_OPERATION_PREFIX : String := "session_adoption_"

def sessionAdoptionOperationId (sessionId : String) : String := SESSION_ADOPTION_OPERATION_PREFIX ++ sessionId

/-- The row of an adoption, which is registered from the start. -/
def adopted (sessionId : String) (workspace : WorkspaceAccessRow) (actorId : String) (title : Option String) (now : ℕ) :
    RegistrationRow :=
  { operationId := sessionAdoptionOperationId sessionId, sessionId, workspaceId := workspace.workspaceId, orgId := workspace.orgId,
    projectId := workspace.projectId, creatorActorId := actorId, operationKind := .create, parentSessionId := none,
    requestedTitle := title, state := .registered, createdAt := now, updatedAt := now, sessionHostRoot := none }

/-- The columns that a registration keeps for good. -/
def RegistrationRow.SameIntent (a b : RegistrationRow) : Prop :=
  a.operationId = b.operationId ∧ a.sessionId = b.sessionId ∧ a.workspaceId = b.workspaceId ∧ a.orgId = b.orgId ∧
    a.projectId = b.projectId ∧ a.creatorActorId = b.creatorActorId ∧ a.operationKind = b.operationKind ∧
    a.parentSessionId = b.parentSessionId ∧ a.requestedTitle = b.requestedTitle ∧ a.sessionHostRoot = b.sessionHostRoot

instance (a b : RegistrationRow) : Decidable (a.SameIntent b) := inferInstanceAs (Decidable (_ ∧ _))

/-- The session a registration becomes. -/
def RegistrationRow.session (r : RegistrationRow) (createdAt updatedAt : ℕ) : SessionRow :=
  { sessionId := r.sessionId, operationId := r.operationId, workspaceId := r.workspaceId, orgId := r.orgId,
    projectId := r.projectId, creatorActorId := r.creatorActorId, title := r.requestedTitle, createdAt, updatedAt,
    sessionHostRoot := r.sessionHostRoot }

section
variable (access : Access)

def standingWorkspace (workspaceId orgId projectId actorId : String) : Bool :=
  access.workspaces.any fun w =>
    w.workspaceId = workspaceId ∧ w.orgId = orgId ∧ w.projectId = projectId ∧ access.creates actorId w

def parentSends (t : Tables) (parentSessionId : Option String) (workspaceId actorId : String) : Bool :=
  t.sessions.any fun parent =>
    parentSessionId = some parent.sessionId ∧ parent.workspaceId = workspaceId ∧ ¬ parent.deleted ∧ access.sends actorId parent

/-- `insert … on conflict do nothing` under the operation's key and the session's. -/
def insertRegistration (row : RegistrationRow) (registrations : List RegistrationRow) : List RegistrationRow :=
  if registrations.any fun r => r.operationId = row.operationId ∨ r.sessionId = row.sessionId then registrations
  else registrations ++ [row]

def insertSession (row : SessionRow) (sessions : List SessionRow) : List SessionRow :=
  if sessions.any fun s => s.operationId = row.operationId ∨ s.sessionId = row.sessionId then sessions
  else sessions ++ [row]

/-- The session an operation has come to be, if it is its actor's and registered. -/
def insertSessionOf (operationId actorId : String) (createdAt updatedAt : ℕ) (t : Tables) : Tables :=
  match Table.get RegistrationRow.operationId operationId t.registrations with
  | some r =>
    if r.creatorActorId = actorId ∧ r.state = .registered then
      { t with sessions := insertSession (r.session createdAt updatedAt) t.sessions }
    else t
  | none => t

/-- A registered operation stands with its session, which its actor may send in. -/
def registeredAssertion (operationId actorId : String) (t : Tables) : Bool :=
  t.registrations.any fun r => r.operationId = operationId ∧ r.state = .registered ∧
    t.sessions.any fun s => s.operationId = r.operationId ∧ s.sessionId = r.sessionId ∧ s.creatorActorId = actorId ∧
      ¬ s.deleted ∧ access.sends actorId s

/-- `reserveForActor`'s batch: what was compensated lets go of the operation and the session, and the
reservation goes in. -/
def reserveBatch (intent : ReservationIntent) (workspace : WorkspaceAccessRow) (actorId : String)
    (sessionHostRoot : Option String) (now : ℕ) (t : Tables) : Option Tables :=
  let row := intended intent workspace actorId sessionHostRoot now
  let released := t.registrations.filter fun r =>
    ¬ (r.state = .compensated ∧ (r.sessionId = row.sessionId ∨ r.operationId = row.operationId))
  let registrations :=
    if standingWorkspace access row.workspaceId row.orgId row.projectId row.creatorActorId ∧
        (row.operationKind = .create ∨ parentSends access t row.parentSessionId row.workspaceId row.creatorActorId) then
      insertRegistration row released
    else released
  if registrations.any fun r => r.SameIntent row ∧ r.state = .reserved then some { t with registrations } else none

/-- `registerReservation`'s batch. -/
def registerBatch (operationId actorId : String) (createdAt updatedAt now : ℕ) (t : Tables) : Option Tables :=
  let registrations := t.registrations.map fun r =>
    if r.operationId = operationId ∧ r.creatorActorId = actorId ∧
        (r.state = .reserved ∨ r.state = .reconciliationRequired) ∧
        standingWorkspace access r.workspaceId r.orgId r.projectId actorId ∧
        (r.operationKind = .create ∨ parentSends access t r.parentSessionId r.workspaceId actorId) then
      { r with state := .registered, stateReason := none, updatedAt := now }
    else r
  let t := insertSessionOf operationId actorId createdAt updatedAt { t with registrations }
  if registeredAssertion access operationId actorId t then some t else none

/-- `adoptRuntimeSession`'s batch. -/
def adoptBatch (sessionId : String) (workspace : WorkspaceAccessRow) (actorId : String) (title : Option String) (hostId : String)
    (createdAt updatedAt now : ℕ) (t : Tables) : Option Tables :=
  let row := adopted sessionId workspace actorId title now
  let released := t.registrations.filter fun r => ¬ (r.sessionId = row.sessionId ∧ r.state = .compensated)
  let registrations :=
    if standingWorkspace access row.workspaceId row.orgId row.projectId row.creatorActorId ∧
        access.assignments.any (fun a => a.workspaceId = row.workspaceId ∧ a.hostId = hostId ∧
          a.ownerActorId = row.creatorActorId) then
      insertRegistration row released
    else released
  let t := insertSessionOf row.operationId row.creatorActorId createdAt updatedAt { t with registrations }
  if registeredAssertion access row.operationId row.creatorActorId t then some t else none

end

/-- The transitions the trigger lets through. -/
def mayMove : SessionRegistrationState → SessionRegistrationState → Bool
  | .reserved, .registered | .reserved, .reconciliationRequired | .reserved, .compensationPending => true
  | .reconciliationRequired, .registered | .reconciliationRequired, .compensationPending => true
  | .compensationPending, .compensated | .compensationPending, .reconciliationRequired => true
  | _, _ => false

/-- `transitionRegistration`'s batch; a row that the trigger stops aborts it. -/
def transitionBatch (operationId actorId : String) (move : Move) (reason : String) (now : ℕ) (t : Tables) : Option Tables :=
  let moves : RegistrationRow → Bool := fun r =>
    r.operationId = operationId ∧ r.creatorActorId = actorId ∧ r.state ∈ move.origins ∧
      ¬ t.sessions.any (fun s => s.operationId = operationId)
  if t.registrations.any fun r => moves r ∧ r.state ≠ move.target ∧ ¬ mayMove r.state move.target then none
  else
    let registrations := t.registrations.map fun r =>
      if moves r then { r with state := move.target, stateReason := some reason, updatedAt := now } else r
    if registrations.any (fun r => r.operationId = operationId ∧ r.creatorActorId = actorId ∧ r.state = move.target ∧
          r.stateReason = some reason) ∧ ¬ t.sessions.any (fun s => s.operationId = operationId) then
      some { t with registrations }
    else none

/-! What the batches keep: sessions and registered operations stand one for one, and a live operation
keeps its session id and its intent. -/

/-- The session of a registration. -/
def RegistrationRow.Holds (r : RegistrationRow) (s : SessionRow) : Prop :=
  s.operationId = r.operationId ∧ s.sessionId = r.sessionId ∧ s.workspaceId = r.workspaceId ∧ s.orgId = r.orgId ∧
    s.projectId = r.projectId ∧ s.creatorActorId = r.creatorActorId

/-- A session row exists exactly for a registered operation. -/
structure Consistent (t : Tables) : Prop where
  operations : (t.registrations.map (·.operationId)).Nodup
  sessionIds : (t.registrations.map (·.sessionId)).Nodup
  sessionKeys : (t.sessions.map (·.sessionId)).Nodup
  sessionOperations : (t.sessions.map (·.operationId)).Nodup
  registered : ∀ s ∈ t.sessions, ∃ r ∈ t.registrations, r.state = .registered ∧ r.Holds s
  stored : ∀ r ∈ t.registrations, r.state = .registered → ∃ s ∈ t.sessions, r.Holds s

/-- A live operation stays, with its intent, and a registered one stays registered; sessions stay as they are. -/
structure Forward (t t' : Tables) : Prop where
  live : ∀ r ∈ t.registrations, r.state ≠ .compensated →
    ∃ r' ∈ t'.registrations, r'.SameIntent r ∧ (r.state = .registered → r'.state = .registered)
  sessions : ∀ s ∈ t.sessions, s ∈ t'.sessions

/-- An operation that no live row is of. -/
def Spent (operationId : String) (t : Tables) : Prop :=
  ∀ r ∈ t.registrations, r.operationId = operationId → r.state = .compensated

def Reserved (operationId : String) (t : Tables) : Prop :=
  ∃ r ∈ t.registrations, r.operationId = operationId ∧ r.state = .reserved

def Registered (operationId : String) (t : Tables) : Prop :=
  ∃ r ∈ t.registrations, r.operationId = operationId ∧ r.state = .registered

variable {access : Access} {actorId operationId : String} {t t' : Tables} {createdAt now updatedAt : ℕ}

theorem registered_of_assertion (h : registeredAssertion access operationId actorId t = true) : Registered operationId t := by
  obtain ⟨r, hr, hrow⟩ := List.any_eq_true.mp h
  simp only [decide_eq_true_eq, Bool.decide_and, Bool.and_eq_true] at hrow
  exact ⟨r, hr, hrow.1, hrow.2.1⟩

theorem RegistrationRow.SameIntent.refl (r : RegistrationRow) : r.SameIntent r :=
  ⟨rfl, rfl, rfl, rfl, rfl, rfl, rfl, rfl, rfl, rfl⟩

theorem RegistrationRow.SameIntent.trans {a b c : RegistrationRow} (h : a.SameIntent b) (g : b.SameIntent c) : a.SameIntent c := by
  obtain ⟨h1, h2, h3, h4, h5, h6, h7, h8, h9, h10⟩ := h
  obtain ⟨g1, g2, g3, g4, g5, g6, g7, g8, g9, g10⟩ := g
  exact ⟨h1.trans g1, h2.trans g2, h3.trans g3, h4.trans g4, h5.trans g5, h6.trans g6, h7.trans g7, h8.trans g8, h9.trans g9,
    h10.trans g10⟩

theorem Forward.refl (t : Tables) : Forward t t :=
  ⟨fun r hr _ => ⟨r, hr, .refl r, id⟩, fun _ hs => hs⟩

theorem Consistent.empty : Consistent {} :=
  ⟨.nil, .nil, .nil, .nil, fun _ h => absurd h List.not_mem_nil, fun _ h => absurd h List.not_mem_nil⟩

/-- An inserted row has an operation and a session id of its own. -/
theorem insertRegistration_cases (row : RegistrationRow) (registrations : List RegistrationRow) :
    insertRegistration row registrations = registrations ∨
      insertRegistration row registrations = registrations ++ [row] ∧
        ∀ r ∈ registrations, r.operationId ≠ row.operationId ∧ r.sessionId ≠ row.sessionId := by
  unfold insertRegistration
  split_ifs with h
  · exact .inl rfl
  · refine .inr ⟨rfl, fun r hr => ?_⟩
    simp only [List.any_eq_true, decide_eq_true_eq, not_exists, not_and] at h
    exact not_or.mp (h r hr)

theorem insertRegistration_if (p : Prop) [Decidable p] (row : RegistrationRow) (registrations : List RegistrationRow) :
    (if p then insertRegistration row registrations else registrations) = registrations ∨
      (if p then insertRegistration row registrations else registrations) = registrations ++ [row] ∧
        ∀ r ∈ registrations, r.operationId ≠ row.operationId ∧ r.sessionId ≠ row.sessionId := by
  split_ifs
  · exact insertRegistration_cases row registrations
  · exact .inl rfl

theorem insertSession_cases (row : SessionRow) (sessions : List SessionRow) :
    insertSession row sessions = sessions ∨
      insertSession row sessions = sessions ++ [row] ∧
        ∀ s ∈ sessions, s.operationId ≠ row.operationId ∧ s.sessionId ≠ row.sessionId := by
  unfold insertSession
  split_ifs with h
  · exact .inl rfl
  · refine .inr ⟨rfl, fun s hs => ?_⟩
    simp only [List.any_eq_true, decide_eq_true_eq, not_exists, not_and] at h
    exact not_or.mp (h s hs)

theorem nodup_snoc {α β : Type} {f : α → β} {l : List α} {a : α} (h : (l.map f).Nodup) (hnew : ∀ b ∈ l, f b ≠ f a) :
    ((l ++ [a]).map f).Nodup := by
  rw [List.map_append, List.map_singleton]
  refine List.nodup_append.mpr ⟨h, List.nodup_singleton _, ?_⟩
  rintro x hx y hy rfl
  obtain ⟨b, hb, hsame⟩ := List.mem_map.mp hx
  exact hnew b hb (hsame.trans (List.mem_singleton.mp hy))

theorem Forward.of_mem (hlive : ∀ r ∈ t.registrations, r.state ≠ .compensated → r ∈ t'.registrations)
    (hsessions : ∀ s ∈ t.sessions, s ∈ t'.sessions) : Forward t t' :=
  ⟨fun r hr hl => ⟨r, hlive r hr hl, .refl r, id⟩, hsessions⟩

/-- Two rows of one operation are one row. -/
theorem Consistent.unique (h : Consistent t) {a b : RegistrationRow} (ha : a ∈ t.registrations) (hb : b ∈ t.registrations)
    (hsame : a.operationId = b.operationId) : a = b :=
  List.inj_on_of_nodup_map h.operations ha hb hsame

/-- Registrations without the compensated ones that were let go. -/
theorem Consistent.filter (h : Consistent t) {keep : RegistrationRow → Bool} (hkeep : ∀ r, r.state ≠ .compensated → keep r = true) :
    Consistent { t with registrations := t.registrations.filter keep } := by
  refine ⟨h.operations.sublist (List.Sublist.map _ List.filter_sublist), h.sessionIds.sublist (List.Sublist.map _ List.filter_sublist),
    h.sessionKeys, h.sessionOperations, fun s hs => ?_, fun r hr hregistered => ?_⟩
  · obtain ⟨r, hr, hregistered, hholds⟩ := h.registered s hs
    exact ⟨r, List.mem_filter.mpr ⟨hr, hkeep r (by rw [hregistered]; decide)⟩, hregistered, hholds⟩
  · exact h.stored r (List.mem_of_mem_filter hr) hregistered

/-- A session goes in for a registered operation of its own. -/
theorem consistent_insertSessionOf (hoperations : (t.registrations.map (·.operationId)).Nodup)
    (hsessionIds : (t.registrations.map (·.sessionId)).Nodup) (hsessionKeys : (t.sessions.map (·.sessionId)).Nodup)
    (hsessionOperations : (t.sessions.map (·.operationId)).Nodup)
    (hregistered : ∀ s ∈ t.sessions, ∃ r ∈ t.registrations, r.state = .registered ∧ r.Holds s)
    (hstored : ∀ r ∈ t.registrations, r.state = .registered → r.operationId ≠ operationId → ∃ s ∈ t.sessions, r.Holds s)
    (hassert : registeredAssertion access operationId actorId (insertSessionOf operationId actorId createdAt updatedAt t)) :
    Consistent (insertSessionOf operationId actorId createdAt updatedAt t) ∧
      (insertSessionOf operationId actorId createdAt updatedAt t).registrations = t.registrations ∧
      ∀ s ∈ t.sessions, s ∈ (insertSessionOf operationId actorId createdAt updatedAt t).sessions := by
  have hcases : (insertSessionOf operationId actorId createdAt updatedAt t).registrations = t.registrations ∧
      ((insertSessionOf operationId actorId createdAt updatedAt t).sessions = t.sessions ∨
        ∃ r ∈ t.registrations, r.state = .registered ∧ r.operationId = operationId ∧
          (insertSessionOf operationId actorId createdAt updatedAt t).sessions = t.sessions ++ [r.session createdAt updatedAt] ∧
          ∀ s ∈ t.sessions, s.operationId ≠ r.operationId ∧ s.sessionId ≠ r.sessionId) := by
    unfold insertSessionOf
    split
    · rename_i r hget
      obtain ⟨hr, hid⟩ := Table.mem_of_get hget
      split_ifs with hown
      · refine ⟨rfl, (insertSession_cases (r.session createdAt updatedAt) t.sessions).imp id ?_⟩
        rintro ⟨hinsert, hnew⟩
        exact ⟨r, hr, hown.2, hid, hinsert, hnew⟩
      · exact ⟨rfl, .inl rfl⟩
    · exact ⟨rfl, .inl rfl⟩
  obtain ⟨hregistrations, hsessions⟩ := hcases
  set t' := insertSessionOf operationId actorId createdAt updatedAt t with ht'
  have hkept : ∀ s ∈ t.sessions, s ∈ t'.sessions := by
    intro s hs
    rcases hsessions with hsame | ⟨_, _, _, _, hmore, _⟩
    · rwa [hsame]
    · rw [hmore]
      exact List.mem_append_left _ hs
  have hregistered' : ∀ s ∈ t'.sessions, ∃ r ∈ t'.registrations, r.state = .registered ∧ r.Holds s := by
    intro s hs
    rw [hregistrations]
    rcases hsessions with hsame | ⟨r, hr, hstate, -, hmore, -⟩
    · exact hregistered s (hsame ▸ hs)
    · rw [hmore] at hs
      rcases List.mem_append.mp hs with hs | hs
      · exact hregistered s hs
      · rw [List.mem_singleton.mp hs]
        exact ⟨r, hr, hstate, rfl, rfl, rfl, rfl, rfl, rfl⟩
  refine ⟨⟨hregistrations ▸ hoperations, hregistrations ▸ hsessionIds, ?_, ?_, hregistered', fun r hr hstate => ?_⟩, hregistrations,
    hkept⟩
  · rcases hsessions with hsame | ⟨r, -, -, -, hmore, hnew⟩
    · rwa [hsame]
    · rw [hmore]
      exact nodup_snoc hsessionKeys fun s hs => (hnew s hs).2
  · rcases hsessions with hsame | ⟨r, -, -, -, hmore, hnew⟩
    · rwa [hsame]
    · rw [hmore]
      exact nodup_snoc hsessionOperations fun s hs => (hnew s hs).1
  · by_cases hid : r.operationId = operationId
    · -- The batch's own operation: its assertion found the session.
      simp only [registeredAssertion, List.any_eq_true, decide_eq_true_eq] at hassert
      obtain ⟨q, hq, hqid, -, s, hs, hsoperation, -⟩ := hassert
      obtain ⟨p, hp, -, hholds⟩ := hregistered' s hs
      rw [hregistrations] at hp hr
      have hsame : p = r := List.inj_on_of_nodup_map hoperations hp hr (hholds.1.symm.trans (hsoperation.trans (hqid.trans hid.symm)))
      exact ⟨s, hs, hsame ▸ hholds⟩
    · rw [hregistrations] at hr
      obtain ⟨s, hs, hholds⟩ := hstored r hr hstate hid
      exact ⟨s, hkept s hs, hholds⟩

/-- What one batch may do to the tables. -/
structure Batched (t t' : Tables) : Prop where
  consistent : Consistent t'
  forward : Forward t t'

/-- What a row put in over the rows a batch keeps leaves, if it went in. -/
structure Inserted (t : Tables) (row : RegistrationRow) (registrations : List RegistrationRow) : Prop where
  kept : ∀ r ∈ t.registrations, r.state ≠ .compensated → r ∈ registrations
  old : ∀ r ∈ registrations, r ∈ t.registrations ∨ r = row
  operations : (registrations.map (·.operationId)).Nodup
  sessionIds : (registrations.map (·.sessionId)).Nodup

theorem Consistent.inserted (h : Consistent t) (p : Prop) [Decidable p] (row : RegistrationRow) {keep : RegistrationRow → Bool}
    (hkeep : ∀ r, r.state ≠ .compensated → keep r = true) :
    Inserted t row (if p then insertRegistration row (t.registrations.filter keep) else t.registrations.filter keep) := by
  have hreleased := h.filter hkeep
  have hkept : ∀ r ∈ t.registrations, r.state ≠ .compensated → r ∈ t.registrations.filter keep :=
    fun r hr hl => List.mem_filter.mpr ⟨hr, hkeep r hl⟩
  rcases insertRegistration_if p row (t.registrations.filter keep) with hsame | ⟨hinsert, hnew⟩
  · rw [hsame]
    exact ⟨hkept, fun r hr => .inl (List.mem_of_mem_filter hr), hreleased.operations, hreleased.sessionIds⟩
  · rw [hinsert]
    refine ⟨fun r hr hl => List.mem_append_left _ (hkept r hr hl), fun r hr => ?_,
      nodup_snoc hreleased.operations fun r hr => (hnew r hr).1, nodup_snoc hreleased.sessionIds fun r hr => (hnew r hr).2⟩
    exact (List.mem_append.mp hr).imp List.mem_of_mem_filter List.mem_singleton.mp

section
variable {row : RegistrationRow} {registrations : List RegistrationRow}

theorem Inserted.registered (hi : Inserted t row registrations) (h : Consistent t) :
    ∀ s ∈ t.sessions, ∃ r ∈ registrations, r.state = .registered ∧ r.Holds s := by
  intro s hs
  obtain ⟨r, hr, hstate, hholds⟩ := h.registered s hs
  exact ⟨r, hi.kept r hr (by rw [hstate]; decide), hstate, hholds⟩

theorem Inserted.spent_or_reserved (hi : Inserted t row registrations) (hreserved : row.state = .reserved)
    (h : Spent operationId t) : Spent operationId { t with registrations } ∨ Reserved operationId { t with registrations } := by
  by_cases hrow : row ∈ registrations ∧ row.operationId = operationId
  · exact .inr ⟨row, hrow.1, hrow.2, hreserved⟩
  · refine .inl fun r hr hid => ?_
    rcases hi.old r hr with hold | rfl
    · exact h r hold hid
    · exact absurd ⟨hr, hid⟩ hrow

end

theorem reserveBatch_batched {intent : ReservationIntent} {workspace : WorkspaceAccessRow} {sessionHostRoot : Option String}
    (h : Consistent t) (hbatch : reserveBatch access intent workspace actorId sessionHostRoot now t = some t') :
    Batched t t' ∧ (∀ operationId, Spent operationId t → Spent operationId t' ∨ Reserved operationId t') ∧
      ∀ r ∈ t.registrations, r.operationId = intent.operationId → r.state ≠ .compensated →
        r.SameIntent (intended intent workspace actorId sessionHostRoot 0) := by
  unfold reserveBatch at hbatch
  dsimp only at hbatch
  set row := intended intent workspace actorId sessionHostRoot now with hrow
  set keep : RegistrationRow → Bool := fun r =>
    decide (¬ (r.state = .compensated ∧ (r.sessionId = row.sessionId ∨ r.operationId = row.operationId))) with hkeep
  have hlive : ∀ r : RegistrationRow, r.state ≠ .compensated → keep r = true := by
    intro r hr
    simp [hkeep, hr]
  obtain ⟨registrations, hinserted, hbatch⟩ : ∃ registrations, Inserted t row registrations ∧
      (if registrations.any fun r => r.SameIntent row ∧ r.state = .reserved then some { t with registrations } else none) = some t' :=
    ⟨_, h.inserted _ row hlive, hbatch⟩
  split_ifs at hbatch with hassert
  cases hbatch
  have hconsistent : Consistent { t with registrations } := by
    refine ⟨hinserted.operations, hinserted.sessionIds, h.sessionKeys, h.sessionOperations, hinserted.registered h,
      fun r hr hstate => ?_⟩
    rcases hinserted.old r hr with hr | rfl
    · exact h.stored r hr hstate
    · cases hstate
  refine ⟨⟨hconsistent, .of_mem hinserted.kept fun _ hs => hs⟩, fun operationId => hinserted.spent_or_reserved rfl,
    fun r hr hid hl => ?_⟩
  -- The assertion found the reservation, and the operation has no other row.
  simp only [List.any_eq_true, decide_eq_true_eq] at hassert
  obtain ⟨q, hq, hsame, -⟩ := hassert
  have hqr : r = q := hconsistent.unique (hinserted.kept r hr hl) hq (hid.trans hsame.1.symm)
  rw [hqr]
  exact hsame

theorem adoptBatch_batched {sessionId : String} {workspace : WorkspaceAccessRow} {title : Option String} {hostId : String}
    (h : Consistent t) (hbatch : adoptBatch access sessionId workspace actorId title hostId createdAt updatedAt now t = some t') :
    Batched t t' ∧ Registered (sessionAdoptionOperationId sessionId) t' ∧
      ∀ operationId, Spent operationId t → Spent operationId t' ∨ operationId = sessionAdoptionOperationId sessionId := by
  unfold adoptBatch at hbatch
  dsimp only at hbatch
  set row := adopted sessionId workspace actorId title now with hrow
  set keep : RegistrationRow → Bool := fun r => decide (¬ (r.sessionId = row.sessionId ∧ r.state = .compensated)) with hkeep
  have hlive : ∀ r : RegistrationRow, r.state ≠ .compensated → keep r = true := by
    intro r hr
    simp [hkeep, hr]
  obtain ⟨registrations, hinserted, hbatch⟩ : ∃ registrations, Inserted t row registrations ∧
      (let t := insertSessionOf row.operationId row.creatorActorId createdAt updatedAt { t with registrations }
       if registeredAssertion access row.operationId row.creatorActorId t then some t else none) = some t' :=
    ⟨_, h.inserted _ row hlive, hbatch⟩
  dsimp only at hbatch
  split_ifs at hbatch with hassert
  cases hbatch
  obtain ⟨hconsistent, hsame, hsessions⟩ := consistent_insertSessionOf (t := { t with registrations }) hinserted.operations
    hinserted.sessionIds h.sessionKeys h.sessionOperations (hinserted.registered h)
    (fun r hr hstate hid => by
      rcases hinserted.old r hr with hr | rfl
      · exact h.stored r hr hstate
      · exact absurd rfl hid)
    hassert
  refine ⟨⟨hconsistent, .of_mem (fun r hr hl => hsame ▸ hinserted.kept r hr hl) hsessions⟩, registered_of_assertion hassert,
    fun operationId hspent => ?_⟩
  by_cases hid : operationId = sessionAdoptionOperationId sessionId
  · exact .inr hid
  · refine .inl fun r hr hrid => ?_
    rw [hsame] at hr
    rcases hinserted.old r hr with hr | rfl
    · exact hspent r hr hrid
    · exact absurd hrid.symm hid

/-- A change of rows in their state alone, which leaves registered and compensated ones. -/
structure Moves (f : RegistrationRow → RegistrationRow) : Prop where
  same : ∀ r, (f r).SameIntent r
  registered : ∀ r, r.state = .registered → f r = r
  compensated : ∀ r, r.state = .compensated → f r = r

theorem RegistrationRow.Holds.of_same {r r' : RegistrationRow} {s : SessionRow} (h : r.Holds s) (hsame : r'.SameIntent r) :
    r'.Holds s := by
  obtain ⟨h1, h2, h3, h4, h5, h6⟩ := h
  obtain ⟨g1, g2, g3, g4, g5, g6, -⟩ := hsame
  exact ⟨h1.trans g1.symm, h2.trans g2.symm, h3.trans g3.symm, h4.trans g4.symm, h5.trans g5.symm, h6.trans g6.symm⟩

section
variable {f : RegistrationRow → RegistrationRow}

theorem Moves.operations (hf : Moves f) (registrations : List RegistrationRow) :
    (registrations.map f).map (·.operationId) = registrations.map (·.operationId) := by
  rw [List.map_map]
  exact List.map_congr_left fun r _ => (hf.same r).1

theorem Moves.sessionIds (hf : Moves f) (registrations : List RegistrationRow) :
    (registrations.map f).map (·.sessionId) = registrations.map (·.sessionId) := by
  rw [List.map_map]
  exact List.map_congr_left fun r _ => (hf.same r).2.1

variable {t : Tables}

theorem Moves.holds (hf : Moves f) (h : Consistent t) :
    ∀ s ∈ t.sessions, ∃ r ∈ t.registrations.map f, r.state = .registered ∧ r.Holds s := by
  intro s hs
  obtain ⟨r, hr, hstate, hholds⟩ := h.registered s hs
  refine ⟨f r, List.mem_map_of_mem hr, ?_, hholds.of_same (hf.same r)⟩
  rw [hf.registered r hstate]
  exact hstate

theorem Moves.forward (hf : Moves f) {sessions : List SessionRow} (hsessions : ∀ s ∈ t.sessions, s ∈ sessions) :
    Forward t { t with registrations := t.registrations.map f, sessions } := by
  refine ⟨fun r hr _ => ⟨f r, List.mem_map_of_mem hr, hf.same r, fun hstate => ?_⟩, hsessions⟩
  rw [hf.registered r hstate]
  exact hstate

theorem Moves.spent (hf : Moves f) {operationId : String} (h : Spent operationId t) {sessions : List SessionRow} :
    Spent operationId { t with registrations := t.registrations.map f, sessions } := by
  intro r hr hid
  obtain ⟨q, hq, rfl⟩ := List.mem_map.mp hr
  have hstate := h q hq ((hf.same q).1.symm.trans hid)
  rw [hf.compensated q hstate]
  exact hstate

end

theorem registerBatch_batched (h : Consistent t)
    (hbatch : registerBatch access operationId actorId createdAt updatedAt now t = some t') :
    Batched t t' ∧ ∀ id, Spent id t → Spent id t' := by
  unfold registerBatch at hbatch
  dsimp only at hbatch
  set f : RegistrationRow → RegistrationRow := fun r =>
    if r.operationId = operationId ∧ r.creatorActorId = actorId ∧
        (r.state = .reserved ∨ r.state = .reconciliationRequired) ∧
        standingWorkspace access r.workspaceId r.orgId r.projectId actorId ∧
        (r.operationKind = .create ∨ parentSends access t r.parentSessionId r.workspaceId actorId) then
      { r with state := .registered, stateReason := none, updatedAt := now }
    else r with hfdef
  have hf : Moves f := by
    refine ⟨fun r => ?_, fun r hr => ?_, fun r hr => ?_⟩
    · simp only [hfdef]
      split_ifs
      · exact ⟨rfl, rfl, rfl, rfl, rfl, rfl, rfl, rfl, rfl, rfl⟩
      · exact .refl r
    · simp [hfdef, hr]
    · simp [hfdef, hr]
  split_ifs at hbatch with hassert
  cases hbatch
  obtain ⟨hconsistent, hsame, hsessions⟩ := consistent_insertSessionOf (t := { t with registrations := t.registrations.map f })
    (by rw [hf.operations]; exact h.operations) (by rw [hf.sessionIds]; exact h.sessionIds) h.sessionKeys h.sessionOperations
    (hf.holds h)
    (fun r hr hstate hid => by
      obtain ⟨q, hq, rfl⟩ := List.mem_map.mp hr
      have hq' : f q = q := by
        simp only [hfdef]
        rw [if_neg fun hmoved => hid ((hf.same q).1.trans hmoved.1)]
      rw [hq'] at hstate ⊢
      exact h.stored q hq hstate)
    hassert
  generalize insertSessionOf operationId actorId createdAt updatedAt { t with registrations := t.registrations.map f } = t' at *
  obtain ⟨registrations, sessions⟩ := t'
  obtain rfl : registrations = t.registrations.map f := hsame
  exact ⟨⟨hconsistent, hf.forward hsessions⟩, fun id hspent => hf.spent hspent⟩

theorem transitionBatch_batched {move : Move} {reason : String} (h : Consistent t)
    (hbatch : transitionBatch operationId actorId move reason now t = some t') :
    Batched t t' ∧ ∀ id, Spent id t → Spent id t' := by
  unfold transitionBatch at hbatch
  dsimp only at hbatch
  have horigins : .registered ∉ move.origins ∧ .compensated ∉ move.origins ∧ move.target ≠ .registered := by
    cases move <;> decide
  set f : RegistrationRow → RegistrationRow := fun r =>
    if decide (r.operationId = operationId ∧ r.creatorActorId = actorId ∧ r.state ∈ move.origins ∧
        ¬ t.sessions.any (fun s => s.operationId = operationId) = true) = true then
      { r with state := move.target, stateReason := some reason, updatedAt := now } else r with hfdef
  have hstays : ∀ r : RegistrationRow, r.state ∉ move.origins → f r = r := by
    intro r hr
    simp [hfdef, hr]
  have hf : Moves f := by
    refine ⟨fun r => ?_, fun r hr => ?_, fun r hr => ?_⟩
    · simp only [hfdef]
      split_ifs
      · exact ⟨rfl, rfl, rfl, rfl, rfl, rfl, rfl, rfl, rfl, rfl⟩
      · exact .refl r
    · exact hstays r (hr ▸ horigins.1)
    · exact hstays r (hr ▸ horigins.2.1)
  split_ifs at hbatch
  cases hbatch
  refine ⟨⟨⟨?_, ?_, h.sessionKeys, h.sessionOperations, hf.holds h, fun r hr hstate => ?_⟩, hf.forward fun _ hs => hs⟩,
    fun id hspent => hf.spent hspent⟩
  · rw [hf.operations]
    exact h.operations
  · rw [hf.sessionIds]
    exact h.sessionIds
  · obtain ⟨q, hq, rfl⟩ := List.mem_map.mp hr
    by_cases hq' : f q = q
    · rw [hq'] at hstate ⊢
      exact h.stored q hq hstate
    · -- A row that moved is not registered.
      simp only [hfdef] at hstate hq'
      split_ifs at hstate hq' with hmoved
      · exact absurd hstate horigins.2.2
      · exact absurd rfl hq'

end Claxedo.Registration
