import Claxedo.Hosted.Input
import Claxedo.Lib.Flight
import Claxedo.Registration.Batches

/-! The session authority's calls on registrations: each reads what it needs, comes to a verdict and
lands one batch, with any other call's steps in between. -/

namespace Claxedo.Registration

open Claxedo.Lib
open Claxedo.Hosted (Field Refusal requireText optionalText denied)

inductive RegistrationOp : Type → Type
  | actor (actorId : String) : RegistrationOp Bool
  | workspace (actorId workspaceId : String) : RegistrationOp (Option WorkspaceAccessRow)
  | sessionAccess (actorId sessionId workspaceId : String) : RegistrationOp Bool
  | registration (operationId : String) : RegistrationOp (Option RegistrationRow)
  | reservation (operationId sessionId workspaceId actorId : String) : RegistrationOp (Option RegistrationRow)
  | assignmentOwner (workspaceId hostId : String) : RegistrationOp (Option String)
  | session (sessionId : String) : RegistrationOp (Option SessionRow)
  | now : RegistrationOp ℕ
  | reserve (intent : ReservationIntent) (workspace : WorkspaceAccessRow) (actorId : String)
      (sessionHostRoot : Option String) (now : ℕ) : RegistrationOp Bool
  | register (operationId actorId : String) (createdAt updatedAt now : ℕ) : RegistrationOp Bool
  | adopt (sessionId : String) (workspace : WorkspaceAccessRow) (actorId : String) (title : Option String) (hostId : String)
      (createdAt updatedAt now : ℕ) : RegistrationOp Bool
  | transition (operationId actorId : String) (move : Move) (reason : String) (now : ℕ) : RegistrationOp Bool

/-- What a call throws: a refusal, or the error of a row that has gone. -/
inductive Thrown where
  | refused (refusal : Refusal)
  | typeError

abbrev RegistrationProgram := Program RegistrationOp Thrown

def refuse {α : Type} (refusal : Refusal) : RegistrationProgram α := .throw (.refused refusal)

/-- Input that is refused ends the call. -/
def checked {α : Type} : Except Refusal α → RegistrationProgram α
  | .ok a => .done a
  | .error refusal => refuse refusal

/-- A batch whose assertion failed ends the call. -/
def guardedBatch (op : RegistrationOp Bool) (message : String) : RegistrationProgram Unit := do
  let landed ← Program.op op
  if landed then pure () else refuse (.resourceConflict message)

/-- `first()!` on a row that must be there. -/
def present {α : Type} : Option α → RegistrationProgram α
  | some a => .done a
  | none => .throw .typeError

def requireRuntimeActor (actorId : String) : RegistrationProgram Unit := do
  let active ← Program.op (.actor actorId)
  if active then pure ()
  else refuse (.actorAuthorizationDenied "Canonical active session actor is required")

def requireWorkspace (actorId workspaceId : String) : RegistrationProgram WorkspaceAccessRow := do
  let row ← Program.op (.workspace actorId workspaceId)
  match row with
  | some row => pure row
  | none => refuse denied

def requireSessionAccess (actorId sessionId workspaceId : String) : RegistrationProgram Unit := do
  let allowed ← Program.op (.sessionAccess actorId sessionId workspaceId)
  if allowed then pure () else refuse denied

structure ReserveInput where
  operationId : Field
  sessionId : Field
  workspaceId : Field
  kind : Option Kind
  parentSessionId : Field := .absent
  title : Field := .absent
  harnessId : Field := .absent

def normalizeReservation (input : ReserveInput) : Except Refusal ReservationIntent := do
  match input.kind with
  | none => .error (.invalidInput "Unknown reservation kind")
  | some kind =>
    let parentSessionId ← optionalText "parentSessionId" 512 input.parentSessionId
    if (kind = .fork) ≠ parentSessionId.isSome then
      .error (.invalidInput "Fork reservations require exactly one parent session")
    else
      let operationId ← requireText "operationId" 512 input.operationId
      let sessionId ← requireText "sessionId" 512 input.sessionId
      let workspaceId ← requireText "workspaceId" 512 input.workspaceId
      let title ← optionalText "title" 2000 input.title
      let harnessId ← optionalText "harnessId" 512 input.harnessId
      .ok { operationId, sessionId, workspaceId, kind, parentSessionId, title, harnessId }

/-- `registrationResult`: whether the call changed the row, and the row. -/
structure RegistrationResult where
  changed : Bool
  row : RegistrationRow

section
variable (sessionHosted : String → Bool)

/-- A session created in a cloud machine by a harness with a session host is placed in that host. -/
def placedHostRoot (intent : ReservationIntent) (workspace : WorkspaceAccessRow) : Option String :=
  if intent.kind = .create ∧ workspace.backing = .cloudVm ∧ sessionHosted (intent.harnessId.getD "") then some intent.sessionId
  else none

/-- `reserveForActor`, once its actor was let into the workspace and to the parent. -/
def reserveIntent (actorId : String) (intent : ReservationIntent) (workspace : WorkspaceAccessRow) :
    RegistrationProgram RegistrationResult := do
  let sessionHostRoot := placedHostRoot sessionHosted intent workspace
  let existing ← Program.op (.registration intent.operationId)
  match existing.filter fun r => r.state ≠ .compensated with
  | some existing =>
    if existing.SameIntent (intended intent workspace actorId sessionHostRoot 0) then
      pure { changed := false, row := existing }
    else refuse (.resourceConflict "Reservation retry changed immutable intent")
  | none =>
    let now ← Program.op .now
    guardedBatch (.reserve intent workspace actorId sessionHostRoot now)
      "Session reservation collided or authority changed"
    let row ← Program.op (.registration intent.operationId)
    let row ← present row
    pure { changed := true, row }

def reserveForActor (actorId : String) (input : ReserveInput) : RegistrationProgram RegistrationResult := do
  requireRuntimeActor actorId
  let intent ← checked (normalizeReservation input)
  let workspace ← requireWorkspace actorId intent.workspaceId
  if intent.kind = .fork then requireSessionAccess actorId (intent.parentSessionId.getD "") intent.workspaceId
  reserveIntent sessionHosted actorId intent workspace

end

structure RegisterInput where
  actorId : String
  operationId : Field
  sessionId : Field
  workspaceId : Field
  title : Field := .absent
  createdAt : ℕ
  updatedAt : ℕ
  sessionHostRoot : Field := .absent

def registerReservation (actorId : String) (registration : RegistrationRow) (createdAt updatedAt : ℕ) :
    RegistrationProgram SessionRow := do
  let _ ← requireWorkspace actorId registration.workspaceId
  if registration.state = .registered then
    let existing ← Program.op (.session registration.sessionId)
    match existing with
    | some existing =>
      if existing.creatorActorId ≠ actorId ∨ existing.operationId ≠ registration.operationId then
        refuse (.resourceConflict "Registered session projection is incomplete")
      else pure existing
    | none => refuse (.resourceConflict "Registered session projection is incomplete")
  else if registration.state ≠ .reserved ∧ registration.state ≠ .reconciliationRequired then
    refuse (.registrationTransitionDenied ("Cannot register a " ++ registration.state.text ++ " reservation"))
  else if registration.creatorActorId ≠ actorId then
    refuse (.actorAuthorizationDenied "Session creator does not match the reservation")
  else
    if registration.operationKind = .fork then
      requireSessionAccess actorId (registration.parentSessionId.getD "") registration.workspaceId
    let now ← Program.op .now
    guardedBatch (.register registration.operationId actorId createdAt updatedAt now)
      "Session registration raced with an authority change"
    let session ← Program.op (.session registration.sessionId)
    present session

def registerRuntimeSession (input : RegisterInput) : RegistrationProgram SessionRow := do
  requireRuntimeActor input.actorId
  let operationId ← checked (requireText "operationId" 512 input.operationId)
  let sessionId ← checked (requireText "sessionId" 512 input.sessionId)
  let workspaceId ← checked (requireText "workspaceId" 512 input.workspaceId)
  let title ← checked (optionalText "title" 2000 input.title)
  let result ← Program.op (.reservation operationId sessionId workspaceId input.actorId)
  match result with
  | none => refuse (.registrationTransitionDenied "A matching session reservation is required")
  | some result =>
    if result.requestedTitle ≠ title then
      refuse (.resourceConflict "Runtime registration title does not match the reservation")
    else
      let sessionHostRoot ← checked (optionalText "sessionHostRoot" 512 input.sessionHostRoot)
      if sessionHostRoot ≠ result.sessionHostRoot then
        refuse (.registrationTransitionDenied "The session is placed in another host")
      else registerReservation input.actorId result input.createdAt input.updatedAt

structure AdoptInput where
  actorId : String
  sessionId : Field
  workspaceId : Field
  hostId : Field
  title : Field := .absent
  createdAt : ℕ
  updatedAt : ℕ

/-- Whether the session was adopted by this call. -/
def adoptRuntimeSession (input : AdoptInput) : RegistrationProgram Bool := do
  requireRuntimeActor input.actorId
  let sessionId ← checked (requireText "sessionId" (512 - SESSION_ADOPTION_OPERATION_PREFIX.length) input.sessionId)
  let workspaceId ← checked (requireText "workspaceId" 512 input.workspaceId)
  let hostId ← checked (requireText "hostId" 512 input.hostId)
  let title ← checked (optionalText "title" 2000 input.title)
  let workspace ← requireWorkspace input.actorId workspaceId
  let owner ← Program.op (.assignmentOwner workspaceId hostId)
  if owner ≠ some input.actorId then
    refuse (.workspaceAuthorizationDenied "Session adoption is reserved to the owner of the enrollment serving this workspace")
  else
    let existing ← Program.op (.session sessionId)
    match existing with
    | some existing =>
      if existing.workspaceId ≠ workspaceId ∨ existing.deleted ∨ existing.creatorActorId ≠ input.actorId then
        refuse (.workspaceAuthorizationDenied "Session is already registered to another creator")
      else pure false
    | none =>
      let now ← Program.op .now
      guardedBatch (.adopt sessionId workspace input.actorId title hostId input.createdAt input.updatedAt now)
        "Session adoption collided with an existing registration or an authority change"
      pure true

structure TransitionInput where
  actorId : String
  operationId : Field
  sessionId : Field
  workspaceId : Field
  reason : Field

def transitionRegistration (input : TransitionInput) (move : Move) : RegistrationProgram RegistrationResult := do
  requireRuntimeActor input.actorId
  let operationId ← checked (requireText "operationId" 512 input.operationId)
  let sessionId ← checked (requireText "sessionId" 512 input.sessionId)
  let workspaceId ← checked (requireText "workspaceId" 512 input.workspaceId)
  let reason ← checked (requireText "reason" 2000 input.reason)
  let registration ← Program.op (.registration operationId)
  match registration.filter fun r =>
      r.creatorActorId = input.actorId ∧ r.sessionId = sessionId ∧ r.workspaceId = workspaceId with
  | none => refuse (.actorAuthorizationDenied "Session registration actor was denied")
  | some registration =>
    if registration.state = move.target then pure { changed := false, row := registration }
    else if registration.state ∉ move.origins then
      refuse (.registrationTransitionDenied ("Cannot move " ++ registration.state.text ++ " to " ++ move.target.text))
    else
      let session ← Program.op (.session registration.sessionId)
      if registration.state = .registered ∨ session.isSome then
        refuse (.registrationTransitionDenied "Registered sessions must roll forward")
      else
        let now ← Program.op .now
        guardedBatch (.transition operationId input.actorId move reason now)
          "Session registration state changed concurrently"
        let row ← Program.op (.registration operationId)
        let row ← present row
        pure { changed := true, row }

def markSessionRegistrationAmbiguous (input : TransitionInput) : RegistrationProgram RegistrationResult :=
  transitionRegistration input .markAmbiguous

def beginSessionCompensation (input : TransitionInput) : RegistrationProgram RegistrationResult :=
  transitionRegistration input .beginCompensation

def completeSessionCompensation (input : TransitionInput) : RegistrationProgram RegistrationResult :=
  transitionRegistration input .completeCompensation

/-- What a call asks of the authority. `reserveSession` and `reserveRuntimeSession` differ in how they
come by their actor. -/
inductive Request where
  | reserve (actorId : String) (input : ReserveInput)
  | register (input : RegisterInput)
  | adopt (input : AdoptInput)
  | markAmbiguous (input : TransitionInput)
  | beginCompensation (input : TransitionInput)
  | completeCompensation (input : TransitionInput)

def program (sessionHosted : String → Bool) : Request → Program RegistrationOp Unit Unit
  | .reserve actorId input => (reserveForActor sessionHosted actorId input).settle
  | .register input => (registerRuntimeSession input).settle
  | .adopt input => (adoptRuntimeSession input).settle
  | .markAmbiguous input => (markSessionRegistrationAmbiguous input).settle
  | .beginCompensation input => (beginSessionCompensation input).settle
  | .completeCompensation input => (completeSessionCompensation input).settle

/-- A batch that landed, or the tables as they were. -/
def landed (batch : Option Tables) (t : Tables) : Bool × Tables :=
  match batch with
  | some t' => (true, t')
  | none => (false, t)

/-- What the database answers. -/
def answers : Answers RegistrationOp Access Tables := fun ⦃_⦄ access op t =>
  match op with
  | .actor actorId => (access.active actorId, t)
  | .workspace actorId workspaceId =>
    (access.workspaces.find? fun w => w.workspaceId = workspaceId ∧ access.creates actorId w, t)
  | .sessionAccess actorId sessionId workspaceId =>
    (t.sessions.any fun s => s.sessionId = sessionId ∧ s.workspaceId = workspaceId ∧ ¬ s.deleted ∧ access.sends actorId s, t)
  | .registration operationId => (Table.get RegistrationRow.operationId operationId t.registrations, t)
  | .reservation operationId sessionId workspaceId actorId =>
    ((Table.get RegistrationRow.operationId operationId t.registrations).filter fun r =>
      r.sessionId = sessionId ∧ r.workspaceId = workspaceId ∧ r.creatorActorId = actorId, t)
  | .assignmentOwner workspaceId hostId =>
    ((access.assignments.find? fun a => a.workspaceId = workspaceId ∧ a.hostId = hostId).map (·.ownerActorId), t)
  | .session sessionId => (Table.get SessionRow.sessionId sessionId t.sessions, t)
  | .now => (access.now, t)
  | .reserve intent workspace actorId sessionHostRoot now =>
    landed (reserveBatch access intent workspace actorId sessionHostRoot now t) t
  | .register operationId actorId createdAt updatedAt now => landed (registerBatch access operationId actorId createdAt updatedAt now t) t
  | .adopt sessionId workspace actorId title hostId createdAt updatedAt now =>
    landed (adoptBatch access sessionId workspace actorId title hostId createdAt updatedAt now t) t
  | .transition operationId actorId move reason now => landed (transitionBatch operationId actorId move reason now t) t

abbrev Step := FlightStep Request Access

abbrev World := Flights RegistrationOp Request Tables

def step (sessionHosted : String → Bool) : World → Step → World := Flights.step (program sessionHosted) answers

/-- The world after a run of steps, from empty tables. -/
def after (sessionHosted : String → Bool) (steps : List Step) : World := Lib.run (step sessionHosted) ⟨{}, []⟩ steps

/-! Every run of the registration calls: a session row exists exactly for a registered operation. -/

open Claxedo.Hosted (Refusal)

/-- Whether an operation of the database adopts a session under the registration operation. -/
def RegistrationOp.Adopts {β : Type} (operationId : String) : RegistrationOp β → Prop
  | .adopt sessionId _ _ _ _ _ _ _ => sessionAdoptionOperationId sessionId = operationId
  | _ => False

/-- The step answers the batch of such an adoption. -/
def Adopts (operationId : String) (w : World) : Step → Prop
  | .call _ => False
  | .answer i _ => ∃ call ∈ w.calls[i]?, match call.rest with
    | .ask op _ => op.Adopts operationId
    | .done _ => False
    | .throw _ => False

/-- What one operation of the database may do. -/
structure Answered {β : Type} (op : RegistrationOp β) (t t' : Tables) : Prop where
  batched : Batched t t'
  spent : ∀ operationId, Spent operationId t → Spent operationId t' ∨ Reserved operationId t' ∨
    op.Adopts operationId ∧ Registered operationId t'

theorem Answered.same {β : Type} (op : RegistrationOp β) {t : Tables} (h : Consistent t) : Answered op t t :=
  ⟨⟨h, .refl t⟩, fun _ hs => .inl hs⟩

theorem Answered.landed {β : Type} {op : RegistrationOp β} {t : Tables} (h : Consistent t) {batch : Option Tables}
    (hbatch : ∀ t', batch = some t' → Answered op t t') : Answered op t (landed batch t).2 := by
  rcases batch with _ | t'
  · exact .same op h
  · exact hbatch t' rfl

theorem answers_answered {β : Type} (access : Access) (op : RegistrationOp β) {t : Tables} (h : Consistent t) :
    Answered op t (answers access op t).2 := by
  cases op with
  | actor => exact .same _ h
  | workspace => exact .same _ h
  | sessionAccess => exact .same _ h
  | registration => exact .same _ h
  | reservation => exact .same _ h
  | assignmentOwner => exact .same _ h
  | session => exact .same _ h
  | now => exact .same _ h
  | reserve intent workspace actorId sessionHostRoot now =>
    refine .landed h fun t' hbatch => ?_
    obtain ⟨hbatched, hspent, -⟩ := reserveBatch_batched h hbatch
    exact ⟨hbatched, fun id hs => (hspent id hs).imp_right .inl⟩
  | register operationId actorId createdAt updatedAt now =>
    refine .landed h fun t' hbatch => ?_
    obtain ⟨hbatched, hspent⟩ := registerBatch_batched h hbatch
    exact ⟨hbatched, fun id hs => .inl (hspent id hs)⟩
  | adopt sessionId workspace actorId title hostId createdAt updatedAt now =>
    refine .landed h fun t' hbatch => ?_
    obtain ⟨hbatched, hregistered, hspent⟩ := adoptBatch_batched h hbatch
    exact ⟨hbatched, fun id hs => (hspent id hs).imp_right fun (hid : id = _) => .inr ⟨hid.symm, hid ▸ hregistered⟩⟩
  | transition operationId actorId move reason now =>
    refine .landed h fun t' hbatch => ?_
    obtain ⟨hbatched, hspent⟩ := transitionBatch_batched h hbatch
    exact ⟨hbatched, fun id hs => .inl (hspent id hs)⟩

section
variable (sessionHosted : String → Bool)

theorem step_batched {w : World} (h : Consistent w.world) (label : Step) :
    Batched w.world (step sessionHosted w label).world ∧ ∀ operationId, Spent operationId w.world →
      Spent operationId (step sessionHosted w label).world ∨ Reserved operationId (step sessionHosted w label).world ∨
        Adopts operationId w label ∧ Registered operationId (step sessionHosted w label).world := by
  have hstepped := Flights.stepped (program sessionHosted) answers w label
  rw [show Flights.step (program sessionHosted) answers w label = step sessionHosted w label from rfl] at hstepped
  generalize step sessionHosted w label = w' at hstepped ⊢
  cases hstepped with
  | idle => exact ⟨⟨h, .refl _⟩, fun _ hs => .inl hs⟩
  | came kind => exact ⟨⟨h, .refl _⟩, fun _ hs => .inl hs⟩
  | answered i access call op next hcall hrest =>
    obtain ⟨hbatched, hspent⟩ := answers_answered access op h
    refine ⟨hbatched, fun operationId hs => ?_⟩
    rcases hspent operationId hs with hs | hs | hs
    · exact .inl hs
    · exact .inr (.inl hs)
    · refine .inr (.inr ⟨⟨call, hcall, ?_⟩, hs.2⟩)
      rw [hrest]
      exact hs.1

theorem consistent_after (steps : List Step) : Consistent (after sessionHosted steps).world :=
  Lib.invariant_of_run (fun w : World => Consistent w.world) (fun _ label h => (step_batched sessionHosted h label).1.consistent)
    Consistent.empty steps

theorem after_snoc (steps : List Step) (label : Step) :
    after sessionHosted (steps ++ [label]) = step sessionHosted (after sessionHosted steps) label := Lib.run_snoc _ _ _ _

/-- Sessions and registered operations are there for good. -/
theorem settled_after (steps more : List Step) :
    (∀ s ∈ (after sessionHosted steps).world.sessions, s ∈ (after sessionHosted (steps ++ more)).world.sessions) ∧
      ∀ r ∈ (after sessionHosted steps).world.registrations, r.state = .registered →
        ∃ r' ∈ (after sessionHosted (steps ++ more)).world.registrations, r'.SameIntent r ∧ r'.state = .registered := by
  induction more using List.reverseRecOn with
  | nil =>
    rw [List.append_nil]
    exact ⟨fun _ hs => hs, fun r hr hstate => ⟨r, hr, .refl r, hstate⟩⟩
  | append_singleton more label ih =>
    obtain ⟨hsessions, hregistered⟩ := ih
    rw [← List.append_assoc, after_snoc]
    have hforward := (step_batched sessionHosted (consistent_after sessionHosted (steps ++ more)) label).1.forward
    refine ⟨fun s hs => hforward.sessions s (hsessions s hs), fun r hr hstate => ?_⟩
    obtain ⟨q, hq, hsame, hqstate⟩ := hregistered r hr hstate
    obtain ⟨p, hp, hsame', hpstate⟩ := hforward.live q hq (by rw [hqstate]; decide)
    exact ⟨p, hp, RegistrationRow.SameIntent.trans hsame' hsame, hpstate hqstate⟩

/-- An operation that is spent stays spent until it is reserved again or adopted. -/
theorem spent_after (steps more : List Step) {operationId : String} (h : Spent operationId (after sessionHosted steps).world) :
    Spent operationId (after sessionHosted (steps ++ more)).world ∨
      ∃ first label rest, more = first ++ label :: rest ∧
        (Reserved operationId (after sessionHosted (steps ++ first ++ [label])).world ∨
          Adopts operationId (after sessionHosted (steps ++ first)) label ∧
            Registered operationId (after sessionHosted (steps ++ first ++ [label])).world) := by
  induction more using List.reverseRecOn with
  | nil =>
    rw [List.append_nil]
    exact .inl h
  | append_singleton more label ih =>
    rcases ih with hspent | ⟨first, label', rest, rfl, hagain⟩
    · rw [← List.append_assoc, after_snoc]
      rcases (step_batched sessionHosted (consistent_after sessionHosted (steps ++ more)) label).2 operationId hspent with hs | hs | hs
      · exact .inl hs
      · exact .inr ⟨more, label, [], rfl, .inl (by rw [after_snoc]; exact hs)⟩
      · exact .inr ⟨more, label, [], rfl, .inr (by rw [after_snoc]; exact hs)⟩
    · exact .inr ⟨first, label', rest ++ [label], by simp, hagain⟩

/-- How a reserve call that is answered came to its answer: it read the operation live with the very intent it asks for, or it
landed its batch. -/
def ReserveEnds (actorId : String) (input : ReserveInput) (asked : List (Asked RegistrationOp)) : Prop :=
  ∃ intent workspace, normalizeReservation input = .ok intent ∧
    Asked.mk (.workspace actorId intent.workspaceId) (some workspace) ∈ asked ∧
    ((∃ existing, Asked.mk (.registration intent.operationId) (some existing) ∈ asked ∧ existing.state ≠ .compensated ∧
        existing.SameIntent (intended intent workspace actorId (placedHostRoot sessionHosted intent workspace) 0)) ∨
      ∃ now, Asked.mk (.reserve intent workspace actorId (placedHostRoot sessionHosted intent workspace) now) true ∈ asked)

def Ends : Request → List (Asked RegistrationOp) → Prop
  | .reserve actorId input, asked => ReserveEnds sessionHosted actorId input asked
  | _, _ => True

variable {t : List (Asked RegistrationOp)}

/-- A program goes on from what it has asked. -/
theorem asks_subset {ε α : Type} (p : Program RegistrationOp ε α) {t₀ : List (Asked RegistrationOp)} (h : t₀ ⊆ t) :
    p.Asks (fun _ _ _ => True) (fun _ _ _ => True) (fun t' _ => t₀ ⊆ t') t := by
  induction p generalizing t with
  | done a => exact h
  | throw e => trivial
  | ask o next ih => exact ⟨trivial, fun b _ => ih b (List.subset_append_of_subset_left _ h)⟩

theorem asks_checked {α : Type} {input : Except Refusal α} :
    (checked input).Asks (fun _ _ _ => True) (fun _ _ _ => True) (fun t' a => t' = t ∧ input = .ok a) t := by
  cases input with
  | ok a => exact ⟨rfl, rfl⟩
  | error refusal => trivial

theorem asks_requireWorkspace {actorId workspaceId : String} :
    (requireWorkspace actorId workspaceId).Asks (fun _ _ _ => True) (fun _ _ _ => True)
      (fun t' workspace => t' = t ++ [.mk (.workspace actorId workspaceId) (some workspace)]) t := by
  unfold requireWorkspace
  refine Program.asks_op_bind.mpr ⟨trivial, fun row _ => ?_⟩
  rcases row with _ | row
  · trivial
  · rfl

theorem asks_guardedBatch {op : RegistrationOp Bool} {message : String} :
    (guardedBatch op message).Asks (fun _ _ _ => True) (fun _ _ _ => True) (fun t' _ => t' = t ++ [.mk op true]) t := by
  unfold guardedBatch
  refine Program.asks_op_bind.mpr ⟨trivial, fun landed _ => ?_⟩
  cases landed with
  | false => trivial
  | true => rfl

theorem reserveIntent_ends {actorId : String} {input : ReserveInput} {intent : ReservationIntent} {workspace : WorkspaceAccessRow}
    (hintent : normalizeReservation input = .ok intent)
    (hworkspace : Asked.mk (.workspace actorId intent.workspaceId) (some workspace) ∈ t) :
    (reserveIntent sessionHosted actorId intent workspace).Asks (fun _ _ _ => True) (fun _ _ _ => True)
      (fun t _ => ReserveEnds sessionHosted actorId input t) t := by
  unfold reserveIntent
  refine Program.asks_op_bind.mpr ⟨trivial, fun existing _ => ?_⟩
  generalize hlive : Option.filter _ existing = live
  rcases live with _ | r
  · -- No live row: the call goes on to its batch.
    refine Program.asks_op_bind.mpr ⟨trivial, fun now _ => asks_guardedBatch.bind ?_⟩
    rintro _ _ rfl
    refine (asks_subset _ (List.Subset.refl _)).mono fun t' _ hsubset => ?_
    refine ⟨intent, workspace, hintent, hsubset ?_, .inr ⟨now, hsubset ?_⟩⟩
    · exact List.mem_append_left _ (List.mem_append_left _ (List.mem_append_left _ hworkspace))
    · exact List.mem_append_right _ (List.mem_singleton.mpr rfl)
  · obtain ⟨rfl, hstate⟩ := Option.filter_eq_some_iff.mp hlive
    dsimp only
    split_ifs with hsame
    · exact ⟨intent, workspace, hintent, List.mem_append_left _ hworkspace,
        .inl ⟨r, List.mem_append_right _ (List.mem_singleton.mpr rfl), of_decide_eq_true hstate, hsame⟩⟩
    · trivial

theorem reserveForActor_ends (actorId : String) (input : ReserveInput) :
    (reserveForActor sessionHosted actorId input).Asks (fun _ _ _ => True) (fun _ _ _ => True)
      (fun t _ => ReserveEnds sessionHosted actorId input t) [] := by
  unfold reserveForActor
  refine (asks_subset (requireRuntimeActor actorId) (List.Subset.refl [])).bind fun t _ _ => asks_checked.bind ?_
  rintro t' intent ⟨-, hintent⟩
  refine asks_requireWorkspace.bind ?_
  rintro _ workspace rfl
  have hworkspace : Asked.mk (.workspace actorId intent.workspaceId) (some workspace) ∈
      t' ++ [Asked.mk (RegistrationOp.workspace actorId intent.workspaceId) (some workspace)] :=
    List.mem_append_right _ (List.mem_singleton.mpr rfl)
  dsimp only
  split_ifs
  · exact (asks_subset _ (List.Subset.refl _)).bind fun t'' _ hsubset =>
      reserveIntent_ends sessionHosted hintent (hsubset hworkspace)
  · exact reserveIntent_ends sessionHosted hintent hworkspace

theorem program_ends (request : Request) :
    (program sessionHosted request).Asks (fun _ _ _ => True) (fun _ _ _ => True)
      (fun t _ => Ends sessionHosted request t) [] := by
  cases request with
  | reserve actorId input => exact Program.asks_settle (reserveForActor_ends sessionHosted actorId input)
  | register input => exact (asks_subset _ (List.Subset.refl [])).mono fun _ _ _ => trivial
  | adopt input => exact (asks_subset _ (List.Subset.refl [])).mono fun _ _ _ => trivial
  | markAmbiguous input => exact (asks_subset _ (List.Subset.refl [])).mono fun _ _ _ => trivial
  | beginCompensation input => exact (asks_subset _ (List.Subset.refl [])).mono fun _ _ _ => trivial
  | completeCompensation input => exact (asks_subset _ (List.Subset.refl [])).mono fun _ _ _ => trivial

/-- How sessions stand to registered operations after a run, and what a further run keeps of it. -/
structure OneForOne (steps : List Step) : Prop where
  consistent : Consistent (after sessionHosted steps).world
  /-- Sessions and registered operations stay as they are. -/
  sessions : ∀ more, ∀ s ∈ (after sessionHosted steps).world.sessions, s ∈ (after sessionHosted (steps ++ more)).world.sessions
  registered : ∀ more, ∀ r ∈ (after sessionHosted steps).world.registrations, r.state = .registered →
    ∃ r' ∈ (after sessionHosted (steps ++ more)).world.registrations, r'.SameIntent r ∧ r'.state = .registered
  /-- Only a compensated operation gives up its session id. -/
  live : ∀ label, ∀ r ∈ (after sessionHosted steps).world.registrations, r.state ≠ .compensated →
    ∃ r' ∈ (after sessionHosted (steps ++ [label])).world.registrations, r'.SameIntent r
  spent : ∀ more operationId, Spent operationId (after sessionHosted steps).world →
    (∃ r ∈ (after sessionHosted (steps ++ more)).world.registrations, r.operationId = operationId ∧ r.state = .registered) →
    ∃ first label rest, more = first ++ label :: rest ∧
      (Reserved operationId (after sessionHosted (steps ++ first ++ [label])).world ∨
        Adopts operationId (after sessionHosted (steps ++ first)) label ∧
          Registered operationId (after sessionHosted (steps ++ first ++ [label])).world)
  /-- A reservation that is answered found its own intent or landed. -/
  retried : ∀ call ∈ (after sessionHosted steps).calls, call.rest = .done () → ∀ actorId input,
    call.kind = .reserve actorId input → ReserveEnds sessionHosted actorId input call.asked
  /-- None lands while its operation lives with another intent. -/
  changed : ∀ access intent workspace actorId sessionHostRoot now, ∀ r ∈ (after sessionHosted steps).world.registrations,
    r.operationId = intent.operationId → r.state ≠ .compensated →
    ¬ r.SameIntent (intended intent workspace actorId sessionHostRoot 0) →
    answers access (.reserve intent workspace actorId sessionHostRoot now) (after sessionHosted steps).world =
      (false, (after sessionHosted steps).world)

theorem registered_one_for_one (steps : List Step) : OneForOne sessionHosted steps := by
  have hconsistent := consistent_after sessionHosted steps
  refine ⟨hconsistent, fun more => (settled_after sessionHosted steps more).1, fun more => (settled_after sessionHosted steps more).2,
    fun label r hr hlive => ?_, fun more operationId hspent hregistered => ?_, fun call hcall hdone actorId input hkind => ?_,
    fun access intent workspace actorId sessionHostRoot now r hr hid hlive hother => ?_⟩
  · rw [after_snoc]
    obtain ⟨r', hr', hsame, -⟩ := (step_batched sessionHosted hconsistent label).1.forward.live r hr hlive
    exact ⟨r', hr', hsame⟩
  · obtain ⟨r, hr, hid, hstate⟩ := hregistered
    rcases spent_after sessionHosted steps more hspent with hspent | hagain
    · have hcompensated := hspent r hr hid
      rw [hstate] at hcompensated
      cases hcompensated
    · exact hagain
  · have hending : Flights.Ending (fun _ _ _ => True) (fun _ _ _ _ => True) (Ends sessionHosted) (after sessionHosted steps) :=
      Flights.ending_run (program_ends sessionHosted) (fun _ _ _ _ => trivial) steps
    have hends := hending.ended hcall hdone
    rw [hkind] at hends
    exact hends
  · change landed _ _ = _
    rcases hbatch : reserveBatch access intent workspace actorId sessionHostRoot now (after sessionHosted steps).world with _ | t'
    · rfl
    · exact absurd ((reserveBatch_batched hconsistent hbatch).2.2 r hr hid hlive) hother

end

instance (operationId : String) (t : Tables) : Decidable (Reserved operationId t) := inferInstanceAs (Decidable (∃ _ ∈ _, _))

/-- Ann serves the one workspace. -/
def annServes : Access :=
  { active := fun _ => true, workspaces := [⟨"w", "o", "p", .localWorktree⟩], creates := fun _ _ => true, sends := fun _ _ => true,
    assignments := [⟨"w", "h", "ann"⟩], now := 1 }

/-- A call from first to last, nothing in between. -/
def alone (i : ℕ) (request : Request) : List Step := .call request :: List.replicate 6 (.answer i annServes)

def annReserves : ReserveInput :=
  { operationId := .text "session_adoption_s", sessionId := .text "s", workspaceId := .text "w", kind := some .create }

def annAdopts : AdoptInput :=
  { actorId := "ann", sessionId := .text "s", workspaceId := .text "w", hostId := .text "h", createdAt := 1, updatedAt := 1 }

def annGivesUp : TransitionInput :=
  { actorId := "ann", operationId := .text "session_adoption_s", sessionId := .text "s", workspaceId := .text "w", reason := .text "gone" }

/-- Ann reserves a session under the operation that its adoption goes by, and compensates it. -/
def compensatedReservation : List Step :=
  alone 0 (.reserve "ann" annReserves) ++ alone 1 (.beginCompensation annGivesUp) ++ alone 2 (.completeCompensation annGivesUp)

/-- Then the session is adopted. -/
def adoption : List Step := alone 3 (.adopt annAdopts)

/-- An adoption registers under an operation that was compensated and not reserved again. -/
theorem not_registered_after_reservation : ¬ ∀ (steps more : List Step) (operationId : String),
    (∃ r ∈ (after (fun _ => false) steps).world.registrations, r.operationId = operationId ∧ r.state = .compensated) →
    (∃ r ∈ (after (fun _ => false) (steps ++ more)).world.registrations, r.operationId = operationId ∧ r.state = .registered) →
    ∃ n ≤ more.length, Reserved operationId (after (fun _ => false) (steps ++ more.take n)).world := by
  intro h
  obtain ⟨n, hn, hreserved⟩ := h compensatedReservation adoption "session_adoption_s" (by decide +kernel) (by decide +kernel)
  have hnever : ∀ n ≤ adoption.length,
      ¬ Reserved "session_adoption_s" (after (fun _ => false) (compensatedReservation ++ adoption.take n)).world := by
    decide +kernel
  exact hnever n hn hreserved

end Claxedo.Registration
