import Claxedo.Lib.Lists
import Claxedo.Lib.Run

/-! `createTurnAdmissions`: which turn a session runs, who waits for it, who was handed the session, and the gate that holds all
of them, over a lease that other instances take and give back. -/

namespace Claxedo.Turns

open Claxedo.Lib

/-- Generations, tokens, gates' holders and leases are numbered as they are made. -/
structure ActiveTurn where
  generation : ℕ
  turnId : String
  assistantMessageId : String
  leaseId : ℕ

/-- What the four maps have of one session. -/
structure SessionAdmission where
  active : Option ActiveTurn := none
  waiting : List ℕ := []
  handed : Option ℕ := none
  gate : Option ℕ := none

inductive WaiterStage where
  | idle
  | waiting
  | woken (token : ℕ)
  | unavailable
  deriving DecidableEq

/-- A caller of `whenIdle`; `spent` once it claimed or abandoned. -/
structure Waiter where
  sessionId : String
  stage : WaiterStage
  spent : Bool := false
  deriving DecidableEq

/-- A `holdIdle` that was not refused. -/
structure IdleHold where
  sessionId : String
  leaseId : ℕ
  gate : ℕ

/-- One instance's admissions, with the store's leases; `taken` are those of the other instances. -/
structure TurnAdmissions where
  sessions : String → SessionAdmission := fun _ => {}
  leases : String → Option ℕ := fun _ => none
  taken : List ℕ := []
  waiters : List Waiter := []
  holds : List IdleHold := []
  minted : ℕ := 0

namespace TurnAdmissions

def put (s : TurnAdmissions) (sessionId : String) (here : SessionAdmission) : TurnAdmissions :=
  { s with sessions := Function.update s.sessions sessionId here }

/-- `TurnLeases.acquire`. -/
def acquireTurnLease (s : TurnAdmissions) (sessionId : String) : Option (ℕ × TurnAdmissions) :=
  match s.leases sessionId with
  | some _ => none
  | none => some (s.minted, { s with leases := Function.update s.leases sessionId (some s.minted), minted := s.minted + 1 })

/-- `TurnLeases.release`. -/
def releaseTurnLease (s : TurnAdmissions) (sessionId : String) (leaseId : ℕ) : TurnAdmissions :=
  if s.leases sessionId = some leaseId then { s with leases := Function.update s.leases sessionId none } else s

def handOff (s : TurnAdmissions) (sessionId : String) : TurnAdmissions :=
  let here := s.sessions sessionId
  if here.active.isSome ∨ here.gate.isSome ∨ here.handed.isSome then s
  else
    match here.waiting with
    | [] => s
    | next :: rest =>
      { s.put sessionId { here with waiting := rest, handed := some s.minted } with
        waiters := s.waiters.modify next fun waiter => { waiter with stage := .woken s.minted }
        minted := s.minted + 1 }

def release (s : TurnAdmissions) (sessionId : String) (generation : ℕ) : TurnAdmissions :=
  let here := s.sessions sessionId
  match here.active with
  | none => s
  | some current =>
    if current.generation ≠ generation then s
    else ((s.put sessionId { here with active := none }).releaseTurnLease sessionId current.leaseId).handOff sessionId

def takeGate (s : TurnAdmissions) (sessionId : String) : TurnAdmissions :=
  if (s.sessions sessionId).gate.isSome then s
  else { s.put sessionId { s.sessions sessionId with gate := some s.minted } with minted := s.minted + 1 }

def releaseGate (s : TurnAdmissions) (sessionId : String) (holder : ℕ) : TurnAdmissions :=
  if (s.sessions sessionId).gate ≠ some holder then s
  else (s.put sessionId { s.sessions sessionId with gate := none }).handOff sessionId

def whenIdle (s : TurnAdmissions) (sessionId : String) : TurnAdmissions :=
  let here := s.sessions sessionId
  if here.active.isNone ∧ here.handed.isNone ∧ here.gate.isNone ∧ here.waiting = [] then
    { s with waiters := s.waiters ++ [{ sessionId := sessionId, stage := .idle }] }
  else
    { s.put sessionId { here with waiting := here.waiting ++ [s.waiters.length] } with
      waiters := s.waiters ++ [{ sessionId := sessionId, stage := .waiting }] }

/-- A waiter's `abandon`, which one that was not woken does not have. -/
def abandon (s : TurnAdmissions) (w : ℕ) : TurnAdmissions :=
  match s.waiters[w]? with
  | none => s
  | some waiter =>
    match waiter.stage with
    | .woken token =>
      let s := { s with waiters := s.waiters.modify w fun waiter => { waiter with spent := true } }
      let here := s.sessions waiter.sessionId
      if here.handed ≠ some token then s else (s.put waiter.sessionId { here with handed := none }).handOff waiter.sessionId
    | .idle | .waiting | .unavailable => s

def holdIdle (s : TurnAdmissions) (sessionId : String) (throws : Bool) : TurnAdmissions :=
  let here := s.sessions sessionId
  if here.active.isSome ∨ here.handed.isSome ∨ here.waiting ≠ [] then s
  else if here.gate.isSome then s
  else
    let holder := s.minted
    let held := s.takeGate sessionId
    if throws then held.releaseGate sessionId holder
    else
      match held.acquireTurnLease sessionId with
      | none => held.releaseGate sessionId holder
      | some (leaseId, leased) => { leased with holds := leased.holds ++ [⟨sessionId, leaseId, holder⟩] }

def releaseHold (s : TurnAdmissions) (i : ℕ) : TurnAdmissions :=
  match s.holds[i]? with
  | none => s
  | some hold => (s.releaseTurnLease hold.sessionId hold.leaseId).releaseGate hold.sessionId hold.gate

/-- A woken waiter of the session had its say. -/
def spend (s : TurnAdmissions) (sessionId : String) : Option ℕ → TurnAdmissions
  | none => s
  | some w =>
    { s with
      waiters := s.waiters.modify w fun waiter =>
        match waiter.stage with
        | .woken _ => if waiter.sessionId = sessionId then { waiter with spent := true } else waiter
        | _ => waiter }

/-- `claim`, by the waiter that is named or by someone else; a claim that throws leaves everything as it was. -/
def claim (s : TurnAdmissions) (sessionId turnId assistantMessageId : String) (waiter : Option ℕ) (throws : Bool) : TurnAdmissions :=
  let here := s.sessions sessionId
  let spent := s.spend sessionId waiter
  if here.active.isSome then spent
  else if here.gate.isSome then spent.put sessionId { here with handed := none }
  else if throws then s
  else
    match spent.acquireTurnLease sessionId with
    | none => if here.handed.isSome then (spent.put sessionId { here with handed := none }).handOff sessionId else spent
    | some (leaseId, leased) =>
      { leased.put sessionId { here with active := some ⟨leased.minted, turnId, assistantMessageId, leaseId⟩, handed := none } with
        minted := leased.minted + 1 }

def clear (s : TurnAdmissions) : TurnAdmissions :=
  { s with
    sessions := fun _ => {}
    waiters := s.waiters.map fun waiter =>
      match waiter.stage with
      | .waiting => { waiter with stage := .unavailable }
      | _ => waiter }

end TurnAdmissions

inductive AdmissionLabel where
  | whenIdle (sessionId : String)
  | claim (sessionId turnId assistantMessageId : String) (waiter : Option ℕ) (throws : Bool)
  | release (sessionId : String) (generation : ℕ)
  | gate (sessionId : String)
  | releaseGate (sessionId : String) (holder : ℕ)
  | holdIdle (sessionId : String) (throws : Bool)
  | releaseHold (hold : ℕ)
  | abandon (waiter : ℕ)
  | clear
  | othersAcquire (sessionId : String)
  | othersRelease (sessionId : String) (leaseId : ℕ)
  deriving DecidableEq

/-- A gate that a `holdIdle` took is released by it alone, and another instance gives back only what it took. -/
def TurnAdmissions.step (s : TurnAdmissions) : AdmissionLabel → TurnAdmissions
  | .whenIdle sessionId => s.whenIdle sessionId
  | .claim sessionId turnId assistantMessageId waiter throws => s.claim sessionId turnId assistantMessageId waiter throws
  | .release sessionId generation => s.release sessionId generation
  | .gate sessionId => s.takeGate sessionId
  | .releaseGate sessionId holder => if holder ∈ s.holds.map IdleHold.gate then s else s.releaseGate sessionId holder
  | .holdIdle sessionId throws => s.holdIdle sessionId throws
  | .releaseHold hold => s.releaseHold hold
  | .abandon waiter => s.abandon waiter
  | .clear => s.clear
  | .othersAcquire sessionId =>
    match s.acquireTurnLease sessionId with
    | none => s
    | some (leaseId, leased) => { leased with taken := leaseId :: leased.taken }
  | .othersRelease sessionId leaseId => if leaseId ∈ s.taken then s.releaseTurnLease sessionId leaseId else s

end Claxedo.Turns
