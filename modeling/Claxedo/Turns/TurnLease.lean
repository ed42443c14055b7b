import Claxedo.Lib.Run
import Claxedo.Lib.Table

/-! The lease a host holds on a session's turn: its two timers, its renewals, its loss and its release, and the host's record of
the leases it holds. A timer or a promise is the number it was made with. -/

namespace Claxedo.Turns

open Claxedo.Lib

def SESSION_TURN_LEASE_TTL_MS : ℚ := 60000

/-- The leases that are held, by session: `held` names the set of a session among the sets that were made. -/
structure HeldTurnLeases where
  sets : List (List ℕ) := []
  held : List (String × ℕ) := []
  promises : ℕ := 0

/-- What a hold keeps in order to end. -/
structure Hold where
  sessionId : String
  leases : ℕ
  promise : ℕ

namespace HeldTurnLeases

def get (h : HeldTurnLeases) (sessionId : String) : Option ℕ := (Table.get Prod.fst sessionId h.held).map Prod.snd

def hold (sessionId : String) (h : HeldTurnLeases) : Hold × HeldTurnLeases :=
  let (leases, sets) := match h.get sessionId with
    | some leases => (leases, h.sets)
    | none => (h.sets.length, h.sets ++ [[]])
  ({ sessionId := sessionId, leases := leases, promise := h.promises },
    { sets := sets.modify leases (· ++ [h.promises])
      held := Table.put Prod.fst (sessionId, leases) h.held
      promises := h.promises + 1 })

def unhold (hold : Hold) (h : HeldTurnLeases) : HeldTurnLeases :=
  let sets := h.sets.modify hold.leases (·.filter (· ≠ hold.promise))
  if (sets[hold.leases]?).any List.isEmpty && h.get hold.sessionId = some hold.leases then
    { h with sets := sets, held := h.held.filter (·.1 ≠ hold.sessionId) }
  else { h with sets := sets }

/-- What waits for a session's leases waits for this hold. -/
def has (hold : Hold) (h : HeldTurnLeases) : Bool :=
  (h.get hold.sessionId).any fun leases => (h.sets[leases]?).any (hold.promise ∈ ·)

end HeldTurnLeases

/-- The leases a host holds, with what the other turns keep of theirs. -/
structure Holds where
  held : HeldTurnLeases := {}
  others : List Hold := []

/-- Another turn of the host is held, or ends its hold, as often as it likes. -/
inductive HoldEvent where
  | hold (sessionId : String)
  | unhold (other : ℕ)

def holdStep (s : Holds) : HoldEvent → Holds
  | .hold sessionId => { held := (s.held.hold sessionId).2, others := s.others ++ [(s.held.hold sessionId).1] }
  | .unhold other =>
    match s.others[other]? with
    | none => s
    | some hold => { s with held := s.held.unhold hold }

structure IssuedSessionTurnLease where
  turnId : String
  leaseId : String
  fencingToken : ℚ
  acquiredAt : ℚ
  expiresAt : ℚ
  connectionCredential : Option String := none

/-- A lease as an answer has it: a field is none where it is not of its type, and a number where it is not finite. -/
structure AnsweredLease where
  turnId : Option String
  leaseId : Option String
  fencingToken : Option ℚ
  acquiredAt : Option ℚ
  expiresAt : Option ℚ
  connectionCredential : Option String := none

def whitespace (c : Char) : Bool :=
  c.toNat ∈ [0x9, 0xA, 0xB, 0xC, 0xD, 0x20, 0xA0, 0x1680, 0x2028, 0x2029, 0x202F, 0x205F, 0x3000, 0xFEFF] ||
    (0x2000 ≤ c.toNat && c.toNat ≤ 0x200A)

/-- Whether something is left of a text that is trimmed. -/
def written (text : String) : Bool := text.toList.any (!whitespace ·)

def safeInteger (number : ℚ) : Bool := number.den = 1 && |number| ≤ 2 ^ 53 - 1

/-- The lease, where all of it holds. -/
def validLease (lease : AnsweredLease) (turnId : String) (now : ℚ) : Option IssuedSessionTurnLease :=
  match lease with
  | ⟨some answered, some leaseId, some fencingToken, some acquiredAt, some expiresAt, connectionCredential⟩ =>
    if answered = turnId && written turnId && written leaseId && safeInteger fencingToken && 0 < fencingToken && 0 ≤ acquiredAt &&
        acquiredAt < expiresAt && now < expiresAt then
      some ⟨turnId, leaseId, fencingToken, acquiredAt, expiresAt, connectionCredential⟩
    else none
  | _ => none

inductive LeaseTimer where
  | renew
  | expiry
  deriving DecidableEq

structure ArmedTimer where
  id : ℕ
  timer : LeaseTimer
  delay : ℚ

/-- What containing a lost turn came to. -/
inductive LossResult where
  | outcome (outcome : String)
  | error (error : String)

/-- A release, between the end of the turn and that of the lease. -/
inductive Releasing where
  | endTurn
  | releaseTurn
  | over
  deriving DecidableEq

/-- `takenAt` and `onLost` are kept for the proofs only: the clock when the current grant was taken, and how often the loss was
reported. -/
structure TurnLease where
  current : IssuedSessionTurnLease
  localExpiresAt : ℚ
  closed : Bool := false
  leaseLost : Bool := false
  lossStarted : Bool := false
  renewTimer : Option ℕ := none
  expiryTimer : Option ℕ := none
  timers : List ArmedTimer := []
  nextTimer : ℕ := 0
  aborted : Bool := false
  asked : ℕ := 0
  containing : Bool := false
  lossResult : Option LossResult := none
  releasing : Option Releasing := none
  hold : Hold
  takenAt : ℚ
  onLost : ℕ := 0

/-- A host with the lease of one turn. -/
structure Host where
  lease : TurnLease
  holds : Holds

namespace TurnLease

def clearTimers (lease : TurnLease) : TurnLease :=
  { lease with
    timers := lease.timers.filter fun timer => some timer.id ≠ lease.renewTimer && some timer.id ≠ lease.expiryTimer
    renewTimer := none
    expiryTimer := none }

/-- The two timers of a lease that is good for `remaining`. -/
def arm (remaining : ℚ) (lease : TurnLease) : TurnLease :=
  { lease with
    timers := lease.timers ++ [⟨lease.nextTimer, .expiry, remaining⟩, ⟨lease.nextTimer + 1, .renew, max 25 ⌊remaining / 2⌋⟩]
    expiryTimer := some lease.nextTimer
    renewTimer := some (lease.nextTimer + 1)
    nextTimer := lease.nextTimer + 2 }

end TurnLease

/-- What the answer to a renewal is; a malformed one throws where it is read. -/
inductive RenewAnswer where
  | allowed (lease : AnsweredLease)
  | denied (status : ℕ)
  | malformed
  | rejected

/-- The clock as the handler of an answer reads it, in this order. -/
structure Readings where
  stillValid : ℚ
  validLease : ℚ
  taken : ℚ
  schedule : ℚ

namespace Host

def unhold (s : Host) : Host := { s with holds := { s.holds with held := s.holds.held.unhold s.lease.hold } }

def lose (s : Host) : Host :=
  if s.lease.closed || s.lease.lossStarted then s
  else
    { s.unhold with lease := { s.lease.clearTimers with
      lossStarted := true, leaseLost := true, aborted := true, containing := true, onLost := s.lease.onLost + 1 } }

/-- Whether the lease is still good, and what looking makes of it. -/
def stillValid (now : ℚ) (s : Host) : Bool × Host :=
  if s.lease.closed || s.lease.leaseLost then (false, s)
  else if s.lease.localExpiresAt ≤ now then (false, s.lose)
  else (true, s)

def schedule (now : ℚ) (s : Host) : Host :=
  let s := { s with lease := s.lease.clearTimers }
  let remaining := s.lease.localExpiresAt - now
  if remaining ≤ 0 then s.lose else { s with lease := s.lease.arm remaining }

/-- The handler of an answer. -/
def renewed (answer : RenewAnswer) (readings : Readings) (s : Host) : Host :=
  match answer with
  | .rejected => s.lose
  | _ =>
    let (valid, s) := s.stillValid readings.stillValid
    if !valid then s
    else match answer with
      | .allowed lease =>
        match validLease lease s.lease.current.turnId readings.validLease with
        | none => s.lose
        | some renewed =>
          if renewed.fencingToken ≠ s.lease.current.fencingToken then s.lose
          else
            schedule readings.schedule { s with lease := { s.lease with
              current := renewed
              localExpiresAt := min renewed.expiresAt (readings.taken + SESSION_TURN_LEASE_TTL_MS)
              takenAt := readings.taken } }
      | .denied status => if status = 503 then s.schedule readings.schedule else s.lose
      | _ => s

def fire (timer : LeaseTimer) (now : ℚ) (s : Host) : Host :=
  match timer with
  | .expiry => s.lose
  | .renew =>
    let (valid, s) := s.stillValid now
    if valid then { s with lease := { s.lease with asked := s.lease.asked + 1 } } else s

def release (s : Host) : Host :=
  if s.lease.closed then s
  else { s with lease := { { s.lease with closed := true }.clearTimers with aborted := true, releasing := some .endTurn } }

end Host

/-- A lease that was issued, by an acquisition or before a restart, is held. -/
def holdSessionTurnLease (sessionId : String) (issued : IssuedSessionTurnLease) (taken schedule : ℚ) (holds : Holds) : Host :=
  let (hold, held) := holds.held.hold sessionId
  Host.schedule schedule
    { lease := {
        current := issued
        localExpiresAt := min issued.expiresAt (taken + SESSION_TURN_LEASE_TTL_MS)
        hold := hold
        takenAt := taken }
      holds := { holds with held := held } }

inductive LeaseEvent where
  /-- An armed timer goes off. -/
  | timer (id : ℕ) (now : ℚ)
  /-- A renewal that was asked for is answered. -/
  | answered (answer : RenewAnswer) (readings : Readings)
  | valid (now : ℚ)
  /-- Containing the lost turn ends, or takes too long. -/
  | contained (result : LossResult)
  | release
  /-- The end of the turn was told, or could not be. -/
  | turnEnded
  /-- The authority answered the release, or failed. -/
  | turnReleased
  | other (event : HoldEvent)

def leaseStep (s : Host) : LeaseEvent → Host
  | .timer id now =>
    match s.lease.timers.find? (·.id = id) with
    | none => s
    | some armed => { s with lease := { s.lease with timers := s.lease.timers.filter (·.id ≠ id) } }.fire armed.timer now
  | .answered answer readings =>
    if s.lease.asked = 0 then s
    else { s with lease := { s.lease with asked := s.lease.asked - 1 } }.renewed answer readings
  | .valid now => (s.stillValid now).2
  | .contained result =>
    if s.lease.containing then
      { s with lease := { s.lease with containing := false, lossResult := some (s.lease.lossResult.getD result) } }
    else s
  | .release => s.release
  | .turnEnded =>
    if s.lease.releasing = some .endTurn then
      if s.lease.leaseLost then { s.unhold with lease := { s.lease with releasing := some .over } }
      else { s with lease := { s.lease with releasing := some .releaseTurn } }
    else s
  | .turnReleased =>
    if s.lease.releasing = some .releaseTurn then { s.unhold with lease := { s.lease with releasing := some .over } } else s
  | .other event => { s with holds := holdStep s.holds event }

end Claxedo.Turns
