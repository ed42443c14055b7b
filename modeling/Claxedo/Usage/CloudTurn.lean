import Claxedo.Usage.RuntimeLedger
import Claxedo.Lib.Run

/-! `cloudTurnUsage`: revisions are filed under the turn that holds their session or its nearest ancestor, and each
session's unanswered ones are offered to the plane in batches, one report after another. -/

namespace Claxedo.Usage

open Claxedo.Lib

structure TurnProof where
  sessionId : String
  turnId : String
  leaseId : String
  fencingToken : ℕ

/-- A lease from the plane, or a released turn's usage proof, and until when it stands. -/
structure Lease extends TurnProof where
  expiresAt : ℤ

/-- What `parentOf` answers at a time: the parents the runtime's store has. -/
abbrev Parents := List (String × String)

def parentOf (parents : Parents) (sessionId : String) : Option String := (Table.get Prod.fst sessionId parents).map Prod.snd

/-- The loop of `lineage`: on to the parent, while there is one that has not come before. -/
def climb (parents : Parents) : ℕ → List String → Option String → List String
  | 0, sessions, _ => sessions
  | fuel + 1, sessions, parent =>
    match parent with
    | none => sessions
    | some parent =>
      if parent = "" ∨ parent ∈ sessions then sessions
      else climb parents fuel (sessions ++ [parent]) (parentOf parents parent)

def lineage (parents : Parents) (sessionId : String) : List String :=
  climb parents (parents.length + 1) [sessionId] (parentOf parents sessionId)

/-- A call of the meter's writer, from where the hash is awaited. -/
inductive WritePhase where
  | hashing
  | written (result : UsageRevisionWriteResult)
  | done
  deriving DecidableEq

structure WriteCall where
  item : TurnUsageRevision
  turn : Option MeteringTurn
  phase : WritePhase := .hashing

/-- A report that is out: the batch that waits for the plane's answer, and the ones to go. -/
structure Report where
  proof : TurnProof
  batch : List PendingUsageFact
  batches : List (List PendingUsageFact)

inductive ReportAnswer where
  | refused (status : ℕ)
  | failed
  | results (results : List ReportResult)

/-- The ledger's tables, what the process holds beside them, and what was accepted and what was answered so far. -/
structure CloudTurnUsage where
  ledger : RuntimeUsageLedger := {}
  activeTurns : List MeteringTurn := []
  leases : List Lease := []
  releasedTurns : List Lease := []
  writes : List WriteCall := []
  reports : List TurnProof := []
  report : Option Report := none
  accepted : List (Message × ℤ) := []
  answered : List (Message × ℤ) := []

inductive CloudTurnLabel where
  | write (item : TurnUsageRevision) (parents : Parents)
  | hashed (i : ℕ)
  | returned (i : ℕ) (now : ℤ)
  | acquired (lease : Lease) (recorded : Bool)
  | renewed (lease : Lease)
  | ended (proof : TurnProof) (parents : Parents) (threw : Bool)
  | released (proof : Lease)
  | flush (now : ℤ)
  | drain (now : ℤ)
  | offer
  | answer (answer : ReportAnswer)
  | restart

namespace CloudTurnUsage

variable (usageRevisionHash : TurnUsageRevision → String) (size : TurnProof → List PendingUsageFact → ℕ)

def meteringTurn (s : CloudTurnUsage) (parents : Parents) (sessionId : String) : Option MeteringTurn :=
  let sessions := lineage parents sessionId
  (sessions.findSome? fun session => (Table.get MeteringTurn.sessionId session s.activeTurns).filter (·.turnId ≠ "")).or
    (sessions.findSome? fun session => (Table.get MeteringTurn.sessionId session s.ledger.turns).filter (·.turnId ≠ ""))

/-- The live lease of a session, else its last released turn's usage proof, which goes where it has expired. -/
def proofFor (s : CloudTurnUsage) (sessionId : String) (now : ℤ) : Option TurnProof × List Lease :=
  match (Table.get (·.sessionId) sessionId s.leases).filter (now < ·.expiresAt) with
  | some live => (some live.toTurnProof, s.releasedTurns)
  | none =>
    match (Table.get (·.sessionId) sessionId s.releasedTurns).filter (now < ·.expiresAt) with
    | some released => (some released.toTurnProof, s.releasedTurns)
    | none => (none, s.releasedTurns.filter (·.sessionId ≠ sessionId))

def queueReport (s : CloudTurnUsage) (proof : TurnProof) : CloudTurnUsage := { s with reports := s.reports ++ [proof] }

def reportLiveLeases (s : CloudTurnUsage) (now : ℤ) : CloudTurnUsage :=
  { s with
    leases := s.leases.filter (now < ·.expiresAt)
    reports := s.reports ++ (s.leases.filter (now < ·.expiresAt)).map Lease.toTurnProof }

def holdLease (s : CloudTurnUsage) (lease : Lease) : CloudTurnUsage :=
  { s with leases := Table.put (·.sessionId) lease s.leases }

/-- The meter writes: the turn is read before the ledger's checks, which throw before anything is awaited. -/
def write (s : CloudTurnUsage) (item : TurnUsageRevision) (parents : Parents) : CloudTurnUsage :=
  match assertTurnUsageRevision item with
  | .error _ => s
  | .ok () => { s with writes := s.writes ++ [{ item := item, turn := s.meteringTurn parents item.sessionId }] }

def hashed (s : CloudTurnUsage) (i : ℕ) (call : WriteCall) : CloudTurnUsage :=
  let (result, rows) := writeRevision s.ledger.rows call.item (usageRevisionHash call.item) call.turn
  { s with
    ledger := { s.ledger with rows := rows }
    writes := s.writes.set i { call with phase := .written result }
    accepted :=
      if result = .accepted then s.accepted ++ [((call.item.sessionId, call.item.messageId), call.item.revision)]
      else s.accepted }

/-- A revision that settles where no turn holds its session ships at once. -/
def shipSettled (s : CloudTurnUsage) (item : TurnUsageRevision) (turn : Option MeteringTurn) (now : ℤ) : CloudTurnUsage :=
  match turn with
  | none => s
  | some turn =>
    if item.settlement ≠ .provisional ∧ Table.get MeteringTurn.sessionId turn.sessionId s.activeTurns = none then
      match s.proofFor turn.sessionId now with
      | (none, releasedTurns) => { s with releasedTurns := releasedTurns }
      | (some proof, releasedTurns) => { s with releasedTurns := releasedTurns }.queueReport proof
    else s

def returned (s : CloudTurnUsage) (i : ℕ) (call : WriteCall) (now : ℤ) : CloudTurnUsage :=
  { s with writes := s.writes.set i { call with phase := .done } }.shipSettled call.item call.turn now

def acquired (s : CloudTurnUsage) (lease : Lease) (recorded : Bool) : CloudTurnUsage :=
  let turn : MeteringTurn := ⟨lease.sessionId, lease.turnId⟩
  { s with
    activeTurns := Table.put MeteringTurn.sessionId turn s.activeTurns
    ledger :=
      if recorded then { s.ledger with turns := Table.put MeteringTurn.sessionId turn s.ledger.turns } else s.ledger }.holdLease
    lease

/-- The turn ends: what was metered under none, on a session it or an ancestor of is this turn's, is filed under it. -/
def ended (s : CloudTurnUsage) (proof : TurnProof) (parents : Parents) (threw : Bool) : CloudTurnUsage :=
  if threw then s.queueReport proof
  else
    { s with
      activeTurns := s.activeTurns.filter fun turn => ¬ (turn.sessionId = proof.sessionId ∧ turn.turnId = proof.turnId)
      ledger := { s.ledger with
        rows := adoptUnattributed s.ledger.rows ⟨proof.sessionId, proof.turnId⟩ fun sessionId =>
          proof.sessionId ∈ lineage parents sessionId } }.queueReport proof

/-- One released session of `drain`, whose proof goes where no lease is live. -/
def drainReleased (now : ℤ) (s : CloudTurnUsage) (sessionId : String) : CloudTurnUsage :=
  let (proof, releasedTurns) := s.proofFor sessionId now
  let s := { s with releasedTurns := releasedTurns }
  match proof with
  | some proof => if Table.get (·.sessionId) sessionId s.leases = none then s.queueReport proof else s
  | none => s

def drain (s : CloudTurnUsage) (now : ℤ) : CloudTurnUsage :=
  (s.releasedTurns.map (·.sessionId)).foldl (drainReleased now) (s.reportLiveLeases now)

def next (s : CloudTurnUsage) (proof : TurnProof) (batches : List (List PendingUsageFact)) : CloudTurnUsage :=
  match batches with
  | [] => { s with report := none }
  | batch :: batches => { s with report := some ⟨proof, batch, batches⟩ }

/-- The report queued first goes, where none is out: its facts are read now. -/
def offer (s : CloudTurnUsage) : CloudTurnUsage :=
  match s.report, s.reports with
  | none, proof :: reports =>
    { s with reports := reports }.next proof (reportBatches (size proof) (pending s.ledger.rows proof.sessionId))
  | _, _ => s

/-- What a result is an answer to. -/
def answering (batch : List PendingUsageFact) (result : ReportResult) : Option PendingUsageFact :=
  batch.find? fun item => item.fact.reported.messageId = result.messageId ∧ item.fact.reported.revision = result.revision

def settleResult (batch : List PendingUsageFact) (s : CloudTurnUsage) (result : ReportResult) : CloudTurnUsage :=
  match answering batch result with
  | none => s
  | some item =>
    let message : Message := (item.sessionId, item.messageId)
    { s with
      ledger := { s.ledger with rows := settle s.ledger.rows message result.revision result.status }
      answered := s.answered ++ [(message, result.revision)] }

/-- The plane answers the batch that is out. A report it cannot read, or one too large, is that batch's fault alone. -/
def answerReport (s : CloudTurnUsage) (answer : ReportAnswer) : CloudTurnUsage :=
  match s.report with
  | none => s
  | some report =>
    match answer with
    | .failed => { s with report := none }
    | .refused status => if status = 400 ∨ status = 413 then s.next report.proof report.batches else { s with report := none }
    | .results results => (results.foldl (settleResult report.batch) s).next report.proof report.batches

def step (s : CloudTurnUsage) : CloudTurnLabel → CloudTurnUsage
  | .write item parents => s.write item parents
  | .hashed i =>
    match s.writes[i]? with
    | none => s
    | some call => if call.phase = .hashing then s.hashed usageRevisionHash i call else s
  | .returned i now =>
    match s.writes[i]? with
    | none => s
    | some call =>
      match call.phase with
      | .hashing => s
      | .written _ => s.returned i call now
      | .done => s
  | .acquired lease recorded => s.acquired lease recorded
  | .renewed lease => s.holdLease lease
  | .ended proof parents threw => s.ended proof parents threw
  | .released proof => { s with releasedTurns := Table.put (·.sessionId) proof s.releasedTurns }
  | .flush now => s.reportLiveLeases now
  | .drain now => s.drain now
  | .offer => s.offer size
  | .answer answer => s.answerReport answer
  | .restart => { ledger := s.ledger, accepted := s.accepted, answered := s.answered }

end CloudTurnUsage

end Claxedo.Usage
