import Claxedo.Usage.Contracts
import Claxedo.Lib.Lists

/-! What a runtime says about a revision it metered, as it is stored, read back and put into report bodies. -/

namespace Claxedo.Usage

open Claxedo.Store (RuntimeTokenUsage)
open Claxedo.Tasks (isBlank)

def USAGE_REPORT_MAX_FACTS : ℕ := 32

def REPORT_BODY_BUDGET_BYTES : ℕ := 12 * 1024

def FIRST_TURN_ERROR_CLASSES : List String :=
  ["credential", "harness", "model", "rate_limit", "usage_limit", "egress", "workspace", "session", "unknown"]

structure UsageReportRevision where
  messageId : String
  revision : ℤ
  observedAt : ℤ
  completedAt : Option ℤ
  firstOutputAt : Option ℤ
  errorClass : Option String
  settlement : TurnUsageSettlement
  status : TurnUsageStatus
  harness : String
  providerId : String
  modelId : String
  nativeSessionId : Option String
  tokens : RuntimeTokenUsage
  quality : TurnUsageQuality
  credential : Option TurnUsageCredential
  deriving DecidableEq

def usageReportRevision (fact : TurnUsageRevision) : UsageReportRevision where
  messageId := fact.messageId
  revision := fact.revision
  observedAt := fact.observedAt
  completedAt := fact.completedAt
  firstOutputAt := fact.firstOutputAt
  errorClass := fact.errorClass
  settlement := fact.settlement
  status := fact.status
  harness := fact.harness
  providerId := fact.providerId
  modelId := fact.modelId
  nativeSessionId := fact.nativeSessionId.filter (· ≠ "")
  tokens := fact.tokens
  quality := fact.quality
  credential := fact.credential

def tokenCount (value : Option ℤ) : Bool := value.all fun value => 0 ≤ value ∧ value ≤ maxSafeInteger

/-- A one-hour split nobody knows reads back as none. -/
def readTurnUsageTokens (tokens : RuntimeTokenUsage) : Option RuntimeTokenUsage :=
  if [tokens.input, tokens.output, tokens.reasoning, tokens.cacheRead, tokens.cacheWrite, tokens.cacheWrite1h.join].all tokenCount then
    some { tokens with cacheWrite1h := tokens.cacheWrite1h.join.map some }
  else none

def readTurnUsageCredential (credential : TurnUsageCredential) : Option TurnUsageCredential :=
  match credential with
  | .machine => some .machine
  | .stored credentialId => if isBlank credentialId then none else some (.stored credentialId)

def readTurnUsageQuality (quality : TurnUsageQuality) : TurnUsageQuality :=
  { quality with
    knownCategories := [.input, .output, .reasoning, .cacheRead, .cacheWrite].filter (· ∈ quality.knownCategories) }

/-- A stored revision read back, or nothing where a field of it is none that was ever to be stored. -/
def readUsageReportRevision (value : UsageReportRevision) : Option UsageReportRevision :=
  match readTurnUsageTokens value.tokens with
  | none => none
  | some tokens =>
    if value.credential.any fun credential => (readTurnUsageCredential credential).isNone then none
    else if isBlank value.messageId then none
    else if value.errorClass.any fun errorClass => errorClass ∉ FIRST_TURN_ERROR_CLASSES then none
    else if [value.harness, value.providerId, value.modelId].any isBlank then none
    else if value.nativeSessionId.any isBlank then none
    else some { value with tokens := tokens, quality := readTurnUsageQuality value.quality }

/-- Whether the ids a revision may carry beside its own say something, and its error is of a known class. -/
def SaysWhat (fact : TurnUsageRevision) : Prop :=
  (∀ credentialId, fact.credential = some (.stored credentialId) → ¬ isBlank credentialId) ∧
    (∀ nativeSessionId ∈ fact.nativeSessionId, nativeSessionId ≠ "" → ¬ isBlank nativeSessionId) ∧
    ∀ errorClass ∈ fact.errorClass, errorClass ∈ FIRST_TURN_ERROR_CLASSES

instance (fact : TurnUsageRevision) : Decidable (SaysWhat fact) :=
  match hcredential : fact.credential with
  | some (.stored credentialId) =>
    decidable_of_iff (¬ isBlank credentialId ∧
        (∀ nativeSessionId ∈ fact.nativeSessionId, nativeSessionId ≠ "" → ¬ isBlank nativeSessionId) ∧
        ∀ errorClass ∈ fact.errorClass, errorClass ∈ FIRST_TURN_ERROR_CLASSES) (by simp [SaysWhat, hcredential])
  | some .machine | none =>
    decidable_of_iff ((∀ nativeSessionId ∈ fact.nativeSessionId, nativeSessionId ≠ "" → ¬ isBlank nativeSessionId) ∧
        ∀ errorClass ∈ fact.errorClass, errorClass ∈ FIRST_TURN_ERROR_CLASSES) (by simp [SaysWhat, hcredential])

variable {fact : TurnUsageRevision}

theorem tokenCount_of_assert (h : assertTurnUsageRevision fact = .ok ()) :
    [fact.tokens.input, fact.tokens.output, fact.tokens.reasoning, fact.tokens.cacheRead, fact.tokens.cacheWrite,
      fact.tokens.cacheWrite1h.join].all tokenCount = true := by
  unfold assertTurnUsageRevision at h
  split_ifs at h with hids hrevision hobserved hcounts hwrite
  rw [List.all_eq_true]
  intro value hvalue
  have hcount := mt (fun hany => List.any_eq_true.mpr ⟨value, hvalue, hany⟩) hcounts
  rcases value with _ | value
  · rfl
  · simp only [Option.any_some, decide_eq_true_eq, not_or, not_lt] at hcount
    simpa only [tokenCount, Option.all_some, decide_eq_true_eq] using hcount

theorem ids_of_assert (h : assertTurnUsageRevision fact = .ok ()) :
    isBlank fact.messageId = false ∧ [fact.harness, fact.providerId, fact.modelId].any isBlank = false := by
  unfold assertTurnUsageRevision at h
  split_ifs at h with hids hrevision hobserved hcounts hwrite
  simp only [List.any_cons, List.any_nil, Bool.or_false, Bool.or_eq_true, not_or, Bool.not_eq_true] at hids
  obtain ⟨-, -, hmessage, -, hharness, hprovider, hmodel⟩ := hids
  refine ⟨hmessage, ?_⟩
  simp only [List.any_cons, List.any_nil, hharness, hprovider, hmodel, Bool.or_false]

theorem readUsageReportRevision_of_assert (h : assertTurnUsageRevision fact = .ok ()) (hwhat : SaysWhat fact) :
    ∃ stored, readUsageReportRevision (usageReportRevision fact) = some stored ∧ stored.messageId = fact.messageId ∧
      stored.revision = fact.revision := by
  obtain ⟨hcredential, hnative, herror⟩ := hwhat
  obtain ⟨hmessage, hids⟩ := ids_of_assert h
  have htokens : readTurnUsageTokens (usageReportRevision fact).tokens =
      some { fact.tokens with cacheWrite1h := fact.tokens.cacheWrite1h.join.map some } := if_pos (tokenCount_of_assert h)
  have hcredential' : ¬ (usageReportRevision fact).credential.any (fun credential =>
      (readTurnUsageCredential credential).isNone) := by
    rcases hstored : fact.credential with _ | credential | _ <;> simp only [usageReportRevision, hstored]
    · simp
    · simp [readTurnUsageCredential, hcredential credential hstored]
    · simp [readTurnUsageCredential]
  have herror' : ¬ (usageReportRevision fact).errorClass.any (fun errorClass => errorClass ∉ FIRST_TURN_ERROR_CLASSES) := by
    rcases hclass : fact.errorClass with _ | errorClass <;> simp only [usageReportRevision, hclass]
    · simp
    · simpa using herror errorClass hclass
  have hnative' : ¬ (usageReportRevision fact).nativeSessionId.any isBlank := by
    rcases hid : fact.nativeSessionId with _ | nativeSessionId <;> simp only [usageReportRevision, hid]
    · simp
    · by_cases hempty : nativeSessionId = ""
      · simp [hempty]
      · simpa [Option.filter, hempty] using hnative nativeSessionId hid hempty
  unfold readUsageReportRevision
  rw [htokens]
  dsimp only
  rw [if_neg hcredential', if_neg (by simp [usageReportRevision, hmessage]), if_neg herror',
    if_neg (by simpa [usageReportRevision] using hids), if_neg hnative']
  exact ⟨_, rfl, rfl, rfl⟩

/-- A reported revision and the turn it was metered under. -/
structure UsageReportFact where
  reported : UsageReportRevision
  turnId : String

structure PendingUsageFact where
  sessionId : String
  messageId : String
  fact : UsageReportFact

section
variable (size : List PendingUsageFact → ℕ)

/-- One turn of the loop of `reportBatches`: the batches that are full, and the one being filled. -/
def fillBatch (filled : List (List PendingUsageFact) × List PendingUsageFact) (item : PendingUsageFact) :
    List (List PendingUsageFact) × List PendingUsageFact :=
  if filled.2.length = USAGE_REPORT_MAX_FACTS ∨
      (0 < filled.2.length ∧ REPORT_BODY_BUDGET_BYTES < size (filled.2 ++ [item])) then
    (filled.1 ++ [filled.2], [item])
  else (filled.1, filled.2 ++ [item])

def reportBatches (facts : List PendingUsageFact) : List (List PendingUsageFact) :=
  let filled := facts.foldl (fillBatch size) ([], [])
  if 0 < filled.2.length then filled.1 ++ [filled.2] else filled.1

theorem fillBatch_spec {filled : List (List PendingUsageFact) × List PendingUsageFact} (item : PendingUsageFact)
    (hfull : ∀ batch ∈ filled.1, batch.length ≤ USAGE_REPORT_MAX_FACTS) (hfilling : filled.2.length ≤ USAGE_REPORT_MAX_FACTS) :
    (fillBatch size filled item).1.flatten ++ (fillBatch size filled item).2 = filled.1.flatten ++ filled.2 ++ [item] ∧
      (∀ batch ∈ (fillBatch size filled item).1, batch.length ≤ USAGE_REPORT_MAX_FACTS) ∧
      (fillBatch size filled item).2.length ≤ USAGE_REPORT_MAX_FACTS := by
  unfold fillBatch
  split_ifs with hnext
  · refine ⟨?_, fun batch hbatch => ?_, ?_⟩
    · dsimp only
      rw [List.flatten_append, List.flatten_singleton]
    · rcases List.mem_append.mp hbatch with hbatch | hbatch
      · exact hfull batch hbatch
      · exact List.mem_singleton.mp hbatch ▸ hfilling
    · exact Nat.one_le_iff_ne_zero.mpr (by decide)
  · rw [not_or] at hnext
    refine ⟨?_, hfull, ?_⟩
    · dsimp only
      rw [List.append_assoc]
    · dsimp only
      rw [List.length_append, List.length_singleton]
      omega

theorem filled_spec (facts : List PendingUsageFact) (filled : List (List PendingUsageFact) × List PendingUsageFact)
    (hfull : ∀ batch ∈ filled.1, batch.length ≤ USAGE_REPORT_MAX_FACTS) (hfilling : filled.2.length ≤ USAGE_REPORT_MAX_FACTS) :
    let after := facts.foldl (fillBatch size) filled
    after.1.flatten ++ after.2 = filled.1.flatten ++ filled.2 ++ facts ∧
      (∀ batch ∈ after.1, batch.length ≤ USAGE_REPORT_MAX_FACTS) ∧ after.2.length ≤ USAGE_REPORT_MAX_FACTS := by
  induction facts generalizing filled with
  | nil => exact ⟨(List.append_nil _).symm, hfull, hfilling⟩
  | cons item facts ih =>
    obtain ⟨hflatten, hfull', hfilling'⟩ := fillBatch_spec size item hfull hfilling
    obtain ⟨hafter, hrest⟩ := ih (fillBatch size filled item) hfull' hfilling'
    rw [hflatten, List.append_assoc, List.singleton_append] at hafter
    exact ⟨hafter, hrest⟩

/-- The batches are the facts in order, each in one of them, and none is too long. -/
theorem reportBatches_spec (facts : List PendingUsageFact) :
    (reportBatches size facts).flatten = facts ∧ ∀ batch ∈ reportBatches size facts, batch.length ≤ USAGE_REPORT_MAX_FACTS := by
  obtain ⟨hflatten, hfull, hfilling⟩ := filled_spec size facts ([], []) (by simp) (Nat.zero_le _)
  unfold reportBatches
  dsimp only at hflatten ⊢
  rw [List.flatten_nil, List.nil_append, List.nil_append] at hflatten
  split_ifs with hlast
  · refine ⟨by rw [List.flatten_append, List.flatten_singleton, hflatten], fun batch hbatch => ?_⟩
    rcases List.mem_append.mp hbatch with hbatch | hbatch
    · exact hfull batch hbatch
    · exact List.mem_singleton.mp hbatch ▸ hfilling
  · rw [List.length_eq_zero_iff.mp (Nat.eq_zero_of_not_pos hlast), List.append_nil] at hflatten
    exact ⟨hflatten, hfull⟩

end

/-! `createRuntimeUsageLedger`: a runtime's own record of its turns' usage, and the outbox of what the plane has not yet
answered for. -/

open Claxedo.Lib

structure MeteringTurn where
  sessionId : String
  turnId : String
  deriving DecidableEq

/-- The session and the id a message was metered on. -/
abbrev Message := String × String

/-- What the plane answers for a fact. -/
inductive ReportStatus where
  | accepted | duplicate | stale | conflict | refused

structure ReportResult where
  messageId : String
  revision : ℤ
  status : ReportStatus

inductive Delivery where
  | pending | delivered | stale | conflict | refused
  deriving DecidableEq

def DELIVERY : ReportStatus → Delivery
  | .accepted | .duplicate => .delivered
  | .stale => .stale
  | .conflict => .conflict
  | .refused => .refused

theorem DELIVERY_ne (status : ReportStatus) : DELIVERY status ≠ .pending := by
  cases status <;> decide

/-- The message id a fact is reported under. -/
def reportedMessageId (sessionId turnSessionId messageId : String) : String :=
  if sessionId = turnSessionId then messageId else sessionId ++ "/" ++ messageId

/-- A row of `usage_revisions`, whose two turn columns are set together. -/
structure RevisionRow where
  sessionId : String
  messageId : String
  revision : ℤ
  turn : Option MeteringTurn
  payloadHash : String
  settlement : TurnUsageSettlement
  fact : UsageReportRevision
  delivery : Delivery := .pending
  deriving DecidableEq

def RevisionRow.message (row : RevisionRow) : Message := (row.sessionId, row.messageId)

inductive UsageRevisionWriteResult where
  | accepted
  | duplicate
  | stale (currentRevision : ℤ)
  | conflict (currentRevision : ℤ)
  deriving DecidableEq

/-- The tables: revisions in the order they were written, and each session's latest turn. -/
structure RuntimeUsageLedger where
  rows : List RevisionRow := []
  turns : List MeteringTurn := []

section
variable (rows : List RevisionRow)

def latest (message : Message) : Option RevisionRow :=
  rows.find? fun row => row.message = message ∧ ∀ other ∈ rows, other.message = message → other.revision ≤ row.revision

/-- `writeRevision` past its checks, where the hash has come: the revision's answer, and the rows it leaves. -/
def writeRevision (item : TurnUsageRevision) (hash : String) (turn : Option MeteringTurn) :
    UsageRevisionWriteResult × List RevisionRow :=
  let row (filedUnder : Option MeteringTurn) : RevisionRow :=
    { sessionId := item.sessionId
      messageId := item.messageId
      revision := item.revision
      turn := filedUnder
      payloadHash := hash
      settlement := item.settlement
      fact := usageReportRevision item }
  match latest rows (item.sessionId, item.messageId) with
  | some current =>
    if item.revision < current.revision then (.stale current.revision, rows)
    else if item.revision = current.revision then
      (if current.payloadHash = hash then .duplicate else .conflict current.revision, rows)
    else (.accepted, rows ++ [row current.turn])
  | none => (.accepted, rows ++ [row turn])

def adoptUnattributed (turn : MeteringTurn) (belongs : String → Bool) : List RevisionRow :=
  rows.map fun row => if row.turn = none ∧ belongs row.sessionId then { row with turn := some turn } else row

/-- Whether a row is what is offered of its message: nothing later of it waits for an answer. -/
def Offered (sessionId : String) (row : RevisionRow) : Prop :=
  row.turn.map MeteringTurn.sessionId = some sessionId ∧ row.delivery = .pending ∧
    ∀ other ∈ rows, other.message = row.message → other.delivery = .pending → other.revision ≤ row.revision

instance (sessionId : String) (row : RevisionRow) : Decidable (Offered rows sessionId row) := by
  unfold Offered
  infer_instance

/-- A row as it is reported under the session of its turn, where its fact reads back. -/
def pendingFact (sessionId : String) (row : RevisionRow) : Option PendingUsageFact :=
  (readUsageReportRevision row.fact).bind fun stored => row.turn.map fun turn =>
    { sessionId := row.sessionId
      messageId := row.messageId
      fact :=
        { reported := { stored with messageId := reportedMessageId row.sessionId sessionId row.messageId }
          turnId := turn.turnId } }

def pending (sessionId : String) : List PendingUsageFact :=
  (rows.filter fun row => Offered rows sessionId row).filterMap (pendingFact sessionId)

def settleRows (message : Message) (revision : ℤ) (delivery : Delivery) : List RevisionRow :=
  rows.map fun row =>
    if row.message = message ∧ row.revision ≤ revision ∧ row.delivery = .pending then { row with delivery := delivery } else row

def pruneAnswered (message : Message) : List RevisionRow :=
  rows.filter fun row =>
    ¬ (row.message = message ∧ row.delivery ≠ .pending ∧ ∃ other ∈ rows, other.message = message ∧ row.revision < other.revision)

def settle (message : Message) (revision : ℤ) (status : ReportStatus) : List RevisionRow :=
  pruneAnswered (settleRows rows message revision (DELIVERY status)) message

end

/-! Which messages a turn's session reports under one id. -/

/-- A message of the turn's own session spells out another session's. -/
def Spells (turnSessionId : String) (own other : Message) : Prop :=
  own.1 = turnSessionId ∧ other.1 ≠ turnSessionId ∧ own.2 = other.1 ++ "/" ++ other.2

/-- A session's id goes on from another's, as that one's message goes on to end in its own. -/
def Extends (a b : Message) : Prop :=
  ∃ x ∈ a.1.toList.tails, a.1.toList = b.1.toList ++ '/' :: x ∧ b.2.toList = x ++ '/' :: a.2.toList

def Apart (turnSessionId : String) (a b : Message) : Prop :=
  ¬ Spells turnSessionId a b ∧ ¬ Spells turnSessionId b a ∧
    (a.1 ≠ turnSessionId → b.1 ≠ turnSessionId → ¬ Extends a b ∧ ¬ Extends b a)

instance (turnSessionId : String) (a b : Message) : Decidable (Apart turnSessionId a b) := by
  unfold Apart Spells Extends
  infer_instance

variable {a b : Message}

theorem Apart.symm {turnSessionId : String} (h : Apart turnSessionId a b) : Apart turnSessionId b a :=
  ⟨h.2.1, h.1, fun hb ha => (h.2.2 ha hb).symm⟩

theorem extends_iff :
    Extends a b ↔ ∃ x, a.1.toList = b.1.toList ++ '/' :: x ∧ b.2.toList = x ++ '/' :: a.2.toList := by
  refine ⟨fun ⟨x, _, hx⟩ => ⟨x, hx⟩, fun ⟨x, hx⟩ => ⟨x, ?_, hx⟩⟩
  rw [List.mem_tails, hx.1]
  exact ⟨b.1.toList ++ ['/'], by simp⟩

theorem qualified_toList (a : Message) : (a.1 ++ "/" ++ a.2).toList = a.1.toList ++ '/' :: a.2.toList := by
  simp

/-- Two messages are reported under one id of a turn's session just where they are not apart. -/
theorem reportedMessageId_eq_iff {turnSessionId : String} (hne : a ≠ b) :
    reportedMessageId a.1 turnSessionId a.2 = reportedMessageId b.1 turnSessionId b.2 ↔ ¬ Apart turnSessionId a b := by
  unfold reportedMessageId Apart Spells
  by_cases ha : a.1 = turnSessionId <;> by_cases hb : b.1 = turnSessionId
  · have hids : a.2 ≠ b.2 := fun h => hne (Prod.ext (ha.trans hb.symm) h)
    simp [ha, hb, hids]
  · simp [ha, hb]
  · simp [ha, hb, eq_comm]
  · rw [if_neg ha, if_neg hb, ← String.toList_inj, qualified_toList, qualified_toList, append_cons_eq, ← extends_iff, ← extends_iff]
    have hids : ¬ (a.1.toList = b.1.toList ∧ a.2.toList = b.2.toList) := fun h =>
      hne (Prod.ext (String.toList_inj.mp h.1) (String.toList_inj.mp h.2))
    simp only [hids, false_or, ha, hb, false_and, not_false_eq_true, true_and]
    tauto

end Claxedo.Usage
