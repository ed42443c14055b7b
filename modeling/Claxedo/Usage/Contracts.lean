import Claxedo.Store.Usage
import Claxedo.Tasks.Contracts

/-! The facts of turn usage that the ledgers keep, and the checks every ledger makes on one. -/

namespace Claxedo.Usage

open Claxedo.Store (RuntimeTokenUsage ObservationKind)
open Claxedo.Tasks (isBlank)

inductive TurnUsageSettlement where
  | provisional | final | partialUsage | unavailable | recovered
  deriving DecidableEq

inductive TurnUsageStatus where
  | running | completed | error | stopped | interruptedBySteer | processLost
  deriving DecidableEq

inductive TurnUsageLocation where
  | local | cloudWorkspace

inductive TurnUsageQualitySource where
  | provider | providerMessage | lifecycle
  deriving DecidableEq

inductive TurnUsageTokenCategory where
  | input | output | reasoning | cacheRead | cacheWrite
  deriving DecidableEq

structure TurnUsageQuality where
  source : TurnUsageQualitySource
  observationKind : Option ObservationKind := none
  providerObservationId : Option String := none
  providerObservationKey : Option Store.UsageKey := none
  knownCategories : List TurnUsageTokenCategory
  deriving DecidableEq

inductive TurnUsageCredential where
  | stored (credentialId : String)
  | machine
  deriving DecidableEq

structure UsageOwner where
  orgId : String
  userId : String

structure TurnUsageRevision where
  sessionRef : String
  sessionId : String
  messageId : String
  revision : ℤ
  observedAt : ℤ
  completedAt : Option ℤ := none
  firstOutputAt : Option ℤ := none
  errorClass : Option String := none
  settlement : TurnUsageSettlement
  status : TurnUsageStatus
  location : TurnUsageLocation
  harness : String
  providerId : String
  modelId : String
  nativeSessionId : Option String := none
  workspaceId : Option String := none
  hostId : String
  tokens : RuntimeTokenUsage
  quality : TurnUsageQuality
  credential : Option TurnUsageCredential := none

def maxSafeInteger : ℤ := 2 ^ 53 - 1

def knownTokenCategories (tokens : RuntimeTokenUsage) : List TurnUsageTokenCategory :=
  [(TurnUsageTokenCategory.input, tokens.input), (.output, tokens.output), (.reasoning, tokens.reasoning),
    (.cacheRead, tokens.cacheRead), (.cacheWrite, tokens.cacheWrite)].filterMap fun category =>
      category.2.map fun _ => category.1

def assertTurnUsageRevision (fact : TurnUsageRevision) : Except String Unit :=
  if [fact.sessionRef, fact.sessionId, fact.messageId, fact.hostId, fact.harness, fact.providerId, fact.modelId].any isBlank then
    .error "usage revision identifiers must be non-empty"
  else if fact.revision < 1 ∨ maxSafeInteger < fact.revision then .error "usage revision must be a positive integer"
  else if fact.observedAt < 0 then .error "usage observedAt must be non-negative"
  else if [fact.tokens.input, fact.tokens.output, fact.tokens.reasoning, fact.tokens.cacheRead, fact.tokens.cacheWrite,
      fact.tokens.cacheWrite1h.join].any fun value => value.any fun value => value < 0 ∨ maxSafeInteger < value then
    .error "usage token values must be non-negative integers or null"
  else if fact.tokens.cacheWrite1h.join.any fun write1h => fact.tokens.cacheWrite.getD 0 < write1h then
    .error "usage one-hour cache writes cannot exceed cache writes"
  else .ok ()

/-- The columns of a stored revision that the ledgers share. -/
structure UsageColumns where
  hostId : String
  sessionRef : String
  sessionId : String
  messageId : String
  revision : ℤ
  payloadHash : String
  observedAt : ℤ
  completedAt : Option ℤ
  settlement : TurnUsageSettlement
  status : TurnUsageStatus
  location : TurnUsageLocation
  harness : String
  providerId : String
  modelId : String
  nativeSessionId : Option String
  workspaceId : Option String
  inputTokens : Option ℤ
  outputTokens : Option ℤ
  reasoningTokens : Option ℤ
  cacheReadTokens : Option ℤ
  cacheWriteTokens : Option ℤ
  cacheWrite1hTokens : Option ℤ
  quality : TurnUsageQuality

def usageColumns (fact : TurnUsageRevision) (hash : String) : UsageColumns where
  hostId := fact.hostId
  sessionRef := fact.sessionRef
  sessionId := fact.sessionId
  messageId := fact.messageId
  revision := fact.revision
  payloadHash := hash
  observedAt := fact.observedAt
  completedAt := fact.completedAt
  settlement := fact.settlement
  status := fact.status
  location := fact.location
  harness := fact.harness
  providerId := fact.providerId
  modelId := fact.modelId
  nativeSessionId := fact.nativeSessionId
  workspaceId := fact.workspaceId
  inputTokens := fact.tokens.input
  outputTokens := fact.tokens.output
  reasoningTokens := fact.tokens.reasoning
  cacheReadTokens := fact.tokens.cacheRead
  cacheWriteTokens := fact.tokens.cacheWrite
  cacheWrite1hTokens := fact.tokens.cacheWrite1h.join
  quality := fact.quality

/-- What a message is filed by: its host, its session and its id. -/
abbrev MessageKey := String × String × String

def UsageColumns.key (columns : UsageColumns) : MessageKey := (columns.hostId, columns.sessionRef, columns.messageId)

def TurnUsageRevision.key (fact : TurnUsageRevision) : MessageKey := (fact.hostId, fact.sessionRef, fact.messageId)

@[simp] theorem usageColumns_key (fact : TurnUsageRevision) (hash : String) : (usageColumns fact hash).key = fact.key := rfl

@[simp] theorem usageColumns_revision (fact : TurnUsageRevision) (hash : String) :
    (usageColumns fact hash).revision = fact.revision := rfl

@[simp] theorem usageColumns_payloadHash (fact : TurnUsageRevision) (hash : String) :
    (usageColumns fact hash).payloadHash = hash := rfl

@[simp] theorem usageColumns_settlement (fact : TurnUsageRevision) (hash : String) :
    (usageColumns fact hash).settlement = fact.settlement := rfl

/-- The account and the turn a revision is filed under. -/
structure Filing where
  owner : Option UsageOwner := none
  turnId : Option String := none

inductive UsageReportWriteResult where
  | accepted (firstSettled : Bool)
  | duplicate
  | stale (currentRevision : ℤ)
  | conflict (currentRevision : ℤ)
  | refused (code : String)
  deriving DecidableEq

def USAGE_REPORT_MAX_MESSAGES_PER_TURN : ℕ := 2048

end Claxedo.Usage
