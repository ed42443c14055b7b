import Claxedo.Lib.Table

/-! A turn's usage as independent streams: each scope's running usage, and the last observation each
scope applied, so a re-emitted one is not applied twice. A category nobody measured is `none`. -/

namespace Claxedo.Store

open Lib

structure RuntimeTokenUsage where
  input : Option ℤ
  output : Option ℤ
  reasoning : Option ℤ
  cacheRead : Option ℤ
  cacheWrite : Option ℤ
  /-- Absent where the provider reports no split, which is not a split it does not know. -/
  cacheWrite1h : Option (Option ℤ) := none
  deriving DecidableEq

inductive ObservationKind where
  | cumulative
  | delta
  deriving DecidableEq

structure RuntimeUsageObservation where
  kind : ObservationKind
  scope : Option String := none
  tokens : RuntimeTokenUsage
  sequence : Option ℤ := none
  providerObservationId : Option String := none
  nativeSessionId : Option String := none
  observedAt : Option ℤ := none
  deriving DecidableEq

/-- What `usageObservationKey` writes: a provider's identity of a delta, or the observation itself. -/
inductive UsageKey where
  | provider (id : String)
  | snapshot (observation : RuntimeUsageObservation)
  deriving DecidableEq

structure UsageStreams where
  streams : List (String × RuntimeTokenUsage) := []
  lastObservationKeys : List (String × UsageKey) := []

def unknownTokenUsage : RuntimeTokenUsage :=
  { input := none, output := none, reasoning := none, cacheRead := none, cacheWrite := none }

def add (previous delta : Option ℤ) : Option ℤ :=
  match delta with
  | none => previous
  | some delta => some (previous.getD 0 + delta)

def applyObservation (previous : RuntimeTokenUsage) (kind : ObservationKind) (tokens : RuntimeTokenUsage) :
    RuntimeTokenUsage :=
  match kind with
  | .cumulative => tokens
  | .delta =>
    { input := add previous.input tokens.input
      output := add previous.output tokens.output
      reasoning := add previous.reasoning tokens.reasoning
      cacheRead := add previous.cacheRead tokens.cacheRead
      cacheWrite := add previous.cacheWrite tokens.cacheWrite
      cacheWrite1h := (add previous.cacheWrite1h.join tokens.cacheWrite1h.join).map some }

/-- A scope's one-hour writes are a part of its cache writes. -/
def oneHourWithinWrites (tokens : RuntimeTokenUsage) : RuntimeTokenUsage :=
  match tokens.cacheWrite1h.join, tokens.cacheWrite with
  | none, _ => tokens
  | some _, none => { tokens with cacheWrite1h := none }
  | some write1h, some write => if write < write1h then { tokens with cacheWrite1h := some (some write) } else tokens

def usageStreamsTotal (streams : List (String × RuntimeTokenUsage)) : RuntimeTokenUsage :=
  streams.foldl (fun total stream => applyObservation total .delta stream.2) unknownTokenUsage

def nonEmpty (s : Option String) : Option String := s.filter (· ≠ "")

def usageObservationKey (observation : RuntimeUsageObservation) : UsageKey :=
  match observation.kind, nonEmpty observation.providerObservationId with
  | .delta, some id =>
    match nonEmpty observation.scope with
    | some scope => .provider s!"{scope}:{id}"
    | none => .provider id
  | _, _ => .snapshot { observation with scope := nonEmpty observation.scope }

def isRepeatedUsageObservation (state : UsageStreams) (observation : RuntimeUsageObservation) : Bool :=
  (Table.get Prod.fst (observation.scope.getD "") state.lastObservationKeys).map Prod.snd =
    some (usageObservationKey observation)

def recordUsageObservation (state : UsageStreams) (observation : RuntimeUsageObservation) : UsageStreams :=
  if isRepeatedUsageObservation state observation then state
  else
    let scope := observation.scope.getD ""
    let previous := ((Table.get Prod.fst scope state.streams).map Prod.snd).getD unknownTokenUsage
    { streams :=
        Table.put Prod.fst (scope, oneHourWithinWrites (applyObservation previous observation.kind observation.tokens))
          state.streams
      lastObservationKeys := Table.put Prod.fst (scope, usageObservationKey observation) state.lastObservationKeys }

/-- A turn's usage from its observations in the order they were reported. -/
def foldUsageObservations (observations : List RuntimeUsageObservation) : RuntimeTokenUsage :=
  usageStreamsTotal (observations.foldl recordUsageObservation {}).streams

/-- A message's tokens; its schema has no unknown, so an unreported category reads as zero. -/
structure AgentTokenUsage where
  input : ℤ := 0
  output : ℤ := 0
  reasoning : ℤ := 0
  cacheRead : ℤ := 0
  cacheWrite : ℤ := 0

def assistantMessageTokens (observations : List RuntimeUsageObservation) : AgentTokenUsage :=
  let usage := foldUsageObservations observations
  { input := usage.input.getD 0
    output := usage.output.getD 0
    reasoning := usage.reasoning.getD 0
    cacheRead := usage.cacheRead.getD 0
    cacheWrite := usage.cacheWrite.getD 0 }

end Claxedo.Store
