import Claxedo.Store.Usage

/-! What a turn's usage owes to the order its scopes' observations arrive in: nothing. Each observation reads and writes
its own scope only, and the total is a sum over the scopes. -/

namespace Claxedo.Usage.Interleaving

open Claxedo.Lib
open Claxedo.Store (RuntimeTokenUsage RuntimeUsageObservation ObservationKind UsageStreams UsageKey unknownTokenUsage add
  applyObservation oneHourWithinWrites usageStreamsTotal usageObservationKey isRepeatedUsageObservation
  recordUsageObservation foldUsageObservations)

/-- The stream an observation belongs to. -/
def scopeOf (observation : RuntimeUsageObservation) : String := observation.scope.getD ""

/-- The state the observations leave. -/
def usageStreams (observations : List RuntimeUsageObservation) : UsageStreams :=
  observations.foldl recordUsageObservation {}

/-- The observations of one scope, in their order. -/
def ofScope (scope : String) (observations : List RuntimeUsageObservation) : List RuntimeUsageObservation :=
  observations.filter fun observation => scopeOf observation = scope

inductive Counter where
  | input
  | output
  | reasoning
  | cacheRead
  | cacheWrite
  | cacheWrite1h

/-- A counter's value, `none` where it is unknown. -/
def count (tokens : RuntimeTokenUsage) : Counter → Option ℤ
  | .input => tokens.input
  | .output => tokens.output
  | .reasoning => tokens.reasoning
  | .cacheRead => tokens.cacheRead
  | .cacheWrite => tokens.cacheWrite
  | .cacheWrite1h => tokens.cacheWrite1h.join

/-- The known values of a counter, stream by stream. -/
def known (counter : Counter) (streams : List (String × RuntimeTokenUsage)) : List ℤ :=
  streams.filterMap fun stream => count stream.2 counter

def NonNegative (tokens : RuntimeTokenUsage) : Prop := ∀ counter, ∀ n ∈ count tokens counter, 0 ≤ n

/-- The one-hour writes come with the cache writes and are a part of them. -/
def Within (tokens : RuntimeTokenUsage) : Prop :=
  ∀ write1h ∈ tokens.cacheWrite1h.join, ∃ write ∈ tokens.cacheWrite, write1h ≤ write

/-! ### One scope -/

section
variable (state : UsageStreams) (observation : RuntimeUsageObservation) (scope : String)

/-- A scope's running usage and the key of its last observation. -/
def stream : Option RuntimeTokenUsage × Option UsageKey :=
  (Assoc.lookup scope state.streams, Assoc.lookup scope state.lastObservationKeys)

/-- What an observation makes of its own scope. -/
def recordIn (s : Option RuntimeTokenUsage × Option UsageKey) (observation : RuntimeUsageObservation) :
    Option RuntimeTokenUsage × Option UsageKey :=
  if s.2 = some (usageObservationKey observation) then s
  else
    (some (oneHourWithinWrites (applyObservation (s.1.getD unknownTokenUsage) observation.kind observation.tokens)),
      some (usageObservationKey observation))

theorem record_eq : recordUsageObservation state observation =
    if (stream state (scopeOf observation)).2 = some (usageObservationKey observation) then state
    else
      { streams := Assoc.assign (scopeOf observation) (oneHourWithinWrites (applyObservation
          ((stream state (scopeOf observation)).1.getD unknownTokenUsage) observation.kind observation.tokens)) state.streams
        lastObservationKeys :=
          Assoc.assign (scopeOf observation) (usageObservationKey observation) state.lastObservationKeys } := by
  simp only [recordUsageObservation, isRepeatedUsageObservation, decide_eq_true_eq]
  rfl

theorem stream_record : stream (recordUsageObservation state observation) scope =
    if scopeOf observation = scope then recordIn (stream state scope) observation else stream state scope := by
  rw [record_eq]
  by_cases hscope : scopeOf observation = scope
  · subst hscope
    rw [if_pos rfl, recordIn]
    by_cases hkey : (stream state (scopeOf observation)).2 = some (usageObservationKey observation)
    · rw [if_pos hkey, if_pos hkey]
    · rw [if_neg hkey, if_neg hkey]
      simp only [stream, Assoc.lookup_assign, if_true]
  · rw [if_neg hscope]
    split_ifs
    · rfl
    · simp only [stream, Assoc.lookup_assign, if_neg hscope]

theorem stream_foldl (observations : List RuntimeUsageObservation) :
    stream (observations.foldl recordUsageObservation state) scope =
      (ofScope scope observations).foldl recordIn (stream state scope) := by
  induction observations generalizing state with
  | nil => rfl
  | cons observation observations ih =>
    rw [List.foldl_cons, ih, stream_record, ofScope, ofScope, List.filter_cons]
    by_cases hscope : scopeOf observation = scope
    · rw [if_pos hscope, if_pos (decide_eq_true hscope), List.foldl_cons]
    · rw [if_neg hscope, if_neg (by rw [decide_eq_true_iff]; exact hscope)]

end

/-- A scope's last observation, seen again, is left out. -/
theorem record_repeated {state : UsageStreams} {observation : RuntimeUsageObservation}
    (h : (stream state (scopeOf observation)).2 = some (usageObservationKey observation)) :
    recordUsageObservation state observation = state := by
  rw [record_eq, if_pos h]

theorem key_recordIn (s : Option RuntimeTokenUsage × Option UsageKey) (observation : RuntimeUsageObservation) :
    (recordIn s observation).2 = some (usageObservationKey observation) := by
  unfold recordIn
  split_ifs with h
  · exact h
  · rfl

theorem record_again (observation : RuntimeUsageObservation) {between : List RuntimeUsageObservation}
    (h : ∀ o ∈ between, scopeOf o ≠ scopeOf observation) (state : UsageStreams) :
    (observation :: between ++ [observation]).foldl recordUsageObservation state =
      (observation :: between).foldl recordUsageObservation state := by
  rw [List.foldl_append, List.foldl_cons, List.foldl_nil]
  apply record_repeated
  have hbetween : ofScope (scopeOf observation) between = [] :=
    List.filter_eq_nil_iff.mpr fun o ho => by rw [decide_eq_true_iff]; exact h o ho
  rw [List.foldl_cons, stream_foldl, hbetween, List.foldl_nil, stream_record, if_pos rfl, key_recordIn]

/-! ### The streams -/

/-- What every state keeps of its streams: one for each scope, within its writes, and counts that are no debts. -/
structure Sound (state : UsageStreams) : Prop where
  scopes : (state.streams.map Prod.fst).Nodup
  within : ∀ stream ∈ state.streams, Within stream.2
  nonNegative : ∀ stream ∈ state.streams, NonNegative stream.2

theorem within_oneHourWithinWrites (tokens : RuntimeTokenUsage) : Within (oneHourWithinWrites tokens) := by
  rcases tokens with ⟨input, output, reasoning, cacheRead, cacheWrite, cacheWrite1h⟩
  intro write1h hwrite1h
  rcases cacheWrite1h with _ | _ | reported
  · cases hwrite1h
  · cases hwrite1h
  · rcases cacheWrite with _ | write
    · cases hwrite1h
    · by_cases hlt : write < reported
      · simp only [oneHourWithinWrites, Option.join_some, if_pos hlt, Option.mem_def, Option.some.injEq] at hwrite1h ⊢
        exact ⟨write, rfl, hwrite1h.ge⟩
      · simp only [oneHourWithinWrites, Option.join_some, if_neg hlt, Option.mem_def, Option.some.injEq] at hwrite1h ⊢
        exact ⟨write, rfl, by omega⟩

variable {tokens : RuntimeTokenUsage} {streams : List (String × RuntimeTokenUsage)}

theorem NonNegative.withOneHour (h : NonNegative tokens) {write1h : Option (Option ℤ)} (hwrite1h : ∀ n ∈ write1h.join, 0 ≤ n) :
    NonNegative { tokens with cacheWrite1h := write1h } := by
  intro counter
  cases counter with
  | cacheWrite1h => exact hwrite1h
  | input => exact h .input
  | output => exact h .output
  | reasoning => exact h .reasoning
  | cacheRead => exact h .cacheRead
  | cacheWrite => exact h .cacheWrite

theorem nonNegative_oneHourWithinWrites (h : NonNegative tokens) :
    NonNegative (oneHourWithinWrites tokens) := by
  unfold oneHourWithinWrites
  split
  · exact h
  · exact h.withOneHour fun n hn => by cases hn
  · rename_i write hwrite
    split_ifs
    · exact h.withOneHour fun n hn => h .cacheWrite n (hwrite.trans hn)
    · exact h

theorem count_delta (previous tokens : RuntimeTokenUsage) (counter : Counter) :
    count (applyObservation previous .delta tokens) counter = add (count previous counter) (count tokens counter) := by
  cases counter with
  | cacheWrite1h =>
    simp only [count, applyObservation]
    cases add previous.cacheWrite1h.join tokens.cacheWrite1h.join <;> rfl
  | _ => rfl

theorem nonNegative_add {previous delta : Option ℤ} (h : ∀ n ∈ previous, 0 ≤ n) (hdelta : ∀ n ∈ delta, 0 ≤ n) :
    ∀ n ∈ add previous delta, 0 ≤ n := by
  intro n hn
  rcases delta with _ | m
  · exact h n hn
  · have hm := hdelta m rfl
    obtain rfl := Option.some.inj hn
    rcases previous with _ | k
    · simpa using hm
    · exact Int.add_nonneg (h k rfl) hm

theorem NonNegative.apply {previous : RuntimeTokenUsage} (h : NonNegative previous) (htokens : NonNegative tokens)
    (kind : ObservationKind) : NonNegative (applyObservation previous kind tokens) := by
  cases kind with
  | cumulative => exact htokens
  | delta =>
    intro counter
    rw [count_delta]
    exact nonNegative_add (h counter) (htokens counter)

theorem nonNegative_unknown : NonNegative unknownTokenUsage := by
  intro counter n hn
  cases counter <;> cases hn

theorem Sound.record {state : UsageStreams} (h : Sound state) {observation : RuntimeUsageObservation}
    (htokens : NonNegative observation.tokens) : Sound (recordUsageObservation state observation) := by
  rw [record_eq]
  split_ifs
  · exact h
  have hprevious : NonNegative ((stream state (scopeOf observation)).1.getD unknownTokenUsage) := by
    rcases hstream : (stream state (scopeOf observation)).1 with _ | tokens
    · exact nonNegative_unknown
    · obtain ⟨pair, hget, rfl⟩ := Option.map_eq_some_iff.mp hstream
      exact h.nonNegative pair (Table.mem_of_get hget).1
  refine ⟨Table.nodup_keys_put h.scopes, fun pair hpair => ?_, fun pair hpair => ?_⟩
  · rcases Table.mem_put hpair with rfl | hpair
    · exact within_oneHourWithinWrites _
    · exact h.within pair hpair
  · rcases Table.mem_put hpair with rfl | hpair
    · exact nonNegative_oneHourWithinWrites (hprevious.apply htokens observation.kind)
    · exact h.nonNegative pair hpair

theorem sound_usageStreams {observations : List RuntimeUsageObservation} (h : ∀ o ∈ observations, NonNegative o.tokens) :
    Sound (usageStreams observations) := by
  induction observations using List.reverseRecOn with
  | nil => exact ⟨.nil, fun _ hs => absurd hs List.not_mem_nil, fun _ hs => absurd hs List.not_mem_nil⟩
  | append_singleton observations observation ih =>
    rw [usageStreams, List.foldl_append, List.foldl_cons, List.foldl_nil, ← usageStreams]
    exact (ih fun o ho => h o (List.mem_append_left _ ho)).record (h observation (List.mem_append_right _ (List.mem_singleton_self _)))

/-! ### The total -/

theorem foldl_add_some (n : ℤ) (counts : List ℤ) :
    counts.foldl (fun sum count => add sum (some count)) (some n) = some (n + counts.sum) := by
  induction counts generalizing n with
  | nil => simp
  | cons count counts ih =>
    rw [List.foldl_cons, add, Option.getD_some, ih, List.sum_cons, Int.add_assoc]

theorem count_foldl_delta (counter : Counter) (streams : List (String × RuntimeTokenUsage)) (start : RuntimeTokenUsage) :
    count (streams.foldl (fun total stream => applyObservation total .delta stream.2) start) counter =
      (known counter streams).foldl (fun sum count => add sum (some count)) (count start counter) := by
  induction streams generalizing start with
  | nil => rfl
  | cons stream streams ih =>
    rw [List.foldl_cons, ih, count_delta]
    simp only [known, List.filterMap_cons]
    rcases count stream.2 counter with _ | n
    · rfl
    · rfl

/-- A counter of the total: unknown where every stream's is, else the sum of those that are known. -/
theorem count_total (counter : Counter) (streams : List (String × RuntimeTokenUsage)) :
    count (usageStreamsTotal streams) counter =
      if known counter streams = [] then none else some (known counter streams).sum := by
  have hunknown : count unknownTokenUsage counter = none := by cases counter <;> rfl
  rw [usageStreamsTotal, count_foldl_delta, hunknown]
  rcases known counter streams with _ | ⟨n, counts⟩
  · rfl
  · rw [if_neg (List.cons_ne_nil _ _), List.foldl_cons, add, Option.getD_none, foldl_add_some, Int.zero_add, List.sum_cons]

theorem add_right_comm (a b c : Option ℤ) : add (add a b) c = add (add a c) b := by
  rcases b with _ | b
  · rfl
  rcases c with _ | c
  · rfl
  simp only [add, Option.getD_some, Option.some.injEq]
  omega

theorem applyObservation_right_comm (total tokens tokens' : RuntimeTokenUsage) :
    applyObservation (applyObservation total .delta tokens) .delta tokens' =
      applyObservation (applyObservation total .delta tokens') .delta tokens := by
  have hjoin : ∀ count : Option ℤ, (count.map some).join = count := fun count => by cases count <;> rfl
  simp only [applyObservation, RuntimeTokenUsage.mk.injEq, hjoin]
  exact ⟨add_right_comm _ _ _, add_right_comm _ _ _, add_right_comm _ _ _, add_right_comm _ _ _, add_right_comm _ _ _,
    congrArg _ (add_right_comm _ _ _)⟩

theorem total_perm {streams' : List (String × RuntimeTokenUsage)} (h : streams.Perm streams') :
    usageStreamsTotal streams = usageStreamsTotal streams' :=
  h.foldl_eq' (fun _ _ _ _ total => applyObservation_right_comm total _ _) _

theorem sum_within (hwithin : ∀ stream ∈ streams, Within stream.2) (hnonNegative : ∀ stream ∈ streams, NonNegative stream.2) :
    (known .cacheWrite1h streams).sum ≤ (known .cacheWrite streams).sum := by
  induction streams with
  | nil => exact le_refl _
  | cons stream streams ih =>
    have hrest := ih (fun s hs => hwithin s (List.mem_cons_of_mem _ hs)) fun s hs => hnonNegative s (List.mem_cons_of_mem _ hs)
    have hhead := hwithin stream List.mem_cons_self
    have hcount := hnonNegative stream List.mem_cons_self .cacheWrite
    simp only [known, List.filterMap_cons]
    rcases h1h : count stream.2 .cacheWrite1h with _ | write1h
    · rcases hwrite : count stream.2 .cacheWrite with _ | write
      · exact hrest
      · have hpos := hcount write hwrite
        rw [List.sum_cons]
        exact hrest.trans (Int.le_add_of_nonneg_left hpos)
    · obtain ⟨write, hwrite, hle⟩ := hhead write1h h1h
      have hwrite : count stream.2 .cacheWrite = some write := hwrite
      simp only [hwrite, List.sum_cons]
      exact Int.add_le_add hle hrest

theorem within_total (hwithin : ∀ stream ∈ streams, Within stream.2) (hnonNegative : ∀ stream ∈ streams, NonNegative stream.2) :
    Within (usageStreamsTotal streams) := by
  intro write1h h1h
  have htotal := count_total .cacheWrite1h streams
  rw [count, h1h] at htotal
  by_cases hnone : known .cacheWrite1h streams = []
  · rw [if_pos hnone] at htotal
    cases htotal
  rw [if_neg hnone] at htotal
  obtain ⟨n, hn⟩ := List.exists_mem_of_ne_nil _ hnone
  obtain ⟨stream, hstream, hcount⟩ := List.mem_filterMap.mp hn
  obtain ⟨write, hwrite, -⟩ := hwithin stream hstream n hcount
  have hknown : known .cacheWrite streams ≠ [] :=
    List.ne_nil_of_mem (List.mem_filterMap.mpr ⟨stream, hstream, hwrite⟩)
  have hcacheWrite := count_total .cacheWrite streams
  rw [if_neg hknown] at hcacheWrite
  refine ⟨_, hcacheWrite, ?_⟩
  rw [Option.some.inj htotal]
  exact sum_within hwithin hnonNegative

theorem foldUsageObservations_congr {observations other : List RuntimeUsageObservation}
    (hsound : ∀ o ∈ observations, NonNegative o.tokens) (h : ∀ scope, ofScope scope other = ofScope scope observations) :
    foldUsageObservations other = foldUsageObservations observations := by
  have hother : ∀ o ∈ other, NonNegative o.tokens := by
    intro o ho
    have hmem : o ∈ ofScope (scopeOf o) other := List.mem_filter.mpr ⟨ho, decide_eq_true rfl⟩
    rw [h] at hmem
    exact hsound o (List.mem_filter.mp hmem).1
  refine total_perm (Assoc.perm_of_lookup (sound_usageStreams hother).scopes (sound_usageStreams hsound).scopes fun scope => ?_)
  have hstream := (stream_foldl {} scope other).trans (h scope ▸ (stream_foldl {} scope observations).symm)
  exact congrArg Prod.fst hstream

/-- Over every sequence of observations with no negative count: the total is the same for every sequence that reports
the same in each scope, a scope's last observation counts once, each counter is the sum of what is known of it, and the
one-hour writes stay within the writes of each scope and of the whole. -/
theorem usage_ignores_interleaving (observations : List RuntimeUsageObservation)
    (h : ∀ o ∈ observations, NonNegative o.tokens) :
    (∀ other, (∀ scope, ofScope scope other = ofScope scope observations) →
      foldUsageObservations other = foldUsageObservations observations) ∧
    (∀ before observation between after, observations = before ++ observation :: between ++ after →
      (∀ o ∈ between, scopeOf o ≠ scopeOf observation) →
      foldUsageObservations (before ++ observation :: between ++ observation :: after) = foldUsageObservations observations) ∧
    (∀ counter,
      (count (foldUsageObservations observations) counter = none ↔
        ∀ stream ∈ (usageStreams observations).streams, count stream.2 counter = none) ∧
      ∀ n ∈ count (foldUsageObservations observations) counter, n = (known counter (usageStreams observations).streams).sum) ∧
    (∀ stream ∈ (usageStreams observations).streams, Within stream.2) ∧ Within (foldUsageObservations observations) := by
  have hsound := sound_usageStreams h
  refine ⟨fun other hother => foldUsageObservations_congr h hother, ?_, fun counter => ?_, hsound.within,
    within_total hsound.within hsound.nonNegative⟩
  · rintro before observation between after rfl hbetween
    have hagain := record_again observation hbetween (before.foldl recordUsageObservation {})
    have hsplit : before ++ observation :: between ++ observation :: after =
        before ++ (observation :: between ++ [observation]) ++ after := by simp
    rw [foldUsageObservations, foldUsageObservations, hsplit, List.foldl_append, List.foldl_append, hagain,
      List.foldl_append, List.foldl_append]
  · rw [foldUsageObservations, ← usageStreams, count_total]
    by_cases hnone : known counter (usageStreams observations).streams = []
    · rw [if_pos hnone]
      exact ⟨iff_of_true rfl (List.filterMap_eq_nil_iff.mp hnone), fun n hn => by cases hn⟩
    · rw [if_neg hnone]
      refine ⟨iff_of_false (Option.some_ne_none _) fun hall => hnone (List.filterMap_eq_nil_iff.mpr hall), fun n hn => ?_⟩
      exact (Option.some.inj hn).symm

namespace Example

/-- A report of the main agent's running total, with more one-hour writes than writes. -/
def main : RuntimeUsageObservation where
  kind := .cumulative
  tokens := { unknownTokenUsage with input := some 10, cacheWrite := some 4, cacheWrite1h := some (some 6) }

/-- A child agent's step. -/
def child : RuntimeUsageObservation where
  kind := .delta
  scope := some "child"
  tokens := { unknownTokenUsage with input := some 3, output := some 2 }
  providerObservationId := some "evt_1"

end Example

theorem usage_ignores_interleaving_child :
    foldUsageObservations [Example.child, Example.main, Example.child] =
        foldUsageObservations [Example.main, Example.child] ∧
      count (foldUsageObservations [Example.main, Example.child]) .input = some 13 := by
  have hnonNegative : ∀ o ∈ [Example.child, Example.main], NonNegative o.tokens := by
    intro o ho counter n hn
    rcases List.mem_pair.mp ho with rfl | rfl <;> cases counter <;> cases hn <;> decide
  obtain ⟨hreorder, hagain, -⟩ := usage_ignores_interleaving [Example.child, Example.main] hnonNegative
  have hswap : foldUsageObservations [Example.main, Example.child] = foldUsageObservations [Example.child, Example.main] := by
    refine hreorder _ fun scope => ?_
    by_cases hmain : scope = ""
    · subst hmain
      rfl
    by_cases hchild : scope = "child"
    · subst hchild
      rfl
    · simp [ofScope, scopeOf, Example.main, Example.child, Ne.symm hmain, Ne.symm hchild]
  have htwice := hagain [] Example.child [Example.main] [] rfl (by decide)
  exact ⟨htwice.trans hswap.symm, by decide⟩

end Claxedo.Usage.Interleaving
