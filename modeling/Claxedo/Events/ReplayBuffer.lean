import Mathlib.Tactic
import Mathlib.Data.List.Sort

/-! `createSseReplayBuffer`: a window of the last events rung, a second window of the terminal ones,
and one sequence that numbers them. A cursor is the number of the last event a reader applied; an
absent or unreadable one is 0. A payload stands for the object that carries it: equal is identical. -/

namespace Claxedo.Events

/-- The buffer's options, each window at least one event long. -/
structure ReplayOptions (T : Type) where
  maxEvents : ℕ := 256
  maxTerminalEvents : ℕ := 64
  isTerminal : T → Bool := fun _ => false
  supersedes : T → Option String := fun _ => none

structure Rung (T : Type) where
  seq : ℕ
  payload : T
  deriving DecidableEq

structure ReplayBuffer (T : Type) where
  events : List (Rung T) := []
  terminal : List (Rung T) := []
  ids : List (T × ℕ) := []
  seq : ℕ

section
variable {T : Type}

def createSseReplayBuffer (initialSequence : ℕ) : ReplayBuffer T := { seq := initialSequence }

/-- The last `max` of the items. -/
def trim (items : List (Rung T)) (max : ℕ) : List (Rung T) := items.drop (items.length - max)

/-- The events in sequence order, the first of each number. -/
def firstOfEach : List ℕ → List (Rung T) → List (Rung T)
  | _, [] => []
  | seen, e :: es => if e.seq ∈ seen then firstOfEach seen es else e :: firstOfEach (e.seq :: seen) es

namespace ReplayBuffer

variable (options : ReplayOptions T) (ring : ReplayBuffer T)

def push (payload : T) : ReplayBuffer T :=
  let event : Rung T := ⟨ring.seq + 1, payload⟩
  { events := trim (ring.events ++ [event]) (max 1 options.maxEvents)
    terminal :=
      if options.isTerminal payload then trim (ring.terminal ++ [event]) (max 1 options.maxTerminalEvents)
      else ring.terminal
    ids := (payload, ring.seq + 1) :: ring.ids
    seq := ring.seq + 1 }

def idFor [DecidableEq T] (payload : T) : Option ℕ := ring.ids.lookup payload

def lastId : Option ℕ := if 0 < ring.seq then some ring.seq else none

/-- What the two windows hold between two cursors, in order, each event once. -/
def held (after through : ℕ) : List (Rung T) :=
  firstOfEach [] <|
    ((ring.events ++ ring.terminal).filter fun e => after < e.seq ∧ e.seq ≤ through).insertionSort
      fun left right => left.seq ≤ right.seq

/-- `numericId(throughId) || seq`. -/
def through (throughId : Option ℕ) : ℕ := if throughId.getD 0 = 0 then ring.seq else throughId.getD 0

/-- Whether an event is missing from `expected` on, reading the retained events in order. -/
def missing (through : ℕ) : ℕ → List (Rung T) → Bool
  | expected, [] => expected ≤ through
  | expected, e :: es =>
    if expected < e.seq then true else missing through (if e.seq = expected then expected + 1 else expected) es

def hasGap (after : ℕ) (throughId : Option ℕ) : Bool :=
  if after = 0 then false
  -- A cursor past the head was issued by another ring.
  else if ring.seq < after then true
  else if ring.through throughId ≤ after then false
  else missing (ring.through throughId) (after + 1) (ring.held after (ring.through throughId))

/-- The `latest` map, filled event by event. -/
def latest (keyOf : T → Option String) (replayed : List (Rung T)) : String → Option ℕ :=
  replayed.foldl (fun latest e =>
    match keyOf e.payload with
    | some key => Function.update latest key (some e.seq)
    | none => latest) fun _ => none

def replayAfter (after : ℕ) (throughId : Option ℕ) : List (Rung T) :=
  let replayed := ring.held after (ring.through throughId)
  let latest := latest options.supersedes replayed
  replayed.filter fun e =>
    match options.supersedes e.payload with
    | none => true
    | some key => latest key = some e.seq

end ReplayBuffer

/-- A ring as its pushes leave it: the events of each window numbered upwards, none past the head. -/
structure Numbered (ring : ReplayBuffer T) : Prop where
  events : (ring.events.map (·.seq)).Pairwise (· < ·)
  terminal : (ring.terminal.map (·.seq)).Pairwise (· < ·)
  eventsLe : ∀ e ∈ ring.events, e.seq ≤ ring.seq
  terminalLe : ∀ e ∈ ring.terminal, e.seq ≤ ring.seq

theorem numbered_create (initialSequence : ℕ) : Numbered (createSseReplayBuffer initialSequence : ReplayBuffer T) :=
  ⟨.nil, .nil, fun _ he => absurd he List.not_mem_nil, fun _ he => absurd he List.not_mem_nil⟩

theorem trim_sublist (items : List (Rung T)) (max : ℕ) : (trim items max).Sublist items := List.drop_sublist _ _

theorem trim_trim_snoc (items : List (Rung T)) (event : Rung T) (max : ℕ) :
    trim (trim items max ++ [event]) max = trim (items ++ [event]) max := by
  unfold trim
  rw [List.drop_append, List.drop_append, List.drop_drop]
  simp only [List.length_append, List.length_drop, List.length_singleton]
  congr 2 <;> omega

theorem Numbered.window_snoc {items : List (Rung T)} {seq : ℕ} (hsorted : (items.map (·.seq)).Pairwise (· < ·))
    (hle : ∀ e ∈ items, e.seq ≤ seq) (payload : T) (max : ℕ) :
    ((trim (items ++ [⟨seq + 1, payload⟩]) max).map (·.seq)).Pairwise (· < ·) ∧
      ∀ e ∈ trim (items ++ [⟨seq + 1, payload⟩]) max, e.seq ≤ seq + 1 := by
  have hsub := trim_sublist (items ++ [⟨seq + 1, payload⟩]) max
  refine ⟨List.Pairwise.sublist (hsub.map _) ?_, fun e he => ?_⟩
  · rw [List.map_append, List.pairwise_append]
    refine ⟨hsorted, List.pairwise_singleton _ _, fun n hn m hm => ?_⟩
    obtain ⟨e, he, rfl⟩ := List.mem_map.mp hn
    have hm' : m = seq + 1 := by simpa using hm
    have := hle e he
    omega
  · rcases List.mem_append.mp (hsub.subset he) with he | he
    · have := hle e he
      omega
    · rw [List.mem_singleton.mp he]

theorem Numbered.push {ring : ReplayBuffer T} (h : Numbered ring) (options : ReplayOptions T) (payload : T) :
    Numbered (ring.push options payload) := by
  obtain ⟨hevents, heventsLe⟩ := window_snoc h.events h.eventsLe payload (max 1 options.maxEvents)
  obtain ⟨hterminal, hterminalLe⟩ := window_snoc h.terminal h.terminalLe payload (max 1 options.maxTerminalEvents)
  refine ⟨hevents, ?_, heventsLe, ?_⟩
  · unfold ReplayBuffer.push
    by_cases ht : options.isTerminal payload
    · simpa [ht] using hterminal
    · simpa [ht] using h.terminal
  · unfold ReplayBuffer.push
    by_cases ht : options.isTerminal payload
    · simpa [ht] using hterminalLe
    · intro e he
      have he' : e ∈ ring.terminal := by simpa [ht] using he
      have := h.terminalLe e he'
      simp only
      omega

@[simp] theorem push_seq (ring : ReplayBuffer T) (options : ReplayOptions T) (payload : T) :
    (ring.push options payload).seq = ring.seq + 1 := rfl

@[simp] theorem push_idFor [DecidableEq T] (ring : ReplayBuffer T) (options : ReplayOptions T) (payload : T) :
    (ring.push options payload).idFor payload = some (ring.seq + 1) := by
  simp [ReplayBuffer.idFor, ReplayBuffer.push]

variable {l : List (Rung T)}

theorem mem_firstOfEach {seen : List ℕ} {e : Rung T} (h : e ∈ firstOfEach seen l) :
    e ∈ l ∧ e.seq ∉ seen := by
  induction l generalizing seen with
  | nil => cases h
  | cons a l ih =>
    unfold firstOfEach at h
    split_ifs at h with ha
    · exact ⟨List.mem_cons_of_mem _ (ih h).1, (ih h).2⟩
    · rcases List.mem_cons.mp h with rfl | h
      · exact ⟨List.mem_cons_self, ha⟩
      · obtain ⟨hm, hs⟩ := ih h
        exact ⟨List.mem_cons_of_mem _ hm, fun hseen => hs (List.mem_cons_of_mem _ hseen)⟩

theorem sorted_firstOfEach {seen : List ℕ} (h : (l.map (·.seq)).Pairwise (· ≤ ·)) :
    ((firstOfEach seen l).map (·.seq)).Pairwise (· < ·) := by
  induction l generalizing seen with
  | nil => exact .nil
  | cons a l ih =>
    obtain ⟨ha, hl⟩ := List.pairwise_cons.mp h
    unfold firstOfEach
    split_ifs
    · exact ih hl
    · refine List.pairwise_cons.mpr ⟨fun n hn => ?_, ih hl⟩
      obtain ⟨e, he, rfl⟩ := List.mem_map.mp hn
      obtain ⟨hm, hs⟩ := mem_firstOfEach he
      have hle : a.seq ≤ e.seq := ha e.seq (List.mem_map_of_mem hm)
      have hne : e.seq ≠ a.seq := fun heq => hs (heq ▸ List.mem_cons_self)
      change a.seq < e.seq
      omega

/-- A replay is in increasing order, within its cursors, and leaves out nothing a window holds. -/
theorem held_sorted (ring : ReplayBuffer T) (after through : ℕ) :
    ((ring.held after through).map (·.seq)).Pairwise (· < ·) := by
  refine sorted_firstOfEach ?_
  rw [List.pairwise_map]
  exact List.pairwise_insertionSort (fun left right : Rung T => left.seq ≤ right.seq) _

theorem mem_held {ring : ReplayBuffer T} {after through : ℕ} {e : Rung T} (h : e ∈ ring.held after through) :
    (e ∈ ring.events ∨ e ∈ ring.terminal) ∧ after < e.seq ∧ e.seq ≤ through := by
  have hm := (mem_firstOfEach h).1
  rw [List.mem_insertionSort, List.mem_filter, List.mem_append, decide_eq_true_eq] at hm
  exact hm

/-- The loop of `hasGap` finds nothing missing exactly when the numbers run on from `expected`. -/
theorem missing_eq_false_iff {through expected : ℕ} (hsorted : (l.map (·.seq)).Pairwise (· < ·))
    (hlow : ∀ e ∈ l, expected ≤ e.seq) (hhigh : ∀ e ∈ l, e.seq ≤ through) :
    ReplayBuffer.missing through expected l = false ↔
      l.map (·.seq) = List.range' expected (through + 1 - expected) := by
  induction l generalizing expected with
  | nil =>
    simp only [ReplayBuffer.missing, List.map_nil, decide_eq_false_iff_not]
    constructor
    · intro h
      rw [show through + 1 - expected = 0 by omega]
      rfl
    · intro h hle
      have hlen := congrArg List.length h
      simp at hlen
      omega
  | cons e l ih =>
    obtain ⟨he, hl⟩ := List.pairwise_cons.mp hsorted
    have hlowE := hlow e List.mem_cons_self
    have hhighE := hhigh e List.mem_cons_self
    unfold ReplayBuffer.missing
    by_cases heq : e.seq = expected
    · have hnext : ∀ e' ∈ l, expected + 1 ≤ e'.seq := by
        intro e' he'
        have hlt : e.seq < e'.seq := he e'.seq (List.mem_map_of_mem he')
        omega
      rw [if_neg (by omega), if_pos heq, ih hl hnext fun e' he' => hhigh e' (List.mem_cons_of_mem _ he'),
        List.map_cons, heq, show through + 1 - expected = (through + 1 - (expected + 1)) + 1 by omega,
        List.range'_succ]
      simp
    · rw [if_pos (by omega)]
      constructor
      · intro h
        cases h
      · intro h
        rw [List.map_cons, show through + 1 - expected = (through - expected) + 1 by omega, List.range'_succ] at h
        exact absurd (List.cons.inj h).1 heq

/-- The ring holds every number after the cursor, up to its head. -/
def ReplayBuffer.covers (ring : ReplayBuffer T) (after : ℕ) : Prop :=
  (ring.held after ring.seq).map (·.seq) = List.range' (after + 1) (ring.seq - after)

instance (ring : ReplayBuffer T) (after : ℕ) : Decidable (ring.covers after) :=
  inferInstanceAs (Decidable (_ = _))

@[simp] theorem through_lastId (ring : ReplayBuffer T) : ring.through ring.lastId = ring.seq := by
  unfold ReplayBuffer.through ReplayBuffer.lastId
  split_ifs <;> simp_all

theorem lastId_getD (ring : ReplayBuffer T) : ring.lastId.getD 0 = ring.seq := by
  unfold ReplayBuffer.lastId
  split_ifs
  · rfl
  · simp only [Option.getD_none]
    omega

end

/-! `hasGap` against the pushes themselves: the ring answers that nothing is missing exactly when a replay
is the run of pushed events the cursors span. Every window item is a push under the number it was given,
so the numbers decide. -/

section
variable {T : Type}

/-- The event a number names on a ring that started at `initialSequence`: none where this ring pushed none. -/
def pushed (initialSequence : ℕ) (payloads : List T) (seq : ℕ) : Option (Rung T) :=
  if initialSequence < seq then payloads[seq - initialSequence - 1]?.map fun payload => ⟨seq, payload⟩ else none

/-- The pushed events numbered `after + 1` to `through`, when every one of these numbers is a push. -/
def pushedBetween (initialSequence : ℕ) (payloads : List T) (after through : ℕ) : Option (List (Rung T)) :=
  (List.range' (after + 1) (through - after)).mapM (pushed initialSequence payloads)

def pushAll (options : ReplayOptions T) (initialSequence : ℕ) (payloads : List T) : ReplayBuffer T :=
  payloads.foldl (fun ring payload => ring.push options payload) (createSseReplayBuffer initialSequence)

theorem pushAll_snoc (options : ReplayOptions T) (initialSequence : ℕ) (payloads : List T) (payload : T) :
    pushAll options initialSequence (payloads ++ [payload]) =
      (pushAll options initialSequence payloads).push options payload := by
  simp [pushAll, List.foldl_append]

variable {e : Rung T} {initialSequence : ℕ} {payloads : List T} {ring : ReplayBuffer T}

@[simp] theorem pushed_seq {seq : ℕ} (h : pushed initialSequence payloads seq = some e) : e.seq = seq := by
  unfold pushed at h
  split_ifs at h with hlt
  obtain ⟨payload, -, rfl⟩ := Option.map_eq_some_iff.mp h
  rfl

theorem pushed_snoc {seq : ℕ} (payload : T) (h : pushed initialSequence payloads seq = some e) :
    pushed initialSequence (payloads ++ [payload]) seq = some e := by
  unfold pushed at h ⊢
  split_ifs at h with hlt
  rw [if_pos hlt]
  obtain ⟨p, hp, rfl⟩ := Option.map_eq_some_iff.mp h
  have hbound : seq - initialSequence - 1 < payloads.length := (List.getElem?_eq_some_iff.mp hp).1
  rw [List.getElem?_append_left hbound, hp]
  rfl

theorem pushed_head (initialSequence : ℕ) (payloads : List T) (payload : T) :
    pushed initialSequence (payloads ++ [payload]) (initialSequence + payloads.length + 1) =
      some ⟨initialSequence + payloads.length + 1, payload⟩ := by
  unfold pushed
  rw [if_pos (by omega), show initialSequence + payloads.length + 1 - initialSequence - 1 = payloads.length by omega]
  simp

/-- What the pushes leave in the windows: pushed events under their own numbers. -/
structure Rings (initialSequence : ℕ) (payloads : List T) (ring : ReplayBuffer T) : Prop where
  seq : ring.seq = initialSequence + payloads.length
  events : ∀ e ∈ ring.events, pushed initialSequence payloads e.seq = some e
  terminal : ∀ e ∈ ring.terminal, pushed initialSequence payloads e.seq = some e

theorem rings_create (initialSequence : ℕ) :
    Rings initialSequence [] (createSseReplayBuffer initialSequence : ReplayBuffer T) :=
  ⟨rfl, fun _ he => absurd he List.not_mem_nil, fun _ he => absurd he List.not_mem_nil⟩

theorem Rings.window {items : List (Rung T)} (payload : T) (max : ℕ)
    (h : ∀ e ∈ items, pushed initialSequence payloads e.seq = some e) :
    ∀ e ∈ trim (items ++ [⟨initialSequence + payloads.length + 1, payload⟩]) max,
      pushed initialSequence (payloads ++ [payload]) e.seq = some e := by
  intro e he
  rcases List.mem_append.mp ((trim_sublist _ max).subset he) with hold | hnew
  · exact pushed_snoc payload (h e hold)
  · rw [List.mem_singleton.mp hnew]
    exact pushed_head initialSequence payloads payload

theorem Rings.push (h : Rings initialSequence payloads ring) (options : ReplayOptions T) (payload : T) :
    Rings initialSequence (payloads ++ [payload]) (ring.push options payload) := by
  refine ⟨?_, ?_, ?_⟩
  · rw [push_seq, h.seq, List.length_append, List.length_singleton, Nat.add_assoc]
  · have hevents := Rings.window payload (max 1 options.maxEvents) h.events
    rw [← h.seq] at hevents
    exact hevents
  · unfold ReplayBuffer.push
    by_cases ht : options.isTerminal payload
    · have hterminal := Rings.window payload (max 1 options.maxTerminalEvents) h.terminal
      rw [← h.seq] at hterminal
      simpa [ht] using hterminal
    · have hterminal : ∀ e ∈ ring.terminal, pushed initialSequence (payloads ++ [payload]) e.seq = some e :=
        fun e he => pushed_snoc payload (h.terminal e he)
      simpa [ht] using hterminal

theorem rings_pushAll (options : ReplayOptions T) (initialSequence : ℕ) (payloads : List T) :
    Rings initialSequence payloads (pushAll options initialSequence payloads) := by
  induction payloads using List.reverseRecOn with
  | nil => exact rings_create initialSequence
  | append_singleton payloads payload ih =>
    rw [pushAll_snoc]
    exact ih.push options payload

/-- A list of pushed events is the span's own exactly when its numbers are the span's. -/
theorem mapM_pushed_eq_some_iff {numbers : List ℕ} {l : List (Rung T)}
    (h : ∀ e ∈ l, pushed initialSequence payloads e.seq = some e) :
    numbers.mapM (pushed initialSequence payloads) = some l ↔ l.map (·.seq) = numbers := by
  induction numbers generalizing l with
  | nil => cases l <;> simp
  | cons n numbers ih =>
    rw [List.mapM_cons]
    constructor
    · intro hm
      obtain ⟨e, he, hrest⟩ := Option.bind_eq_some_iff.mp hm
      obtain ⟨es, hes, hl⟩ := Option.bind_eq_some_iff.mp hrest
      obtain rfl : e :: es = l := by simpa using hl
      rw [List.map_cons, pushed_seq he, (ih fun e' he' => h e' (List.mem_cons_of_mem _ he')).mp hes]
    · intro hm
      cases l with
      | nil => simp at hm
      | cons e es =>
        rw [List.map_cons, List.cons.injEq] at hm
        have he := h e List.mem_cons_self
        rw [hm.1] at he
        have hes := (ih fun e' he' => h e' (List.mem_cons_of_mem _ he')).mpr hm.2
        simp [he, hes]

theorem replayAfter_of_no_key {options : ReplayOptions T} (hkey : ∀ payload, options.supersedes payload = none)
    (ring : ReplayBuffer T) (after : ℕ) (throughId : Option ℕ) :
    ring.replayAfter options after throughId = ring.held after (ring.through throughId) := by
  unfold ReplayBuffer.replayAfter
  simp [hkey]

theorem hasGap_of_past_head {after : ℕ} (h : ring.seq < after) (throughId : Option ℕ) :
    ring.hasGap after throughId = true := by
  unfold ReplayBuffer.hasGap
  rw [if_neg (by omega), if_pos h]

/-- The numbers decide: a cursor of the ring is no gap when the held events run on from it. -/
theorem hasGap_eq_false_iff_numbers {after : ℕ} {throughId : Option ℕ} (hpos : 0 < after) (hle : after ≤ ring.seq) :
    ring.hasGap after throughId = false ↔
      (ring.held after (ring.through throughId)).map (·.seq) =
        List.range' (after + 1) (ring.through throughId - after) := by
  unfold ReplayBuffer.hasGap
  rw [if_neg (by omega), if_neg (by omega)]
  split_ifs with hthrough
  · have hnil : ring.held after (ring.through throughId) = [] := by
      rw [List.eq_nil_iff_forall_not_mem]
      intro e he
      have := (mem_held he).2
      omega
    rw [hnil, show ring.through throughId - after = 0 by omega]
    simp
  · rw [missing_eq_false_iff (held_sorted ring after _) (fun e he => (mem_held he).2.1) (fun e he => (mem_held he).2.2),
      show ring.through throughId + 1 - (after + 1) = ring.through throughId - after by omega]

/-- After any pushes, the ring reports no gap from one of its cursors to a number up to its head exactly when the replay is
every event it pushed there, in order and once each; a cursor past its head is always a gap. -/
theorem hasGap_iff_replay_incomplete (options : ReplayOptions T) (hkey : ∀ payload, options.supersedes payload = none)
    (initialSequence : ℕ) (payloads : List T) :
    let ring := pushAll options initialSequence payloads
    (∀ after through throughId, 0 < after → after ≤ through → through ≤ ring.seq →
      throughId = some through ∨ throughId.getD 0 = 0 ∧ through = ring.seq →
      (ring.hasGap after throughId = false ↔
        pushedBetween initialSequence payloads after through = some (ring.replayAfter options after throughId))) ∧
    ∀ after throughId, ring.seq < after → ring.hasGap after throughId = true := by
  intro ring
  have hrings : Rings initialSequence payloads ring := rings_pushAll options initialSequence payloads
  refine ⟨fun after through throughId hpos hafter hhead hend => ?_, fun after throughId h => hasGap_of_past_head h throughId⟩
  have hthrough : ring.through throughId = through := by
    unfold ReplayBuffer.through
    rcases hend with rfl | ⟨hnone, rfl⟩
    · exact if_neg (by simp; omega)
    · exact if_pos hnone
  have hheld : ∀ e ∈ ring.held after (ring.through throughId), pushed initialSequence payloads e.seq = some e := by
    intro e he
    rcases (mem_held he).1 with hevent | hterminal
    · exact hrings.events e hevent
    · exact hrings.terminal e hterminal
  rw [replayAfter_of_no_key hkey, hasGap_eq_false_iff_numbers hpos (by omega), ← hthrough]
  exact (mapM_pushed_eq_some_iff hheld).symm

/-- Payloads whose last is terminal, on a ring of one event and one terminal event. -/
def oneOfEach : ReplayOptions ℕ := { maxEvents := 1, maxTerminalEvents := 1, isTerminal := fun payload => payload = 7 }

/-- The terminal event 4 outlives its window neighbour 5, and with 6 it does not make a run from 3. -/
theorem hasGap_iff_replay_incomplete_hole :
    (pushAll oneOfEach 3 [7, 8, 9]).hasGap 3 none = true ∧
      pushedBetween 3 [7, 8, 9] 3 6 ≠ some ((pushAll oneOfEach 3 [7, 8, 9]).replayAfter oneOfEach 3 none) := by
  have hrun := (hasGap_iff_replay_incomplete oneOfEach (fun _ => rfl) 3 [7, 8, 9]).1 3 6 none (by decide)
    (by decide) (by decide) (.inr ⟨rfl, by decide⟩)
  have hgap : (pushAll oneOfEach 3 [7, 8, 9]).hasGap 3 none = true := by decide
  refine ⟨hgap, fun hall => ?_⟩
  rw [hrun.mpr hall] at hgap
  cases hgap

/-- The pushes in their order, each under its number. -/
def numberedPushes (initialSequence : ℕ) (payloads : List T) : List (Rung T) :=
  payloads.zipIdx.map fun push => ⟨initialSequence + push.2 + 1, push.1⟩

theorem mem_firstOfEach_of {seen : List ℕ} {l : List (Rung T)} (he : e ∈ l) (hseen : e.seq ∉ seen)
    (hone : ∀ e' ∈ l, e'.seq = e.seq → e' = e) : e ∈ firstOfEach seen l := by
  induction l generalizing seen with
  | nil => cases he
  | cons first l ih =>
    unfold firstOfEach
    rcases eq_or_ne first e with rfl | hne
    · rw [if_neg hseen]
      exact List.mem_cons_self
    · have hl := List.mem_of_ne_of_mem (Ne.symm hne) he
      have hseq : first.seq ≠ e.seq := fun heq => hne (hone first List.mem_cons_self heq)
      have hlater := fun e' he' => hone e' (List.mem_cons_of_mem _ he')
      split_ifs
      · exact ih hl hseen hlater
      · exact List.mem_cons_of_mem _ (ih hl (by simp [hseen, hseq.symm]) hlater)

theorem windows_pushAll (options : ReplayOptions T) (initialSequence : ℕ) (payloads : List T) :
    (pushAll options initialSequence payloads).events = trim (numberedPushes initialSequence payloads) (max 1 options.maxEvents) ∧
    (pushAll options initialSequence payloads).terminal =
      trim ((numberedPushes initialSequence payloads).filter fun e => options.isTerminal e.payload) (max 1 options.maxTerminalEvents) := by
  induction payloads using List.reverseRecOn with
  | nil => simp [numberedPushes, pushAll, createSseReplayBuffer, trim]
  | append_singleton payloads payload ih =>
    have hseq := (rings_pushAll options initialSequence payloads).seq
    have hsnoc : numberedPushes initialSequence (payloads ++ [payload]) =
        numberedPushes initialSequence payloads ++ [⟨initialSequence + payloads.length + 1, payload⟩] := by
      simp [numberedPushes, List.zipIdx_append]
    rw [pushAll_snoc, hsnoc, List.filter_append]
    unfold ReplayBuffer.push
    by_cases ht : options.isTerminal payload
    · simp [ht, ih, hseq, trim_trim_snoc]
    · simp [ht, ih, hseq, trim_trim_snoc]

/-- Whatever was pushed, a replay is made of the newest pushes and the newest terminal ones past the cursor: a terminal event
stays until as many terminal ones follow it as its window takes, however many others do. -/
theorem held_of_pushes (options : ReplayOptions T) (initialSequence : ℕ) (payloads : List T) (after through : ℕ) :
    let ring := pushAll options initialSequence payloads
    let pushes := numberedPushes initialSequence payloads
    ring.seq = initialSequence + payloads.length ∧ ((ring.held after through).map (·.seq)).Pairwise (· < ·) ∧
    ∀ e, e ∈ ring.held after through ↔ (e ∈ trim pushes (max 1 options.maxEvents) ∨
      e ∈ trim (pushes.filter fun e => options.isTerminal e.payload) (max 1 options.maxTerminalEvents)) ∧
      after < e.seq ∧ e.seq ≤ through := by
  intro ring pushes
  have hrings := rings_pushAll options initialSequence payloads
  obtain ⟨hevents, hterminal⟩ := windows_pushAll options initialSequence payloads
  refine ⟨hrings.seq, held_sorted ring after through, fun e => ?_⟩
  rw [← hevents, ← hterminal]
  refine ⟨mem_held, fun ⟨hin, hpast⟩ => ?_⟩
  have hpushed : ∀ e' ∈ ring.events ++ ring.terminal, pushed initialSequence payloads e'.seq = some e' := fun e' he' =>
    (List.mem_append.mp he').elim (hrings.events e') (hrings.terminal e')
  have hmem := List.mem_append.mpr hin
  refine mem_firstOfEach_of ?_ List.not_mem_nil fun e' he' heq => ?_
  · simpa [hpast] using hin
  · rw [List.mem_insertionSort] at he'
    exact Option.some.inj ((hpushed e' (List.mem_of_mem_filter he')).symm.trans (heq ▸ hpushed e hmem))

/-- The `latest` map holds the number of the last event of each key. -/
theorem latest_eq (keyOf : T → Option String) (replayed : List (Rung T)) (key : String) :
    ReplayBuffer.latest keyOf replayed key = ((replayed.filter fun e => keyOf e.payload = some key).getLast?).map (·.seq) := by
  induction replayed using List.reverseRecOn with
  | nil => rfl
  | append_singleton replayed e ih =>
    unfold ReplayBuffer.latest at *
    rw [List.foldl_append, List.foldl_cons, List.foldl_nil, List.filter_append]
    rcases hkey : keyOf e.payload with _ | key'
    · simpa [hkey] using ih
    · by_cases hsame : key' = key
      · subst hsame
        simp [hkey]
      · simpa [hkey, hsame, Function.update_of_ne (Ne.symm hsame)] using ih

/-- The events that no later one with their key supersedes. -/
def unsuperseded (keyOf : T → Option String) : List (Rung T) → List (Rung T)
  | [] => []
  | e :: es =>
    if ∃ key ∈ keyOf e.payload, ∃ e' ∈ es, keyOf e'.payload = some key then unsuperseded keyOf es else e :: unsuperseded keyOf es

theorem exists_newest {keyOf : T → Option String} {es : List (Rung T)} {key : String} (he : e ∈ es)
    (hkey : keyOf e.payload = some key) : ∃ last ∈ es, (es.filter fun e => keyOf e.payload = some key).getLast? = some last := by
  have hmem : e ∈ es.filter fun e => keyOf e.payload = some key := List.mem_filter.mpr ⟨he, decide_eq_true hkey⟩
  exact ⟨_, List.mem_of_mem_filter (List.getLast_mem (List.ne_nil_of_mem hmem)), List.getLast?_eq_some_getLast _⟩

/-- Numbered upwards, the events that `latest` lets through are those. -/
theorem filter_latest (keyOf : T → Option String) {replayed : List (Rung T)} (hsorted : (replayed.map (·.seq)).Pairwise (· < ·)) :
    (replayed.filter fun e => match keyOf e.payload with
      | none => true
      | some key => ReplayBuffer.latest keyOf replayed key = some e.seq) = unsuperseded keyOf replayed := by
  induction replayed with
  | nil => rfl
  | cons e es ih =>
    obtain ⟨he, hes⟩ := List.pairwise_cons.mp hsorted
    have hlast : ∀ key, ReplayBuffer.latest keyOf (e :: es) key =
        (ReplayBuffer.latest keyOf es key).or (if keyOf e.payload = some key then some e.seq else none) := by
      intro key
      rw [latest_eq, latest_eq, List.filter_cons]
      by_cases hkey : keyOf e.payload = some key
      · rw [if_pos (decide_eq_true hkey), if_pos hkey, List.getLast?_cons]
        cases (es.filter fun e => keyOf e.payload = some key).getLast? <;> rfl
      · rw [if_neg (by simpa using hkey), if_neg hkey, Option.or_none]
    -- an event of the tail is named by the tail's own map
    have hsome : ∀ e' ∈ es, ∀ key, keyOf e'.payload = some key → ∃ last ∈ es, ReplayBuffer.latest keyOf es key = some last.seq := by
      intro e' he' key hkey
      obtain ⟨last, hmem, hlast⟩ := exists_newest he' hkey
      exact ⟨last, hmem, by rw [latest_eq, hlast]; rfl⟩
    have htail : es.filter (fun e' => match keyOf e'.payload with
        | none => true
        | some key => ReplayBuffer.latest keyOf (e :: es) key = some e'.seq) = unsuperseded keyOf es := by
      rw [← ih hes]
      refine List.filter_congr fun e' he' => ?_
      cases hkey : keyOf e'.payload with
      | none => rfl
      | some key =>
        obtain ⟨last, -, hes⟩ := hsome e' he' key hkey
        simp only [hlast, hes, Option.some_or]
    rw [List.filter_cons, htail, unsuperseded]
    cases hkey : keyOf e.payload with
    | none => simp
    | some key =>
      by_cases hlater : ∃ e' ∈ es, keyOf e'.payload = some key
      · obtain ⟨e', he', hkey'⟩ := hlater
        obtain ⟨last, hmem, hes⟩ := hsome e' he' key hkey'
        have hlt : e.seq < last.seq := he last.seq (List.mem_map_of_mem hmem)
        rw [if_neg (by simpa [hlast, hes] using hlt.ne'), if_pos ⟨key, rfl, e', he', hkey'⟩]
      · have hnone : es.filter (fun e => keyOf e.payload = some key) = [] := by
          simpa using hlater
        rw [if_pos (by simp [hlast, latest_eq, hnone, hkey]), if_neg (by simpa using hlater)]

/-- For the reader, a payload says all that an earlier one with its key said. -/
def Supersedes {S : Type} (keyOf : T → Option String) (read : S → T → S) : Prop :=
  ∀ (s : S) (earlier : T) (between : List T) (later : T) (key : String), keyOf earlier = some key → keyOf later = some key →
    read (between.foldl read (read s earlier)) later = read (between.foldl read s) later

theorem foldl_unsuperseded {S : Type} {keyOf : T → Option String} {read : S → T → S} (h : Supersedes keyOf read)
    (events : List (Rung T)) (s : S) :
    ((unsuperseded keyOf events).map (·.payload)).foldl read s = (events.map (·.payload)).foldl read s := by
  induction events generalizing s with
  | nil => rfl
  | cons e es ih =>
    rw [unsuperseded, List.map_cons, List.foldl_cons]
    split_ifs with hlater
    · obtain ⟨key, hkey, e', he', hkey'⟩ := hlater
      obtain ⟨before, after, rfl⟩ := List.append_of_mem he'
      rw [ih]
      simp only [List.map_append, List.map_cons, List.foldl_append, List.foldl_cons]
      rw [h s e.payload _ e'.payload key hkey hkey']
    · rw [List.map_cons, List.foldl_cons, ih]

/-- A replay reads as what the ring holds: the events without a key are all there, and of those with one key the newest; so a
reader for whom the newest says it all ends where it would have ended had it read them all. -/
theorem replay_reads_as_held (options : ReplayOptions T) (ring : ReplayBuffer T) (after : ℕ) (throughId : Option ℕ) :
    let held := ring.held after (ring.through throughId)
    let replay := ring.replayAfter options after throughId
    replay.filter (fun e => options.supersedes e.payload = none) = held.filter (fun e => options.supersedes e.payload = none) ∧
    (∀ key, replay.filter (fun e => options.supersedes e.payload = some key) =
      (held.filter fun e => options.supersedes e.payload = some key).getLast?.toList) ∧
    ∀ {S : Type} (read : S → T → S) (s : S), Supersedes options.supersedes read →
      (replay.map (·.payload)).foldl read s = (held.map (·.payload)).foldl read s := by
  intro held replay
  have hsorted := held_sorted ring after (ring.through throughId)
  have hreplay : replay = unsuperseded options.supersedes held := filter_latest options.supersedes hsorted
  refine ⟨?_, fun key => ?_, fun read s h => by rw [hreplay, foldl_unsuperseded h]⟩
  · simp only [replay, ReplayBuffer.replayAfter, List.filter_filter]
    apply List.filter_congr
    intro e _
    cases options.supersedes e.payload <;> simp
  · rw [hreplay]
    generalize held = events
    induction events with
    | nil => rfl
    | cons e es ih =>
      rw [unsuperseded]
      by_cases hkey : options.supersedes e.payload = some key
      · have hkeep : ∀ l : List (Rung T), (e :: l).filter (fun e => decide (options.supersedes e.payload = some key)) =
            e :: l.filter fun e => decide (options.supersedes e.payload = some key) :=
          fun _ => List.filter_cons_of_pos (by simpa using hkey)
        rw [hkeep es, List.getLast?_cons]
        split_ifs with hlater
        · obtain ⟨_, hsame, e', he', hkey'⟩ := hlater
          obtain rfl := Option.some.inj (hkey.symm.trans hsame)
          obtain ⟨last, -, hlast⟩ := exists_newest he' hkey'
          rw [ih, hlast]
          rfl
        · have hnone : es.filter (fun e => decide (options.supersedes e.payload = some key)) = [] := by
            simpa [hkey] using hlater
          rw [hkeep, ih, hnone]
          rfl
      · have hskip : ∀ l : List (Rung T), (e :: l).filter (fun e => decide (options.supersedes e.payload = some key)) =
            l.filter fun e => decide (options.supersedes e.payload = some key) :=
          fun _ => List.filter_cons_of_neg (by simpa using hkey)
        rw [hskip es]
        split_ifs
        · exact ih
        · rw [hskip, ih]

end

/-- A reader of titles by their key. -/
def titleOf (shown : Option ℕ) (payload : ℕ) : Option ℕ := if payload < 10 then some payload else shown

def titles : ReplayOptions ℕ := { supersedes := fun payload => if payload < 10 then some "title" else none }

theorem replay_reads_as_held_titles :
    (((pushAll titles 0 [1, 20, 2]).replayAfter titles 0 none).map (·.payload)).foldl titleOf none = some 2 := by
  have hreads : Supersedes titles.supersedes titleOf := by
    intro s earlier between later key _ hlater
    have hlt : later < 10 := by
      by_contra hle
      simp [titles, hle] at hlater
    simp [titleOf, hlt]
  rw [(replay_reads_as_held titles (pushAll titles 0 [1, 20, 2]) 0 none).2.2 titleOf none hreads]
  decide

end Claxedo.Events
