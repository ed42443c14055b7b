import Claxedo.Lib.Run

/-! `limitConcurrency`: works started while fewer than `limit` are active, the others behind a queue of waiters. A finished
work's slot is given back in one microtask and taken in another, by the waiter it woke. -/

namespace Claxedo.Helpers.LimitConcurrency

open Claxedo

/-- A call of the limiter; `throws` where its work throws before it returns a promise. -/
structure Call where
  number : ℕ
  throws : Bool

inductive Job where
  /-- The waiter's promise is resolved: its call goes on. -/
  | resume (call : Call)
  /-- The work's promise is settled: the `finally` of its call. -/
  | release (number : ℕ)

structure Limiter where
  active : ℕ := 0
  queue : List Call := []
  /-- The limiter's microtasks, in the order they were queued. -/
  jobs : List Job := []
  calls : ℕ := 0
  started : List ℕ := []
  settled : List ℕ := []

inductive Label where
  | call (throws : Bool)
  /-- The promise of a started work resolves or rejects. -/
  | settle (number : ℕ)
  /-- The next microtask. -/
  | tick

namespace Limiter

/-- `active -= 1; queue.shift()?.()`. -/
def release (s : Limiter) : Limiter :=
  match s.queue with
  | [] => { s with active := s.active - 1 }
  | call :: rest => { s with active := s.active - 1, queue := rest, jobs := s.jobs ++ [.resume call] }

/-- `active += 1` and the call of the work; a work that throws is over at once. -/
def start (s : Limiter) (call : Call) : Limiter :=
  let s := { s with active := s.active + 1, started := s.started ++ [call.number] }
  if call.throws then release { s with settled := s.settled ++ [call.number] } else s

def tick (s : Limiter) : Limiter :=
  match s.jobs with
  | [] => s
  | .resume call :: rest => start { s with jobs := rest } call
  | .release _ :: rest => release { s with jobs := rest }

variable (limit : ℕ)

def step (s : Limiter) : Label → Limiter
  | .call throws =>
    let call : Call := ⟨s.calls, throws⟩
    let s := { s with calls := s.calls + 1 }
    if limit ≤ s.active then { s with queue := s.queue ++ [call] } else start s call
  | .settle number =>
    if number ∈ s.started ∧ number ∉ s.settled then
      { s with settled := s.settled ++ [number], jobs := s.jobs ++ [.release number] }
    else s
  | .tick => tick s

/-- The works whose promise has not settled. -/
def running (s : Limiter) : List ℕ := s.started.filter fun number => number ∉ s.settled

/-- The calls whose waiter was woken and has not gone on. -/
def woken (s : Limiter) : List Call :=
  s.jobs.filterMap fun job =>
    match job with
    | .resume call => some call
    | .release _ => none

def releases (s : Limiter) : ℕ :=
  s.jobs.countP fun job =>
    match job with
    | .resume _ => false
    | .release _ => true

/-- What a limiter promises of each state. -/
structure Limited (s : Limiter) : Prop where
  bounded : s.running.length ≤ limit
  inOrder : s.started = List.range s.started.length
  starts : s.jobs = [] → s.started.length = min s.calls (limit + s.settled.length)
  drains : ∃ ticks, (Lib.run (step limit) s (List.replicate ticks .tick)).jobs = []

/-- No call is made while a woken waiter has not gone on. -/
def Calm (s : Limiter) : Label → Prop
  | .call _ => s.woken = []
  | _ => True

instance (s : Limiter) : (label : Label) → Decidable (Calm s label)
  | .call _ => inferInstanceAs (Decidable (_ = _))
  | .settle _ | .tick => inferInstanceAs (Decidable True)

/-- The slots taken and those kept for a woken waiter are never more than there are, and all of them while a call waits;
`owed` finished works have their slot still to give back, beside those a microtask is queued for. -/
structure Sound (owed : ℕ) (s : Limiter) : Prop where
  order : s.started ++ s.woken.map (·.number) ++ s.queue.map (·.number) = List.range s.calls
  slots : s.active + s.woken.length ≤ limit
  full : s.queue ≠ [] → s.active + s.woken.length = limit
  balance : s.started.length + s.releases + owed = s.active + s.settled.length
  settled : s.settled ⊆ s.started
  once : s.settled.Nodup

section
variable {limit owed : ℕ} {s : Limiter}

theorem Sound.nodup (h : s.Sound limit owed) : s.started.Nodup := by
  have hrange : (s.started ++ s.woken.map (·.number) ++ s.queue.map (·.number)).Nodup := h.order ▸ List.nodup_range
  rw [List.append_assoc] at hrange
  exact hrange.of_append_left

theorem Sound.running (h : s.Sound limit owed) : s.running.length + s.settled.length = s.started.length := by
  have hsettled : (s.started.filter (· ∈ s.settled)).Perm s.settled := by
    refine (List.perm_ext_iff_of_nodup (h.nodup.filter _) h.once).mpr fun number => ?_
    rw [List.mem_filter, decide_eq_true_iff]
    exact ⟨fun hmem => hmem.2, fun hmem => ⟨h.settled hmem, hmem⟩⟩
  have hsplit := List.length_eq_length_filter_add (l := s.started) (· ∈ s.settled)
  rw [hsettled.length_eq] at hsplit
  have hnot : (s.started.filter fun number => ! decide (number ∈ s.settled)) = s.running := by
    rw [Limiter.running]
    congr 1
    funext number
    rw [decide_not]
  rw [hnot] at hsplit
  omega

theorem Sound.settle (h : s.Sound limit 0) (number : ℕ) (hstarted : number ∈ s.started) (hnew : number ∉ s.settled) :
    Sound limit 0 { s with settled := s.settled ++ [number], jobs := s.jobs ++ [.release number] } := by
  have hwoken : woken { s with settled := s.settled ++ [number], jobs := s.jobs ++ [.release number] } = s.woken := by
    simp [woken]
  have hreleases : releases { s with settled := s.settled ++ [number], jobs := s.jobs ++ [.release number] } = s.releases + 1 := by
    simp [releases]
  refine ⟨?_, ?_, ?_, ?_, ?_, ?_⟩
  · rw [hwoken]
    exact h.order
  · rw [hwoken]
    exact h.slots
  · rw [hwoken]
    exact h.full
  · have hbalance := h.balance
    rw [hreleases]
    simp only [List.length_append, List.length_singleton]
    omega
  · exact List.append_subset.mpr ⟨h.settled, fun n hn => List.mem_singleton.mp hn ▸ hstarted⟩
  · exact h.once.append (List.nodup_singleton _) (by simpa using hnew)

theorem release_nil (h : s.queue = []) : s.release = { s with active := s.active - 1 } := by
  rw [Limiter.release, h]

theorem release_cons {call : Call} {rest : List Call} (h : s.queue = call :: rest) :
    s.release = { s with active := s.active - 1, queue := rest, jobs := s.jobs ++ [.resume call] } := by
  rw [Limiter.release, h]

/-- A slot given back goes to the waiter at the front. -/
theorem Sound.release (h : s.Sound limit 1) : Sound limit 0 s.release := by
  have hbalance := h.balance
  have hslots := h.slots
  have hrunning := h.running
  rcases hqueue : s.queue with _ | ⟨call, rest⟩
  · rw [release_nil hqueue]
    refine ⟨h.order, ?_, fun hn => absurd hqueue hn, ?_, h.settled, h.once⟩
    · exact (Nat.add_le_add_right (Nat.sub_le _ _) _).trans hslots
    · change s.started.length + s.releases + 0 = s.active - 1 + s.settled.length
      omega
  · have hfull := h.full (by rw [hqueue]; exact List.cons_ne_nil _ _)
    have horder := h.order
    rw [hqueue] at horder
    have hwoken : woken { s with active := s.active - 1, queue := rest, jobs := s.jobs ++ [.resume call] } = s.woken ++ [call] := by
      simp [woken]
    have hreleases : releases { s with active := s.active - 1, queue := rest, jobs := s.jobs ++ [.resume call] } = s.releases := by
      simp [releases]
    rw [release_cons hqueue]
    refine ⟨?_, ?_, fun _ => ?_, ?_, h.settled, h.once⟩
    · rw [hwoken]
      simpa using horder
    · rw [hwoken, List.length_append, List.length_singleton]
      simp only
      omega
    · rw [hwoken, List.length_append, List.length_singleton]
      simp only
      omega
    · rw [hreleases]
      simp only
      omega

/-- A call goes on into a slot that is free for it. -/
theorem Sound.start {call : Call}
    (horder : s.started ++ call.number :: s.woken.map (·.number) ++ s.queue.map (·.number) = List.range s.calls)
    (hslots : s.active + s.woken.length < limit) (hfull : s.queue ≠ [] → s.active + 1 + s.woken.length = limit)
    (hbalance : s.started.length + s.releases = s.active + s.settled.length)
    (hsettled : s.settled ⊆ s.started) (honce : s.settled.Nodup) : Sound limit 0 (s.start call) := by
  have hnew : call.number ∉ s.started := by
    have hnodup : (s.started ++ call.number :: s.woken.map (·.number) ++ s.queue.map (·.number)).Nodup :=
      horder ▸ List.nodup_range
    rw [List.append_assoc, List.cons_append] at hnodup
    exact fun hmem => (List.nodup_append.mp hnodup).2.2 _ hmem _ List.mem_cons_self rfl
  have horder' : s.started ++ [call.number] ++ s.woken.map (·.number) ++ s.queue.map (·.number) = List.range s.calls := by
    rw [List.append_assoc s.started, List.singleton_append]
    exact horder
  unfold Limiter.start
  by_cases hthrows : call.throws
  · rw [if_pos hthrows]
    refine Sound.release ⟨horder', ?_, hfull, ?_, ?_, ?_⟩
    · change s.active + 1 + s.woken.length ≤ limit
      omega
    · change (s.started ++ [call.number]).length + s.releases + 1 = s.active + 1 + (s.settled ++ [call.number]).length
      rw [List.length_append, List.length_append, List.length_singleton]
      omega
    · exact List.append_subset.mpr ⟨fun n hn => List.mem_append_left _ (hsettled hn), List.subset_append_right _ _⟩
    · exact honce.append (List.nodup_singleton _) (by simpa using fun hmem => hnew (hsettled hmem))
  · rw [if_neg hthrows]
    refine ⟨horder', ?_, hfull, ?_, fun n hn => List.mem_append_left _ (hsettled hn), honce⟩
    · change s.active + 1 + s.woken.length ≤ limit
      omega
    · change (s.started ++ [call.number]).length + s.releases + 0 = s.active + 1 + s.settled.length
      rw [List.length_append, List.length_singleton]
      omega

theorem Sound.tick (h : s.Sound limit 0) : Sound limit 0 s.tick := by
  unfold Limiter.tick
  rcases hjobs : s.jobs with _ | ⟨job, rest⟩
  · exact h
  have hbalance := h.balance
  have hslots := h.slots
  cases job with
  | resume call =>
    have hwoken : s.woken = call :: woken { s with jobs := rest } := by simp [woken, hjobs]
    have hreleases : s.releases = releases { s with jobs := rest } := by simp [releases, hjobs]
    have horder := h.order
    rw [hwoken] at horder hslots
    rw [hreleases] at hbalance
    refine Sound.start horder hslots (fun hqueue => ?_) hbalance h.settled h.once
    have hfull := h.full hqueue
    rw [hwoken, List.length_cons] at hfull
    simp only at hfull ⊢
    omega
  | release number =>
    have hwoken : s.woken = woken { s with jobs := rest } := by simp [woken, hjobs]
    have hreleases : s.releases = releases { s with jobs := rest } + 1 := by simp [releases, hjobs]
    have horder := h.order
    have hfull := h.full
    rw [hwoken] at horder hslots hfull
    rw [hreleases] at hbalance
    refine Sound.release ⟨horder, hslots, hfull, ?_, h.settled, h.once⟩
    simp only at hbalance ⊢
    omega

theorem Sound.step (h : s.Sound limit 0) (label : Label) (hcalm : s.Calm label) : Sound limit 0 (s.step limit label) := by
  cases label with
  | tick => exact h.tick
  | settle number =>
    simp only [Limiter.step]
    split_ifs with hsettle
    · exact h.settle number hsettle.1 hsettle.2
    · exact h
  | call throws =>
    have hwoken : s.woken = [] := hcalm
    have horder := h.order
    have hslots := h.slots
    rw [hwoken] at horder hslots
    simp only [Limiter.step]
    by_cases hfree : limit ≤ s.active
    · rw [if_pos hfree]
      refine ⟨?_, h.slots, fun _ => ?_, h.balance, h.settled, h.once⟩
      · have hsame : woken { s with calls := s.calls + 1, queue := s.queue ++ [⟨s.calls, throws⟩] } = s.woken := rfl
        rw [hsame, hwoken, List.range_succ, ← horder]
        simp
      · have hsame : woken { s with calls := s.calls + 1, queue := s.queue ++ [⟨s.calls, throws⟩] } = s.woken := rfl
        rw [hsame, hwoken]
        exact le_antisymm hslots hfree
    · rw [if_neg hfree]
      have hqueue : s.queue = [] := by
        by_contra hqueue
        have hfull := h.full hqueue
        rw [hwoken] at hfull
        exact hfree hfull.ge
      have hsame : woken { s with calls := s.calls + 1 } = [] := hwoken
      refine Sound.start ?_ ?_ (fun hn => absurd hqueue hn) h.balance h.settled h.once
      · rw [hsame, List.range_succ, ← horder, hqueue]
        simp
      · rw [hsame]
        exact Nat.lt_of_not_le hfree

/-- What a microtask can leave to do: each waiter costs two. -/
def weight (s : Limiter) : ℕ := 2 * s.queue.length + s.jobs.length

theorem weight_release (s : Limiter) : s.release.weight ≤ s.weight := by
  unfold weight
  rcases hqueue : s.queue with _ | ⟨call, rest⟩
  · rw [release_nil hqueue, hqueue]
  · rw [release_cons hqueue]
    simp only [List.length_append, List.length_cons, List.length_nil]
    omega

theorem weight_start (s : Limiter) (call : Call) : (s.start call).weight ≤ s.weight := by
  unfold Limiter.start
  split_ifs
  · exact weight_release _
  · exact le_refl _

theorem weight_tick (h : s.jobs ≠ []) : s.tick.weight < s.weight := by
  obtain ⟨job, rest, hjobs⟩ := List.exists_cons_of_ne_nil h
  have hrest : weight { s with jobs := rest } < s.weight := by
    rw [weight, weight, hjobs]
    simp
  rw [Limiter.tick, hjobs]
  cases job with
  | resume call => exact (weight_start _ call).trans_lt hrest
  | release number => exact (weight_release _).trans_lt hrest

/-- The microtasks come to an end. -/
theorem drains (limit : ℕ) (s : Limiter) : ∃ ticks, (Lib.run (step limit) s (List.replicate ticks .tick)).jobs = [] := by
  induction hweight : s.weight using Nat.strong_induction_on generalizing s with
  | _ n ih =>
    by_cases hjobs : s.jobs = []
    · exact ⟨0, hjobs⟩
    · obtain ⟨ticks, hticks⟩ := ih _ (hweight ▸ weight_tick hjobs) s.tick rfl
      exact ⟨ticks + 1, hticks⟩

theorem Sound.limited (h : s.Sound limit 0) : s.Limited limit := by
  have hslots := h.slots
  have hbalance := h.balance
  have hrunning := h.running
  have hcalls : s.started.length + s.woken.length + s.queue.length = s.calls := by
    have hlength := congrArg List.length h.order
    simpa only [List.length_append, List.length_map, List.length_range] using hlength
  refine ⟨by omega, ?_, fun hjobs => ?_, drains limit s⟩
  · have hprefix : s.started <+: List.range s.calls := by
      rw [← h.order, List.append_assoc]
      exact List.prefix_append _ _
    have htake := List.prefix_iff_eq_take.mp hprefix
    rw [List.take_range, Nat.min_eq_left (by omega)] at htake
    exact htake
  · have hwoken : s.woken = [] := by rw [woken, hjobs]; rfl
    have hreleases : s.releases = 0 := by rw [releases, hjobs]; rfl
    rw [hwoken, List.length_nil] at hslots hcalls
    by_cases hqueue : s.queue = []
    · rw [hqueue, List.length_nil] at hcalls
      omega
    · have hfull := h.full hqueue
      rw [hwoken, List.length_nil] at hfull
      omega

end

end Limiter

open Limiter

/-- Over every run in which no call is made between the wake of a waiter and its going on: never more than `limit` works
run, they start in the order of the calls, and each as soon as all but `limit` of those before it are done. -/
theorem limited_of_calm (limit : ℕ) (labels : List Label) (h : Lib.Meets (step limit) Calm {} labels) :
    (Lib.run (step limit) {} labels).Limited limit := by
  have hstart : Sound limit 0 {} :=
    ⟨rfl, Nat.zero_le _, fun hn => absurd rfl hn, rfl, List.nil_subset _, List.nodup_nil⟩
  exact (Lib.invariant_of_meets (Sound limit 0) (fun _ label hs hcalm => hs.step label hcalm) hstart h).limited

theorem limited_of_calm_two : (Lib.run (step 1) {} [.call false, .call false, .settle 0, .tick, .tick, .call true]).Limited 1 :=
  limited_of_calm 1 [.call false, .call false, .settle 0, .tick, .tick, .call true] (by decide)

/-- With one slot: the first work is done and its slot given back, and a call takes it before the waiter that was woken. -/
theorem taken_before_resume : ¬ ∀ (limit : ℕ) (labels : List Label), 1 ≤ limit → (Lib.run (step limit) {} labels).Limited limit := by
  intro h
  have hlimited := h 1 [.call false, .call false, .settle 0, .tick, .call false, .tick] (le_refl _)
  exact absurd hlimited.bounded (by decide)

end Claxedo.Helpers.LimitConcurrency
