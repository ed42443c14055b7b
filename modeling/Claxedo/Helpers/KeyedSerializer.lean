import Claxedo.Lib.Run
import Claxedo.Lib.Table
import Claxedo.Lib.Lists
import Mathlib.Algebra.Order.BigOperators.Group.Finset

/-! `createKeyedSerializer`, microtask by microtask: a call that finds a tail for its key goes behind it, one that finds
none invokes its operation there and then, and installs its own tail once the operation has returned a promise. -/

namespace Claxedo.Helpers.KeyedSerializer

open Claxedo.Lib

/-- Where a call's chain of promises stands. At most one of its microtasks is queued at a time. -/
inductive Phase where
  /-- The tail it was put behind is not fulfilled. -/
  | waiting
  /-- That tail is fulfilled: the microtask of its `catch` is queued. -/
  | reached
  /-- The microtask of `then(operation)` is queued. -/
  | caught
  /-- The operation's own synchronous part is on the call stack. -/
  | invoked
  /-- `then(operation)` was handed a promise: the microtask that subscribes to it is queued. -/
  | adopting
  /-- The operation's promise is subscribed to. -/
  | following
  /-- That promise has settled: the microtask that settles `result` is queued. -/
  | answered
  /-- `result` has settled: the microtask that fulfils `tail` is queued. -/
  | resolved
  /-- `tail` is fulfilled: the microtask that drops the entry is queued. -/
  | tailed
  | dropped
  deriving DecidableEq

namespace Phase

/-- A microtask of the call is queued. -/
def queued : Phase → Bool
  | .reached | .caught | .adopting | .answered | .resolved | .tailed => true
  | _ => false

/-- The operation was invoked. -/
def started : Phase → Bool
  | .waiting | .reached | .caught => false
  | _ => true

def fulfilled : Phase → Bool
  | .tailed | .dropped => true
  | _ => false

/-- The operation's promise must have settled. -/
def settled : Phase → Bool
  | .answered | .resolved | .tailed | .dropped => true
  | _ => false

/-- How far the call has come. -/
def rank : Phase → ℕ
  | .waiting => 0
  | .reached => 1
  | .caught => 2
  | .invoked => 3
  | .adopting => 4
  | .following => 5
  | .answered => 6
  | .resolved => 7
  | .tailed => 8
  | .dropped => 9

theorem rank_le (phase : Phase) : phase.rank ≤ 9 := by cases phase <;> decide

theorem settled_of_fulfilled {phase : Phase} (h : phase.fulfilled = true) : phase.settled = true := by
  cases phase <;> first | rfl | cases h

theorem started_of_fulfilled {phase : Phase} (h : phase.fulfilled = true) : phase.started = true := by
  cases phase <;> first | rfl | cases h

end Phase

inductive Outcome where
  | resolved
  | rejected

/-- A call of `run`; `previous` is the call whose tail it found. -/
structure Made (K : Type) where
  key : K
  previous : Option ℕ

/-- A tail goes by the number of the call that installed it. -/
structure Serializer (K : Type) where
  tails : List (K × ℕ) := []
  made : List (Made K) := []
  phase : ℕ → Phase := fun _ => .waiting
  outcome : ℕ → Option Outcome := fun _ => none
  /-- The operations in their synchronous part, the innermost first. -/
  stack : List ℕ := []
  /-- The serializer's microtasks, by call, in the order they were queued. -/
  jobs : List ℕ := []
  started : List ℕ := []

inductive Label (K : Type) where
  | run (key : K)
  /-- The innermost operation returns its promise. -/
  | returned
  /-- The promise an operation returned settles. -/
  | settle (number : ℕ) (outcome : Outcome)
  /-- The next microtask. -/
  | tick

/-- The same with a resolution for a rejection. -/
def Label.asResolved {K : Type} : Label K → Label K
  | .settle number _ => .settle number .resolved
  | label => label

namespace Serializer

variable {K : Type} [DecidableEq K] (s : Serializer K)

def queue (number : ℕ) (phase : Phase) : Serializer K :=
  { s with phase := Function.update s.phase number phase, jobs := s.jobs ++ [number] }

def invoke (number : ℕ) : Serializer K :=
  { s with
    phase := Function.update s.phase number .invoked
    stack := number :: s.stack
    started := s.started ++ [number] }

def run (key : K) : Serializer K :=
  let number := s.made.length
  match Assoc.lookup key s.tails with
  | some previous =>
    let s : Serializer K :=
      { s with made := s.made ++ [⟨key, some previous⟩], tails := Assoc.assign key number s.tails }
    if (s.phase previous).fulfilled then s.queue number .reached else s
  | none => invoke { s with made := s.made ++ [⟨key, none⟩] } number

/-- `tails.set` where the operation was invoked by its own call; else its promise is what `then` resolves with. -/
def returned : Serializer K :=
  match s.stack with
  | [] => s
  | number :: rest =>
    match s.made[number]? with
    | some ⟨key, none⟩ =>
      { s with
        stack := rest
        phase := Function.update s.phase number .following
        tails := Assoc.assign key number s.tails }
    | _ => queue { s with stack := rest } number .adopting

/-- The operation was invoked by its own call, so that `result` is its promise. -/
def direct (number : ℕ) : Bool := s.made[number]?.any fun call => call.previous = none

def settle (number : ℕ) (outcome : Outcome) : Serializer K :=
  if s.outcome number ≠ none then s
  else
    let known := { s with outcome := Function.update s.outcome number (some outcome) }
    match s.phase number with
    | .adopting => known
    | .following => known.queue number (if s.direct number then .resolved else .answered)
    | _ => s

/-- The calls behind a tail, in the order they were made. -/
def followers (number : ℕ) : List ℕ :=
  (List.range s.made.length).filter fun follower =>
    s.made[follower]?.any (fun call => call.previous = some number) ∧ s.phase follower = .waiting

/-- `tail` is fulfilled: its own drop comes first, it was subscribed first. -/
def fulfil (number : ℕ) : Serializer K :=
  { s with
    phase := fun n =>
      if n ∈ s.followers number then .reached else Function.update s.phase number .tailed n
    jobs := s.jobs ++ number :: s.followers number }

/-- Only the tail this call installed is dropped. -/
def drop (number : ℕ) : Serializer K :=
  { s with
    phase := Function.update s.phase number .dropped
    tails :=
      match s.made[number]? with
      | some call => if Assoc.lookup call.key s.tails = some number then Assoc.erase call.key s.tails else s.tails
      | none => s.tails }

/-- A call's microtask. -/
def advance (number : ℕ) : Serializer K :=
  match s.phase number with
  | .reached => s.queue number .caught
  | .caught => s.invoke number
  | .adopting =>
    if s.outcome number ≠ none then s.queue number .answered
    else { s with phase := Function.update s.phase number .following }
  | .answered => s.queue number .resolved
  | .resolved => s.fulfil number
  | .tailed => s.drop number
  | _ => s

/-- No microtask runs while an operation is on the stack. -/
def tick : Serializer K :=
  match s.stack, s.jobs with
  | [], number :: rest => advance { s with jobs := rest } number
  | _, _ => s

def step : Label K → Serializer K
  | .run key => s.run key
  | .returned => s.returned
  | .settle number outcome => s.settle number outcome
  | .tick => s.tick

/-- The operation was invoked and its promise has not settled. -/
def Running (number : ℕ) : Prop := number ∈ s.started ∧ s.outcome number = none

def Idle : Prop := s.stack = [] ∧ s.jobs = []

/-- Of two operations of one key, the one called first was started first. -/
def InOrder : Prop :=
  s.started.Pairwise fun m n => ∀ c d : Made K, s.made[m]? = some c → s.made[n]? = some d → c.key = d.key → m < n

/-- What a serializer promises of each state. -/
structure Serial : Prop where
  apart : ∀ m n c d, s.made[m]? = some c → s.made[n]? = some d → c.key = d.key → m ≠ n → ¬ (s.Running m ∧ s.Running n)
  once : s.started.Nodup
  inOrder : s.InOrder
  starts : s.Idle → ∀ n d, s.made[n]? = some d →
    n ∈ s.started ∨ ∃ m < n, ∃ c, s.made[m]? = some c ∧ c.key = d.key ∧ s.Running m
  drops : s.Idle → ∀ key, (∀ n d, s.made[n]? = some d → d.key = key → s.outcome n ≠ none) → Assoc.lookup key s.tails = none
  goesIdle : ∃ labels : List (Label K), (∀ label ∈ labels, label = .tick ∨ label = .returned) ∧ (Lib.run step s labels).Idle

/-- No call is made for a key while an operation of that key, invoked by its own call, has yet to return. -/
def Apart : Label K → Prop
  | .run key => ∀ number ∈ s.stack, ∀ call ∈ s.made[number]?, call.previous = none → call.key ≠ key
  | _ => True

end Serializer

/-! ### Lists of the calls in a phase -/

/-- The list holds each call whose phase is one of `p`, once. -/
structure Tracks (p : Phase → Bool) (l : List ℕ) (phase : ℕ → Phase) : Prop where
  once : l.Nodup
  mem : ∀ n, n ∈ l ↔ p (phase n) = true

section
variable {p : Phase → Bool} {l : List ℕ} {phase : ℕ → Phase} {n : ℕ} {x : Phase}

theorem Tracks.perm (h : Tracks p l phase) {l' : List ℕ} (hperm : l.Perm l') : Tracks p l' phase :=
  ⟨hperm.nodup_iff.mp h.once, fun n => hperm.mem_iff.symm.trans (h.mem n)⟩

theorem Tracks.stay (h : Tracks p l phase) (hx : p x = p (phase n)) : Tracks p l (Function.update phase n x) := by
  refine ⟨h.once, fun m => ?_⟩
  rw [h.mem, Function.update_apply]
  split_ifs with hm
  · rw [hm, hx]
  · exact Iff.rfl

theorem Tracks.cons (h : Tracks p l phase) (hn : p (phase n) = false) (hx : p x = true) :
    Tracks p (n :: l) (Function.update phase n x) := by
  have hnew : n ∉ l := fun hmem => by rw [(h.mem n).mp hmem] at hn; cases hn
  refine ⟨List.nodup_cons.mpr ⟨hnew, h.once⟩, fun m => ?_⟩
  rw [List.mem_cons, h.mem, Function.update_apply]
  split_ifs with hm
  · exact iff_of_true (.inl hm) hx
  · exact ⟨fun hor => hor.resolve_left hm, .inr⟩

theorem Tracks.snoc (h : Tracks p l phase) (hn : p (phase n) = false) (hx : p x = true) :
    Tracks p (l ++ [n]) (Function.update phase n x) :=
  (h.cons hn hx).perm (List.perm_append_singleton n l).symm

theorem Tracks.pop (h : Tracks p (n :: l) phase) (hx : p x = false) : Tracks p l (Function.update phase n x) := by
  obtain ⟨hnew, honce⟩ := List.nodup_cons.mp h.once
  refine ⟨honce, fun m => ?_⟩
  rw [Function.update_apply]
  split_ifs with hm
  · rw [hm, hx]
    exact iff_of_false hnew Bool.false_ne_true
  · rw [← h.mem, List.mem_cons]
    exact ⟨.inr, fun hor => hor.resolve_left hm⟩

/-- The call at the front has its next microtask queued behind the others. -/
theorem Tracks.turn (h : Tracks p (n :: l) phase) (hx : p x = true) : Tracks p (l ++ [n]) (Function.update phase n x) :=
  (h.stay (hx.trans ((h.mem n).mp List.mem_cons_self).symm)).perm (List.perm_append_singleton n l).symm

variable {fs : List ℕ}

theorem Tracks.stayAll (h : Tracks p l phase) (hx : ∀ m ∈ fs, p x = p (phase m)) :
    Tracks p l fun m => if m ∈ fs then x else phase m := by
  refine ⟨h.once, fun m => ?_⟩
  rw [h.mem]
  split_ifs with hm
  · rw [hx m hm]
  · exact Iff.rfl

theorem Tracks.append (h : Tracks p l phase) (honce : fs.Nodup) (hfs : ∀ m ∈ fs, p (phase m) = false) (hx : p x = true) :
    Tracks p (l ++ fs) fun m => if m ∈ fs then x else phase m := by
  refine ⟨h.once.append honce fun m hm hmf => ?_, fun m => ?_⟩
  · have := hfs m hmf
    rw [(h.mem m).mp hm] at this
    cases this
  · rw [List.mem_append, h.mem]
    split_ifs with hm
    · exact iff_of_true (.inr hm) hx
    · exact ⟨fun hor => hor.resolve_right hm, .inl⟩

end

namespace Serializer

variable {K : Type} [DecidableEq K] {s s' : Serializer K}

/-! ### What every state keeps -/

/-- The lists against the phases. -/
structure Books (s : Serializer K) : Prop where
  jobs : Tracks Phase.queued s.jobs s.phase
  stack : Tracks (fun phase => phase = .invoked) s.stack s.phase
  started : Tracks Phase.started s.started s.phase
  settled : ∀ n, (s.phase n).settled = true → s.outcome n ≠ none
  pending : ∀ n, s.outcome n ≠ none → (s.phase n).settled = true ∨ s.phase n = .adopting
  known : ∀ n, s.phase n ≠ .waiting → n < s.made.length

/-- The calls of a key one behind the other, the key's tail the last of them. -/
structure Chained (s : Serializer K) : Prop where
  behind : ∀ (n : ℕ) (c : Made K) (p : ℕ), s.made[n]? = some c → c.previous = some p → p < n ∧
    (∃ d, s.made[p]? = some d ∧ d.key = c.key) ∧
    ∀ (m : ℕ) (d : Made K), p < m → m < n → s.made[m]? = some d → d.key ≠ c.key
  waits : ∀ (n : ℕ) (c : Made K) (p : ℕ), s.made[n]? = some c → c.previous = some p →
    (s.phase n = .waiting ↔ (s.phase p).fulfilled = false)
  atOnce : ∀ (n : ℕ) (c : Made K), s.made[n]? = some c → c.previous = none → (s.phase n).started = true
  order : ∀ (m n : ℕ) (c d : Made K), m < n → s.made[m]? = some c → s.made[n]? = some d → c.key = d.key → s.phase n ≠ .waiting →
    (s.phase m).fulfilled = true
  tail : ∀ key p, Assoc.lookup key s.tails = some p → (∃ c : Made K, s.made[p]? = some c ∧ c.key = key) ∧ s.phase p ≠ .dropped ∧
    ∀ (m : ℕ) (d : Made K), p < m → s.made[m]? = some d → d.key ≠ key
  noTail : ∀ key, Assoc.lookup key s.tails = none → ∀ (m : ℕ) (d : Made K), s.made[m]? = some d → d.key = key →
    (s.phase m).fulfilled = true ∨ s.phase m = .invoked ∧ d.previous = none
  last : ∀ (n : ℕ) (c : Made K), s.phase n = .invoked → s.made[n]? = some c → c.previous = none →
    ∀ (m : ℕ) (d : Made K), n < m → s.made[m]? = some d → d.key ≠ c.key

structure Sound (s : Serializer K) : Prop where
  books : s.Books
  chained : s.Chained
  inOrder : s.InOrder

variable {m n : ℕ} {x : Phase} {rest : List ℕ} {key : K}

omit [DecidableEq K] in
theorem previous_of_not_direct {c : Made K} (h : s.direct n = false) (hc : s.made[n]? = some c) :
    c.previous ≠ none := by
  intro hprevious
  rw [direct, hc, Option.any_some, hprevious, decide_eq_true rfl] at h
  cases h

/-- A call that waits behind no other moves on; what becomes of the tails is told apart. -/
theorem Chained.update (h : s.Chained) (hmade : s'.made = s.made) (hphase : s'.phase = Function.update s.phase n x)
    (hn : s.phase n ≠ .waiting) (hx : x ≠ .waiting) (hfulfilled : x.fulfilled = (s.phase n).fulfilled)
    (hdirect : x = .invoked → s.direct n = false) (hlater : (s.phase n).started = true → x.started = true)
    (htail : ∀ key p, Assoc.lookup key s'.tails = some p → Assoc.lookup key s.tails = some p ∧ (p = n → x ≠ .dropped) ∨
      p = n ∧ x ≠ .dropped ∧ (∃ c : Made K, s.made[n]? = some c ∧ c.key = key) ∧ ∀ (m : ℕ) (d : Made K), n < m →
      s.made[m]? = some d → d.key ≠ key)
    (hnoTail : ∀ key, Assoc.lookup key s'.tails = none → ∀ (m : ℕ) (d : Made K), s.made[m]? = some d → d.key = key →
      (s.phase m).fulfilled = true ∨ m ≠ n ∧ s.phase m = .invoked ∧ d.previous = none) :
    s'.Chained := by
  have hother : ∀ {m}, m ≠ n → s'.phase m = s.phase m := fun hm => by rw [hphase, Function.update_of_ne hm]
  have hself : s'.phase n = x := by rw [hphase, Function.update_self]
  have hwaiting : ∀ m, s'.phase m = .waiting ↔ s.phase m = .waiting := fun m => by
    by_cases hm : m = n
    · rw [hm, hself]
      exact iff_of_false hx hn
    · rw [hother hm]
  have hsame : ∀ m, (s'.phase m).fulfilled = (s.phase m).fulfilled := fun m => by
    by_cases hm : m = n
    · rw [hm, hself, hfulfilled]
    · rw [hother hm]
  refine ⟨?_, ?_, ?_, ?_, ?_, ?_, ?_⟩
  · rw [hmade]
    exact h.behind
  · intro m c p hc hp
    rw [hwaiting, hsame]
    exact h.waits m c p (hmade ▸ hc) hp
  · intro m c hc hp
    have hbefore := h.atOnce m c (hmade ▸ hc) hp
    by_cases hm : m = n
    · rw [hm, hself]
      exact hlater (hm ▸ hbefore)
    · rw [hother hm]
      exact hbefore
  · intro m m' c d hlt hc hd hkey hnot
    rw [hsame]
    exact h.order m m' c d hlt (hmade ▸ hc) (hmade ▸ hd) hkey fun hw => hnot ((hwaiting m').mpr hw)
  · intro key p hp
    rw [hmade]
    rcases htail key p hp with ⟨hbefore, hkept⟩ | ⟨rfl, hkept, hmem, hlast⟩
    · obtain ⟨hmem, hdropped, hlast⟩ := h.tail key p hbefore
      refine ⟨hmem, ?_, hlast⟩
      by_cases hm : p = n
      · rw [hm, hself]
        exact hkept hm
      · rwa [hother hm]
    · rw [hself]
      exact ⟨hmem, hkept, hlast⟩
  · intro key hnone m d hd hkey
    rw [hmade] at hd
    rcases hnoTail key hnone m d hd hkey with hf | ⟨hm, hi, hp⟩
    · exact .inl ((hsame m).trans hf)
    · exact .inr ⟨(hother hm).trans hi, hp⟩
  · intro m c hi hc hp
    rw [hmade] at hc ⊢
    by_cases hm : m = n
    · subst hm
      rw [hself] at hi
      exact absurd hp (previous_of_not_direct (hdirect hi) hc)
    · rw [hother hm] at hi
      exact h.last m c hi hc hp

theorem Chained.move (h : s.Chained) (hmade : s'.made = s.made) (htails : s'.tails = s.tails)
    (hphase : s'.phase = Function.update s.phase n x) (hn : s.phase n ≠ .waiting) (hopen : (s.phase n).fulfilled = false)
    (hx : x ≠ .waiting) (hxopen : x.fulfilled = false) (hdirect : s.phase n = .invoked ∨ x = .invoked → s.direct n = false)
    (hlater : (s.phase n).started = true → x.started = true) : s'.Chained := by
  refine h.update hmade hphase hn hx (hxopen.trans hopen.symm) (fun hi => hdirect (.inr hi)) hlater (fun key p hp => ?_)
    fun key hnone m d hd hkey => ?_
  · rw [htails] at hp
    exact .inl ⟨hp, fun _ hd => by rw [hd] at hxopen; cases hxopen⟩
  · rw [htails] at hnone
    rcases h.noTail key hnone m d hd hkey with hf | ⟨hi, hp⟩
    · exact .inl hf
    · exact .inr ⟨fun hm => previous_of_not_direct (hdirect (.inl (hm ▸ hi))) (hm ▸ hd) hp, hi, hp⟩

omit [DecidableEq K] in
theorem Books.move (h : s.Books) (hmade : s'.made = s.made) (houtcome : s'.outcome = s.outcome)
    (hphase : s'.phase = Function.update s.phase n x) (hjobs : Tracks Phase.queued s'.jobs s'.phase)
    (hstack : Tracks (fun phase => phase = .invoked) s'.stack s'.phase) (hstarted : Tracks Phase.started s'.started s'.phase)
    (hn : s.phase n ≠ .waiting) (hsettled : x.settled = true → s.outcome n ≠ none)
    (hpending : s.outcome n ≠ none → x.settled = true ∨ x = .adopting) : s'.Books := by
  refine ⟨hjobs, hstack, hstarted, fun m => ?_, fun m => ?_, fun m => ?_⟩
  · rw [hphase, houtcome, Function.update_apply]
    split_ifs with hm
    · rw [hm]
      exact hsettled
    · exact h.settled m
  · rw [hphase, houtcome, Function.update_apply]
    split_ifs with hm
    · rw [hm]
      exact hpending
    · exact h.pending m
  · rw [hphase, hmade, Function.update_apply]
    split_ifs with hm
    · rw [hm]
      exact fun _ => h.known n hn
    · exact h.known m

omit [DecidableEq K] in
theorem Books.exists_made (h : s.Books) (hn : s.phase n ≠ .waiting) : ∃ d, s.made[n]? = some d :=
  ⟨_, List.getElem?_eq_getElem (h.known n hn)⟩

omit [DecidableEq K] in
theorem Books.outcome_none (h : s.Books) (hopen : (s.phase n).settled = false) (hadopting : s.phase n ≠ .adopting) :
    s.outcome n = none := by
  by_contra hsome
  rcases h.pending n hsome with hsettled | hphase
  · rw [hopen] at hsettled
    cases hsettled
  · exact hadopting hphase

/-- A microtask that queues the next one of its call. -/
theorem Sound.turn (h : s.Sound) (hjobs : s.jobs = n :: rest) (hx : x.queued = true) (hxopen : x.fulfilled = false)
    (hopen : (s.phase n).fulfilled = false) (hstarted : x.started = (s.phase n).started)
    (hsettled : x.settled = true → s.outcome n ≠ none) (hpending : s.outcome n ≠ none → x.settled = true ∨ x = .adopting) :
    Sound (queue { s with jobs := rest } n x) := by
  have htracks := h.books.jobs
  rw [hjobs] at htracks
  have hqueued : (s.phase n).queued = true := (htracks.mem n).mp List.mem_cons_self
  have hn : s.phase n ≠ .waiting := fun hw => by rw [hw] at hqueued; cases hqueued
  have hi : s.phase n ≠ .invoked := fun hw => by rw [hw] at hqueued; cases hqueued
  have hxn : x ≠ .waiting := fun hw => by rw [hw] at hx; cases hx
  have hxi : x ≠ .invoked := fun hw => by rw [hw] at hx; cases hx
  refine ⟨h.books.move rfl rfl rfl (htracks.turn hx) (h.books.stack.stay ?_) (h.books.started.stay hstarted) hn hsettled hpending,
    h.chained.move rfl rfl rfl hn hopen hxn hxopen (fun hor => absurd hor (not_or.mpr ⟨hi, hxi⟩)) fun hbefore => ?_, h.inOrder⟩
  · rw [decide_eq_false hxi, decide_eq_false hi]
  · rw [hstarted, hbefore]

theorem Sound.subscribe (h : s.Sound) (hjobs : s.jobs = n :: rest) (hphase : s.phase n = .adopting)
    (houtcome : s.outcome n = none) :
    Sound { s with jobs := rest, phase := Function.update s.phase n .following } := by
  have htracks := h.books.jobs
  rw [hjobs] at htracks
  have hn : s.phase n ≠ .waiting := by rw [hphase]; decide
  refine ⟨h.books.move rfl rfl rfl (htracks.pop rfl) (h.books.stack.stay ?_) (h.books.started.stay ?_) hn
    (fun hf => by cases hf) fun hsome => absurd houtcome hsome, h.chained.move rfl rfl rfl hn ?_ (by decide) rfl ?_ fun _ => rfl,
    h.inOrder⟩
  · rw [hphase]; rfl
  · rw [hphase]; rfl
  · rw [hphase]; rfl
  · rw [hphase]
    exact fun hor => by rcases hor with hi | hi <;> cases hi

/-- Earlier operations of the key are done, so this one is the last started. -/
theorem Sound.started_snoc (h : s.Sound) (hopen : (s.phase n).started = false) :
    (s.started ++ [n]).Pairwise fun m n => ∀ c d : Made K, s.made[m]? = some c → s.made[n]? = some d → c.key = d.key → m < n := by
  refine List.pairwise_append.mpr ⟨h.inOrder, List.pairwise_singleton _ _, fun m hm n' hn' c d' hc hd' hkey => ?_⟩
  obtain rfl := List.mem_singleton.mp hn'
  have hstarted := (h.books.started.mem m).mp hm
  by_contra hle
  have hne : m ≠ n' := fun heq => by rw [heq, hopen] at hstarted; cases hstarted
  have hwaiting : s.phase m ≠ .waiting := fun hw => by rw [hw] at hstarted; cases hstarted
  have hdone := h.chained.order n' m d' c (by omega) hd' hc hkey.symm hwaiting
  rw [Phase.started_of_fulfilled hdone] at hopen
  cases hopen

theorem Sound.invokeCaught (h : s.Sound) (hjobs : s.jobs = n :: rest) (hphase : s.phase n = .caught) :
    Sound (invoke { s with jobs := rest } n) := by
  have htracks := h.books.jobs
  rw [hjobs] at htracks
  have hn : s.phase n ≠ .waiting := by rw [hphase]; decide
  obtain ⟨d, hd⟩ := h.books.exists_made hn
  have hdirect : s.direct n = false := by
    rw [direct, hd, Option.any_some, decide_eq_false_iff_not]
    intro hp
    have hstarted := h.chained.atOnce n d hd hp
    rw [hphase] at hstarted
    cases hstarted
  have hnone := h.books.outcome_none (n := n) (by rw [hphase]; rfl) (by rw [hphase]; decide)
  refine ⟨h.books.move rfl rfl rfl (htracks.pop rfl) (h.books.stack.cons ?_ rfl) (h.books.started.snoc ?_ rfl) hn
    (fun hf => by cases hf) fun hsome => absurd hnone hsome, h.chained.move rfl rfl rfl hn ?_ (by decide) rfl (fun _ => hdirect)
    fun _ => rfl, h.started_snoc (by rw [hphase]; rfl)⟩
  · rw [hphase]; rfl
  · rw [hphase]; rfl
  · rw [hphase]; rfl

omit [DecidableEq K] in
theorem mem_followers : m ∈ s.followers n ↔ (∃ c, s.made[m]? = some c ∧ c.previous = some n) ∧ s.phase m = .waiting := by
  rw [followers, List.mem_filter, List.mem_range, decide_eq_true_iff, Option.any_eq_true]
  constructor
  · rintro ⟨-, ⟨c, hc, hp⟩, hw⟩
    exact ⟨⟨c, hc, of_decide_eq_true hp⟩, hw⟩
  · rintro ⟨⟨c, hc, hp⟩, hw⟩
    exact ⟨(List.getElem?_eq_some_iff.mp hc).1, ⟨c, hc, decide_eq_true hp⟩, hw⟩

/-- What the fulfilment of a tail leaves: its call and those behind it moved on, the others as they were. -/
structure Fulfils (n : ℕ) (s s' : Serializer K) : Prop where
  made : s'.made = s.made
  tails : s'.tails = s.tails
  outcome : s'.outcome = s.outcome
  was : s.phase n = .resolved
  now : s'.phase n = .tailed
  reached : ∀ m ∈ s.followers n, s'.phase m = .reached
  other : ∀ m, m ∉ s.followers n → m ≠ n → s'.phase m = s.phase m

omit [DecidableEq K] in
theorem Fulfils.fulfilled (h : Fulfils n s s') (hne : m ≠ n) :
    (s'.phase m).fulfilled = (s.phase m).fulfilled := by
  by_cases hm : m ∈ s.followers n
  · rw [h.reached m hm, (mem_followers.mp hm).2]
    rfl
  · rw [h.other m hm hne]

omit [DecidableEq K] in
theorem Fulfils.mono (h : Fulfils n s s') (hf : (s.phase m).fulfilled = true) :
    (s'.phase m).fulfilled = true := by
  by_cases hne : m = n
  · rw [hne, h.now]
    rfl
  · rwa [h.fulfilled hne]

theorem Chained.fulfil (h : s.Chained) (hf : Fulfils n s s') : s'.Chained := by
  have hn : s.phase n ≠ .waiting := by rw [hf.was]; decide
  have hprevious : ∀ {m c}, m ∈ s.followers n → s.made[m]? = some c → c.previous = some n := fun hmem hc => by
    obtain ⟨c', hc', hp'⟩ := (mem_followers.mp hmem).1
    obtain rfl := Option.some.inj (hc.symm.trans hc')
    exact hp'
  refine ⟨?_, ?_, ?_, ?_, ?_, ?_, ?_⟩
  · rw [hf.made]
    exact h.behind
  · intro m c p hc hp
    rw [hf.made] at hc
    by_cases hpn : p = n
    · subst hpn
      refine iff_of_false ?_ (by rw [hf.now]; decide)
      by_cases hm : m ∈ s.followers p
      · rw [hf.reached m hm]; decide
      · have hw : s.phase m ≠ .waiting := fun hw => hm (mem_followers.mpr ⟨⟨c, hc, hp⟩, hw⟩)
        by_cases hne : m = p
        · rw [hne, hf.now]; decide
        · rwa [hf.other m hm hne]
    · rw [hf.fulfilled hpn, ← h.waits m c p hc hp]
      have hm : m ∉ s.followers n := fun hmem => hpn (Option.some.inj (hp.symm.trans (hprevious hmem hc)))
      by_cases hne : m = n
      · rw [hne, hf.now]
        exact iff_of_false (by decide) hn
      · rw [hf.other m hm hne]
  · intro m c hc hp
    rw [hf.made] at hc
    have hm : m ∉ s.followers n := fun hmem => by
      have hp' := hprevious hmem hc
      rw [hp] at hp'
      cases hp'
    by_cases hne : m = n
    · rw [hne, hf.now]
      rfl
    · rw [hf.other m hm hne]
      exact h.atOnce m c hc hp
  · intro m m' c d hlt hc hd hkey hw
    rw [hf.made] at hc hd
    by_cases hm : m' ∈ s.followers n
    · obtain ⟨-, ⟨e, he, hekey⟩, hbetween⟩ := h.behind m' d n hd (hprevious hm hd)
      rcases lt_trichotomy m n with hbefore | rfl | hafter
      · exact hf.mono (h.order m n c e hbefore hc he (hkey.trans hekey.symm) hn)
      · rw [hf.now]
        rfl
      · exact absurd hkey (hbetween m c hafter hlt hc)
    · have hw' : s.phase m' ≠ .waiting := by
        by_cases hne : m' = n
        · rwa [hne]
        · rwa [hf.other m' hm hne] at hw
      exact hf.mono (h.order m m' c d hlt hc hd hkey hw')
  · intro key p hp
    rw [hf.tails] at hp
    rw [hf.made]
    obtain ⟨hmem, hdropped, hlast⟩ := h.tail key p hp
    refine ⟨hmem, ?_, hlast⟩
    by_cases hm : p ∈ s.followers n
    · rw [hf.reached p hm]; decide
    · by_cases hne : p = n
      · rw [hne, hf.now]; decide
      · rwa [hf.other p hm hne]
  · intro key hnone m d hd hkey
    rw [hf.tails] at hnone
    rw [hf.made] at hd
    rcases h.noTail key hnone m d hd hkey with hfulfilled | ⟨hi, hp⟩
    · exact .inl (hf.mono hfulfilled)
    · have hm : m ∉ s.followers n := fun hmem => by rw [(mem_followers.mp hmem).2] at hi; cases hi
      have hne : m ≠ n := fun heq => by rw [heq, hf.was] at hi; cases hi
      exact .inr ⟨(hf.other m hm hne).trans hi, hp⟩
  · intro m c hi
    have hm : m ∉ s.followers n := fun hmem => by rw [hf.reached m hmem] at hi; cases hi
    have hne : m ≠ n := fun heq => by rw [heq, hf.now] at hi; cases hi
    rw [hf.made]
    exact h.last m c ((hf.other m hm hne).symm.trans hi)

omit [DecidableEq K] in
theorem Books.fulfil (h : s.Books) (hf : Fulfils n s s') (hjobs : Tracks Phase.queued s'.jobs s'.phase)
    (hstack : Tracks (fun phase => phase = .invoked) s'.stack s'.phase) (hstarted : Tracks Phase.started s'.started s'.phase) :
    s'.Books := by
  refine ⟨hjobs, hstack, hstarted, fun m => ?_, fun m => ?_, fun m => ?_⟩
  · rw [hf.outcome]
    by_cases hm : m ∈ s.followers n
    · rw [hf.reached m hm]
      exact fun hsettled => by cases hsettled
    · by_cases hne : m = n
      · rw [hne]
        exact fun _ => h.settled n (by rw [hf.was]; rfl)
      · rw [hf.other m hm hne]
        exact h.settled m
  · rw [hf.outcome]
    intro hsome
    by_cases hm : m ∈ s.followers n
    · have hw := (mem_followers.mp hm).2
      exact absurd (h.outcome_none (by rw [hw]; rfl) (by rw [hw]; decide)) hsome
    · by_cases hne : m = n
      · rw [hne, hf.now]
        exact .inl rfl
      · rw [hf.other m hm hne]
        exact h.pending m hsome
  · rw [hf.made]
    intro hw
    by_cases hm : m ∈ s.followers n
    · obtain ⟨c, hc, -⟩ := (mem_followers.mp hm).1
      exact (List.getElem?_eq_some_iff.mp hc).1
    · by_cases hne : m = n
      · rw [hne]
        exact h.known n (by rw [hf.was]; decide)
      · rw [hf.other m hm hne] at hw
        exact h.known m hw

theorem Sound.fulfil (h : s.Sound) (hjobs : s.jobs = n :: rest) (hphase : s.phase n = .resolved) :
    Sound (fulfil { s with jobs := rest } n) := by
  have htracks := h.books.jobs
  rw [hjobs] at htracks
  have hself : n ∉ s.followers n := fun hmem => by
    have hw := (mem_followers.mp hmem).2
    rw [hphase] at hw
    cases hw
  have hne : ∀ m ∈ s.followers n, m ≠ n := fun m hm heq => hself (heq ▸ hm)
  have hwas : ∀ m ∈ s.followers n, Function.update s.phase n .tailed m = .waiting := fun m hm => by
    rw [Function.update_of_ne (hne m hm)]
    exact (mem_followers.mp hm).2
  have honce : (s.followers n).Nodup := List.nodup_range.filter _
  have hf : Fulfils n s (Serializer.fulfil { s with jobs := rest } n) := by
    refine ⟨rfl, rfl, rfl, hphase, ?_, fun m hm => if_pos hm, fun m hm hmn => ?_⟩
    · exact (if_neg hself).trans (Function.update_self _ _ _)
    · exact (if_neg hm).trans (Function.update_of_ne hmn _ _)
  refine ⟨h.books.fulfil hf ?_ ?_ ?_, h.chained.fulfil hf, h.inOrder⟩
  · have hturn := (htracks.turn (x := .tailed) rfl).append honce (fun m hm => by rw [hwas m hm]; rfl) (x := .reached) rfl
    rwa [List.append_assoc, List.singleton_append] at hturn
  · exact (h.books.stack.stay (by rw [hphase]; rfl)).stayAll fun m hm => by rw [hwas m hm]; rfl
  · exact (h.books.started.stay (by rw [hphase]; rfl)).stayAll fun m hm => by rw [hwas m hm]; rfl

theorem Sound.drop (h : s.Sound) (hjobs : s.jobs = n :: rest) (hphase : s.phase n = .tailed) :
    Sound (drop { s with jobs := rest } n) := by
  have htracks := h.books.jobs
  rw [hjobs] at htracks
  have hn : s.phase n ≠ .waiting := by rw [hphase]; decide
  obtain ⟨c, hc⟩ := h.books.exists_made hn
  have htails : (Serializer.drop { s with jobs := rest } n).tails =
      if Assoc.lookup c.key s.tails = some n then Assoc.erase c.key s.tails else s.tails := by
    simp only [Serializer.drop, hc]
  refine ⟨h.books.move rfl rfl rfl (htracks.pop rfl) (h.books.stack.stay ?_) (h.books.started.stay ?_) hn
    (fun _ => h.books.settled n (by rw [hphase]; rfl)) fun _ => .inl rfl,
    h.chained.update rfl rfl hn (by decide) (by rw [hphase]; rfl) (fun hi => by cases hi) (fun _ => rfl) (fun key p hp => ?_)
      fun key hnone m d hd hkey => ?_, h.inOrder⟩
  · rw [hphase]; rfl
  · rw [hphase]; rfl
  · left
    rw [htails] at hp
    by_cases hown : Assoc.lookup c.key s.tails = some n
    · rw [if_pos hown, Assoc.lookup_erase] at hp
      split_ifs at hp with hkey
      refine ⟨hp, fun hpn => absurd ?_ hkey⟩
      obtain ⟨⟨c', hc', hkey'⟩, -, -⟩ := h.chained.tail key p hp
      rw [hpn] at hc'
      exact Option.some.inj (hc.symm.trans hc') ▸ hkey'
    · rw [if_neg hown] at hp
      refine ⟨hp, fun hpn => absurd ?_ hown⟩
      obtain ⟨⟨c', hc', hkey'⟩, -, -⟩ := h.chained.tail key p hp
      rw [hpn] at hc' hp
      obtain rfl := Option.some.inj (hc.symm.trans hc')
      rw [hkey', hp]
  · rw [htails] at hnone
    have hstay : Assoc.lookup key s.tails = none → (s.phase m).fulfilled = true ∨ m ≠ n ∧ s.phase m = .invoked ∧ d.previous = none := by
      intro hbefore
      rcases h.chained.noTail key hbefore m d hd hkey with hf | hi
      · exact .inl hf
      · refine .inr ⟨fun hm => ?_, hi⟩
        rw [hm, hphase] at hi
        cases hi.1
    by_cases hown : Assoc.lookup c.key s.tails = some n
    · rw [if_pos hown, Assoc.lookup_erase] at hnone
      by_cases hck : c.key = key
      · left
        obtain ⟨-, -, hlast⟩ := h.chained.tail c.key n hown
        rcases lt_trichotomy m n with hlt | rfl | hgt
        · exact h.chained.order m n d c hlt hd hc (hkey.trans hck.symm) hn
        · rw [hphase]; rfl
        · exact absurd (hkey.trans hck.symm) (hlast m d hgt hd)
      · rw [if_neg hck] at hnone
        exact hstay hnone
    · rw [if_neg hown] at hnone
      exact hstay hnone

theorem Sound.advance (h : s.Sound) (hjobs : s.jobs = n :: rest) :
    Sound (advance { s with jobs := rest } n) := by
  have htracks := h.books.jobs
  rw [hjobs] at htracks
  have hqueued : (s.phase n).queued = true := (htracks.mem n).mp List.mem_cons_self
  have hsettled := h.books.settled n
  cases hphase : s.phase n with
  | reached =>
    simp only [Serializer.advance, hphase]
    have hnone := h.books.outcome_none (n := n) (by rw [hphase]; rfl) (by rw [hphase]; decide)
    exact h.turn hjobs rfl rfl (by rw [hphase]; rfl) (by rw [hphase]; rfl) (fun hs => by cases hs) fun hsome => absurd hnone hsome
  | caught =>
    simp only [Serializer.advance, hphase]
    exact h.invokeCaught hjobs hphase
  | adopting =>
    simp only [Serializer.advance, hphase]
    by_cases hnone : s.outcome n = none
    · rw [if_neg (not_not.mpr hnone)]
      exact h.subscribe hjobs hphase hnone
    · rw [if_pos hnone]
      exact h.turn hjobs rfl rfl (by rw [hphase]; rfl) (by rw [hphase]; rfl) (fun _ => hnone) fun _ => .inl rfl
  | answered =>
    simp only [Serializer.advance, hphase]
    exact h.turn hjobs rfl rfl (by rw [hphase]; rfl) (by rw [hphase]; rfl) (fun _ => hsettled (by rw [hphase]; rfl)) fun _ => .inl rfl
  | resolved =>
    simp only [Serializer.advance, hphase]
    exact h.fulfil hjobs hphase
  | tailed =>
    simp only [Serializer.advance, hphase]
    exact h.drop hjobs hphase
  | waiting => rw [hphase] at hqueued; cases hqueued
  | invoked => rw [hphase] at hqueued; cases hqueued
  | following => rw [hphase] at hqueued; cases hqueued
  | dropped => rw [hphase] at hqueued; cases hqueued

theorem Sound.tick (h : s.Sound) : s.tick.Sound := by
  unfold Serializer.tick
  split
  · rename_i hjobs
    exact h.advance hjobs
  · exact h

/-! ### The other steps -/

/-- The promise of a call that subscribed to it settles. -/
theorem Sound.answer (h : s.Sound) (outcome : Outcome) (hphase : s.phase n = .following) (hx : x = .resolved ∨ x = .answered) :
    Sound (queue { s with outcome := Function.update s.outcome n (some outcome) } n x) := by
  have hn : s.phase n ≠ .waiting := by rw [hphase]; decide
  have hqueued : x.queued = true := by rcases hx with rfl | rfl <;> rfl
  have hstarted : x.started = true := by rcases hx with rfl | rfl <;> rfl
  have hsettled : x.settled = true := by rcases hx with rfl | rfl <;> rfl
  have hopen : x.fulfilled = false := by rcases hx with rfl | rfl <;> rfl
  have hinvoked : x ≠ .invoked := by rcases hx with rfl | rfl <;> decide
  have hwaiting : x ≠ .waiting := by rcases hx with rfl | rfl <;> decide
  refine ⟨⟨h.books.jobs.snoc (by rw [hphase]; rfl) hqueued, h.books.stack.stay ?_, h.books.started.stay ?_, fun m => ?_,
    fun m => ?_, fun m => ?_⟩,
    h.chained.move rfl rfl rfl hn (by rw [hphase]; rfl) hwaiting hopen (fun hor => ?_) fun _ => hstarted, h.inOrder⟩
  · rw [hphase, decide_eq_false hinvoked]; rfl
  · rw [hphase, hstarted]; rfl
  · simp only [queue, Function.update_apply]
    split_ifs
    · exact fun _ => Option.some_ne_none _
    · exact h.books.settled m
  · simp only [queue, Function.update_apply]
    split_ifs
    · exact fun _ => .inl hsettled
    · exact h.books.pending m
  · simp only [queue, Function.update_apply]
    split_ifs with hm
    · exact fun _ => hm ▸ h.books.known n hn
    · exact h.books.known m
  · rw [hphase] at hor
    rcases hor with hi | hi
    · cases hi
    · exact absurd hi hinvoked

theorem Sound.settle (h : s.Sound) (n : ℕ) (outcome : Outcome) : (s.settle n outcome).Sound := by
  unfold Serializer.settle
  by_cases hsome : s.outcome n ≠ none
  · rw [if_pos hsome]
    exact h
  rw [if_neg hsome]
  dsimp only
  split
  · rename_i hphase
    refine ⟨⟨h.books.jobs, h.books.stack, h.books.started, fun m hs => ?_, fun m hs => ?_, h.books.known⟩,
      ⟨h.chained.behind, h.chained.waits, h.chained.atOnce, h.chained.order, h.chained.tail, h.chained.noTail, h.chained.last⟩,
      h.inOrder⟩
    · simp only [Function.update_apply]
      split_ifs
      · exact Option.some_ne_none _
      · exact h.books.settled m hs
    · by_cases hm : m = n
      · exact .inr (hm ▸ hphase)
      · simp only [Function.update_of_ne hm] at hs
        exact h.books.pending m hs
  · rename_i hphase
    refine h.answer outcome hphase ?_
    split_ifs
    · exact .inl rfl
    · exact .inr rfl
  · exact h

theorem Sound.returned (h : s.Sound) : s.returned.Sound := by
  unfold Serializer.returned
  rcases hstack : s.stack with _ | ⟨n, rest⟩
  · exact h
  have htracks := h.books.stack
  rw [hstack] at htracks
  have hphase : s.phase n = .invoked := of_decide_eq_true ((htracks.mem n).mp List.mem_cons_self)
  have hn : s.phase n ≠ .waiting := by rw [hphase]; decide
  have hnone := h.books.outcome_none (n := n) (by rw [hphase]; rfl) (by rw [hphase]; decide)
  obtain ⟨⟨key, previous⟩, hc⟩ := h.books.exists_made hn
  rcases previous with _ | previous
  · simp only [hc]
    have hlast := h.chained.last n _ hphase hc rfl
    refine ⟨h.books.move rfl rfl rfl (h.books.jobs.stay ?_) (htracks.pop rfl) (h.books.started.stay ?_) hn
      (fun hs => by cases hs) fun hsome => absurd hnone hsome,
      h.chained.update rfl rfl hn (by decide) (by rw [hphase]; rfl) (fun hi => by cases hi) (fun _ => rfl) (fun k p hp => ?_)
        fun k hnone m d hd hkey => ?_, h.inOrder⟩
    · rw [hphase]; rfl
    · rw [hphase]; rfl
    · rw [Assoc.lookup_assign] at hp
      split_ifs at hp with hkey
      · exact .inr ⟨(Option.some.inj hp).symm, by decide, ⟨_, hc, hkey⟩, fun m d hlt hd => hkey ▸ hlast m d hlt hd⟩
      · exact .inl ⟨hp, fun _ => by decide⟩
    · rw [Assoc.lookup_assign] at hnone
      split_ifs at hnone with hne
      rcases h.chained.noTail k hnone m d hd hkey with hf | hi
      · exact .inl hf
      · refine .inr ⟨fun hm => hne ?_, hi⟩
        rw [hm] at hd
        rw [← hkey, ← Option.some.inj (hc.symm.trans hd)]
  · simp only [hc]
    refine ⟨h.books.move rfl rfl rfl (h.books.jobs.snoc ?_ rfl) (htracks.pop rfl) (h.books.started.stay ?_) hn
      (fun hs => by cases hs) fun hsome => absurd hnone hsome,
      h.chained.move rfl rfl rfl hn (by rw [hphase]; rfl) (by decide) rfl (fun _ => ?_) fun _ => rfl, h.inOrder⟩
    · rw [hphase]; rfl
    · rw [hphase]; rfl
    · rw [direct, hc]; rfl

/-- A call joins its key: behind the tail it finds, or at once where there is none. -/
theorem Chained.join (h : s.Chained) (hmade : s'.made = s.made ++ [⟨key, Assoc.lookup key s.tails⟩])
    (hphase : s'.phase = Function.update s.phase s.made.length x) (hopen : x.fulfilled = false)
    (hbehind : ∀ p, Assoc.lookup key s.tails = some p → (x = .waiting ↔ (s.phase p).fulfilled = false) ∧
      s'.tails = Assoc.assign key s.made.length s.tails)
    (hnone : Assoc.lookup key s.tails = none → x = .invoked ∧ s'.tails = s.tails)
    (hapart : ∀ m c, s.phase m = .invoked → s.made[m]? = some c → c.previous = none → c.key ≠ key) : s'.Chained := by
  have hself : s'.phase s.made.length = x := by rw [hphase, Function.update_self]
  have hlt : ∀ {m : ℕ} {c : Made K}, s.made[m]? = some c → m < s.made.length := fun hc => (List.getElem?_eq_some_iff.mp hc).1
  have hother : ∀ {m : ℕ} {c : Made K}, s.made[m]? = some c → s'.phase m = s.phase m := fun hc => by
    rw [hphase, Function.update_of_ne (Indexed.ne_length hc)]
  have hdropped : x ≠ .dropped := fun hd => by rw [hd] at hopen; cases hopen
  refine ⟨?_, ?_, ?_, ?_, ?_, ?_, ?_⟩
  · intro m c p hc hp
    rw [hmade] at hc ⊢
    rcases Indexed.of_snoc hc with hc | ⟨rfl, rfl⟩
    · obtain ⟨hpm, ⟨d, hd, hkey⟩, hbetween⟩ := h.behind m c p hc hp
      refine ⟨hpm, ⟨d, Indexed.snoc_at _ hd, hkey⟩, fun m' d' hpm' hm'm hd' => ?_⟩
      rcases Indexed.of_snoc hd' with hd' | ⟨rfl, -⟩
      · exact hbetween m' d' hpm' hm'm hd'
      · exact absurd (hlt hc) (by omega)
    · obtain ⟨⟨d, hd, hkey⟩, -, hlast⟩ := h.tail key p hp
      refine ⟨hlt hd, ⟨d, Indexed.snoc_at _ hd, hkey⟩, fun m' d' hpm' hm' hd' => ?_⟩
      rcases Indexed.of_snoc hd' with hd' | ⟨rfl, -⟩
      · exact hlast m' d' hpm' hd'
      · exact absurd hm' (lt_irrefl _)
  · intro m c p hc hp
    rw [hmade] at hc
    rcases Indexed.of_snoc hc with hc | ⟨rfl, rfl⟩
    · obtain ⟨-, ⟨d, hd, -⟩, -⟩ := h.behind m c p hc hp
      rw [hother hc, hother hd]
      exact h.waits m c p hc hp
    · obtain ⟨⟨d, hd, -⟩, -, -⟩ := h.tail key p hp
      rw [hself, hother hd]
      exact (hbehind p hp).1
  · intro m c hc hp
    rw [hmade] at hc
    rcases Indexed.of_snoc hc with hc | ⟨rfl, rfl⟩
    · rw [hother hc]
      exact h.atOnce m c hc hp
    · rw [hself, (hnone hp).1]
      rfl
  · intro m m' c d hmm' hc hd hkey hw
    rw [hmade] at hc hd
    rcases Indexed.of_snoc hc with hc | ⟨rfl, rfl⟩
    · rw [hother hc]
      rcases Indexed.of_snoc hd with hd | ⟨rfl, rfl⟩
      · exact h.order m m' c d hmm' hc hd hkey (hother hd ▸ hw)
      · rw [hself] at hw
        rcases hlookup : Assoc.lookup key s.tails with _ | p
        · rcases h.noTail key hlookup m c hc hkey with hf | ⟨hi, hp⟩
          · exact hf
          · exact absurd hkey (hapart m c hi hc hp)
        · obtain ⟨⟨e, he, hekey⟩, -, hlast⟩ := h.tail key p hlookup
          have hdone : (s.phase p).fulfilled = true := by
            by_contra hnot
            exact hw ((hbehind p hlookup).1.mpr (Bool.eq_false_of_not_eq_true hnot))
          rcases lt_trichotomy m p with hmp | rfl | hpm
          · exact h.order m p c e hmp hc he (hkey.trans hekey.symm) fun hwaiting => by rw [hwaiting] at hdone; cases hdone
          · exact hdone
          · exact absurd hkey (hlast m c hpm hc)
    · have hd' := (List.getElem?_eq_some_iff.mp hd).1
      rw [List.length_append, List.length_singleton] at hd'
      omega
  · intro k p hp
    rw [hmade]
    have hold : Assoc.lookup k s.tails = some p → k ≠ key → (∃ c : Made K,
        (s.made ++ [⟨key, Assoc.lookup key s.tails⟩])[p]? = some c ∧ c.key = k) ∧ s'.phase p ≠ .dropped ∧
        ∀ (m : ℕ) (d : Made K), p < m → (s.made ++ [⟨key, Assoc.lookup key s.tails⟩])[m]? = some d → d.key ≠ k := by
      intro hbefore hk
      obtain ⟨⟨c, hc, hkey⟩, hkept, hlast⟩ := h.tail k p hbefore
      refine ⟨⟨c, Indexed.snoc_at _ hc, hkey⟩, by rwa [hother hc], fun m d hpm hd => ?_⟩
      rcases Indexed.of_snoc hd with hd | ⟨-, rfl⟩
      · exact hlast m d hpm hd
      · exact Ne.symm hk
    rcases hlookup : Assoc.lookup key s.tails with _ | previous
    · rw [(hnone hlookup).2] at hp
      rw [hlookup] at hold
      exact hold hp fun hk => by rw [hk, hlookup] at hp; cases hp
    · rw [(hbehind previous hlookup).2, Assoc.lookup_assign] at hp
      rw [hlookup] at hold
      split_ifs at hp with hk
      · obtain rfl := Option.some.inj hp
        refine ⟨⟨_, Indexed.snoc_last _ _, hk⟩, by rwa [hself], fun m d hm hd => ?_⟩
        have hd' := (List.getElem?_eq_some_iff.mp hd).1
        rw [List.length_append, List.length_singleton] at hd'
        omega
      · exact hold hp (Ne.symm hk)
  · intro k hk m d hd hkey
    rw [hmade] at hd
    rcases hlookup : Assoc.lookup key s.tails with _ | previous
    · rw [(hnone hlookup).2] at hk
      rcases Indexed.of_snoc hd with hd | ⟨rfl, rfl⟩
      · rw [hother hd]
        exact h.noTail k hk m d hd hkey
      · exact .inr ⟨hself.trans (hnone hlookup).1, hlookup⟩
    · rw [(hbehind previous hlookup).2, Assoc.lookup_assign] at hk
      split_ifs at hk with hne
      rcases Indexed.of_snoc hd with hd | ⟨rfl, rfl⟩
      · rw [hother hd]
        exact h.noTail k hk m d hd hkey
      · exact absurd hkey hne
  · intro m c hi hc hp m' d hmm' hd
    rw [hmade] at hc hd
    rcases Indexed.of_snoc hc with hc | ⟨rfl, rfl⟩
    · rw [hother hc] at hi
      rcases Indexed.of_snoc hd with hd | ⟨-, rfl⟩
      · exact h.last m c hi hc hp m' d hmm' hd
      · exact Ne.symm (hapart m c hi hc hp)
    · have hd' := (List.getElem?_eq_some_iff.mp hd).1
      rw [List.length_append, List.length_singleton] at hd'
      omega

omit [DecidableEq K] in
theorem Books.fresh (h : s.Books) : s.phase s.made.length = .waiting ∧ s.outcome s.made.length = none := by
  have hphase : s.phase s.made.length = .waiting := by
    by_contra hw
    exact absurd (h.known _ hw) (lt_irrefl _)
  exact ⟨hphase, h.outcome_none (by rw [hphase]; rfl) (by rw [hphase]; decide)⟩

omit [DecidableEq K] in
theorem Books.join (h : s.Books) {call : Made K} (hmade : s'.made = s.made ++ [call]) (houtcome : s'.outcome = s.outcome)
    (hphase : s'.phase = Function.update s.phase s.made.length x) (hx : x.settled = false)
    (hjobs : Tracks Phase.queued s'.jobs s'.phase) (hstack : Tracks (fun phase => phase = .invoked) s'.stack s'.phase)
    (hstarted : Tracks Phase.started s'.started s'.phase) : s'.Books := by
  refine ⟨hjobs, hstack, hstarted, fun m => ?_, fun m => ?_, fun m hw => ?_⟩
  · rw [hphase, houtcome, Function.update_apply]
    split_ifs
    · rw [hx]
      exact fun hs => by cases hs
    · exact h.settled m
  · rw [hphase, houtcome, Function.update_apply]
    split_ifs with hm
    · rw [hm]
      exact fun hsome => absurd h.fresh.2 hsome
    · exact h.pending m
  · rw [hmade, List.length_append, List.length_singleton]
    by_cases hm : m = s.made.length
    · omega
    · rw [hphase, Function.update_of_ne hm] at hw
      exact (h.known m hw).trans (Nat.lt_succ_self _)

theorem Sound.known_started (h : s.Sound) (hm : m ∈ s.started) : m < s.made.length :=
  h.books.known m fun hw => by
    have hstarted := (h.books.started.mem m).mp hm
    rw [hw] at hstarted
    cases hstarted

theorem Sound.inOrder_join (h : s.Sound) (call : Made K) :
    s.started.Pairwise fun m n => ∀ c d : Made K, (s.made ++ [call])[m]? = some c → (s.made ++ [call])[n]? = some d →
      c.key = d.key → m < n := by
  refine List.Pairwise.imp_of_mem (fun {m n} hm hn hbefore c d hc hd hkey => ?_) h.inOrder
  rw [List.getElem?_append_left (h.known_started hm)] at hc
  rw [List.getElem?_append_left (h.known_started hn)] at hd
  exact hbefore c d hc hd hkey

theorem Sound.run (h : s.Sound) (hapart : s.Apart (.run key)) : (s.run key).Sound := by
  obtain ⟨hfresh, -⟩ := h.books.fresh
  have hkeys : ∀ m c, s.phase m = .invoked → s.made[m]? = some c → c.previous = none → c.key ≠ key := fun m c hi hc hp =>
    hapart m ((h.books.stack.mem m).mpr (decide_eq_true hi)) c hc hp
  unfold Serializer.run
  rcases hlookup : Assoc.lookup key s.tails with _ | p
  · simp only
    refine ⟨h.books.join rfl rfl rfl rfl (h.books.jobs.stay ?_) (h.books.stack.cons ?_ rfl) (h.books.started.snoc ?_ rfl),
      h.chained.join (by rw [hlookup]; rfl) rfl rfl (fun p hp => by rw [hlookup] at hp; cases hp) (fun _ => ⟨rfl, rfl⟩) hkeys, ?_⟩
    · rw [hfresh]; rfl
    · rw [hfresh]; rfl
    · rw [hfresh]; rfl
    · refine List.pairwise_append.mpr ⟨h.inOrder_join _, List.pairwise_singleton _ _, fun m hm n hn _ _ _ _ _ => ?_⟩
      rw [List.mem_singleton.mp hn]
      exact h.known_started hm
  · have hjoined : ∀ q, Assoc.lookup key s.tails = some q → q = p := fun q hq => Option.some.inj (hq.symm.trans hlookup)
    simp only
    by_cases hdone : (s.phase p).fulfilled = true
    · rw [if_pos hdone]
      refine ⟨h.books.join rfl rfl rfl rfl (h.books.jobs.snoc ?_ rfl) (h.books.stack.stay ?_) (h.books.started.stay ?_),
        h.chained.join (by rw [hlookup]; rfl) rfl rfl (fun q hq => ⟨?_, rfl⟩) (fun hn => by rw [hlookup] at hn; cases hn) hkeys,
        h.inOrder_join _⟩
      · rw [hfresh]; rfl
      · rw [hfresh]; rfl
      · rw [hfresh]; rfl
      · rw [hjoined q hq, hdone]
        exact iff_of_false (by decide) (by decide)
    · rw [if_neg hdone]
      have hsame : s.phase = Function.update s.phase s.made.length .waiting := by
        rw [← hfresh, Function.update_eq_self]
      refine ⟨h.books.join rfl rfl hsame rfl h.books.jobs h.books.stack h.books.started,
        h.chained.join (by rw [hlookup]) hsame rfl (fun q hq => ⟨?_, rfl⟩) (fun hn => by rw [hlookup] at hn; cases hn) hkeys,
        h.inOrder_join _⟩
      rw [hjoined q hq]
      exact iff_of_true rfl (Bool.eq_false_of_not_eq_true hdone)

theorem Sound.step (h : s.Sound) (label : Label K) (hapart : s.Apart label) : (s.step label).Sound := by
  cases label with
  | run key => exact h.run hapart
  | returned => exact h.returned
  | settle number outcome => exact h.settle number outcome
  | tick => exact h.tick

theorem Sound.empty : ({} : Serializer K).Sound := by
  have htracks : ∀ p : Phase → Bool, p .waiting = false → Tracks p [] fun _ => .waiting := fun p hp =>
    ⟨List.nodup_nil, fun n => by rw [hp]; simp⟩
  have hnone : ∀ {n : ℕ} {c : Made K}, ¬ ([] : List (Made K))[n]? = some c := fun hc => by cases hc
  refine ⟨⟨htracks _ rfl, htracks _ rfl, htracks _ rfl, fun _ hs => ?_, fun _ hs => absurd rfl hs, fun _ hw => absurd rfl hw⟩,
    ⟨fun _ _ _ hc => absurd hc hnone, fun _ _ _ hc => absurd hc hnone, fun _ _ hc => absurd hc hnone,
      fun _ _ _ _ _ hc => absurd hc hnone, fun _ _ hp => ?_, fun _ _ _ _ hc => absurd hc hnone,
      fun _ _ _ hc => absurd hc hnone⟩, .nil⟩
  · cases hs
  · cases hp

/-! ### What follows -/

theorem Sound.apart (h : s.Sound) {c d : Made K} (hc : s.made[m]? = some c) (hd : s.made[n]? = some d) (hkey : c.key = d.key)
    (hlt : m < n) : ¬ (s.Running m ∧ s.Running n) := by
  rintro ⟨⟨-, hopen⟩, hstarted, -⟩
  have hphase := (h.books.started.mem n).mp hstarted
  have hdone := h.chained.order m n c d hlt hc hd hkey fun hw => by rw [hw] at hphase; cases hphase
  exact h.books.settled m (Phase.settled_of_fulfilled hdone) hopen

/-- With no microtask queued and nothing on the stack, a call waits, or its operation runs, or it is done with. -/
theorem Sound.phases_of_idle (h : s.Sound) (hidle : s.Idle) (n : ℕ) :
    s.phase n = .waiting ∨ s.phase n = .following ∨ s.phase n = .dropped := by
  have hjobs : (s.phase n).queued = false := by
    have hmem := h.books.jobs.mem n
    rw [hidle.2] at hmem
    exact Bool.eq_false_of_not_eq_true fun hq => List.not_mem_nil (hmem.mpr hq)
  have hstack : s.phase n ≠ .invoked := fun hi => by
    have hmem := (h.books.stack.mem n).mpr (decide_eq_true hi)
    rw [hidle.1] at hmem
    exact List.not_mem_nil hmem
  cases hphase : s.phase n <;> rw [hphase] at hjobs hstack <;> simp_all [Phase.queued]

theorem Sound.starts (h : s.Sound) (hidle : s.Idle) {d : Made K} (hd : s.made[n]? = some d) :
    n ∈ s.started ∨ ∃ m < n, ∃ c, s.made[m]? = some c ∧ c.key = d.key ∧ s.Running m := by
  induction n using Nat.strong_induction_on generalizing d with
  | _ n ih =>
    rcases h.phases_of_idle hidle n with hphase | hphase | hphase
    · right
      rcases hprevious : d.previous with _ | p
      · have hstarted := h.chained.atOnce n d hd hprevious
        rw [hphase] at hstarted
        cases hstarted
      · obtain ⟨hpn, ⟨e, he, hkey⟩, -⟩ := h.chained.behind n d p hd hprevious
        have hopen := (h.chained.waits n d p hd hprevious).mp hphase
        rcases ih p hpn he with hstarted | ⟨m, hmp, c, hc, hck, hrunning⟩
        · refine ⟨p, hpn, e, he, hkey, hstarted, h.books.outcome_none ?_ ?_⟩
          all_goals
            rcases h.phases_of_idle hidle p with hp | hp | hp
            · rw [hp]; decide
            · rw [hp]; decide
            · rw [hp] at hopen; cases hopen
        · exact ⟨m, hmp.trans hpn, c, hc, hck.trans hkey, hrunning⟩
    · exact .inl ((h.books.started.mem n).mpr (by rw [hphase]; rfl))
    · exact .inl ((h.books.started.mem n).mpr (by rw [hphase]; rfl))

theorem Sound.drops (h : s.Sound) (hidle : s.Idle) (hsettled : ∀ n d, s.made[n]? = some d → d.key = key → s.outcome n ≠ none) :
    Assoc.lookup key s.tails = none := by
  by_contra hsome
  obtain ⟨p, hp⟩ := Option.ne_none_iff_exists'.mp hsome
  obtain ⟨⟨c, hc, hkey⟩, hkept, -⟩ := h.chained.tail key p hp
  have hdone := hsettled p c hc hkey
  rcases h.phases_of_idle hidle p with hphase | hphase | hphase
  · exact hdone (h.books.outcome_none (by rw [hphase]; rfl) (by rw [hphase]; decide))
  · exact hdone (h.books.outcome_none (by rw [hphase]; rfl) (by rw [hphase]; decide))
  · exact hkept hphase

/-! ### The microtasks come to an end -/

/-- What is left of the calls made so far. -/
def remaining (s : Serializer K) : ℕ := ∑ n ∈ Finset.range s.made.length, (9 - (s.phase n).rank)

/-- A step of one call, which takes no other back. -/
structure Further (n : ℕ) (s s' : Serializer K) : Prop where
  made : s'.made = s.made
  le : ∀ m, (s.phase m).rank ≤ (s'.phase m).rank
  lt : (s.phase n).rank < (s'.phase n).rank

omit [DecidableEq K] in
theorem Further.remaining_lt (h : Further n s s') (hn : n < s.made.length) : s'.remaining < s.remaining := by
  rw [remaining, remaining, h.made]
  refine Finset.sum_lt_sum (fun m _ => Nat.sub_le_sub_left (h.le m) 9) ⟨n, Finset.mem_range.mpr hn, ?_⟩
  have hlt := h.lt
  have hle := (s'.phase n).rank_le
  omega

omit [DecidableEq K] in
theorem Further.update (hmade : s'.made = s.made) (hphase : s'.phase = Function.update s.phase n x)
    (hlt : (s.phase n).rank < x.rank) : Further n s s' := by
  refine ⟨hmade, fun m => ?_, ?_⟩
  · rw [hphase, Function.update_apply]
    split_ifs with hm
    · exact hm ▸ hlt.le
    · exact le_refl _
  · rwa [hphase, Function.update_self]

theorem further_advance (h : (s.phase n).queued = true) : Further n s (s.advance n) := by
  cases hphase : s.phase n with
  | reached =>
    exact Further.update (x := .caught) (by simp [advance, hphase, queue]) (by simp [advance, hphase, queue]) (by rw [hphase]; decide)
  | caught =>
    exact Further.update (x := .invoked) (by simp [advance, hphase, invoke]) (by simp [advance, hphase, invoke]) (by rw [hphase]; decide)
  | adopting =>
    by_cases hnone : s.outcome n = none
    · exact Further.update (x := .following) (by simp [advance, hphase, hnone]) (by simp [advance, hphase, hnone])
        (by rw [hphase]; decide)
    · exact Further.update (x := .answered) (by simp [advance, hphase, hnone, queue]) (by simp [advance, hphase, hnone, queue])
        (by rw [hphase]; decide)
  | answered =>
    exact Further.update (x := .resolved) (by simp [advance, hphase, queue]) (by simp [advance, hphase, queue]) (by rw [hphase]; decide)
  | resolved =>
    have hself : n ∉ s.followers n := fun hmem => by
      have hw := (mem_followers.mp hmem).2
      rw [hphase] at hw
      cases hw
    rw [advance, hphase]
    refine ⟨rfl, fun m => ?_, ?_⟩
    · simp only [fulfil, Function.update_apply]
      split_ifs with hm hmn
      · rw [(mem_followers.mp hm).2]; decide
      · rw [hmn, hphase]; decide
      · exact le_refl _
    · simp only [fulfil, if_neg hself, Function.update_self, hphase]
      decide
  | tailed =>
    exact Further.update (x := .dropped) (by simp [advance, hphase, drop]) (by simp [advance, hphase, drop]) (by rw [hphase]; decide)
  | waiting => rw [hphase] at h; cases h
  | invoked => rw [hphase] at h; cases h
  | following => rw [hphase] at h; cases h
  | dropped => rw [hphase] at h; cases h

theorem further_returned (hstack : s.stack = n :: rest) (hphase : s.phase n = .invoked) :
    Further n s s.returned := by
  unfold Serializer.returned
  rw [hstack]
  dsimp only
  split
  · exact Further.update rfl rfl (by rw [hphase]; decide)
  · exact Further.update rfl rfl (by rw [hphase]; decide)

/-- A state with a microtask queued or an operation on the stack has a step that takes some call further. -/
theorem Sound.exists_further (h : s.Sound) (hidle : ¬ s.Idle) :
    ∃ label : Label K, (label = .tick ∨ label = .returned) ∧ ∃ n, n < s.made.length ∧ Further n s (s.step label) := by
  rcases hstack : s.stack with _ | ⟨n, rest⟩
  · rcases hjobs : s.jobs with _ | ⟨n, rest⟩
    · exact absurd ⟨hstack, hjobs⟩ hidle
    · have hqueued := (h.books.jobs.mem n).mp (hjobs ▸ List.mem_cons_self)
      have hn : s.phase n ≠ .waiting := fun hw => by rw [hw] at hqueued; cases hqueued
      refine ⟨.tick, .inl rfl, n, h.books.known n hn, ?_⟩
      have hfurther := further_advance (s := { s with jobs := rest }) hqueued
      have htick : s.step .tick = Serializer.advance { s with jobs := rest } n := by
        rw [Serializer.step, Serializer.tick.eq_def, hstack, hjobs]
      rw [htick]
      exact ⟨hfurther.made, hfurther.le, hfurther.lt⟩
  · have hphase := of_decide_eq_true ((h.books.stack.mem n).mp (hstack ▸ List.mem_cons_self))
    exact ⟨.returned, .inr rfl, n, h.books.known n (by rw [hphase]; decide), further_returned hstack hphase⟩

theorem Sound.goesIdle (h : s.Sound) : ∃ labels : List (Label K), (∀ label ∈ labels, label = .tick ∨ label = .returned) ∧
    (Lib.run Serializer.step s labels).Idle := by
  induction hremaining : s.remaining using Nat.strong_induction_on generalizing s with
  | _ left ih =>
    by_cases hidle : s.Idle
    · exact ⟨[], fun _ hl => absurd hl List.not_mem_nil, hidle⟩
    · obtain ⟨label, hlabel, n, hn, hfurther⟩ := h.exists_further hidle
      have hapart : s.Apart label := by rcases hlabel with rfl | rfl <;> trivial
      obtain ⟨labels, hlabels, hlast⟩ := ih _ (hremaining ▸ hfurther.remaining_lt hn) (h.step label hapart) rfl
      exact ⟨label :: labels, List.forall_mem_cons.mpr ⟨hlabel, hlabels⟩, hlast⟩

theorem Sound.serial (h : s.Sound) : s.Serial := by
  refine ⟨fun m n c d hc hd hkey hne => ?_, h.books.started.once, h.inOrder, fun hidle n d hd => h.starts hidle hd,
    fun hidle key hsettled => h.drops hidle hsettled, h.goesIdle⟩
  rcases lt_or_gt_of_ne hne with hlt | hlt
  · exact h.apart hc hd hkey hlt
  · exact fun hboth => h.apart hd hc hkey.symm hlt hboth.symm

/-! ### A rejection is like any other settlement -/

/-- The same run with every rejection a resolution. -/
def asResolved (s : Serializer K) : Serializer K := { s with outcome := fun n => (s.outcome n).map fun _ => .resolved }

omit [DecidableEq K] in
theorem asResolved_eq_none (s : Serializer K) (n : ℕ) : s.asResolved.outcome n = none ↔ s.outcome n = none :=
  Option.map_eq_none_iff

theorem asResolved_run (s : Serializer K) (key : K) : s.asResolved.run key = (s.run key).asResolved := by
  have htails : s.asResolved.tails = s.tails := rfl
  have hphase : s.asResolved.phase = s.phase := rfl
  unfold Serializer.run
  rw [htails]
  rcases Assoc.lookup key s.tails with _ | p
  · rfl
  · dsimp only
    rw [hphase]
    by_cases hf : (s.phase p).fulfilled = true
    · rw [if_pos hf, if_pos hf]
      rfl
    · rw [if_neg hf, if_neg hf]
      rfl

theorem asResolved_returned (s : Serializer K) : s.asResolved.returned = s.returned.asResolved := by
  have hstack : s.asResolved.stack = s.stack := rfl
  have hmade : s.asResolved.made = s.made := rfl
  unfold Serializer.returned
  rw [hstack, hmade]
  rcases s.stack with _ | ⟨n, rest⟩
  · rfl
  · dsimp only
    rcases s.made[n]? with _ | ⟨key, _ | p⟩ <;> rfl

omit [DecidableEq K] in
theorem asResolved_settle (s : Serializer K) (n : ℕ) (outcome : Outcome) :
    s.asResolved.settle n .resolved = (s.settle n outcome).asResolved := by
  have hphase : s.asResolved.phase = s.phase := rfl
  have hknown : ({ s.asResolved with outcome := Function.update s.asResolved.outcome n (some .resolved) } : Serializer K) =
      asResolved { s with outcome := Function.update s.outcome n (some outcome) } := by
    simp only [asResolved, Serializer.mk.injEq, true_and, and_true]
    funext m
    simp only [Function.update_apply]
    split_ifs <;> rfl
  unfold Serializer.settle
  by_cases hnone : s.outcome n = none
  · rw [if_neg (not_not.mpr ((s.asResolved_eq_none n).mpr hnone)), if_neg (not_not.mpr hnone), hknown, hphase]
    cases s.phase n <;> rfl
  · rw [if_pos fun h => hnone ((s.asResolved_eq_none n).mp h), if_pos hnone]

theorem asResolved_tick (s : Serializer K) : s.asResolved.tick = s.tick.asResolved := by
  have hstack : s.asResolved.stack = s.stack := rfl
  have hjobs : s.asResolved.jobs = s.jobs := rfl
  unfold Serializer.tick
  rw [hstack, hjobs]
  rcases s.stack with _ | ⟨top, stack⟩
  · rcases s.jobs with _ | ⟨n, rest⟩
    · rfl
    · dsimp only
      unfold Serializer.advance
      have hphase : s.asResolved.phase = s.phase := rfl
      rw [hphase]
      cases s.phase n with
      | adopting =>
        by_cases hnone : s.outcome n = none
        · rw [if_neg (not_not.mpr ((s.asResolved_eq_none n).mpr hnone)), if_neg (not_not.mpr hnone)]
          rfl
        · rw [if_pos fun h => hnone ((s.asResolved_eq_none n).mp h), if_pos hnone]
          rfl
      | _ => rfl
  · rfl

theorem step_asResolved (s : Serializer K) (label : Label K) : s.asResolved.step label.asResolved = (s.step label).asResolved := by
  cases label with
  | run key => exact s.asResolved_run key
  | returned => exact s.asResolved_returned
  | settle n outcome => exact s.asResolved_settle n outcome
  | tick => exact s.asResolved_tick

theorem run_asResolved (s : Serializer K) (labels : List (Label K)) :
    Lib.run step s.asResolved (labels.map Label.asResolved) = (Lib.run step s labels).asResolved := by
  induction labels generalizing s with
  | nil => rfl
  | cons label labels ih => rw [List.map_cons, Lib.run_cons, Lib.run_cons, step_asResolved, ih]

end Serializer

open Serializer

/-- Over every run in which no call is made for a key while an operation of that key, invoked by its own call, has yet to
return: what a serializer promises holds; and with every rejection a resolution the run is the same but for the outcomes. -/
theorem serial_of_apart {K : Type} [DecidableEq K] (labels : List (Label K)) (h : Lib.Meets step Apart {} labels) :
    (Lib.run step ({} : Serializer K) labels).Serial ∧
      Lib.run step {} (labels.map Label.asResolved) = (Lib.run step ({} : Serializer K) labels).asResolved :=
  ⟨(Lib.invariant_of_meets Sound (fun _ label hs hapart => hs.step label hapart) Sound.empty h).serial, run_asResolved {} labels⟩

instance {K : Type} [DecidableEq K] (s : Serializer K) : (label : Label K) → Decidable (s.Apart label)
  | .run key => inferInstanceAs (Decidable (∀ number ∈ s.stack, ∀ call ∈ s.made[number]?, call.previous = none → call.key ≠ key))
  | .returned | .settle _ _ | .tick => inferInstanceAs (Decidable True)

namespace Example

/-- An operation whose synchronous part calls `run` for another key, and a second one of its own key behind it. -/
def nested : List (Label ℕ) := [.run 0, .run 1, .returned, .returned, .run 0, .settle 0 .rejected, .tick, .tick, .tick, .tick, .tick]

end Example

theorem serial_of_apart_nested : (Lib.run step ({} : Serializer ℕ) Example.nested).Serial ∧
    (Lib.run step ({} : Serializer ℕ) Example.nested).started = [0, 1, 2] :=
  ⟨(serial_of_apart Example.nested (by decide)).1, by decide⟩

/-- An operation that calls `run` for its own key before it returns runs beside the operation of that call. -/
theorem reentered : ¬ ∀ labels : List (Label ℕ), (Lib.run step ({} : Serializer ℕ) labels).Serial := by
  intro h
  refine (h [.run 0, .run 0]).apart 0 1 ⟨0, none⟩ ⟨0, none⟩ rfl rfl rfl (by decide) ⟨⟨by decide, rfl⟩, by decide, rfl⟩

end Claxedo.Helpers.KeyedSerializer
