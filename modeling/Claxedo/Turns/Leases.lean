import Claxedo.Lib.Lists
import Claxedo.Lib.Run
import Claxedo.Lib.Table

/-! `TurnLeases`: the one-writer lease of each session's turn, and the callers in this process that wait for its holder. A
release frees the lease and hands it to the first of them in one step. -/

namespace Claxedo.Turns

open Claxedo.Lib

/-- How a caller's promise was resolved. -/
inductive Resolution where
  /-- Before it waited: with the lease it acquired, or `undefined` where its signal was aborted already. -/
  | now (lease : Option String)
  /-- By a release, with what the release acquired for it. -/
  | handed (lease : Option String)
  /-- By its signal, with `undefined`. -/
  | abandoned

def Resolution.lease : Resolution → Option String
  | .now lease | .handed lease => lease
  | .abandoned => none

def Resolution.isHanded : Resolution → Bool
  | .handed _ => true
  | _ => false

/-- The rows of `session_turn_lease`, one for a session, and the callers by number. -/
structure TurnLeases where
  leases : List (String × String) := []
  waiters : List (String × List ℕ) := []
  /-- The callers whose signal still has the listener. -/
  listening : List ℕ := []
  /-- The session each caller of `acquireOnRelease` asked for. -/
  callers : List String := []
  /-- Every call of a promise's `resolve`, in order. -/
  resolved : List (ℕ × Resolution) := []

/-- `uuid` is what `crypto.randomUUID` answers, should the step ask. -/
inductive LeaseLabel where
  | acquire (sessionId uuid : String)
  | release (sessionId leaseId uuid : String)
  | acquireOnRelease (sessionId uuid : String) (aborted : Bool)
  /-- The signal of a caller aborts. -/
  | abort (caller : ℕ)
  | clear

namespace TurnLeases

variable (s : TurnLeases)

/-- `INSERT OR IGNORE`: the lease, where the session has none. -/
def acquire (sessionId uuid : String) : Option String × TurnLeases :=
  match Assoc.lookup sessionId s.leases with
  | some _ => (none, s)
  | none =>
    let leaseId := sessionId ++ ":" ++ uuid
    (some leaseId, { s with leases := Assoc.assign sessionId leaseId s.leases })

def queue (sessionId : String) : List ℕ := (Assoc.lookup sessionId s.waiters).getD []

/-- The queue put back, or its entry dropped where nobody is left. -/
def putQueue (sessionId : String) (queue : List ℕ) : TurnLeases :=
  { s with
    waiters := if queue = [] then Assoc.erase sessionId s.waiters else Assoc.assign sessionId queue s.waiters }

def handOff (sessionId uuid : String) : TurnLeases :=
  match s.queue sessionId with
  | [] => s.putQueue sessionId []
  | next :: rest =>
    let (lease, s) := (s.putQueue sessionId rest).acquire sessionId uuid
    { s with listening := s.listening.filter (· ≠ next), resolved := s.resolved ++ [(next, .handed lease)] }

/-- Only the row of this very lease is deleted. -/
def release (sessionId leaseId uuid : String) : TurnLeases :=
  if Assoc.lookup sessionId s.leases = some leaseId then
    handOff { s with leases := Assoc.erase sessionId s.leases } sessionId uuid
  else s

def acquireOnRelease (sessionId uuid : String) (aborted : Bool) : TurnLeases :=
  let caller := s.callers.length
  let (now, s) := s.acquire sessionId uuid
  let s := { s with callers := s.callers ++ [sessionId] }
  if now ≠ none ∨ aborted then { s with resolved := s.resolved ++ [(caller, .now now)] }
  else
    putQueue { s with listening := s.listening ++ [caller] } sessionId (s.queue sessionId ++ [caller])

/-- The caller's listener, if its signal still has it: the caller leaves the queue with nothing. -/
def abort (caller : ℕ) : TurnLeases :=
  match s.callers[caller]? with
  | some sessionId =>
    if caller ∈ s.listening then
      { s.putQueue sessionId ((s.queue sessionId).filter (· ≠ caller)) with
        listening := s.listening.filter (· ≠ caller)
        resolved := s.resolved ++ [(caller, .abandoned)] }
    else s
  | none => s

def clear : TurnLeases := { s with leases := [] }

def step : LeaseLabel → TurnLeases
  | .acquire sessionId uuid => (s.acquire sessionId uuid).2
  | .release sessionId leaseId uuid => s.release sessionId leaseId uuid
  | .acquireOnRelease sessionId uuid aborted => s.acquireOnRelease sessionId uuid aborted
  | .abort caller => s.abort caller
  | .clear => s.clear

/-- The waiters of a session that a release has served, in the order they were. -/
def served (sessionId : String) : List ℕ :=
  (s.resolved.filter fun answer => answer.2.isHanded ∧ s.callers[answer.1]? = some sessionId).map Prod.fst

/-- A caller whose promise is not resolved is in its session's queue. -/
def Awaited : Prop :=
  ∀ (caller : ℕ) (sessionId : String), s.callers[caller]? = some sessionId → caller ∉ s.resolved.map Prod.fst → caller ∈ s.queue sessionId

/-- What the leases promise of each state. -/
structure Fair : Prop where
  awaited : s.Awaited
  oneLease : (s.leases.map Prod.fst).Nodup
  resolvedOnce : (s.resolved.map Prod.fst).Nodup
  /-- Callers are numbered as they arrive: a waiter served has come before those served later and those that wait. -/
  inOrder : ∀ sessionId, (s.served sessionId ++ s.queue sessionId).Pairwise (· < ·)
  handedOver : ∀ caller lease, (caller, Resolution.handed lease) ∈ s.resolved → lease ≠ none
  abandoned : ∀ caller resolution, (caller, Resolution.abandoned) ∈ s.resolved → (caller, resolution) ∈ s.resolved →
    resolution.lease = none
  /-- The step that frees the lease leaves it with the first of the waiters. -/
  atOnce : ∀ sessionId leaseId uuid next rest, Assoc.lookup sessionId s.leases = some leaseId →
    s.queue sessionId = next :: rest →
    Assoc.lookup sessionId (s.release sessionId leaseId uuid).leases = some (sessionId ++ ":" ++ uuid) ∧
      (s.release sessionId leaseId uuid).resolved = s.resolved ++ [(next, .handed (some (sessionId ++ ":" ++ uuid)))] ∧
      (s.release sessionId leaseId uuid).queue sessionId = rest

/-! ### What every state keeps -/

/-- The callers that wait, against the promises resolved. -/
structure Sound : Prop where
  oneLease : (s.leases.map Prod.fst).Nodup
  resolvedOnce : (s.resolved.map Prod.fst).Nodup
  inOrder : ∀ sessionId, (s.served sessionId ++ s.queue sessionId).Pairwise (· < ·)
  handedOver : ∀ caller lease, (caller, Resolution.handed lease) ∈ s.resolved → lease ≠ none
  waiting : ∀ sessionId, ∀ caller ∈ s.queue sessionId, s.callers[caller]? = some sessionId ∧ caller ∉ s.resolved.map Prod.fst
  listening : ∀ caller ∈ s.listening, ∃ sessionId, caller ∈ s.queue sessionId
  known : ∀ answer ∈ s.resolved, answer.1 < s.callers.length

section
variable {s : TurnLeases} {sessionId : String}

@[simp] theorem queue_putQueue (s : TurnLeases) (sessionId other : String) (queue : List ℕ) :
    (s.putQueue sessionId queue).queue other = if sessionId = other then queue else s.queue other := by
  unfold TurnLeases.queue putQueue
  dsimp only
  split_ifs with hempty hsession hsession
  · rw [Assoc.lookup_erase, if_pos hsession, hempty]
    rfl
  · rw [Assoc.lookup_erase, if_neg hsession]
  · rw [Assoc.lookup_assign, if_pos hsession]
    rfl
  · rw [Assoc.lookup_assign, if_neg hsession]

variable {leaseId : String} {caller : ℕ}

theorem acquire_held (h : Assoc.lookup sessionId s.leases = some leaseId) (uuid : String) :
    s.acquire sessionId uuid = (none, s) := by
  rw [acquire, h]

theorem acquire_free (h : Assoc.lookup sessionId s.leases = none) (uuid : String) :
    s.acquire sessionId uuid = (some (sessionId ++ ":" ++ uuid),
      { s with leases := Assoc.assign sessionId (sessionId ++ ":" ++ uuid) s.leases }) := by
  rw [acquire, h]

theorem release_other (h : Assoc.lookup sessionId s.leases ≠ some leaseId) (uuid : String) :
    s.release sessionId leaseId uuid = s := if_neg h

theorem release_idle (h : Assoc.lookup sessionId s.leases = some leaseId) (hqueue : s.queue sessionId = []) (uuid : String) :
    s.release sessionId leaseId uuid = putQueue { s with leases := Assoc.erase sessionId s.leases } sessionId [] := by
  have hqueue' : queue { s with leases := Assoc.erase sessionId s.leases } sessionId = [] := hqueue
  rw [release, if_pos h, handOff, hqueue']

theorem release_next (h : Assoc.lookup sessionId s.leases = some leaseId) {next : ℕ} {rest : List ℕ}
    (hqueue : s.queue sessionId = next :: rest) (uuid : String) :
    s.release sessionId leaseId uuid =
      { s.putQueue sessionId rest with
        leases := Assoc.assign sessionId (sessionId ++ ":" ++ uuid) (Assoc.erase sessionId s.leases)
        listening := s.listening.filter (· ≠ next)
        resolved := s.resolved ++ [(next, .handed (some (sessionId ++ ":" ++ uuid)))] } := by
  have hqueue' : queue { s with leases := Assoc.erase sessionId s.leases } sessionId = next :: rest := hqueue
  have hfree : Assoc.lookup sessionId (putQueue { s with leases := Assoc.erase sessionId s.leases } sessionId rest).leases = none := by
    change Assoc.lookup sessionId (Assoc.erase sessionId s.leases) = none
    rw [Assoc.lookup_erase, if_pos rfl]
  rw [release, if_pos h, handOff, hqueue']
  dsimp only
  rw [acquire_free hfree]
  rfl

/-- A step that resolves no promise and leaves every queue. -/
theorem Sound.congr (h : s.Sound) {s' : TurnLeases} (hleases : (s'.leases.map Prod.fst).Nodup)
    (hqueue : ∀ other, s'.queue other = s.queue other) (hlistening : s'.listening = s.listening) (hcallers : s'.callers = s.callers)
    (hresolved : s'.resolved = s.resolved) : s'.Sound := by
  have hserved : ∀ other, s'.served other = s.served other := fun other => by rw [served, served, hresolved, hcallers]
  refine ⟨hleases, ?_, fun other => ?_, ?_, fun other => ?_, ?_, ?_⟩
  · rw [hresolved]
    exact h.resolvedOnce
  · rw [hserved, hqueue]
    exact h.inOrder other
  · rw [hresolved]
    exact h.handedOver
  · rw [hqueue, hcallers, hresolved]
    exact h.waiting other
  · rw [hlistening]
    intro caller hcaller
    obtain ⟨other, hmem⟩ := h.listening caller hcaller
    exact ⟨other, (hqueue other).symm ▸ hmem⟩
  · rw [hresolved, hcallers]
    exact h.known

theorem nodup_erase {m : List (String × String)} (h : (m.map Prod.fst).Nodup) (sessionId : String) :
    ((Assoc.erase sessionId m).map Prod.fst).Nodup := h.sublist (List.filter_sublist.map _)

theorem Sound.acquire (h : s.Sound) (sessionId uuid : String) : (s.acquire sessionId uuid).2.Sound := by
  rcases hlease : Assoc.lookup sessionId s.leases with _ | leaseId
  · rw [acquire_free hlease]
    exact h.congr (Table.nodup_keys_put h.oneLease) (fun _ => rfl) rfl rfl rfl
  · rw [acquire_held hlease]
    exact h

/-- A caller that leaves its queue for a resolution of its promise. -/
theorem Sound.resolve (h : s.Sound) {rest : List ℕ} (hcaller : caller ∈ s.queue sessionId)
    (hrest : rest.Sublist ((s.queue sessionId).filter (· ≠ caller)))
    (hkept : ∀ other ∈ s.queue sessionId, other ≠ caller → other ∈ rest) {resolution : Resolution}
    (hhanded : ∀ lease, resolution = .handed lease → lease ≠ none)
    (hfirst : resolution.isHanded → s.queue sessionId = caller :: rest) {leases : List (String × String)}
    (hleases : (leases.map Prod.fst).Nodup) :
    Sound { s.putQueue sessionId rest with
      leases := leases
      listening := s.listening.filter (· ≠ caller)
      resolved := s.resolved ++ [(caller, resolution)] } := by
  set s' : TurnLeases := { s.putQueue sessionId rest with
    leases := leases
    listening := s.listening.filter (· ≠ caller)
    resolved := s.resolved ++ [(caller, resolution)] } with hs'
  obtain ⟨hsession, hnew⟩ := h.waiting sessionId caller hcaller
  have hqueue : ∀ other, s'.queue other = if sessionId = other then rest else s.queue other := fun other =>
    queue_putQueue s sessionId other rest
  have hserved : ∀ other, s'.served other =
      s.served other ++ if resolution.isHanded = true ∧ sessionId = other then [caller] else [] := fun other => by
    have hcallers : s'.callers = s.callers := rfl
    have hresolved : s'.resolved = s.resolved ++ [(caller, resolution)] := rfl
    rw [served, served, hresolved, hcallers, List.filter_append, List.map_append, List.filter_singleton]
    by_cases hcond : resolution.isHanded = true ∧ sessionId = other
    · simp [hsession, hcond]
    · simp only [hsession, Option.some.injEq, decide_eq_false hcond, if_neg hcond, cond_false, List.map_nil]
  have hmem : ∀ other, ∀ c ∈ s'.queue other, c ∈ s.queue other ∧ c ≠ caller := fun other c hc => by
    rw [hqueue] at hc
    split_ifs at hc with heq
    · have hfilter := List.mem_filter.mp (hrest.subset hc)
      exact ⟨heq ▸ hfilter.1, by simpa using hfilter.2⟩
    · refine ⟨hc, fun heq' => heq ?_⟩
      have hother := (h.waiting other c hc).1
      rw [heq', hsession] at hother
      exact Option.some.inj hother
  refine ⟨hleases, ?_, fun other => ?_, fun c lease hc => ?_, fun other c hc => ?_, fun c hc => ?_, fun answer ha => ?_⟩
  · change ((s.resolved ++ [(caller, resolution)]).map Prod.fst).Nodup
    rw [List.map_append]
    exact h.resolvedOnce.append (List.nodup_singleton _) (by simpa using hnew)
  · rw [hserved, hqueue]
    have horder := h.inOrder other
    by_cases heq : sessionId = other
    · subst heq
      rw [if_pos rfl]
      by_cases hhand : resolution.isHanded = true
      · rw [if_pos ⟨hhand, rfl⟩, List.append_assoc, List.singleton_append, ← hfirst hhand]
        exact horder
      · rw [if_neg fun hand => hhand hand.1, List.append_nil]
        exact horder.sublist ((List.Sublist.refl _).append (hrest.trans List.filter_sublist))
    · rw [if_neg heq, if_neg fun hand => heq hand.2, List.append_nil]
      exact horder
  · rcases List.mem_append.mp hc with hc | hc
    · exact h.handedOver c lease hc
    · exact hhanded lease (Prod.ext_iff.mp (List.mem_singleton.mp hc)).2.symm
  · obtain ⟨hc', hne⟩ := hmem other c hc
    obtain ⟨hcaller', hnot⟩ := h.waiting other c hc'
    refine ⟨hcaller', fun hresolved => ?_⟩
    change c ∈ (s.resolved ++ [(caller, resolution)]).map Prod.fst at hresolved
    rw [List.map_append, List.mem_append] at hresolved
    exact hresolved.elim hnot fun hlast => hne (by simpa using hlast)
  · obtain ⟨hc, hne⟩ := List.mem_filter.mp hc
    have hne : c ≠ caller := by simpa using hne
    obtain ⟨other, hother⟩ := h.listening c hc
    refine ⟨other, ?_⟩
    rw [hqueue]
    split_ifs with heq
    · exact hkept c (heq ▸ hother) hne
    · exact hother
  · rcases List.mem_append.mp ha with ha | ha
    · exact h.known answer ha
    · rw [List.mem_singleton.mp ha]
      exact (List.getElem?_eq_some_iff.mp hsession).1

theorem Sound.nodup_queue (h : s.Sound) (sessionId : String) : (s.queue sessionId).Nodup :=
  (List.pairwise_append.mp (h.inOrder sessionId)).2.1.imp fun hlt => hlt.ne

theorem Sound.release (h : s.Sound) (sessionId leaseId uuid : String) : (s.release sessionId leaseId uuid).Sound := by
  by_cases hlease : Assoc.lookup sessionId s.leases = some leaseId
  · rcases hqueue : s.queue sessionId with _ | ⟨next, rest⟩
    · rw [release_idle hlease hqueue]
      refine h.congr (nodup_erase h.oneLease sessionId) (fun other => ?_) rfl rfl rfl
      rw [queue_putQueue]
      split_ifs with heq
      · exact heq ▸ hqueue.symm
      · rfl
    · rw [release_next hlease hqueue]
      have hnodup := h.nodup_queue sessionId
      rw [hqueue] at hnodup
      have hnext : next ∉ rest := (List.nodup_cons.mp hnodup).1
      refine h.resolve (by rw [hqueue]; exact List.mem_cons_self) ?_ (fun other hother hne => ?_)
        (fun lease heq => by cases heq; exact Option.some_ne_none _) (fun _ => hqueue)
        (Table.nodup_keys_put (nodup_erase h.oneLease sessionId))
      · rw [hqueue, List.filter_cons_of_neg (by simp), List.filter_eq_self.mpr fun c hc => ?_]
        simpa using fun heq : c = next => hnext (heq ▸ hc)
      · rw [hqueue] at hother
        exact (List.mem_cons.mp hother).resolve_left hne
  · rw [release_other hlease]
    exact h

theorem Sound.abort (h : s.Sound) (caller : ℕ) : (s.abort caller).Sound := by
  unfold TurnLeases.abort
  rcases hsession : s.callers[caller]? with _ | sessionId
  · exact h
  dsimp only
  by_cases hlistening : caller ∈ s.listening
  · rw [if_pos hlistening]
    obtain ⟨other, hother⟩ := h.listening caller hlistening
    have heq : other = sessionId := Option.some.inj ((h.waiting other caller hother).1.symm.trans hsession)
    exact h.resolve (heq ▸ hother) (List.Sublist.refl _) (fun c hc hne => List.mem_filter.mpr ⟨hc, by simpa using hne⟩)
      (fun lease hh => by cases hh) (fun hh => by cases hh) h.oneLease
  · rw [if_neg hlistening]
    exact h

theorem Sound.arrive (h : s.Sound) (sessionId : String) : Sound { s with callers := s.callers ++ [sessionId] } := by
  have hserved : ∀ other, served { s with callers := s.callers ++ [sessionId] } other = s.served other := fun other => by
    refine congrArg (List.map Prod.fst) (List.filter_congr fun answer ha => ?_)
    dsimp only
    rw [List.getElem?_append_left (h.known answer ha)]
  refine ⟨h.oneLease, h.resolvedOnce, fun other => ?_, h.handedOver, fun other caller hc => ?_, h.listening, fun answer ha => ?_⟩
  · rw [hserved]
    exact h.inOrder other
  · obtain ⟨hcaller, hnew⟩ := h.waiting other caller hc
    refine ⟨?_, hnew⟩
    rw [List.getElem?_append_left (List.getElem?_eq_some_iff.mp hcaller).1, hcaller]
  · rw [List.length_append]
    exact (h.known answer ha).trans_le (Nat.le_add_right _ _)

theorem Sound.not_resolved (h : s.Sound) : s.callers.length ∉ s.resolved.map Prod.fst := fun hmem => by
  obtain ⟨answer, ha, hlast⟩ := List.mem_map.mp hmem
  exact absurd (h.known answer ha) (by omega)

theorem Sound.answer (h : s.Sound) (sessionId : String) (now : Option String) :
    Sound { s with callers := s.callers ++ [sessionId], resolved := s.resolved ++ [(s.callers.length, .now now)] } := by
  have harrived := h.arrive sessionId
  have hserved : ∀ other, served { s with
      callers := s.callers ++ [sessionId], resolved := s.resolved ++ [(s.callers.length, .now now)] } other =
        served { s with callers := s.callers ++ [sessionId] } other := fun other => by
    simp [served, Resolution.isHanded]
  refine ⟨h.oneLease, ?_, fun other => ?_, fun c lease hc => ?_, fun other c hc => ?_, h.listening, fun answer ha => ?_⟩
  · rw [List.map_append]
    exact h.resolvedOnce.append (List.nodup_singleton _) (by simpa using h.not_resolved)
  · rw [hserved]
    exact harrived.inOrder other
  · rcases List.mem_append.mp hc with hc | hc
    · exact h.handedOver c lease hc
    · cases (Prod.ext_iff.mp (List.mem_singleton.mp hc)).2
  · obtain ⟨hcaller, hnot⟩ := harrived.waiting other c hc
    refine ⟨hcaller, ?_⟩
    rw [List.map_append, List.mem_append]
    rintro (hbefore | hlast)
    · exact hnot hbefore
    · have hlt := (List.getElem?_eq_some_iff.mp (h.waiting other c hc).1).1
      have hc' : c = s.callers.length := by simpa using hlast
      omega
  · rcases List.mem_append.mp ha with ha | ha
    · exact harrived.known answer ha
    · rw [List.mem_singleton.mp ha, List.length_append]
      exact Nat.lt_succ_self _

theorem Sound.wait (h : s.Sound) (sessionId : String) :
    Sound (putQueue { s with callers := s.callers ++ [sessionId], listening := s.listening ++ [s.callers.length] } sessionId
      (s.queue sessionId ++ [s.callers.length])) := by
  have harrived := h.arrive sessionId
  have hqueue := queue_putQueue
    { s with callers := s.callers ++ [sessionId], listening := s.listening ++ [s.callers.length] } sessionId
  refine ⟨h.oneLease, h.resolvedOnce, fun other => ?_, h.handedOver, fun other c hc => ?_, fun c hc => ?_, harrived.known⟩
  · have horder := harrived.inOrder other
    rw [hqueue]
    split_ifs with heq
    · subst heq
      rw [← List.append_assoc]
      refine List.pairwise_append.mpr ⟨horder, List.pairwise_singleton _ _, fun c hc last hlast => ?_⟩
      rw [List.mem_singleton.mp hlast]
      rcases List.mem_append.mp hc with hc | hc
      · obtain ⟨answer, ha, rfl⟩ := List.mem_map.mp hc
        exact h.known answer (List.mem_filter.mp ha).1
      · exact (List.getElem?_eq_some_iff.mp (h.waiting _ c hc).1).1
    · exact horder
  · rw [hqueue] at hc
    split_ifs at hc with heq
    · rcases List.mem_append.mp hc with hc | hc
      · exact heq ▸ harrived.waiting sessionId c hc
      · rw [List.mem_singleton.mp hc]
        exact ⟨heq ▸ by simp [putQueue], h.not_resolved⟩
    · exact harrived.waiting other c hc
  · rcases List.mem_append.mp hc with hc | hc
    · obtain ⟨other, hother⟩ := h.listening c hc
      refine ⟨other, ?_⟩
      rw [hqueue]
      split_ifs with heq
      · exact List.mem_append_left _ (heq ▸ hother)
      · exact hother
    · refine ⟨sessionId, ?_⟩
      rw [hqueue, if_pos rfl, List.mem_singleton.mp hc]
      exact List.mem_append_right _ (List.mem_singleton_self _)

theorem callers_acquire (s : TurnLeases) (sessionId uuid : String) : (s.acquire sessionId uuid).2.callers = s.callers := by
  unfold TurnLeases.acquire
  split <;> rfl

theorem Sound.acquireOnRelease (h : s.Sound) (sessionId uuid : String) (aborted : Bool) :
    (s.acquireOnRelease sessionId uuid aborted).Sound := by
  unfold TurnLeases.acquireOnRelease
  have hacquired := h.acquire sessionId uuid
  rw [← s.callers_acquire sessionId uuid]
  dsimp only
  by_cases hdone : (s.acquire sessionId uuid).1 ≠ none ∨ aborted = true
  · rw [if_pos hdone]
    exact hacquired.answer sessionId _
  · rw [if_neg hdone]
    exact hacquired.wait sessionId

theorem Sound.step (h : s.Sound) (label : LeaseLabel) : (s.step label).Sound := by
  cases label with
  | acquire sessionId uuid => exact h.acquire sessionId uuid
  | release sessionId leaseId uuid => exact h.release sessionId leaseId uuid
  | acquireOnRelease sessionId uuid aborted => exact h.acquireOnRelease sessionId uuid aborted
  | abort caller => exact h.abort caller
  | clear => exact h.congr List.nodup_nil (fun _ => rfl) rfl rfl rfl

theorem Sound.empty : Sound {} :=
  ⟨List.nodup_nil, List.nodup_nil, fun _ => .nil, fun _ _ hm => absurd hm List.not_mem_nil, fun _ _ hm => absurd hm List.not_mem_nil,
    fun _ hm => absurd hm List.not_mem_nil, fun _ hm => absurd hm List.not_mem_nil⟩

namespace Awaited

theorem congr (h : s.Awaited) {s' : TurnLeases} (hqueue : ∀ other, s'.queue other = s.queue other)
    (hcallers : s'.callers = s.callers) (hresolved : s'.resolved = s.resolved) : s'.Awaited := by
  intro caller other hcaller hwaits
  rw [hqueue]
  exact h caller other (hcallers ▸ hcaller) (hresolved ▸ hwaits)

theorem acquire (h : s.Awaited) (sessionId uuid : String) : (s.acquire sessionId uuid).2.Awaited := by
  rcases hlease : Assoc.lookup sessionId s.leases with _ | leaseId
  · rw [acquire_free hlease]
    exact h.congr (fun _ => rfl) rfl rfl
  · rw [acquire_held hlease]
    exact h

/-- Whoever else is in the queue of a caller that is answered stays there. -/
theorem resolve (h : s.Awaited) {caller : ℕ} {rest : List ℕ}
    (hkept : ∀ other ∈ s.queue sessionId, other ≠ caller → other ∈ rest) (resolution : Resolution)
    (leases : List (String × String)) (listening : List ℕ) :
    Awaited { s.putQueue sessionId rest with
      leases := leases, listening := listening, resolved := s.resolved ++ [(caller, resolution)] } := by
  intro other session hother hwaits
  dsimp only at hwaits
  rw [List.map_append, List.mem_append, not_or] at hwaits
  have hmem := h other session hother hwaits.1
  have hne : other ≠ caller := by simpa using hwaits.2
  refine (queue_putQueue s sessionId session rest).symm ▸ ?_
  split_ifs with heq
  · exact hkept other (heq ▸ hmem) hne
  · exact hmem

theorem release (h : s.Awaited) (sessionId leaseId uuid : String) : (s.release sessionId leaseId uuid).Awaited := by
  by_cases hlease : Assoc.lookup sessionId s.leases = some leaseId
  · rcases hqueue : s.queue sessionId with _ | ⟨next, rest⟩
    · rw [release_idle hlease hqueue]
      refine h.congr (fun other => ?_) rfl rfl
      rw [queue_putQueue]
      split_ifs with heq
      · exact heq ▸ hqueue.symm
      · rfl
    · rw [release_next hlease hqueue]
      refine h.resolve (fun other hother hne => ?_) _ _ _
      rw [hqueue] at hother
      exact (List.mem_cons.mp hother).resolve_left hne
  · rw [release_other hlease]
    exact h

theorem abort (h : s.Awaited) (caller : ℕ) : (s.abort caller).Awaited := by
  unfold TurnLeases.abort
  rcases s.callers[caller]? with _ | sessionId <;> dsimp only
  · exact h
  · split_ifs
    · exact h.resolve (fun other hother hne => List.mem_filter.mpr ⟨hother, by simpa using hne⟩) _ _ _
    · exact h

/-- A new caller is answered at once, or queued. -/
theorem acquireOnRelease (h : s.Awaited) (sessionId uuid : String) (aborted : Bool) :
    (s.acquireOnRelease sessionId uuid aborted).Awaited := by
  unfold TurnLeases.acquireOnRelease
  have hacquired := h.acquire sessionId uuid
  rw [← s.callers_acquire sessionId uuid]
  generalize s.acquire sessionId uuid = acquired at hacquired ⊢
  obtain ⟨now, s⟩ := acquired
  dsimp only at hacquired ⊢
  split_ifs
  · intro caller other hcaller hwaits
    dsimp only at hwaits
    rw [List.map_append, List.mem_append, not_or] at hwaits
    rcases Indexed.of_snoc hcaller with hcaller | ⟨rfl, -⟩
    · exact hacquired caller other hcaller hwaits.1
    · exact absurd (List.mem_singleton.mpr rfl) hwaits.2
  · intro caller other hcaller hwaits
    rw [queue_putQueue]
    rcases Indexed.of_snoc hcaller with hcaller | ⟨rfl, rfl⟩
    · have hmem := hacquired caller other hcaller hwaits
      split_ifs with heq
      · exact List.mem_append_left _ (heq ▸ hmem)
      · exact hmem
    · rw [if_pos rfl]
      exact List.mem_append_right _ (List.mem_singleton_self _)

theorem step (h : s.Awaited) (label : LeaseLabel) : (s.step label).Awaited := by
  cases label with
  | acquire sessionId uuid => exact h.acquire sessionId uuid
  | release sessionId leaseId uuid => exact h.release sessionId leaseId uuid
  | acquireOnRelease sessionId uuid aborted => exact h.acquireOnRelease sessionId uuid aborted
  | abort caller => exact h.abort caller
  | clear => exact h.congr (fun _ => rfl) rfl rfl

end Awaited

theorem Sound.fair (h : s.Sound) (hawaited : s.Awaited) : s.Fair := by
  refine ⟨hawaited, h.oneLease, h.resolvedOnce, h.inOrder, h.handedOver, fun caller resolution ha hr => ?_, ?_⟩
  · have hsame := List.inj_on_of_nodup_map h.resolvedOnce ha hr rfl
    obtain rfl : Resolution.abandoned = resolution := congrArg Prod.snd hsame
    rfl
  · intro sessionId leaseId uuid next rest hlease hqueue
    rw [release_next hlease hqueue]
    refine ⟨?_, rfl, ?_⟩
    · dsimp only
      rw [Assoc.lookup_assign, if_pos rfl]
    · exact (queue_putQueue s sessionId sessionId rest).trans (if_pos rfl)

/-- Only `clear` frees a session somebody waits for. -/
theorem free_of_step {label : LeaseLabel} (hcaller : caller ∈ (s.step label).queue sessionId)
    (hfree : Assoc.lookup sessionId (s.step label).leases = none) :
    caller ∈ s.queue sessionId ∧ (label = .clear ∨ Assoc.lookup sessionId s.leases = none) := by
  cases label with
  | acquire other uuid =>
    simp only [TurnLeases.step] at hcaller hfree
    rcases hlease : Assoc.lookup other s.leases with _ | leaseId
    · rw [acquire_free hlease] at hcaller hfree
      rw [Assoc.lookup_assign] at hfree
      split_ifs at hfree
      exact ⟨hcaller, .inr hfree⟩
    · rw [acquire_held hlease] at hcaller hfree
      exact ⟨hcaller, .inr hfree⟩
  | release other leaseId uuid =>
    simp only [TurnLeases.step] at hcaller hfree
    by_cases hlease : Assoc.lookup other s.leases = some leaseId
    · rcases hqueue : s.queue other with _ | ⟨next, rest⟩
      · rw [release_idle hlease hqueue] at hcaller hfree
        rw [queue_putQueue] at hcaller
        split_ifs at hcaller with heq
        · exact absurd hcaller List.not_mem_nil
        · change Assoc.lookup sessionId (Assoc.erase other s.leases) = none at hfree
          rw [Assoc.lookup_erase, if_neg heq] at hfree
          exact ⟨hcaller, .inr hfree⟩
      · rw [release_next hlease hqueue] at hcaller hfree
        dsimp only at hfree
        rw [Assoc.lookup_assign] at hfree
        split_ifs at hfree with heq
        rw [Assoc.lookup_erase, if_neg heq] at hfree
        have hsame := queue_putQueue s other sessionId rest
        rw [if_neg heq] at hsame
        exact ⟨hsame ▸ hcaller, .inr hfree⟩
    · rw [release_other hlease] at hcaller hfree
      exact ⟨hcaller, .inr hfree⟩
  | acquireOnRelease other uuid aborted =>
    simp only [TurnLeases.step, TurnLeases.acquireOnRelease] at hcaller hfree
    rcases hlease : Assoc.lookup other s.leases with _ | leaseId
    · rw [acquire_free hlease] at hcaller hfree
      dsimp only at hcaller hfree
      rw [if_pos (.inl (Option.some_ne_none _))] at hcaller hfree
      dsimp only at hfree
      rw [Assoc.lookup_assign] at hfree
      split_ifs at hfree
      exact ⟨hcaller, .inr hfree⟩
    · rw [acquire_held hlease] at hcaller hfree
      dsimp only at hcaller hfree
      by_cases haborted : (none : Option String) ≠ none ∨ aborted = true
      · rw [if_pos haborted] at hcaller hfree
        exact ⟨hcaller, .inr hfree⟩
      · rw [if_neg haborted] at hcaller hfree
        change Assoc.lookup sessionId s.leases = none at hfree
        rw [queue_putQueue] at hcaller
        split_ifs at hcaller with heq
        · rw [heq, hfree] at hlease
          cases hlease
        · exact ⟨hcaller, .inr hfree⟩
  | abort other =>
    simp only [TurnLeases.step, TurnLeases.abort] at hcaller hfree
    rcases hsession : s.callers[other]? with _ | owner
    · simp only [hsession] at hcaller hfree
      exact ⟨hcaller, .inr hfree⟩
    · simp only [hsession] at hcaller hfree
      by_cases hlistening : other ∈ s.listening
      · rw [if_pos hlistening] at hcaller hfree
        refine ⟨?_, .inr hfree⟩
        have hqueue := queue_putQueue s owner sessionId ((s.queue owner).filter (· ≠ other))
        have hmem : caller ∈ (s.putQueue owner ((s.queue owner).filter (· ≠ other))).queue sessionId := hcaller
        rw [hqueue] at hmem
        split_ifs at hmem with heq
        · exact heq ▸ (List.mem_filter.mp hmem).1
        · exact hmem
      · rw [if_neg hlistening] at hcaller hfree
        exact ⟨hcaller, .inr hfree⟩
  | clear => exact ⟨hcaller, .inl rfl⟩

/-- A caller that waits for a free session has waited since before the table was cleared. -/
theorem cleared_of_free (labels : List LeaseLabel) {sessionId : String}
    (hcaller : caller ∈ (Lib.run step {} labels).queue sessionId)
    (hfree : Assoc.lookup sessionId (Lib.run step {} labels).leases = none) :
    ∃ before after, labels = before ++ .clear :: after ∧ caller ∈ (Lib.run step {} before).queue sessionId := by
  induction labels using List.reverseRecOn with
  | nil => exact absurd hcaller List.not_mem_nil
  | append_singleton labels label ih =>
    rw [Lib.run_snoc] at hcaller hfree
    obtain ⟨hbefore, hclear | hfree⟩ := free_of_step hcaller hfree
    · exact ⟨labels, [], by rw [hclear], hbefore⟩
    · obtain ⟨before, after, rfl, hmem⟩ := ih hbefore hfree
      exact ⟨before, after ++ [label], by rw [List.append_assoc, List.cons_append], hmem⟩

end

end TurnLeases

open TurnLeases

/-- Over every interleaving: one lease a session, every promise resolved once, waiters served as they came, an aborted one
never, a freed lease in its waiter's hands by the same step; and a session somebody waits for is free only where the table
was cleared while they waited. -/
theorem leases_fair (labels : List LeaseLabel) : (Lib.run step {} labels).Fair ∧
    ∀ sessionId caller, caller ∈ (Lib.run step {} labels).queue sessionId →
      Assoc.lookup sessionId (Lib.run step {} labels).leases = none →
      ∃ before after, labels = before ++ .clear :: after ∧ caller ∈ (Lib.run step {} before).queue sessionId :=
  ⟨(Lib.invariant_of_run Sound (fun _ label h => h.step label) Sound.empty labels).fair
      (Lib.invariant_of_run Awaited (fun _ label h => h.step label) (fun _ _ hcaller => by cases hcaller) labels),
    fun _ _ hcaller hfree => cleared_of_free labels hcaller hfree⟩

/-- The rows are cleared under a caller that waits. -/
theorem waits_on_cleared : ¬ ∀ labels sessionId, (Lib.run step {} labels).queue sessionId ≠ [] →
    Assoc.lookup sessionId (Lib.run step {} labels).leases ≠ none := by
  intro h
  exact h [.acquire "ses" "1", .acquireOnRelease "ses" "2" false, .clear] "ses" (by decide) (by decide)

end Claxedo.Turns
