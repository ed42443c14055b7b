import Claxedo.Turns.TurnLease

/-! What holds of a turn's lease in every run: its timers, its loss, the hold it has on its session, and when it is good. -/

namespace Claxedo.Turns

open Claxedo.Lib

/-- What is asked of a lease in every state. -/
structure LeaseKept (issued : IssuedSessionTurnLease) (s : Host) : Prop where
  token : s.lease.current.fencingToken = issued.fencingToken
  valid : ∀ now, (s.stillValid now).1 = true → now < s.lease.current.expiresAt ∧
    now < s.lease.takenAt + SESSION_TURN_LEASE_TTL_MS ∧ s.lease.leaseLost = false ∧ s.lease.closed = false
  one : ∀ kind, (s.lease.timers.filter (·.timer = kind)).length ≤ 1
  none : s.lease.leaseLost = true ∨ s.lease.closed = true → s.lease.timers = []
  armed : s.lease.leaseLost = false → s.lease.closed = false → ∃ timer ∈ s.lease.timers, timer.timer = .expiry
  once : s.lease.onLost ≤ 1
  hold : s.holds.held.has s.lease.hold = true ↔ s.lease.leaseLost = false ∧ s.lease.releasing ≠ some .over
  released : (leaseStep s .release).lease.closed = true
  ended : s.lease.releasing.isSome → s.lease.closed = true ∧ (leaseStep s .turnEnded).lease.closed = true

/-- A lease that is lost or released stays so, and its loss is not reported after its release. -/
structure LeaseLater (s s' : Host) : Prop where
  lost : s.lease.leaseLost = true → s'.lease.leaseLost = true
  closed : s.lease.closed = true → s'.lease.closed = true
  quiet : s.lease.closed = true → s'.lease.onLost = s.lease.onLost

namespace HeldTurnLeases

variable {h h' : HeldTurnLeases} {sessionId : String} {hold : Hold} {i promise : ℕ}

/-- A promise is in a set. -/
def In (h : HeldTurnLeases) (i promise : ℕ) : Prop := ∃ set, h.sets[i]? = some set ∧ promise ∈ set

/-- The sets that are named are there. -/
def Bounded (h : HeldTurnLeases) : Prop := ∀ sessionId leases, h.get sessionId = some leases → leases < h.sets.length

theorem in_modify {f : List ℕ → List ℕ} {sets : List (List ℕ)} {leases : ℕ} :
    (∃ set, (sets.modify leases f)[i]? = some set ∧ promise ∈ set) ↔
      ∃ set, sets[i]? = some set ∧ promise ∈ if leases = i then f set else set := by
  rw [List.getElem?_modify]
  rcases sets[i]? with _ | set
  · simp
  · simp only [Option.map_eq_map, Option.map_some, Option.some.injEq, exists_eq_left']

theorem get_put (leases : ℕ) (other : String) :
    ((Table.get Prod.fst other (Table.put Prod.fst (sessionId, leases) h.held)).map Prod.snd) =
      if other = sessionId then some leases else h.get other := by
  rw [Table.get_put]
  by_cases heq : sessionId = other
  · rw [if_pos heq, if_pos heq.symm]
    rfl
  · rw [if_neg heq, if_neg fun heq' => heq heq'.symm]
    rfl

theorem hold_promise (sessionId : String) (h : HeldTurnLeases) :
    (h.hold sessionId).1.promise = h.promises ∧ (h.hold sessionId).1.sessionId = sessionId ∧
      (h.hold sessionId).2.promises = h.promises + 1 := by
  unfold HeldTurnLeases.hold
  exact ⟨rfl, rfl, rfl⟩

theorem hold_get (sessionId : String) (h : HeldTurnLeases) (other : String) :
    (h.hold sessionId).2.get other = if other = sessionId then some (h.hold sessionId).1.leases else h.get other := by
  unfold HeldTurnLeases.hold
  rcases h.get sessionId with _ | leases <;> exact get_put _ _

theorem hold_length (sessionId : String) (h : HeldTurnLeases) : h.sets.length ≤ (h.hold sessionId).2.sets.length := by
  unfold HeldTurnLeases.hold
  rcases h.get sessionId with _ | leases
  · change h.sets.length ≤ ((h.sets ++ [[]]).modify h.sets.length _).length
    rw [List.length_modify, List.length_append]
    omega
  · change h.sets.length ≤ (h.sets.modify leases _).length
    rw [List.length_modify]

theorem hold_leases (hb : h.Bounded) (sessionId : String) : (h.hold sessionId).1.leases < (h.hold sessionId).2.sets.length := by
  unfold HeldTurnLeases.hold
  rcases hget : h.get sessionId with _ | leases
  · change h.sets.length < ((h.sets ++ [[]]).modify h.sets.length _).length
    rw [List.length_modify, List.length_append]
    exact Nat.lt_succ_self _
  · change leases < (h.sets.modify leases _).length
    rw [List.length_modify]
    exact hb sessionId leases hget

theorem hold_in (hb : h.Bounded) (sessionId : String) :
    (h.hold sessionId).2.In i promise ↔ h.In i promise ∨ i = (h.hold sessionId).1.leases ∧ promise = h.promises := by
  unfold HeldTurnLeases.hold
  rcases hget : h.get sessionId with _ | leases <;> refine Iff.trans in_modify ?_ <;> dsimp only
  · rcases Nat.lt_trichotomy i h.sets.length with hlt | rfl | hgt
    · have hne : h.sets.length ≠ i := Nat.ne_of_gt hlt
      have hne' : i ≠ h.sets.length := Nat.ne_of_lt hlt
      simp only [List.getElem?_append_left hlt, if_neg hne, hne', false_and, or_false, In]
    · have hnone : ¬ h.In h.sets.length promise := by
        rintro ⟨set, hset, -⟩
        rw [List.getElem?_eq_none (Nat.le_refl _)] at hset
        cases hset
      simp [hnone]
    · have hnone : ¬ h.In i promise := by
        rintro ⟨set, hset, -⟩
        rw [List.getElem?_eq_none (Nat.le_of_lt hgt)] at hset
        cases hset
      have hne : i ≠ h.sets.length := Nat.ne_of_gt hgt
      have hnone' : (h.sets ++ [[]])[i]? = none := by
        rw [List.getElem?_eq_none_iff, List.length_append, List.length_singleton]
        omega
      simp [hnone, hne, hnone']
  · have hlt := hb sessionId leases hget
    by_cases heq : leases = i
    · subst heq
      simp only [if_pos, List.mem_append, List.mem_singleton, In, true_and]
      obtain ⟨set, hset⟩ : ∃ set, h.sets[leases]? = some set := ⟨_, List.getElem?_eq_getElem hlt⟩
      simp [hset]
    · have heq' : i ≠ leases := fun hi => heq hi.symm
      simp only [if_neg heq, heq', false_and, or_false, In]

theorem unhold_sets (hold : Hold) (h : HeldTurnLeases) :
    (h.unhold hold).sets = h.sets.modify hold.leases (·.filter (· ≠ hold.promise)) ∧ (h.unhold hold).promises = h.promises := by
  unfold HeldTurnLeases.unhold
  dsimp only
  split <;> exact ⟨rfl, rfl⟩

/-- A hold leaves its set, and nothing else does. -/
theorem unhold_in (hold : Hold) (h : HeldTurnLeases) :
    (h.unhold hold).In i promise ↔ h.In i promise ∧ ¬ (i = hold.leases ∧ promise = hold.promise) := by
  unfold In
  rw [(unhold_sets hold h).1]
  refine Iff.trans in_modify ?_
  by_cases heq : hold.leases = i
  · subst heq
    simp only [if_pos, List.mem_filter, decide_eq_true_eq, true_and]
    exact ⟨fun ⟨set, hset, hmem, hne⟩ => ⟨⟨set, hset, hmem⟩, hne⟩, fun ⟨⟨set, hset, hmem⟩, hne⟩ => ⟨set, hset, hmem, hne⟩⟩
  · have heq' : i ≠ hold.leases := fun hi => heq hi.symm
    simp only [if_neg heq, heq', false_and, not_false_eq_true, and_true]

/-- A session's set is forgotten only when its last hold has left it. -/
theorem unhold_get (hold : Hold) (h : HeldTurnLeases) (other : String) :
    (h.unhold hold).get other = h.get other ∨
      (h.unhold hold).get other = none ∧ h.get other = some hold.leases ∧ ∀ promise, ¬ (h.unhold hold).In hold.leases promise := by
  unfold HeldTurnLeases.unhold
  dsimp only
  split
  · rename_i hempty
    rw [Bool.and_eq_true, decide_eq_true_eq] at hempty
    by_cases heq : other = hold.sessionId
    · subst heq
      refine .inr ⟨?_, hempty.2, fun promise => ?_⟩
      · have hnone : Table.get Prod.fst hold.sessionId (h.held.filter (·.1 ≠ hold.sessionId)) = none := by
          rw [Table.get_eq_none_iff]
          intro row hrow
          simpa using (List.mem_filter.mp hrow).2
        rw [HeldTurnLeases.get, hnone]
        rfl
      · rintro ⟨set, hset, hmem⟩
        change (h.sets.modify hold.leases _)[hold.leases]? = some set at hset
        rw [hset, Option.any_some, List.isEmpty_iff] at hempty
        rw [hempty.1] at hmem
        cases hmem
    · refine .inl ?_
      rw [HeldTurnLeases.get, HeldTurnLeases.get]
      refine congrArg _ (Table.get_filter fun row _ hrow => ?_)
      rw [hrow]
      simpa using heq
  · exact .inl rfl

end HeldTurnLeases

namespace Holds

variable {s s' : Holds} {own : Hold}

/-- Holds are made with promises of their own. -/
structure Fresh (s : Holds) : Prop where
  bounded : s.held.Bounded
  promises : ∀ i promise, s.held.In i promise → promise < s.held.promises
  others : ∀ other ∈ s.others, other.promise < s.held.promises

/-- Where a hold stands: in the set of its session as long as it is kept, and nowhere afterwards. -/
structure Stands (own : Hold) (kept : Prop) (s : Holds) : Prop where
  fresh : s.Fresh
  promise : own.promise < s.held.promises
  leases : own.leases < s.held.sets.length
  others : ∀ other ∈ s.others, other.promise ≠ own.promise
  only : ∀ i, s.held.In i own.promise → i = own.leases
  there : kept → s.held.In own.leases own.promise
  named : s.held.In own.leases own.promise → s.held.get own.sessionId = some own.leases
  gone : ¬ kept → ∀ i, ¬ s.held.In i own.promise

theorem Stands.has_iff {kept : Prop} (h : Stands own kept s) : s.held.has own = true ↔ kept := by
  unfold HeldTurnLeases.has
  refine ⟨fun hhas => ?_, fun hkept => ?_⟩
  · by_contra hnot
    rcases hget : s.held.get own.sessionId with _ | leases <;> rw [hget] at hhas
    · cases hhas
    · rw [Option.any_some, Option.any_eq_true] at hhas
      obtain ⟨set, hset, hmem⟩ := hhas
      exact h.gone hnot leases ⟨set, hset, by simpa using hmem⟩
  · obtain ⟨set, hset, hmem⟩ := h.there hkept
    rw [h.named (h.there hkept), Option.any_some, hset, Option.any_some]
    simpa using hmem

theorem Stands.congr {kept kept' : Prop} (h : Stands own kept s) (hiff : kept ↔ kept') : Stands own kept' s := by
  rwa [← propext hiff]

theorem fresh_empty : Fresh {} := by
  refine ⟨fun sessionId leases hget => ?_, fun i promise hin => ?_, fun other hother => ?_⟩
  · cases hget
  · obtain ⟨set, hset, -⟩ := hin
    cases hset
  · cases hother

theorem Fresh.hold (h : s.Fresh) (sessionId : String) (others : List Hold)
    (hothers : ∀ other ∈ others, other ∈ s.others ∨ other = (s.held.hold sessionId).1) :
    Fresh { held := (s.held.hold sessionId).2, others := others } := by
  obtain ⟨hpromise, -, hcount⟩ := HeldTurnLeases.hold_promise sessionId s.held
  refine ⟨fun other leases hget => ?_, fun i promise hin => ?_, fun other hother => ?_⟩
  · dsimp only at hget ⊢
    rw [HeldTurnLeases.hold_get] at hget
    split_ifs at hget with heq
    · obtain rfl := Option.some.inj hget
      exact HeldTurnLeases.hold_leases h.bounded sessionId
    · exact Nat.lt_of_lt_of_le (h.bounded other leases hget) (HeldTurnLeases.hold_length sessionId s.held)
  · dsimp only at hin ⊢
    rw [hcount]
    rcases (HeldTurnLeases.hold_in h.bounded sessionId).mp hin with hin | ⟨-, rfl⟩
    · exact Nat.lt_succ_of_lt (h.promises i promise hin)
    · exact Nat.lt_succ_self _
  · dsimp only
    rw [hcount]
    rcases hothers other hother with hold | rfl
    · exact Nat.lt_succ_of_lt (h.others other hold)
    · rw [hpromise]
      exact Nat.lt_succ_self _

theorem Fresh.unhold (h : s.Fresh) (hold : Hold) : Fresh { s with held := s.held.unhold hold } := by
  obtain ⟨hsets, hcount⟩ := HeldTurnLeases.unhold_sets hold s.held
  refine ⟨fun other leases hget => ?_, fun i promise hin => ?_, fun other hother => ?_⟩
  · dsimp only at hget ⊢
    rw [hsets, List.length_modify]
    rcases HeldTurnLeases.unhold_get hold s.held other with hsame | ⟨hnone, -⟩
    · rw [hsame] at hget
      exact h.bounded other leases hget
    · rw [hnone] at hget
      cases hget
  · dsimp only at hin ⊢
    rw [hcount]
    exact h.promises i promise ((HeldTurnLeases.unhold_in hold s.held).mp hin).1
  · dsimp only
    rw [hcount]
    exact h.others other hother

theorem Fresh.stands (h : s.Fresh) (sessionId : String) :
    Stands (s.held.hold sessionId).1 True { s with held := (s.held.hold sessionId).2 } := by
  obtain ⟨hpromise, hsession, hcount⟩ := HeldTurnLeases.hold_promise sessionId s.held
  have hnew : ∀ i, ¬ s.held.In i s.held.promises := fun i hin => Nat.lt_irrefl _ (h.promises i _ hin)
  refine ⟨h.hold sessionId s.others fun other hother => .inl hother, ?_, HeldTurnLeases.hold_leases h.bounded sessionId,
    fun other hother => ?_, fun i hin => ?_, fun _ => ?_, fun _ => ?_, fun hnot => absurd trivial hnot⟩
  · dsimp only
    rw [hcount, hpromise]
    exact Nat.lt_succ_self _
  · rw [hpromise]
    exact Nat.ne_of_lt (h.others other hother)
  · rw [hpromise] at hin
    rcases (HeldTurnLeases.hold_in h.bounded sessionId).mp hin with hin | ⟨hi, -⟩
    · exact absurd hin (hnew i)
    · exact hi
  · exact (HeldTurnLeases.hold_in h.bounded sessionId).mpr (.inr ⟨rfl, hpromise⟩)
  · dsimp only
    rw [hsession, HeldTurnLeases.hold_get, if_pos rfl]

/-- Another hold that is made leaves this one where it is. -/
theorem Stands.hold {kept : Prop} (h : Stands own kept s) (sessionId : String) : Stands own kept (holdStep s (.hold sessionId)) := by
  obtain ⟨hpromise, hsession, hcount⟩ := HeldTurnLeases.hold_promise sessionId s.held
  have hne : own.promise ≠ s.held.promises := Nat.ne_of_lt h.promise
  have hin : ∀ i, (holdStep s (.hold sessionId)).held.In i own.promise ↔ s.held.In i own.promise := by
    intro i
    refine (HeldTurnLeases.hold_in h.fresh.bounded sessionId).trans ⟨fun hor => ?_, .inl⟩
    rcases hor with hold | ⟨-, heq⟩
    · exact hold
    · exact absurd heq hne
  refine ⟨h.fresh.hold sessionId _ fun other hother => ?_, ?_, ?_, fun other hother => ?_, fun i hi => h.only i ((hin i).mp hi),
    fun hkept => (hin _).mpr (h.there hkept), fun hthere => ?_, fun hnot i hi => h.gone hnot i ((hin i).mp hi)⟩
  · rcases List.mem_append.mp hother with hother | hother
    · exact .inl hother
    · exact .inr (List.mem_singleton.mp hother)
  · change own.promise < (s.held.hold sessionId).2.promises
    rw [hcount]
    exact Nat.lt_succ_of_lt h.promise
  · exact Nat.lt_of_lt_of_le h.leases (HeldTurnLeases.hold_length sessionId s.held)
  · rcases List.mem_append.mp hother with hother | hother
    · exact h.others other hother
    · rw [List.mem_singleton.mp hother, hpromise]
      exact Ne.symm hne
  · have hnamed := h.named ((hin _).mp hthere)
    change (s.held.hold sessionId).2.get own.sessionId = _
    rw [HeldTurnLeases.hold_get]
    split
    · rename_i heq
      unfold HeldTurnLeases.hold
      rw [← heq, hnamed]
    · exact hnamed

/-- A hold that ends, this one or another. -/
theorem Stands.unhold {kept kept' : Prop} (h : Stands own kept s) {other : Hold}
    (hother : other.promise ≠ own.promise ∧ (kept ↔ kept') ∨ other = own ∧ ¬ kept') :
    Stands own kept' { s with held := s.held.unhold other } := by
  obtain ⟨hsets, hcount⟩ := HeldTurnLeases.unhold_sets other s.held
  have hin : ∀ i, (s.held.unhold other).In i own.promise ↔ s.held.In i own.promise ∧ other.promise ≠ own.promise := by
    intro i
    refine (HeldTurnLeases.unhold_in other s.held).trans (and_congr_right fun hi => ?_)
    obtain rfl := h.only i hi
    rcases hother with ⟨hne, -⟩ | ⟨rfl, -⟩
    · exact ⟨fun _ => hne, fun _ hboth => hne hboth.2.symm⟩
    · simp
  refine ⟨h.fresh.unhold other, ?_, ?_, h.others, fun i hi => h.only i ((hin i).mp hi).1, fun hkept => ?_, fun hthere => ?_,
    fun hnot i hi => ?_⟩
  · dsimp only
    rw [hcount]
    exact h.promise
  · dsimp only
    rw [hsets, List.length_modify]
    exact h.leases
  · rcases hother with ⟨hne, hiff⟩ | ⟨-, hnot⟩
    · exact (hin _).mpr ⟨h.there (hiff.mpr hkept), hne⟩
    · exact absurd hkept hnot
  · have hnamed := h.named ((hin _).mp hthere).1
    rcases HeldTurnLeases.unhold_get other s.held own.sessionId with hsame | ⟨-, hleases, hempty⟩
    · exact hsame.trans hnamed
    · rw [hnamed] at hleases
      rw [← Option.some.inj hleases] at hempty
      exact absurd hthere (hempty _)
  · obtain ⟨hi', hne⟩ := (hin i).mp hi
    rcases hother with ⟨-, hiff⟩ | ⟨rfl, -⟩
    · exact h.gone (fun hkept => hnot (hiff.mp hkept)) i hi'
    · exact hne rfl

theorem Stands.step {kept : Prop} (h : Stands own kept s) (event : HoldEvent) : Stands own kept (holdStep s event) := by
  cases event with
  | hold sessionId => exact h.hold sessionId
  | unhold i =>
    simp only [holdStep]
    rcases hget : s.others[i]? with _ | other <;> dsimp only
    · exact h
    · exact h.unhold (.inl ⟨h.others other (List.mem_of_getElem? hget), Iff.rfl⟩)

theorem Fresh.step (h : s.Fresh) (event : HoldEvent) : (holdStep s event).Fresh := by
  cases event with
  | hold sessionId =>
    refine h.hold sessionId _ fun other hother => ?_
    rcases List.mem_append.mp hother with hother | hother
    · exact .inl hother
    · exact .inr (List.mem_singleton.mp hother)
  | unhold i =>
    simp only [holdStep]
    split
    · exact h
    · exact h.unhold _

end Holds

namespace TurnLease

variable {lease lease' : TurnLease}

/-- What is armed is one timer of each kind at most, under its handle. -/
def Shaped (lease : TurnLease) : Prop :=
  ∃ expiry renew delay delay', expiry ≠ renew ∧
    lease.timers.Sublist [⟨expiry, .expiry, delay⟩, ⟨renew, .renew, delay'⟩] ∧
      (lease.timers ≠ [] → lease.expiryTimer = some expiry ∧ lease.renewTimer = some renew)

theorem Shaped.of_nil (h : lease.timers = []) : lease.Shaped := by
  refine ⟨0, 1, 0, 0, by decide, ?_, fun hne => absurd h hne⟩
  rw [h]
  exact List.nil_sublist _

theorem Shaped.clearTimers (h : lease.Shaped) : lease.clearTimers.timers = [] := by
  obtain ⟨expiry, renew, delay, delay', -, hsub, hhandles⟩ := h
  unfold TurnLease.clearTimers
  dsimp only
  rw [List.filter_eq_nil_iff]
  intro timer htimer
  obtain ⟨hexpiry, hrenew⟩ := hhandles (List.ne_nil_of_mem htimer)
  have hmem := hsub.subset htimer
  rw [hexpiry, hrenew]
  rcases List.mem_cons.mp hmem with rfl | hmem
  · simp
  · rw [List.mem_singleton.mp hmem]
    simp

theorem Shaped.filter (h : lease.Shaped) (p : ArmedTimer → Bool) (hlease : lease'.timers = lease.timers.filter p)
    (hexpiry : lease'.expiryTimer = lease.expiryTimer) (hrenew : lease'.renewTimer = lease.renewTimer) : lease'.Shaped := by
  obtain ⟨expiry, renew, delay, delay', hne, hsub, hhandles⟩ := h
  refine ⟨expiry, renew, delay, delay', hne, ?_, fun hsome => ?_⟩
  · rw [hlease]
    exact List.filter_sublist.trans hsub
  · rw [hexpiry, hrenew]
    refine hhandles fun hnil => hsome ?_
    rw [hlease, hnil]
    rfl

theorem Shaped.one (h : lease.Shaped) (kind : LeaseTimer) : (lease.timers.filter (·.timer = kind)).length ≤ 1 := by
  obtain ⟨expiry, renew, delay, delay', -, hsub, -⟩ := h
  refine Nat.le_trans (hsub.filter _).length_le ?_
  cases kind <;> simp

theorem Shaped.expiry_of_renew (h : lease.Shaped) {armed : ArmedTimer} (harmed : armed ∈ lease.timers) (hkind : armed.timer = .renew)
    (hexpiry : ∃ timer ∈ lease.timers, timer.timer = .expiry) :
    ∃ timer ∈ lease.timers.filter (·.id ≠ armed.id), timer.timer = .expiry := by
  obtain ⟨expiry, renew, delay, delay', hne, hsub, -⟩ := h
  obtain ⟨timer, htimer, hkind'⟩ := hexpiry
  refine ⟨timer, List.mem_filter.mpr ⟨htimer, ?_⟩, hkind'⟩
  have hid : timer.id = expiry := by
    rcases List.mem_cons.mp (hsub.subset htimer) with rfl | hmem
    · rfl
    · rw [List.mem_singleton.mp hmem] at hkind'
      cases hkind'
  have hid' : armed.id = renew := by
    rcases List.mem_cons.mp (hsub.subset harmed) with rfl | hmem
    · cases hkind
    · rw [List.mem_singleton.mp hmem]
  rw [hid, hid']
  simpa using hne

end TurnLease

namespace Host

variable {token : ℚ} {s s' s'' : Host}

/-- What every step keeps but for the expiry timer of a lease that is good. -/
structure Core (token : ℚ) (s : Host) : Prop where
  token : s.lease.current.fencingToken = token
  deadline : s.lease.localExpiresAt = min s.lease.current.expiresAt (s.lease.takenAt + SESSION_TURN_LEASE_TTL_MS)
  started : s.lease.lossStarted = s.lease.leaseLost
  once : s.lease.onLost = if s.lease.leaseLost then 1 else 0
  releasing : s.lease.releasing.isSome = s.lease.closed
  shaped : s.lease.Shaped
  idle : s.lease.leaseLost = true ∨ s.lease.closed = true → s.lease.timers = []
  hold : s.holds.Stands s.lease.hold (s.lease.leaseLost = false ∧ s.lease.releasing ≠ some .over)

structure Sound (token : ℚ) (s : Host) : Prop extends Core token s where
  armed : s.lease.leaseLost = false → s.lease.closed = false → ∃ timer ∈ s.lease.timers, timer.timer = .expiry

theorem Sound.kept {issued : IssuedSessionTurnLease} (h : Sound issued.fencingToken s) : LeaseKept issued s := by
  refine ⟨h.token, fun now hvalid => ?_, h.shaped.one, h.idle, h.armed, ?_, h.hold.has_iff, ?_, fun hreleasing => ?_⟩
  · unfold stillValid at hvalid
    split_ifs at hvalid with hover hpast
    rw [Bool.or_eq_true, not_or, Bool.not_eq_true, Bool.not_eq_true] at hover
    rw [not_le, h.deadline, lt_min_iff] at hpast
    exact ⟨hpast.1, hpast.2, hover.2, hover.1⟩
  · rw [h.once]
    split <;> omega
  · simp only [leaseStep, Host.release]
    split
    · assumption
    · rfl
  · have hclosed : s.lease.closed = true := h.releasing ▸ hreleasing
    refine ⟨hclosed, ?_⟩
    simp only [leaseStep]
    split
    · split <;> exact hclosed
    · exact hclosed

theorem Core.lose (h : Core token s) : Sound token s.lose := by
  unfold Host.lose
  split
  · rename_i hover
    rw [Bool.or_eq_true, h.started] at hover
    refine ⟨h, fun hlost hclosed => ?_⟩
    rw [hlost, hclosed] at hover
    simp at hover
  · rename_i hlive
    rw [Bool.or_eq_true, not_or, Bool.not_eq_true, Bool.not_eq_true, h.started] at hlive
    have hempty := h.shaped.clearTimers
    refine ⟨⟨h.token, h.deadline, rfl, ?_, h.releasing, .of_nil hempty, fun _ => hempty, ?_⟩, nofun⟩
    · change s.lease.onLost + 1 = 1
      rw [h.once, hlive.2]
      rfl
    · exact h.hold.unhold (.inr ⟨rfl, fun hkept => by cases hkept.1⟩)

theorem Core.schedule (h : Core token s) (hlost : s.lease.leaseLost = false) (hclosed : s.lease.closed = false) (now : ℚ) :
    Sound token (s.schedule now) := by
  have hempty := h.shaped.clearTimers
  have hcleared : Core token { s with lease := s.lease.clearTimers } :=
    ⟨h.token, h.deadline, h.started, h.once, h.releasing, .of_nil hempty, fun _ => hempty, h.hold⟩
  unfold Host.schedule
  dsimp only
  split
  · exact hcleared.lose
  · obtain ⟨delay, delay', harmed⟩ : ∃ delay delay', (s.lease.clearTimers.arm (s.lease.clearTimers.localExpiresAt - now)).timers =
        [⟨s.lease.nextTimer, .expiry, delay⟩, ⟨s.lease.nextTimer + 1, .renew, delay'⟩] := by
      unfold TurnLease.arm
      dsimp only
      rw [hempty]
      exact ⟨_, _, rfl⟩
    refine ⟨⟨h.token, h.deadline, h.started, h.once, h.releasing, ?_, fun hover => ?_, h.hold⟩, fun _ _ => ?_⟩
    · refine ⟨s.lease.nextTimer, s.lease.nextTimer + 1, delay, delay', by omega, ?_, fun _ => ⟨rfl, rfl⟩⟩
      rw [harmed]
    · rcases hover with hover | hover
      · exact absurd (hlost.symm.trans hover) Bool.false_ne_true
      · exact absurd (hclosed.symm.trans hover) Bool.false_ne_true
    · dsimp only
      rw [harmed]
      exact ⟨_, List.mem_cons_self, rfl⟩

/-- Looking at a lease that is good changes nothing; looking at one that is past its deadline loses it. -/
theorem stillValid_cases (now : ℚ) (s : Host) :
    s.stillValid now = (true, s) ∧ s.lease.leaseLost = false ∧ s.lease.closed = false ∨ s.stillValid now = (false, s.lose) ∨
      s.stillValid now = (false, s) ∧ (s.lease.leaseLost = true ∨ s.lease.closed = true) := by
  unfold stillValid
  split
  · rename_i hover
    rw [Bool.or_eq_true] at hover
    exact .inr (.inr ⟨rfl, hover.symm⟩)
  · rename_i hlive
    rw [Bool.or_eq_true, not_or, Bool.not_eq_true, Bool.not_eq_true] at hlive
    split
    · exact .inr (.inl rfl)
    · exact .inl ⟨rfl, hlive.2, hlive.1⟩

theorem Core.stillValid (h : Core token s) (now : ℚ) : (s.stillValid now).1 = false → Sound token (s.stillValid now).2 := by
  intro hvalid
  rcases stillValid_cases now s with ⟨heq, -⟩ | heq | ⟨heq, hover⟩ <;> rw [heq] at hvalid ⊢
  · cases hvalid
  · exact h.lose
  · refine ⟨h, fun hlost hclosed => ?_⟩
    rcases hover with hover | hover
    · exact absurd (hlost.symm.trans hover) Bool.false_ne_true
    · exact absurd (hclosed.symm.trans hover) Bool.false_ne_true

theorem Sound.renewed (h : Sound token s) (answer : RenewAnswer) (readings : Readings) : Sound token (s.renewed answer readings) := by
  have hcore : Core token s := h.toCore
  unfold Host.renewed
  split
  · exact hcore.lose
  · rcases stillValid_cases readings.stillValid s with ⟨heq, hlost, hclosed⟩ | heq | ⟨heq, -⟩ <;> rw [heq] <;> dsimp only
    · rw [if_neg (by decide)]
      split
      · rename_i lease _
        rcases hvalid : validLease lease s.lease.current.turnId readings.validLease with _ | renewed <;> dsimp only
        · exact hcore.lose
        · split
          · exact hcore.lose
          · rename_i htoken
            rw [not_not] at htoken
            have hgranted : Core token { s with lease := { s.lease with
                current := renewed, takenAt := readings.taken,
                localExpiresAt := min renewed.expiresAt (readings.taken + SESSION_TURN_LEASE_TTL_MS) } } :=
              ⟨htoken.trans h.token, rfl, h.started, h.once, h.releasing, h.shaped, h.idle, h.hold⟩
            exact hgranted.schedule hlost hclosed readings.schedule
      · split
        · exact hcore.schedule hlost hclosed readings.schedule
        · exact hcore.lose
      · exact h
    · exact hcore.lose
    · exact h

theorem Sound.fire (h : Sound token s) {armed : ArmedTimer} (harmed : armed ∈ s.lease.timers) (now : ℚ) :
    Sound token ({ s with lease := { s.lease with timers := s.lease.timers.filter (·.id ≠ armed.id) } }.fire armed.timer now) := by
  have hcore : Core token { s with lease := { s.lease with timers := s.lease.timers.filter (·.id ≠ armed.id) } } := by
    refine ⟨h.token, h.deadline, h.started, h.once, h.releasing, h.shaped.filter _ rfl rfl rfl, fun hover => ?_, h.hold⟩
    dsimp only
    rw [h.idle hover]
    rfl
  rcases hkind : armed.timer with _ | _
  · have hleft : Sound token { s with lease := { s.lease with timers := s.lease.timers.filter (·.id ≠ armed.id) } } :=
      ⟨hcore, fun hlost hclosed => h.shaped.expiry_of_renew harmed hkind (h.armed hlost hclosed)⟩
    unfold Host.fire
    rcases stillValid_cases now { s with lease := { s.lease with timers := s.lease.timers.filter (·.id ≠ armed.id) } } with
      ⟨heq, -⟩ | heq | ⟨heq, -⟩ <;> rw [heq] <;> dsimp only
    · exact ⟨⟨hleft.token, hleft.deadline, hleft.started, hleft.once, hleft.releasing, hleft.shaped, hleft.idle, hleft.hold⟩,
        hleft.armed⟩
    · exact hcore.lose
    · exact hleft
  · exact hcore.lose

theorem Sound.release (h : Sound token s) : Sound token s.release := by
  unfold Host.release
  split
  · exact h
  · rename_i hopen
    rw [Bool.not_eq_true] at hopen
    have hnone : s.lease.releasing = none := by
      have hsome := h.releasing
      rw [hopen] at hsome
      simpa using hsome
    have hempty : ({ s.lease with closed := true } : TurnLease).clearTimers.timers = [] := h.shaped.clearTimers
    refine ⟨⟨h.token, h.deadline, h.started, h.once, rfl, .of_nil hempty, fun _ => hempty, h.hold.congr ?_⟩, nofun⟩
    rw [hnone]
    exact and_congr_right fun _ => ⟨fun _ => nofun, fun _ => nofun⟩

theorem Sound.step (h : Sound token s) (event : LeaseEvent) : Sound token (leaseStep s event) := by
  cases event with
  | timer id now =>
    simp only [leaseStep]
    split
    · exact h
    · rename_i armed hfound
      obtain rfl : armed.id = id := by simpa using List.find?_some hfound
      exact h.fire (List.mem_of_find?_eq_some hfound) now
  | answered answer readings =>
    simp only [leaseStep]
    split
    · exact h
    · have hasked : Sound token { s with lease := { s.lease with asked := s.lease.asked - 1 } } :=
        ⟨⟨h.token, h.deadline, h.started, h.once, h.releasing, h.shaped, h.idle, h.hold⟩, h.armed⟩
      exact hasked.renewed answer readings
  | valid now =>
    simp only [leaseStep]
    rcases hvalid : (s.stillValid now).1 with _ | _
    · exact h.toCore.stillValid now hvalid
    · rcases stillValid_cases now s with ⟨heq, -⟩ | heq | ⟨heq, -⟩ <;> rw [heq] at hvalid ⊢
      · exact h
      · cases hvalid
      · cases hvalid
  | contained result =>
    simp only [leaseStep]
    split
    · exact ⟨⟨h.token, h.deadline, h.started, h.once, h.releasing, h.shaped, h.idle, h.hold⟩, h.armed⟩
    · exact h
  | release => exact h.release
  | turnEnded =>
    simp only [leaseStep]
    split
    · rename_i hending
      have hclosed : s.lease.closed = true := by
        rw [← h.releasing, hending]
        rfl
      have hover : ∀ holds releasing, releasing.isSome = true → Holds.Stands s.lease.hold
          (s.lease.leaseLost = false ∧ releasing ≠ some .over) holds →
          Sound token { lease := { s.lease with releasing := releasing }, holds := holds } := by
        intro holds releasing hsome hstands
        refine ⟨⟨h.token, h.deadline, h.started, h.once, ?_, h.shaped, h.idle, hstands⟩, fun _ hopen => ?_⟩
        · exact hsome.trans hclosed.symm
        · exact absurd (hclosed.symm.trans hopen) nofun
      split
      · exact hover _ _ rfl (h.hold.unhold (.inr ⟨rfl, fun hkept => hkept.2 rfl⟩))
      · refine hover _ _ rfl (h.hold.congr (and_congr_right fun _ => ⟨fun _ => nofun, fun _ => ?_⟩))
        rw [hending]
        exact nofun
    · exact h
  | turnReleased =>
    simp only [leaseStep]
    split
    · rename_i hreleasing
      have hclosed : s.lease.closed = true := by
        rw [← h.releasing, hreleasing]
        rfl
      refine ⟨⟨h.token, h.deadline, h.started, h.once, ?_, h.shaped, h.idle, h.hold.unhold (.inr ⟨rfl, fun hkept => hkept.2 rfl⟩)⟩,
        fun _ hopen => ?_⟩
      · exact hclosed.symm
      · exact absurd (hclosed.symm.trans hopen) nofun
    · exact h
  | other event => exact ⟨⟨h.token, h.deadline, h.started, h.once, h.releasing, h.shaped, h.idle, h.hold.step event⟩, h.armed⟩

theorem later_refl (s : Host) : LeaseLater s s := ⟨fun h => h, fun h => h, fun _ => rfl⟩

theorem later_trans (h : LeaseLater s s') (h' : LeaseLater s' s'') : LeaseLater s s'' :=
  ⟨fun hlost => h'.lost (h.lost hlost), fun hclosed => h'.closed (h.closed hclosed),
    fun hclosed => (h'.quiet (h.closed hclosed)).trans (h.quiet hclosed)⟩

/-- Steps that leave loss, release and reports alone. -/
theorem later_of_eq (hlost : s'.lease.leaseLost = s.lease.leaseLost) (hclosed : s'.lease.closed = s.lease.closed)
    (honce : s'.lease.onLost = s.lease.onLost) : LeaseLater s s' :=
  ⟨fun h => hlost.trans h, fun h => hclosed.trans h, fun _ => honce⟩

theorem later_lose (s : Host) : LeaseLater s s.lose := by
  unfold Host.lose
  split
  · exact later_refl s
  · rename_i hlive
    rw [Bool.or_eq_true, not_or, Bool.not_eq_true] at hlive
    exact ⟨fun _ => rfl, fun h => h, fun h => absurd (hlive.1.symm.trans h) nofun⟩

theorem later_schedule (now : ℚ) (s : Host) : LeaseLater s (s.schedule now) := by
  have hcleared : LeaseLater s { s with lease := s.lease.clearTimers } := later_of_eq rfl rfl rfl
  unfold Host.schedule
  dsimp only
  split
  · exact later_trans hcleared (later_lose _)
  · exact later_of_eq rfl rfl rfl

theorem later_stillValid (now : ℚ) (s : Host) : LeaseLater s (s.stillValid now).2 := by
  rcases stillValid_cases now s with ⟨heq, -⟩ | heq | ⟨heq, -⟩ <;> rw [heq]
  · exact later_refl s
  · exact later_lose s
  · exact later_refl s

theorem later_renewed (answer : RenewAnswer) (readings : Readings) (s : Host) : LeaseLater s (s.renewed answer readings) := by
  unfold Host.renewed
  split
  · exact later_lose s
  · refine later_trans (later_stillValid readings.stillValid s) ?_
    generalize s.stillValid readings.stillValid = result
    obtain ⟨valid, s⟩ := result
    dsimp only
    split
    · exact later_refl s
    · split
      · split
        · exact later_lose s
        · split
          · exact later_lose s
          · refine later_trans ?_ (later_schedule _ _)
            exact later_of_eq rfl rfl rfl
      · split
        · exact later_schedule _ s
        · exact later_lose s
      · exact later_refl s

theorem later_fire (timer : LeaseTimer) (now : ℚ) (s : Host) : LeaseLater s (s.fire timer now) := by
  cases timer with
  | expiry => exact later_lose s
  | renew =>
    refine later_trans (later_stillValid now s) ?_
    unfold Host.fire
    generalize s.stillValid now = result
    obtain ⟨valid, s⟩ := result
    dsimp only
    split
    · exact later_of_eq rfl rfl rfl
    · exact later_refl s

theorem later_step (s : Host) (event : LeaseEvent) : LeaseLater s (leaseStep s event) := by
  cases event with
  | timer id now =>
    simp only [leaseStep]
    split
    · exact later_refl s
    · refine later_trans ?_ (later_fire _ now _)
      exact later_of_eq rfl rfl rfl
  | answered answer readings =>
    simp only [leaseStep]
    split
    · exact later_refl s
    · refine later_trans ?_ (later_renewed answer readings _)
      exact later_of_eq rfl rfl rfl
  | valid now => exact later_stillValid now s
  | contained result =>
    simp only [leaseStep]
    split
    · exact later_of_eq rfl rfl rfl
    · exact later_refl s
  | release =>
    simp only [leaseStep, Host.release]
    split
    · exact later_refl s
    · exact ⟨fun h => h, fun _ => rfl, fun _ => rfl⟩
  | turnEnded =>
    simp only [leaseStep]
    split
    · split <;> exact later_of_eq rfl rfl rfl
    · exact later_refl s
  | turnReleased =>
    simp only [leaseStep]
    split
    · exact later_of_eq rfl rfl rfl
    · exact later_refl s
  | other event => exact later_of_eq rfl rfl rfl

end Host

theorem sound_holdSessionTurnLease (sessionId : String) (issued : IssuedSessionTurnLease) (taken schedule : ℚ) {holds : Holds}
    (h : holds.Fresh) : Host.Sound issued.fencingToken (holdSessionTurnLease sessionId issued taken schedule holds) := by
  unfold holdSessionTurnLease
  refine Host.Core.schedule ?_ rfl rfl schedule
  refine ⟨rfl, rfl, rfl, rfl, rfl, .of_nil rfl, fun _ => rfl, ?_⟩
  exact (h.stands sessionId).congr ⟨fun _ => ⟨rfl, nofun⟩, fun _ => trivial⟩

/-- A lease that was issued, on a host that holds any others: at every point of every run it is kept, and what follows is later. -/
theorem turnLease_kept (sessionId : String) (issued : IssuedSessionTurnLease) (taken schedule : ℚ) (others : List HoldEvent)
    (before after : List LeaseEvent) :
    let start := holdSessionTurnLease sessionId issued taken schedule (run holdStep {} others)
    LeaseKept issued (run leaseStep start before) ∧
      LeaseLater (run leaseStep start before) (run leaseStep start (before ++ after)) := by
  intro start
  have hholds : (run holdStep {} others).Fresh := invariant_of_run Holds.Fresh (fun _ event h => h.step event) Holds.fresh_empty others
  have hsound : Host.Sound issued.fencingToken (run leaseStep start before) :=
    invariant_of_run (Host.Sound issued.fencingToken) (fun _ event h => h.step event)
      (sound_holdSessionTurnLease sessionId issued taken schedule hholds) before
  refine ⟨hsound.kept, ?_⟩
  rw [run_append]
  exact invariant_of_run (LeaseLater (run leaseStep start before)) (fun s event h => Host.later_trans h (Host.later_step s event))
    (Host.later_refl _) after

end Claxedo.Turns
