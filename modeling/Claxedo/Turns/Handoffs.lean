import Claxedo.Turns.AdmissionsKept

/-! A number once given up never comes back, so what is stale stays so; and whoever holds a session wakes its next waiter. -/

namespace Claxedo.Turns

open Claxedo.Lib

/-- A turn, a handoff, a gate or a lease is there from before or newly made, and whoever was woken stays so. -/
structure Renews (s s' : TurnAdmissions) : Prop where
  minted : s.minted ≤ s'.minted
  active : ∀ id turn, (s'.sessions id).active = some turn → (s.sessions id).active = some turn ∨ s.minted ≤ turn.generation
  handed : ∀ id token, (s'.sessions id).handed = some token → (s.sessions id).handed = some token ∨ s.minted ≤ token
  gate : ∀ id holder, (s'.sessions id).gate = some holder → (s.sessions id).gate = some holder ∨ s.minted ≤ holder
  lease : ∀ id lease, s'.leases id = some lease → s.leases id = some lease ∨ s.minted ≤ lease
  woken : ∀ (w : ℕ) (waiter : Waiter) (token : ℕ), s.waiters[w]? = some waiter → waiter.stage = .woken token →
    ∃ after : Waiter, s'.waiters[w]? = some after ∧ after.sessionId = waiter.sessionId ∧ after.stage = .woken token
  holds : ∀ (i : ℕ) (hold : IdleHold), s.holds[i]? = some hold → s'.holds[i]? = some hold

section
variable {s s' s'' : TurnAdmissions} {id : String}

theorem Renews.refl (s : TurnAdmissions) : Renews s s :=
  ⟨le_rfl, fun _ _ => .inl, fun _ _ => .inl, fun _ _ => .inl, fun _ _ => .inl, fun _ waiter _ hw hs => ⟨waiter, hw, rfl,
      hs⟩, fun _ _ hh => hh⟩

theorem Renews.trans (h : Renews s s') (h' : Renews s' s'') : Renews s s'' where
  minted := h.minted.trans h'.minted
  active := fun id turn hturn => (h'.active id turn hturn).elim (h.active id turn) fun hle => .inr (h.minted.trans hle)
  handed := fun id token htoken => (h'.handed id token htoken).elim (h.handed id token) fun hle => .inr (h.minted.trans hle)
  gate := fun id holder hholder => (h'.gate id holder hholder).elim (h.gate id holder) fun hle => .inr (h.minted.trans hle)
  lease := fun id lease hlease => (h'.lease id lease hlease).elim (h.lease id lease) fun hle => .inr (h.minted.trans hle)
  woken := fun w waiter token hw hs => by
    obtain ⟨after, hafter, hsession, hstage⟩ := h.woken w waiter token hw hs
    obtain ⟨last, hlast, hsession', hstage'⟩ := h'.woken w after token hafter hstage
    exact ⟨last, hlast, hsession'.trans hsession, hstage'⟩
  holds := fun i hold hi => h'.holds i hold (h.holds i hold hi)

theorem Renews.put {here : SessionAdmission}
    (hactive : ∀ turn, here.active = some turn → (s.sessions id).active = some turn ∨ s.minted ≤ turn.generation)
    (hhanded : ∀ token, here.handed = some token → (s.sessions id).handed = some token ∨ s.minted ≤ token)
    (hgate : ∀ holder, here.gate = some holder → (s.sessions id).gate = some holder ∨
        s.minted ≤ holder) : Renews s (s.put id here) := by
  refine { Renews.refl s with
    active := fun other turn hturn => ?_
    handed := fun other token htoken => ?_
    gate := fun other holder hholder => ?_ }
  · rw [put_sessions] at hturn
    split_ifs at hturn with hid
    · exact hid ▸ hactive turn hturn
    · exact .inl hturn
  · rw [put_sessions] at htoken
    split_ifs at htoken with hid
    · exact hid ▸ hhanded token htoken
    · exact .inl htoken
  · rw [put_sessions] at hholder
    split_ifs at hholder with hid
    · exact hid ▸ hgate holder hholder
    · exact .inl hholder

theorem renews_mint (s : TurnAdmissions) {n : ℕ} (h : s.minted ≤ n) : Renews s { s with minted := n } :=
  { Renews.refl s with minted := h }

theorem renews_mark (s : TurnAdmissions) (w : ℕ) {f : Waiter → Waiter}
    (hf : ∀ (waiter : Waiter) (token : ℕ), waiter.stage = .woken token → (f waiter).sessionId = waiter.sessionId ∧
        (f waiter).stage = .woken token) :
    Renews s { s with waiters := s.waiters.modify w f } := by
  refine { Renews.refl s with woken := fun v waiter token hv hs => ?_ }
  obtain ⟨after, hafter, rfl⟩ := Indexed.modify_exists (i := w) (f := f) hv
  refine ⟨_, hafter, ?_⟩
  split_ifs
  · exact hf waiter token hs
  · exact ⟨rfl, hs⟩

theorem renews_releaseTurnLease (s : TurnAdmissions) (id : String) (lease : ℕ) : Renews s (s.releaseTurnLease id lease) := by
  unfold TurnAdmissions.releaseTurnLease
  split_ifs
  · refine { Renews.refl s with lease := fun other lease' hlease => .inl ?_ }
    dsimp only at hlease
    rw [Function.update_apply] at hlease
    split_ifs at hlease
    exact hlease
  · exact .refl s

theorem renews_acquire (s : TurnAdmissions) (id : String) :
    Renews s { s with leases := Function.update s.leases id (some s.minted), minted := s.minted + 1 } := by
  refine { Renews.refl s with minted := Nat.le_succ _, lease := fun other lease hlease => ?_ }
  dsimp only at hlease
  rw [Function.update_apply] at hlease
  split_ifs at hlease
  · obtain rfl := Option.some.inj hlease
    exact .inr le_rfl
  · exact .inl hlease

/-- A waiter that is woken was waiting, which only those that do not know it yet are. -/
theorem renews_handOff (s : TurnAdmissions) (id : String)
    (hwaiting : ∀ w ∈ (s.sessions id).waiting, s.waiters[w]? = some { sessionId := id, stage := .waiting, spent := false }) :
    Renews s (s.handOff id) := by
  unfold TurnAdmissions.handOff
  dsimp only
  split_ifs
  · exact .refl s
  rcases hqueue : (s.sessions id).waiting with _ | ⟨next, rest⟩ <;> dsimp only
  · exact .refl s
  have hnext := hwaiting next (by rw [hqueue]; exact List.mem_cons_self)
  have hput : Renews s (s.put id { s.sessions id with waiting := rest, handed := some s.minted }) :=
    .put (fun _ hh => .inl hh) (fun token hh => .inr (Option.some.inj hh).le) fun _ hh => .inl hh
  refine (hput.trans (renews_mint _ (Nat.le_succ s.minted))).trans ?_
  refine { Renews.refl _ with woken := fun v waiter token hv hs => ⟨waiter, ?_, rfl, hs⟩ }
  have hne : next ≠ v := by
    rintro rfl
    obtain rfl := Option.some.inj (hnext.symm.trans hv)
    cases hs
  exact (Indexed.modify_other hne).trans hv

theorem renews_spend (s : TurnAdmissions) (id : String) (waiter : Option ℕ) : Renews s (s.spend id waiter) := by
  rcases waiter with _ | w
  · exact .refl s
  · refine renews_mark s w fun waiter token hs => ?_
    rw [hs]
    dsimp only
    split_ifs
    · exact ⟨rfl, rfl⟩
    · exact ⟨rfl, hs⟩

theorem Admitted.renews_release (h : Admitted s none) (id : String) (generation : ℕ) : Renews s (s.release id generation) := by
  unfold TurnAdmissions.release
  dsimp only
  rcases hactive : (s.sessions id).active with _ | current <;> dsimp only
  · exact .refl s
  split_ifs
  · exact .refl s
  · have hput := h.put id { s.sessions id with active := none } rfl (.inl rfl) (.inr rfl) fun _ hholder => .inl hholder
    have hreleased : Admitted ((s.put id { s.sessions id with active := none }).releaseTurnLease id current.leaseId) (some id) :=
        hput.releaseTurnLease fun turn hturn => by
      rw [put_sessions, if_pos rfl] at hturn
      cases hturn
    have hrenews : Renews s (s.put id { s.sessions id with active := none }) :=
      .put (fun _ hh => by cases hh) (fun _ hh => .inl hh) fun _ hh => .inl hh
    exact (hrenews.trans (renews_releaseTurnLease _ _ _)).trans (renews_handOff _ id (hreleased.waiting id))

theorem renews_takeGate (s : TurnAdmissions) (id : String) : Renews s (s.takeGate id) := by
  unfold TurnAdmissions.takeGate
  split_ifs
  · exact .refl s
  · have hput : Renews s (s.put id { s.sessions id with gate := some s.minted }) :=
      .put (fun _ hh => .inl hh) (fun _ hh => .inl hh) fun holder hh => .inr (Option.some.inj hh).le
    exact hput.trans (renews_mint _ (Nat.le_succ _))

theorem Admitted.renews_releaseGate (h : Admitted s none) (id : String) (holder : ℕ) : Renews s (s.releaseGate id holder) := by
  unfold TurnAdmissions.releaseGate
  split_ifs
  · exact .refl s
  · have hput := h.put id { s.sessions id with gate := none } rfl (.inr rfl) (.inr rfl) fun _ hh => by cases hh
    have hrenews : Renews s (s.put id { s.sessions id with gate := none }) :=
      .put (fun _ hh => .inl hh) (fun _ hh => .inl hh) fun _ hh => by cases hh
    exact hrenews.trans (renews_handOff _ id (hput.waiting id))

theorem renews_whenIdle (s : TurnAdmissions) (id : String) : Renews s (s.whenIdle id) := by
  have hpush : ∀ waiter : Waiter, Renews s { s with waiters := s.waiters ++ [waiter] } := fun waiter =>
    { Renews.refl s with woken := fun w waiter _ hw hs => ⟨waiter, Indexed.snoc_at _ hw, rfl, hs⟩ }
  unfold TurnAdmissions.whenIdle
  dsimp only
  split_ifs
  · exact hpush _
  · have hput : Renews s (s.put id { s.sessions id with waiting := (s.sessions id).waiting ++ [s.waiters.length] }) :=
      .put (fun _ hh => .inl hh) (fun _ hh => .inl hh) fun _ hh => .inl hh
    exact { hput with woken := fun w waiter _ hw hs => ⟨waiter, Indexed.snoc_at _ hw, rfl, hs⟩ }

theorem Admitted.renews_holdIdle (h : Admitted s none) (id : String) (throws : Bool) : Renews s (s.holdIdle id throws) := by
  have hgated := h.takeGate id
  have hrenews := renews_takeGate s id
  unfold TurnAdmissions.holdIdle
  dsimp only
  split_ifs
  · exact .refl s
  · exact .refl s
  · exact hrenews.trans (hgated.renews_releaseGate id _)
  · rcases acquireTurnLease_cases (s.takeGate id) id with hnone | ⟨-, hsome⟩
    · rw [hnone]
      exact hrenews.trans (hgated.renews_releaseGate id _)
    · rw [hsome]
      have hleased := hrenews.trans (renews_acquire _ id)
      exact { hleased with holds := fun i hold hi => Indexed.snoc_at _ (hleased.holds i hold hi) }

theorem Admitted.renews_claim (h : Admitted s none) (id turnId assistantMessageId : String) (waiter : Option ℕ) (throws : Bool) :
    Renews s (s.claim id turnId assistantMessageId waiter throws) := by
  have hspend := renews_spend s id waiter
  have hput := h.put id { s.sessions id with handed := none } rfl (.inr rfl) (.inl rfl) fun _ hholder => .inl hholder
  have hspent : Admitted ((s.spend id waiter).put id { s.sessions id with handed := none }) (some id) := by
    rw [spend_put]
    exact hput.spend waiter (by rw [put_sessions, if_pos rfl])
  have hsame : (s.spend id waiter).sessions = s.sessions := spend_sessions s id waiter
  have hgives : Renews s ((s.spend id waiter).put id { s.sessions id with handed := none }) :=
    hspend.trans (.put (fun _ hh => .inl (by rw [hsame]; exact hh)) (fun _ hh => by cases hh)
        fun _ hh => .inl (by rw [hsame]; exact hh))
  unfold TurnAdmissions.claim
  dsimp only
  by_cases hactive : (s.sessions id).active.isSome = true
  · rw [if_pos hactive]
    exact hspend
  rw [if_neg hactive]
  by_cases hgate : (s.sessions id).gate.isSome = true
  · rw [if_pos hgate]
    exact hgives
  rw [if_neg hgate]
  by_cases hthrows : throws = true
  · rw [if_pos hthrows]
    exact .refl s
  rw [if_neg hthrows]
  rcases acquireTurnLease_cases (s.spend id waiter) id with hnone | ⟨-, hsome⟩
  · rw [hnone]
    dsimp only
    split_ifs
    · exact hgives.trans (renews_handOff _ id (hspent.waiting id))
    · exact hspend
  · rw [hsome]
    dsimp only
    refine ((hspend.trans (renews_acquire _ id)).trans ?_).trans (renews_mint _ (Nat.le_succ _))
    refine .put (fun turn hh => .inr ?_) (fun _ hh => by cases hh) fun _ hh => .inl ?_
    · obtain rfl := Option.some.inj hh
      exact le_rfl
    · change ((s.spend id waiter).sessions id).gate = _
      rw [hsame]
      exact hh

theorem Admitted.renews_abandon (h : Admitted s none) (w : ℕ) : Renews s (s.abandon w) := by
  unfold TurnAdmissions.abandon
  rcases hw : s.waiters[w]? with _ | waiter <;> dsimp only
  · exact .refl s
  rcases hstage : waiter.stage with _ | _ | token | _ <;> dsimp only
  · exact .refl s
  · exact .refl s
  · have hmark := renews_mark s w (f := fun waiter => { waiter with spent := true }) fun _ _ hs => ⟨rfl, hs⟩
    split_ifs
    · exact hmark
    · set t : TurnAdmissions := { s with waiters := s.waiters.modify w fun waiter => { waiter with spent := true } } with ht
      have hput : Renews t (t.put waiter.sessionId { t.sessions waiter.sessionId with handed := none }) :=
        .put (fun _ hh => .inl hh) (fun _ hh => by cases hh) fun _ hh => .inl hh
      refine (hmark.trans hput).trans (renews_handOff _ _ fun v hv => ?_)
      rw [put_sessions, if_pos rfl] at hv
      have hold := h.waiting waiter.sessionId v hv
      have hne : w ≠ v := by
        rintro rfl
        rw [hw] at hold
        rw [Option.some.inj hold] at hstage
        cases hstage
      exact (Indexed.modify_other hne).trans hold
  · exact .refl s

theorem renews_clear (s : TurnAdmissions) : Renews s s.clear := by
  refine { Renews.refl s with
    active := fun _ _ hh => by cases hh
    handed := fun _ _ hh => by cases hh
    gate := fun _ _ hh => by cases hh
    woken := fun w waiter token hw hs => ⟨waiter, ?_, rfl, hs⟩ }
  change (s.waiters.map _)[w]? = _
  rw [List.getElem?_map, hw, Option.map_some, hs]

theorem Admitted.renews_step (h : Admitted s none) (label : AdmissionLabel) : Renews s (s.step label) := by
  rcases label with id | ⟨id, turnId, assistantMessageId, waiter, throws⟩ | ⟨id, generation⟩ | id | ⟨id, holder⟩ | ⟨id,
      throws⟩ | i | w | _ | id |
    ⟨id, lease⟩
  · exact renews_whenIdle s id
  · exact h.renews_claim id turnId assistantMessageId waiter throws
  · exact h.renews_release id generation
  · exact renews_takeGate s id
  · unfold TurnAdmissions.step
    dsimp only
    split_ifs
    · exact .refl s
    · exact h.renews_releaseGate id holder
  · exact h.renews_holdIdle id throws
  · unfold TurnAdmissions.step TurnAdmissions.releaseHold
    dsimp only
    rcases hi : s.holds[i]? with _ | hold <;> dsimp only
    · exact .refl s
    · refine (renews_releaseTurnLease s _ _).trans (Admitted.renews_releaseGate (h.releaseTurnLease fun turn hturn heq => ?_) _ _)
      exact (h.leased _ turn hturn).2.2 hold (List.mem_iff_getElem?.mpr ⟨i, hi⟩) heq.symm
  · exact h.renews_abandon w
  · exact renews_clear s
  · unfold TurnAdmissions.step
    rcases acquireTurnLease_cases s id with hnone | ⟨-, hsome⟩
    · dsimp only
      rw [hnone]
      exact .refl s
    · dsimp only
      rw [hsome]
      exact { renews_acquire s id with }
  · unfold TurnAdmissions.step
    dsimp only
    split_ifs
    · exact renews_releaseTurnLease s id lease
    · exact .refl s

/-- A release, an abandon or a gate's release by one that holds the session no more. -/
def Stale (s : TurnAdmissions) : AdmissionLabel → Prop
  | .release id generation => generation < s.minted ∧ ∀ turn, (s.sessions id).active = some turn → turn.generation ≠ generation
  | .releaseGate id holder => holder < s.minted ∧ (s.sessions id).gate ≠ some holder
  | .releaseHold i => ∃ hold, s.holds[i]? = some hold ∧ (s.sessions hold.sessionId).gate ≠ some hold.gate ∧
      s.leases hold.sessionId ≠ some hold.leaseId
  | .abandon w => ∃ waiter token, s.waiters[w]? = some waiter ∧ waiter.stage = .woken token ∧
      (s.sessions waiter.sessionId).handed ≠ some token
  | _ => False

/-- Nothing changed but that a waiter had its say. -/
structure SameAdmissions (s s' : TurnAdmissions) : Prop where
  sessions : s'.sessions = s.sessions
  leases : s'.leases = s.leases
  holds : s'.holds = s.holds
  stages : s'.waiters.map (fun waiter => (waiter.sessionId, waiter.stage)) = s.waiters.map fun waiter => (waiter.sessionId,
      waiter.stage)

theorem SameAdmissions.refl (s : TurnAdmissions) : SameAdmissions s s := ⟨rfl, rfl, rfl, rfl⟩

variable {label : AdmissionLabel} {w : ℕ}

theorem Stale.nothing (h : Stale s label) : SameAdmissions s (s.step label) := by
  rcases label with _ | _ | ⟨id, generation⟩ | _ | ⟨id, holder⟩ | _ | i | w | _ | _ | _ <;> try exact h.elim
  · obtain ⟨-, hother⟩ := h
    change SameAdmissions s (s.release id generation)
    unfold TurnAdmissions.release
    dsimp only
    rcases hactive : (s.sessions id).active with _ | current <;> dsimp only
    · exact .refl s
    · rw [if_pos (hother current hactive)]
      exact .refl s
  · obtain ⟨-, hother⟩ := h
    change SameAdmissions s (if _ then s else s.releaseGate id holder)
    unfold TurnAdmissions.releaseGate
    rw [if_pos hother, ite_self]
    exact .refl s
  · obtain ⟨hold, hi, hgate, hlease⟩ := h
    change SameAdmissions s (s.releaseHold i)
    unfold TurnAdmissions.releaseHold TurnAdmissions.releaseTurnLease
    rw [hi]
    dsimp only
    rw [if_neg hlease]
    unfold TurnAdmissions.releaseGate
    rw [if_pos hgate]
    exact .refl s
  · obtain ⟨waiter, token, hw, hstage, hother⟩ := h
    change SameAdmissions s (s.abandon w)
    unfold TurnAdmissions.abandon
    rw [hw]
    dsimp only
    rw [hstage]
    dsimp only
    rw [if_pos hother]
    refine ⟨rfl, rfl, rfl, List.ext_getElem? fun v => ?_⟩
    rw [List.getElem?_map, List.getElem?_map, List.getElem?_modify]
    rcases s.waiters[v]? with _ | old
    · rfl
    · by_cases hwv : w = v
      · simp [hwv]
      · simp [hwv]

theorem Stale.stays (hminted : Minted s) (h : Stale s label) (hrenews : Renews s s') : Stale s' label := by
  rcases label with _ | _ | ⟨id, generation⟩ | _ | ⟨id, holder⟩ | _ | i | w | _ | _ | _ <;> try exact h.elim
  · obtain ⟨hlt, hother⟩ := h
    refine ⟨hlt.trans_le hrenews.minted, fun turn hturn => ?_⟩
    rcases hrenews.active id turn hturn with hold | hnew
    · exact hother turn hold
    · omega
  · obtain ⟨hlt, hother⟩ := h
    refine ⟨hlt.trans_le hrenews.minted, fun hgate => ?_⟩
    rcases hrenews.gate id holder hgate with hold | hnew
    · exact hother hold
    · omega
  · obtain ⟨hold, hi, hgate, hlease⟩ := h
    have hlt := hminted.holds hold (List.mem_iff_getElem?.mpr ⟨i, hi⟩)
    refine ⟨hold, hrenews.holds i hold hi, fun hh => ?_, fun hh => ?_⟩
    · rcases hrenews.gate _ _ hh with hh | hnew
      · exact hgate hh
      · omega
    · rcases hrenews.lease _ _ hh with hh | hnew
      · exact hlease hh
      · omega
  · obtain ⟨waiter, token, hw, hstage, hother⟩ := h
    have hlt := hminted.woken w waiter token hw hstage
    obtain ⟨after, hafter, hsession, hstage'⟩ := hrenews.woken w waiter token hw hstage
    refine ⟨after, token, hafter, hstage', fun hh => ?_⟩
    rcases hrenews.handed _ _ hh with hh | hnew
    · exact hother (hsession ▸ hh)
    · omega

theorem handOff_here (s : TurnAdmissions) (id : String) :
    ((s.handOff id).sessions id).active = (s.sessions id).active ∧ ((s.handOff id).sessions id).gate = (s.sessions id).gate ∧
      (((s.handOff id).sessions id).handed = (s.sessions id).handed ∨ ((s.handOff id).sessions id).handed = some s.minted) ∧
      (s.handOff id).leases = s.leases := by
  unfold TurnAdmissions.handOff
  dsimp only
  split_ifs
  · exact ⟨rfl, rfl, .inl rfl, rfl⟩
  rcases (s.sessions id).waiting with _ | ⟨next, rest⟩ <;> dsimp only
  · exact ⟨rfl, rfl, .inl rfl, rfl⟩
  · rw [put_sessions, if_pos rfl]
    exact ⟨rfl, rfl, .inr rfl, rfl⟩

/-- An idle session's longest waiter is woken. -/
theorem handOff_wakes (rest : List ℕ) (hactive : (s.sessions id).active = none) (hgate : (s.sessions id).gate = none)
    (hhanded : (s.sessions id).handed = none) (hqueue : (s.sessions id).waiting = w :: rest)
    (hw : s.waiters[w]? = some { sessionId := id, stage := .waiting, spent := false }) :
    ∃ token, ((s.handOff id).waiters[w]?).map Waiter.stage = some (.woken token) := by
  refine ⟨s.minted, ?_⟩
  unfold TurnAdmissions.handOff
  dsimp only
  rw [hactive, hgate, hhanded, hqueue, if_neg (by simp)]
  dsimp only
  rw [Indexed.modify_at hw]
  rfl

/-- One who holds the session, or did, gives it up. -/
def Given (s : TurnAdmissions) : AdmissionLabel → Prop
  | .release _ generation => generation < s.minted
  | .releaseGate _ holder => holder < s.minted ∧ holder ∉ s.holds.map IdleHold.gate
  | .releaseHold i => ∃ hold, s.holds[i]? = some hold
  | .abandon w => ∃ waiter token, s.waiters[w]? = some waiter ∧ waiter.stage = .woken token
  | _ => False

/-- Whoever gave the session up is stale from then on. -/
theorem Admitted.stale_of_given (h : Admitted s none) (hgiven : Given s label) : Stale (s.step label) label := by
  have hrenews := h.renews_step label
  have hstale : Stale s label → Stale (s.step label) label := fun hs => hs.stays h.toMinted hrenews
  rcases label with _ | _ | ⟨id, generation⟩ | _ | ⟨id, holder⟩ | _ | i | w | _ | _ | _ <;> try exact hgiven.elim
  · by_cases hother : ∀ turn, (s.sessions id).active = some turn → turn.generation ≠ generation
    · exact hstale ⟨hgiven, hother⟩
    refine ⟨Nat.lt_of_lt_of_le hgiven hrenews.minted, fun turn hturn => ?_⟩
    push Not at hother
    obtain ⟨current, hactive, hsame⟩ := hother
    change ((s.release id generation).sessions id).active = some turn at hturn
    unfold TurnAdmissions.release at hturn
    dsimp only at hturn
    rw [hactive] at hturn
    dsimp only at hturn
    rw [if_neg (not_not.mpr hsame), (handOff_here _ _).1, releaseTurnLease_sessions, put_sessions, if_pos rfl] at hturn
    cases hturn
  · by_cases hother : (s.sessions id).gate ≠ some holder
    · exact hstale ⟨hgiven.1, hother⟩
    refine ⟨Nat.lt_of_lt_of_le hgiven.1 hrenews.minted, fun hgate => ?_⟩
    change (((if _ then s else s.releaseGate id holder) : TurnAdmissions).sessions id).gate = _ at hgate
    rw [if_neg hgiven.2] at hgate
    unfold TurnAdmissions.releaseGate at hgate
    rw [if_neg hother, (handOff_here _ _).2.1, put_sessions, if_pos rfl] at hgate
    cases hgate
  · obtain ⟨hold, hi⟩ := hgiven
    have hlt := h.holds hold (List.mem_iff_getElem?.mpr ⟨i, hi⟩)
    have hfreed : (s.releaseTurnLease hold.sessionId hold.leaseId).leases hold.sessionId ≠ some hold.leaseId := by
      unfold TurnAdmissions.releaseTurnLease
      split_ifs with hheld
      · dsimp only
        rw [Function.update_self]
        simp
      · exact hheld
    refine ⟨hold, hrenews.holds i hold hi, ?_, ?_⟩ <;> unfold TurnAdmissions.step TurnAdmissions.releaseHold <;> dsimp only <;>
      rw [hi] <;> dsimp only <;> unfold TurnAdmissions.releaseGate <;> split_ifs with hgate
    · exact hgate
    · rw [(handOff_here _ _).2.1, put_sessions, if_pos rfl]
      simp
    · exact hfreed
    · rw [(handOff_here _ _).2.2.2]
      exact hfreed
  · obtain ⟨waiter, token, hw, hstage⟩ := hgiven
    by_cases hother : (s.sessions waiter.sessionId).handed ≠ some token
    · exact hstale ⟨waiter, token, hw, hstage, hother⟩
    obtain ⟨after, hafter, hsession, hstage'⟩ := hrenews.woken w waiter token hw hstage
    refine ⟨after, token, hafter, hstage', ?_⟩
    rw [hsession]
    change ((s.abandon w).sessions waiter.sessionId).handed ≠ some token
    unfold TurnAdmissions.abandon
    rw [hw]
    dsimp only
    rw [hstage]
    dsimp only
    rw [if_neg hother]
    have hhere := (handOff_here (({ s with waiters := s.waiters.modify w fun waiter => { waiter with spent := true } } : TurnAdmissions).put
      waiter.sessionId { s.sessions waiter.sessionId with handed := none }) waiter.sessionId).2.2.1
    rcases hhere with hnone | hnew
    · rw [hnone, put_sessions, if_pos rfl]
      simp
    · rw [hnew]
      intro hh
      exact absurd (h.woken w waiter token hw hstage) (by rw [← Option.some.inj hh]; exact lt_irrefl _)

/-- The turn's release, its handoff's abandon, or the gate's release. -/
def Finishes (id : String) : AdmissionLabel → Prop
  | .release id' _ => id' = id
  | .releaseGate id' _ => id' = id
  | .releaseHold _ => True
  | .abandon _ => True
  | _ => False

theorem handOff_gated (hgate : (s.sessions id).gate.isSome) : s.handOff id = s := by
  unfold TurnAdmissions.handOff
  dsimp only
  rw [if_pos (.inr (.inl hgate))]

theorem release_eq {turn : ActiveTurn} (hactive : (s.sessions id).active = some turn) : s.release id turn.generation =
    ((s.put id { s.sessions id with active := none }).releaseTurnLease id turn.leaseId).handOff id := by
  unfold TurnAdmissions.release
  dsimp only
  rw [hactive]
  dsimp only
  rw [if_neg (by simp)]

theorem abandon_eq {v token : ℕ} {waiter : Waiter} (hv : s.waiters[v]? = some waiter) (hstage : waiter.stage = .woken token)
    (hhanded : (s.sessions waiter.sessionId).handed = some token) : s.abandon v =
      (({ s with waiters := s.waiters.modify v fun waiter => { waiter with spent := true } } : TurnAdmissions).put waiter.sessionId
        { s.sessions waiter.sessionId with handed := none }).handOff waiter.sessionId := by
  unfold TurnAdmissions.abandon
  rw [hv]
  dsimp only
  rw [hstage]
  dsimp only
  rw [if_neg (by rw [hhanded]; simp)]

theorem releaseTurnLease_waiters (s : TurnAdmissions) (id : String) (lease : ℕ) : (s.releaseTurnLease id lease).waiters =
    s.waiters := by
  unfold TurnAdmissions.releaseTurnLease
  split_ifs <;> rfl

/-- Under a gate the session's turn ends, or its handoff is given up, and nobody is woken. -/
theorem Admitted.quiets (h : Admitted s none) {holder : ℕ} (hgate : (s.sessions id).gate = some holder) :
    ∃ labels, (∀ label ∈ labels, Finishes id label) ∧
      (run TurnAdmissions.step s labels).sessions id = { s.sessions id with active := none, handed := none } := by
  rcases hactive : (s.sessions id).active with _ | turn
  · rcases hhanded : (s.sessions id).handed with _ | token
    · refine ⟨[], by simp, ?_⟩
      rw [run_nil]
      rcases hhere : s.sessions id with ⟨active, waiting, handed, gate⟩
      rw [hhere] at hactive hhanded
      simp only at hactive hhanded
      rw [hactive, hhanded]
    · obtain ⟨v, waiter, hv, hsession, hstage, -⟩ := h.place id token hhanded
      refine ⟨[.abandon v], by simp [Finishes], ?_⟩
      change (s.abandon v).sessions id = _
      subst hsession
      rw [abandon_eq hv hstage hhanded, handOff_gated (by rw [put_sessions, if_pos rfl]; dsimp only; rw [hgate]; rfl),
          put_sessions, if_pos rfl]
      rcases hhere : s.sessions waiter.sessionId with ⟨active, waiting, handed, gate⟩
      rw [hhere] at hactive
      simp only at hactive
      rw [hactive]
  · refine ⟨[.release id turn.generation], by simp [Finishes], ?_⟩
    have hnone := h.apart id (by rw [hactive]; rfl)
    change (s.release id turn.generation).sessions id = _
    rw [release_eq hactive, handOff_gated (by rw [releaseTurnLease_sessions, put_sessions, if_pos rfl]; dsimp only; rw [hgate]; rfl),
      releaseTurnLease_sessions, put_sessions, if_pos rfl]
    rcases hhere : s.sessions id with ⟨active, waiting, handed, gate⟩
    rw [hhere] at hnone
    simp only at hnone
    rw [hnone]

/-- The gate's holder releases it, and the session, being idle, is handed on. -/
theorem Admitted.opens (h : Admitted s none) {holder : ℕ} {rest : List ℕ} (hactive : (s.sessions id).active = none)
    (hhanded : (s.sessions id).handed = none) (hgate : (s.sessions id).gate = some holder)
    (hqueue : (s.sessions id).waiting = w :: rest) :
    ∃ label, Finishes id label ∧ ∃ token, ((s.step label).waiters[w]?).map Waiter.stage = some (.woken token) := by
  have hw := h.waiting id w (by rw [hqueue]; exact List.mem_cons_self)
  by_cases hours : holder ∈ s.holds.map IdleHold.gate
  · obtain ⟨hold, hmem, hsame⟩ := List.mem_map.mp hours
    obtain ⟨i, hi⟩ := List.mem_iff_getElem?.mp hmem
    have hid : hold.sessionId = id := h.ours hold hmem id (hsame ▸ hgate)
    refine ⟨.releaseHold i, trivial, ?_⟩
    change ∃ token, ((s.releaseHold i).waiters[w]?).map Waiter.stage = _
    unfold TurnAdmissions.releaseHold
    rw [hi]
    dsimp only
    rw [hid, hsame]
    unfold TurnAdmissions.releaseGate
    rw [releaseTurnLease_sessions, if_neg (by rw [hgate]; simp)]
    refine handOff_wakes rest ?_ ?_ ?_ ?_ ?_
    · rw [put_sessions, if_pos rfl]
      exact hactive
    · rw [put_sessions, if_pos rfl]
    · rw [put_sessions, if_pos rfl]
      exact hhanded
    · rw [put_sessions, if_pos rfl]
      exact hqueue
    · exact (congrArg (·[w]?) (releaseTurnLease_waiters s id hold.leaseId)).trans hw
  · refine ⟨.releaseGate id holder, rfl, ?_⟩
    change ∃ token, ((if holder ∈ s.holds.map IdleHold.gate then s else s.releaseGate id holder).waiters[w]?).map Waiter.stage = _
    rw [if_neg hours]
    unfold TurnAdmissions.releaseGate
    rw [if_neg (by rw [hgate]; simp)]
    refine handOff_wakes rest ?_ ?_ ?_ ?_ hw
    · rw [put_sessions, if_pos rfl]
      exact hactive
    · rw [put_sessions, if_pos rfl]
    · rw [put_sessions, if_pos rfl]
      exact hhanded
    · rw [put_sessions, if_pos rfl]
      exact hqueue

/-- Whoever waits longest is woken once they that hold the session give it up. -/
theorem Admitted.wakes (h : Admitted s none) {rest : List ℕ} (hqueue : (s.sessions id).waiting = w :: rest) :
    ∃ labels, (∀ label ∈ labels, Finishes id label) ∧
      ∃ token, ((run TurnAdmissions.step s labels).waiters[w]?).map Waiter.stage = some (.woken token) := by
  have hw := h.waiting id w (by rw [hqueue]; exact List.mem_cons_self)
  rcases hgate : (s.sessions id).gate with _ | holder
  · rcases hactive : (s.sessions id).active with _ | turn
    · rcases hhanded : (s.sessions id).handed with _ | token
      · have hheld := h.next id (by simp) (by rw [hqueue]; simp)
        rw [hactive, hgate, hhanded] at hheld
        simp at hheld
      · obtain ⟨v, waiter, hv, hsession, hstage, -⟩ := h.place id token hhanded
        refine ⟨[.abandon v], by simp [Finishes], ?_⟩
        change ∃ token, ((s.abandon v).waiters[w]?).map Waiter.stage = _
        subst hsession
        rw [abandon_eq hv hstage hhanded]
        refine handOff_wakes rest ?_ ?_ ?_ ?_ ?_
        · rw [put_sessions, if_pos rfl]
          exact hactive
        · rw [put_sessions, if_pos rfl]
          exact hgate
        · rw [put_sessions, if_pos rfl]
        · rw [put_sessions, if_pos rfl]
          exact hqueue
        · have hne : v ≠ w := by
            rintro rfl
            rw [hv] at hw
            rw [Option.some.inj hw] at hstage
            cases hstage
          exact (Indexed.modify_other hne).trans hw
    · refine ⟨[.release id turn.generation], by simp [Finishes], ?_⟩
      change ∃ token, ((s.release id turn.generation).waiters[w]?).map Waiter.stage = _
      rw [release_eq hactive]
      refine handOff_wakes rest ?_ ?_ ?_ ?_ ?_
      · rw [releaseTurnLease_sessions, put_sessions, if_pos rfl]
      · rw [releaseTurnLease_sessions, put_sessions, if_pos rfl]
        exact hgate
      · rw [releaseTurnLease_sessions, put_sessions, if_pos rfl]
        exact h.apart id (by rw [hactive]; rfl)
      · rw [releaseTurnLease_sessions, put_sessions, if_pos rfl]
        exact hqueue
      · rw [releaseTurnLease_waiters]
        exact hw
  · obtain ⟨labels, hfinish, hhere⟩ := h.quiets hgate
    have hkept : Admitted (run TurnAdmissions.step s labels) none := invariant_of_run (Admitted · none)
        (fun _ label ht => ht.step label) h labels
    obtain ⟨label, hlabel, token, hwoken⟩ := hkept.opens (show (_ : Option ActiveTurn) = none by rw [hhere])
      (show (_ : Option ℕ) = none by rw [hhere]) (by rw [hhere]; exact hgate) (by rw [hhere]; exact hqueue)
    refine ⟨labels ++ [label], fun l hl => ?_, token, by rw [run_snoc]; exact hwoken⟩
    rcases List.mem_append.mp hl with hl | hl
    · exact hfinish l hl
    · obtain rfl := List.mem_singleton.mp hl
      exact hlabel

/-- Every waiter that still waits is in its session's queue. -/
def Queued (s : TurnAdmissions) : Prop :=
  ∀ (w : ℕ) (waiter : Waiter), s.waiters[w]? = some waiter → waiter.stage = .waiting → w ∈ (s.sessions waiter.sessionId).waiting

namespace Queued

theorem of_sessions (h : Queued s) (hwaiters : ∀ (w : ℕ) (waiter : Waiter), s'.waiters[w]? = some waiter → waiter.stage = .waiting →
    s.waiters[w]? = some waiter) (hqueues : ∀ id, (s'.sessions id).waiting = (s.sessions id).waiting) : Queued s' := by
  intro w waiter hw hstage
  rw [hqueues]
  exact h w waiter (hwaiters w waiter hw hstage) hstage

theorem put (h : Queued s) (id : String) {here : SessionAdmission} (hqueue : here.waiting = (s.sessions id).waiting) :
    Queued (s.put id here) := by
  refine h.of_sessions (fun w waiter hw _ => hw) fun other => ?_
  rw [put_sessions]
  split_ifs with hid
  · rw [hqueue, hid]
  · rfl

/-- A waiter had its say, which one that waits has not. -/
theorem mark (h : Queued s) (w : ℕ) {f : Waiter → Waiter}
    (hf : ∀ waiter, s.waiters[w]? = some waiter → (f waiter).stage = .waiting → f waiter = waiter) :
    Queued { s with waiters := s.waiters.modify w f } := by
  refine h.of_sessions (fun v waiter hv hstage => ?_) fun _ => rfl
  obtain ⟨before, hbefore, rfl⟩ := Indexed.of_modify hv
  split_ifs at hstage ⊢ with hvw
  · subst hvw
    rw [hf before hbefore hstage]
    exact hbefore
  · exact hbefore

theorem releaseTurnLease (h : Queued s) (id : String) (lease : ℕ) : Queued (s.releaseTurnLease id lease) := by
  unfold TurnAdmissions.releaseTurnLease
  split_ifs <;> exact h

/-- The waiter that leaves the queue is woken. -/
theorem handOff (h : Queued s) (id : String) : Queued (s.handOff id) := by
  unfold TurnAdmissions.handOff
  dsimp only
  split_ifs
  · exact h
  rcases hqueue : (s.sessions id).waiting with _ | ⟨next, rest⟩ <;> dsimp only
  · exact h
  intro w waiter hw hstage
  obtain ⟨before, hbefore, rfl⟩ := Indexed.of_modify hw
  -- the one that was woken waits no more
  split_ifs at hstage ⊢ with hnext
  have hmem := h w before hbefore hstage
  dsimp only
  rw [put_sessions]
  split_ifs with hid
  · rw [hid, hqueue] at hmem
    exact (List.mem_cons.mp hmem).resolve_left fun heq => hnext heq.symm
  · exact hmem

theorem takeGate (h : Queued s) (id : String) : Queued (s.takeGate id) := by
  unfold TurnAdmissions.takeGate
  split_ifs
  · exact h
  · exact h.put id rfl

theorem releaseGate (h : Queued s) (id : String) (holder : ℕ) : Queued (s.releaseGate id holder) := by
  unfold TurnAdmissions.releaseGate
  split_ifs
  · exact h
  · refine handOff (put h id ?_) id
    rfl

theorem spend (h : Queued s) (id : String) (waiter : Option ℕ) : Queued (s.spend id waiter) := by
  rcases waiter with _ | w
  · exact h
  · refine h.mark w fun waiter _ hstage => ?_
    split at hstage
    · rename_i token htoken
      split_ifs at hstage <;> cases htoken.symm.trans hstage
    · rfl

theorem whenIdle (h : Queued s) (id : String) : Queued (s.whenIdle id) := by
  unfold TurnAdmissions.whenIdle
  dsimp only
  split_ifs
  · intro w waiter hw hstage
    rcases Indexed.of_snoc hw with hw | ⟨-, rfl⟩
    · exact h w waiter hw hstage
    · cases hstage
  · intro w waiter hw hstage
    dsimp only
    rw [put_sessions]
    rcases Indexed.of_snoc hw with hw | ⟨rfl, rfl⟩
    · split_ifs with hid
      · exact List.mem_append_left _ (hid ▸ h w waiter hw hstage)
      · exact h w waiter hw hstage
    · rw [if_pos rfl]
      exact List.mem_append_right _ (List.mem_singleton.mpr rfl)

theorem step (h : Queued s) (label : AdmissionLabel) : Queued (s.step label) := by
  cases label with
  | whenIdle id => exact h.whenIdle id
  | claim id turnId assistantMessageId waiter throws =>
    have hspent := h.spend id waiter
    have hhere : (s.sessions id).waiting = ((s.spend id waiter).sessions id).waiting := by rw [spend_sessions]
    rcases acquireTurnLease_cases (s.spend id waiter) id with hlease | ⟨-, hlease⟩ <;>
      simp only [TurnAdmissions.step, TurnAdmissions.claim, hlease] <;> split_ifs
    · exact hspent
    · exact hspent.put id hhere
    · exact h
    · refine handOff (put hspent id ?_) id
      exact hhere
    · exact hspent
    · exact hspent
    · exact hspent.put id hhere
    · exact h
    · exact hspent.put id hhere
  | release id generation =>
    simp only [TurnAdmissions.step, TurnAdmissions.release]
    rcases (s.sessions id).active with _ | current <;> dsimp only
    · exact h
    · split_ifs
      · exact h
      · refine handOff (releaseTurnLease (put h id ?_) id current.leaseId) id
        rfl
  | gate id => exact h.takeGate id
  | releaseGate id holder =>
    simp only [TurnAdmissions.step]
    split_ifs
    · exact h
    · exact h.releaseGate id holder
  | holdIdle id throws =>
    simp only [TurnAdmissions.step, TurnAdmissions.holdIdle]
    split_ifs
    · exact h
    · exact h
    · exact (h.takeGate id).releaseGate id _
    · rcases acquireTurnLease_cases (s.takeGate id) id with hnone | ⟨-, hsome⟩
      · rw [hnone]
        exact (h.takeGate id).releaseGate id _
      · rw [hsome]
        exact h.takeGate id
  | releaseHold i =>
    simp only [TurnAdmissions.step, TurnAdmissions.releaseHold]
    rcases s.holds[i]? with _ | hold
    · exact h
    · exact (h.releaseTurnLease _ _).releaseGate _ _
  | abandon w =>
    simp only [TurnAdmissions.step, TurnAdmissions.abandon]
    rcases hw : s.waiters[w]? with _ | ⟨id, _ | _ | token | _, spent⟩ <;> dsimp only
    · exact h
    · exact h
    · exact h
    · have hmarked : Queued { s with waiters := s.waiters.modify w fun waiter => { waiter with spent := true } } :=
        h.mark w fun waiter hwaiter hstage => by
          obtain rfl := Option.some.inj (hw.symm.trans hwaiter)
          cases hstage
      split_ifs
      · exact hmarked
      · refine handOff (put hmarked id ?_) id
        rfl
    · exact h
  | clear =>
    intro w waiter hw hstage
    obtain ⟨before, -, rfl⟩ := Option.map_eq_some_iff.mp ((List.getElem?_map ..).symm.trans hw)
    rcases before with ⟨id, _ | _ | token | _, spent⟩ <;> cases hstage
  | othersAcquire id =>
    simp only [TurnAdmissions.step]
    rcases acquireTurnLease_cases s id with hnone | ⟨-, hsome⟩
    · rw [hnone]
      exact h
    · rw [hsome]
      exact h
  | othersRelease id lease =>
    simp only [TurnAdmissions.step]
    split_ifs
    · exact h.releaseTurnLease id lease
    · exact h

theorem run (labels : List AdmissionLabel) : Queued (run TurnAdmissions.step {} labels) :=
  invariant_of_run Queued (fun _ label h => h.step label) (fun _ _ hw => by cases hw) labels

end Queued

/-- What the claim map, the queue, the handoff and the gate say of every session at once. -/
structure Orderly (s : TurnAdmissions) : Prop where
  leased : ∀ id turn, (s.sessions id).active = some turn → s.leases id = some turn.leaseId ∧ turn.leaseId ∉ s.taken
  awaited : ∀ id, (s.sessions id).waiting ≠ [] → (s.sessions id).active.isSome ∨ (s.sessions id).gate.isSome ∨
    ∃ (token w : ℕ) (waiter : Waiter), (s.sessions id).handed = some token ∧ s.waiters[w]? = some waiter ∧ waiter.sessionId = id ∧
      waiter.stage = .woken token ∧ waiter.spent = false
  queued : Queued s

theorem Admitted.orderly (h : Admitted s none) (hqueued : Queued s) : Orderly s where
  leased := fun id turn hturn => ⟨(h.leased id turn hturn).1, (h.leased id turn hturn).2.1⟩
  awaited := fun id hne => by
    rcases h.next id (by simp) hne with hactive | hgate | hhanded
    · exact .inl hactive
    · exact .inr (.inl hgate)
    · obtain ⟨token, htoken⟩ := Option.isSome_iff_exists.mp hhanded
      obtain ⟨w, waiter, hw⟩ := h.place id token htoken
      exact .inr (.inr ⟨token, w, waiter, htoken, hw⟩)
  queued := hqueued

theorem admitted_run (labels : List AdmissionLabel) : Admitted (run TurnAdmissions.step {} labels) none :=
  invariant_of_run (Admitted · none) (fun _ label ht => ht.step label) admitted_start labels

theorem Stale.run (h : Admitted s none) (hs : Stale s label) (labels : List AdmissionLabel) :
    Stale (run TurnAdmissions.step s labels) label := by
  induction labels generalizing s with
  | nil => exact hs
  | cons first rest ih => exact ih (h.step first) (hs.stays h.toMinted (h.renews_step first))

end

/-- After any steps the sessions are in order, what is stale changes nothing then and ever after, whoever gave a session up is
stale, and whoever waits longest is woken by the steps of those that hold the session. -/
theorem no_prompt_waits (labels : List AdmissionLabel) :
    Orderly (run TurnAdmissions.step {} labels) ∧
    (∀ label more, Stale (run TurnAdmissions.step {} labels) label →
      SameAdmissions (run TurnAdmissions.step {} (labels ++ more)) (run TurnAdmissions.step {} (labels ++ more ++ [label]))) ∧
    (∀ label, Given (run TurnAdmissions.step {} labels) label → Stale (run TurnAdmissions.step {} (labels ++ [label])) label) ∧
    ∀ id w rest, ((run TurnAdmissions.step {} labels).sessions id).waiting = w :: rest → ∃ more, (∀ label ∈ more, Finishes id label) ∧
      ∃ token, ((run TurnAdmissions.step {} (labels ++ more)).waiters[w]?).map Waiter.stage = some (.woken token) := by
  have hkept := admitted_run labels
  refine ⟨hkept.orderly (.run labels), fun label more hstale => ?_, fun label hgiven => ?_, fun id w rest hqueue => ?_⟩
  · rw [run_snoc, run_append]
    exact (hstale.run hkept more).nothing
  · rw [run_snoc]
    exact hkept.stale_of_given hgiven
  · obtain ⟨more, hfinish, hwoken⟩ := hkept.wakes hqueue
    exact ⟨more, hfinish, by rw [run_append]; exact hwoken⟩

end Claxedo.Turns
