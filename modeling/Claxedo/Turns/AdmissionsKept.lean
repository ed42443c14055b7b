import Claxedo.Turns.Admissions

/-! No prompt waits on an idle session: what every step of the admissions keeps, and who wakes the next waiter. -/

namespace Claxedo.Turns

open Claxedo.Lib

/-- The numbers given out so far. -/
structure Minted (s : TurnAdmissions) : Prop where
  active : ∀ id turn, (s.sessions id).active = some turn → turn.generation < s.minted ∧ turn.leaseId < s.minted
  handed : ∀ id token, (s.sessions id).handed = some token → token < s.minted
  gate : ∀ id holder, (s.sessions id).gate = some holder → holder < s.minted
  lease : ∀ id lease, s.leases id = some lease → lease < s.minted
  taken : ∀ lease ∈ s.taken, lease < s.minted
  holds : ∀ hold ∈ s.holds, hold.leaseId < s.minted ∧ hold.gate < s.minted
  woken : ∀ (w : ℕ) (waiter : Waiter) (token : ℕ), s.waiters[w]? = some waiter → waiter.stage = .woken token → token < s.minted

/-- What holds between two calls, `next` of every session but the one that is just being handed on. -/
structure Admitted (s : TurnAdmissions) (handing : Option String) : Prop extends Minted s where
  leased : ∀ id turn, (s.sessions id).active = some turn →
    s.leases id = some turn.leaseId ∧ turn.leaseId ∉ s.taken ∧ ∀ hold ∈ s.holds, hold.leaseId ≠ turn.leaseId
  apart : ∀ id, (s.sessions id).active.isSome → (s.sessions id).handed = none
  next : ∀ id, some id ≠ handing → (s.sessions id).waiting ≠ [] →
    (s.sessions id).active.isSome ∨ (s.sessions id).gate.isSome ∨ (s.sessions id).handed.isSome
  place : ∀ id token, (s.sessions id).handed = some token →
    ∃ (w : ℕ) (waiter : Waiter), s.waiters[w]? = some waiter ∧ waiter.sessionId = id ∧ waiter.stage = .woken token ∧ waiter.spent = false
  waiting : ∀ id, ∀ w ∈ (s.sessions id).waiting, s.waiters[w]? = some { sessionId := id, stage := .waiting, spent := false }
  once : ∀ id, (s.sessions id).waiting.Nodup
  ours : ∀ hold ∈ s.holds, ∀ id, (s.sessions id).gate = some hold.gate → hold.sessionId = id
  tokens : ∀ (w w' : ℕ) (waiter waiter' : Waiter) (token : ℕ), s.waiters[w]? = some waiter → s.waiters[w']? = some waiter' →
    waiter.stage = .woken token → waiter'.stage = .woken token → w' = w

section
variable {s : TurnAdmissions} {handing : Option String} {id : String}

theorem put_sessions (s : TurnAdmissions) (id other : String) (here : SessionAdmission) :
    (s.put id here).sessions other = if other = id then here else s.sessions other := Function.update_apply _ _ _ _

theorem admitted_start : Admitted {} none where
  active := fun _ _ h => by cases h
  handed := fun _ _ h => by cases h
  gate := fun _ _ h => by cases h
  lease := fun _ _ h => by cases h
  taken := fun _ h => by cases h
  holds := fun _ h => by cases h
  woken := fun _ _ _ h => by cases h
  leased := fun _ _ h => by cases h
  apart := fun _ h => by cases h
  next := fun _ _ h => absurd rfl h
  place := fun _ _ h => by cases h
  waiting := fun _ _ h => by cases h
  once := fun _ => List.nodup_nil
  ours := fun _ h => by cases h
  tokens := fun _ _ _ _ _ h => by cases h

/-- A session gives up its turn or its handoff, and has its gate taken or given up. -/
theorem Admitted.put (h : Admitted s none) (id : String) (here : SessionAdmission) (hwaiting : here.waiting = (s.sessions id).waiting)
    (hactive : here.active = none ∨ here.active = (s.sessions id).active)
    (hhanded : here.handed = none ∨ here.handed = (s.sessions id).handed)
    (hgate : ∀ holder, here.gate = some holder →
      (s.sessions id).gate = some holder ∨ holder < s.minted ∧ ∀ hold ∈ s.holds, hold.gate ≠ holder) :
    Admitted (s.put id here) (some id) := by
  have hact : ∀ other turn, ((s.put id here).sessions other).active = some turn → (s.sessions other).active = some turn := by
    intro other turn hturn
    rw [put_sessions] at hturn
    split_ifs at hturn with hid
    · rcases hactive with hnone | hsame
      · rw [hnone] at hturn
        cases hturn
      · rw [hid, ← hsame]
        exact hturn
    · exact hturn
  have hhand : ∀ other token, ((s.put id here).sessions other).handed = some token → (s.sessions other).handed = some token := by
    intro other token htoken
    rw [put_sessions] at htoken
    split_ifs at htoken with hid
    · rcases hhanded with hnone | hsame
      · rw [hnone] at htoken
        cases htoken
      · rw [hid, ← hsame]
        exact htoken
    · exact htoken
  have hwait : ∀ other, ((s.put id here).sessions other).waiting = (s.sessions other).waiting := by
    intro other
    rw [put_sessions]
    split_ifs with hid
    · rw [hid, hwaiting]
    · rfl
  refine { h with
    active := fun other turn hturn => h.active other turn (hact other turn hturn)
    handed := fun other token htoken => h.handed other token (hhand other token htoken)
    gate := fun other holder hholder => ?_
    leased := fun other turn hturn => h.leased other turn (hact other turn hturn)
    apart := fun other hsome => ?_
    next := fun other hne hsome => ?_
    place := fun other token htoken => h.place other token (hhand other token htoken)
    waiting := fun other w hw => h.waiting other w (hwait other ▸ hw)
    once := fun other => (hwait other).symm ▸ h.once other
    ours := fun hold hhold other hgated => ?_ }
  · rw [put_sessions] at hholder
    split_ifs at hholder with hid
    · rcases hgate holder hholder with hold | ⟨hlt, -⟩
      · exact h.gate id holder hold
      · exact hlt
    · exact h.gate other holder hholder
  · obtain ⟨turn, hturn⟩ := Option.isSome_iff_exists.mp hsome
    have hnone := h.apart other (by rw [hact other turn hturn]; rfl)
    rcases htoken : ((s.put id here).sessions other).handed with _ | token
    · rfl
    · rw [hhand other token htoken] at hnone
      cases hnone
  · have hother : other ≠ id := fun hid => hne (by rw [hid])
    rw [put_sessions, if_neg hother] at hsome ⊢
    exact h.next other (by simp) hsome
  · rw [put_sessions] at hgated
    split_ifs at hgated with hid
    · rcases hgate _ hgated with hold' | ⟨-, hfresh⟩
      · rw [hid]
        exact h.ours hold hhold id hold'
      · exact absurd rfl (hfresh hold hhold)
    · exact h.ours hold hhold other hgated

/-- A session that kept someone on it needs no handing on. -/
theorem Admitted.settled (h : Admitted s (some id))
    (hnext : (s.sessions id).waiting ≠ [] → (s.sessions id).active.isSome ∨ (s.sessions id).gate.isSome ∨ (s.sessions id).handed.isSome) :
    Admitted s none := by
  refine { h with next := fun other _ hsome => ?_ }
  by_cases hid : other = id
  · subst hid
    exact hnext hsome
  · exact h.next other (fun hh => hid (Option.some.inj hh)) hsome

theorem Admitted.handOff (h : Admitted s (some id)) : Admitted (s.handOff id) none := by
  unfold TurnAdmissions.handOff
  dsimp only
  split_ifs with hheld
  · exact h.settled fun _ => hheld
  rw [not_or, not_or] at hheld
  obtain ⟨hactive, hgate, hhanded⟩ := hheld
  rcases hqueue : (s.sessions id).waiting with _ | ⟨next, rest⟩ <;> dsimp only
  · exact h.settled fun hne => absurd hqueue hne
  have hnext := h.waiting id next (by rw [hqueue]; exact List.mem_cons_self)
  have honce := h.once id
  rw [hqueue, List.nodup_cons] at honce
  have hwoken : (s.waiters.modify next fun waiter => { waiter with stage := .woken s.minted })[next]? =
      some { sessionId := id, stage := .woken s.minted, spent := false } := Indexed.modify_at hnext
  have hother : ∀ {w : ℕ} {waiter : Waiter}, s.waiters[w]? = some waiter → w ≠ next →
      (s.waiters.modify next fun waiter => { waiter with stage := .woken s.minted })[w]? = some waiter := fun hw hne => by
    rw [Indexed.modify_other (Ne.symm hne)]
    exact hw
  have hof : ∀ {w : ℕ} {waiter : Waiter},
      (s.waiters.modify next fun waiter => { waiter with stage := .woken s.minted })[w]? = some waiter →
      w = next ∧ waiter = { sessionId := id, stage := .woken s.minted, spent := false } ∨ w ≠ next ∧ s.waiters[w]? = some waiter := by
    intro w waiter hw
    by_cases hne : w = next
    · subst hne
      exact .inl ⟨rfl, Option.some.inj (hw.symm.trans hwoken)⟩
    · exact .inr ⟨hne, by rw [← hw, Indexed.modify_other (Ne.symm hne)]⟩
  set s' : TurnAdmissions := { s.put id { s.sessions id with waiting := rest, handed := some s.minted } with
    waiters := s.waiters.modify next fun waiter => { waiter with stage := .woken s.minted }
    minted := s.minted + 1 } with hs'
  have hsessions : ∀ other, s'.sessions other =
      if other = id then { s.sessions id with waiting := rest, handed := some s.minted } else s.sessions other := fun other =>
    put_sessions _ _ _ _
  refine ⟨⟨fun other turn hturn => ?_, fun other token htoken => ?_, fun other holder hholder => ?_, fun other lease hlease => ?_,
    fun lease hlease => ?_, fun hold hhold => ?_, fun w waiter token hw hstage => ?_⟩, fun other turn hturn => ?_, fun other hsome => ?_,
    fun other _ hsome => ?_, fun other token htoken => ?_, fun other w hw => ?_, fun other => ?_,
    fun hold hhold other hgated => ?_, fun w w' waiter waiter' token hw hw' hs₁ hs₂ => ?_⟩
  · rw [hsessions] at hturn
    split_ifs at hturn with hid
    · rw [show (s.sessions id).active = some turn from hturn] at hactive
      exact absurd rfl hactive
    · exact ⟨Nat.lt_succ_of_lt (h.active other turn hturn).1, Nat.lt_succ_of_lt (h.active other turn hturn).2⟩
  · rw [hsessions] at htoken
    split_ifs at htoken with hid
    · obtain rfl := Option.some.inj htoken
      exact Nat.lt_succ_self _
    · exact Nat.lt_succ_of_lt (h.handed other token htoken)
  · rw [hsessions] at hholder
    split_ifs at hholder with hid
    · exact Nat.lt_succ_of_lt (h.gate id holder hholder)
    · exact Nat.lt_succ_of_lt (h.gate other holder hholder)
  · exact Nat.lt_succ_of_lt (h.lease other lease hlease)
  · exact Nat.lt_succ_of_lt (h.taken lease hlease)
  · exact ⟨Nat.lt_succ_of_lt (h.holds hold hhold).1, Nat.lt_succ_of_lt (h.holds hold hhold).2⟩
  · rcases hof hw with ⟨-, rfl⟩ | ⟨-, hold⟩
    · obtain rfl := WaiterStage.woken.inj hstage
      exact Nat.lt_succ_self _
    · exact Nat.lt_succ_of_lt (h.woken w waiter token hold hstage)
  · rw [hsessions] at hturn
    split_ifs at hturn with hid
    · rw [show (s.sessions id).active = some turn from hturn] at hactive
      exact absurd rfl hactive
    · exact h.leased other turn hturn
  · rw [hsessions] at hsome ⊢
    split_ifs at hsome ⊢ with hid
    · exact absurd hsome hactive
    · exact h.apart other hsome
  · rw [hsessions] at hsome ⊢
    split_ifs at hsome ⊢ with hid
    · exact .inr (.inr rfl)
    · exact h.next other (fun hh => hid (Option.some.inj hh)) hsome
  · rw [hsessions] at htoken
    split_ifs at htoken with hid
    · obtain rfl := Option.some.inj htoken
      exact ⟨next, _, hwoken, hid.symm, rfl, rfl⟩
    · obtain ⟨w, waiter, hw, hsession, hstage, hspent⟩ := h.place other token htoken
      refine ⟨w, waiter, hother hw fun hne => ?_, hsession, hstage, hspent⟩
      rw [hne, hnext] at hw
      obtain rfl := Option.some.inj hw
      cases hstage
  · rw [hsessions] at hw
    split_ifs at hw with hid
    · subst hid
      exact hother (h.waiting other w (by rw [hqueue]; exact List.mem_cons_of_mem _ hw)) fun hne => honce.1 (hne ▸ hw)
    · have hold := h.waiting other w hw
      refine hother hold fun hne => ?_
      rw [hne, hnext] at hold
      exact hid (Waiter.mk.inj (Option.some.inj hold)).1.symm
  · rw [hsessions]
    split_ifs with hid
    · exact honce.2
    · exact h.once other
  · rw [hsessions] at hgated
    split_ifs at hgated with hid
    · rw [hid]
      exact h.ours hold hhold id hgated
    · exact h.ours hold hhold other hgated
  · rcases hof hw with ⟨rfl, rfl⟩ | ⟨-, hold⟩ <;> rcases hof hw' with ⟨rfl, rfl⟩ | ⟨-, hold'⟩
    · rfl
    · obtain rfl := WaiterStage.woken.inj hs₁
      exact absurd (h.woken w' waiter' _ hold' hs₂) (lt_irrefl _)
    · obtain rfl := WaiterStage.woken.inj hs₂
      exact absurd (h.woken w waiter _ hold hs₁) (lt_irrefl _)
    · exact h.tokens w w' waiter waiter' token hold hold' hs₁ hs₂

theorem Admitted.mint (h : Admitted s handing) {n : ℕ} (hle : s.minted ≤ n) : Admitted { s with minted := n } handing :=
  { h with
    active := fun other turn hturn => ⟨(h.active other turn hturn).1.trans_le hle, (h.active other turn hturn).2.trans_le hle⟩
    handed := fun other token htoken => (h.handed other token htoken).trans_le hle
    gate := fun other holder hholder => (h.gate other holder hholder).trans_le hle
    lease := fun other lease hlease => (h.lease other lease hlease).trans_le hle
    taken := fun lease hlease => (h.taken lease hlease).trans_le hle
    holds := fun hold hhold => ⟨(h.holds hold hhold).1.trans_le hle, (h.holds hold hhold).2.trans_le hle⟩
    woken := fun w waiter token hw hstage => (h.woken w waiter token hw hstage).trans_le hle }

theorem Admitted.releaseTurnLease (h : Admitted s handing) {lease : ℕ}
    (hother : ∀ turn, (s.sessions id).active = some turn → turn.leaseId ≠ lease) : Admitted (s.releaseTurnLease id lease) handing := by
  unfold TurnAdmissions.releaseTurnLease
  split_ifs with hheld
  · have hleases : ∀ other, Function.update s.leases id none other = if other = id then none else s.leases other := fun other =>
      Function.update_apply _ _ _ _
    refine { h with lease := fun other lease' hlease => ?_, leased := fun other turn hturn => ?_ }
    · dsimp only at hlease
      rw [hleases] at hlease
      split_ifs at hlease
      exact h.lease other lease' hlease
    · obtain ⟨hlease, hrest⟩ := h.leased other turn hturn
      refine ⟨?_, hrest⟩
      dsimp only
      rw [hleases]
      split_ifs with hid
      · subst hid
        exact absurd (Option.some.inj (hlease.symm.trans hheld)) (hother turn hturn)
      · exact hlease
  · exact h

theorem releaseTurnLease_sessions (s : TurnAdmissions) (id : String) (lease : ℕ) :
    (s.releaseTurnLease id lease).sessions = s.sessions := by
  unfold TurnAdmissions.releaseTurnLease
  split_ifs <;> rfl

/-- A woken waiter had its say, its handoff being over. -/
theorem Admitted.mark (h : Admitted s handing) (id : String) {w : ℕ} {f : Waiter → Waiter}
    (hf : ∀ waiter, f waiter = waiter ∨
      (∃ token, waiter.stage = .woken token) ∧ waiter.sessionId = id ∧ f waiter = { waiter with spent := true })
    (hhanded : ∀ waiter token, s.waiters[w]? = some waiter → waiter.stage = .woken token → (s.sessions id).handed ≠ some token) :
    Admitted { s with waiters := s.waiters.modify w f } handing := by
  have hof : ∀ {v : ℕ} {waiter : Waiter}, (s.waiters.modify w f)[v]? = some waiter →
      ∃ before, s.waiters[v]? = some before ∧ waiter.stage = before.stage := by
    intro v waiter hv
    obtain ⟨before, hbefore, rfl⟩ := Indexed.of_modify hv
    refine ⟨before, hbefore, ?_⟩
    split_ifs
    · rcases hf before with hsame | ⟨-, -, hspent⟩
      · rw [hsame]
      · rw [hspent]
    · rfl
  have hto : ∀ {v : ℕ} {waiter : Waiter}, s.waiters[v]? = some waiter → (w = v → f waiter = waiter) →
      (s.waiters.modify w f)[v]? = some waiter := by
    intro v waiter hv hsame
    obtain ⟨after, hafter, rfl⟩ := Indexed.modify_exists (i := w) (f := f) hv
    rw [hafter]
    split_ifs with hvw
    · rw [hsame hvw]
    · rfl
  refine { h with
    woken := fun v waiter token hv hstage => ?_
    place := fun other token htoken => ?_
    waiting := fun other v hv => ?_
    tokens := fun v v' waiter waiter' token hv hv' hs hs' => ?_ }
  · obtain ⟨before, hbefore, hsame⟩ := hof hv
    exact h.woken v before token hbefore (hsame ▸ hstage)
  · obtain ⟨v, waiter, hv, hsession, hstage, hspent⟩ := h.place other token htoken
    refine ⟨v, waiter, hto hv fun hwv => ?_, hsession, hstage, hspent⟩
    subst hwv
    rcases hf waiter with hsame | ⟨-, hid, -⟩
    · exact hsame
    · rw [hsession] at hid
      exact absurd (hid ▸ htoken) (hhanded waiter token hv hstage)
  · have hold := h.waiting other v hv
    refine hto hold fun _ => ?_
    rcases hf { sessionId := other, stage := .waiting, spent := false } with hsame | ⟨⟨token, hstage⟩, -⟩
    · exact hsame
    · cases hstage
  · obtain ⟨before, hbefore, hsame⟩ := hof hv
    obtain ⟨before', hbefore', hsame'⟩ := hof hv'
    exact h.tokens v v' before before' token hbefore hbefore' (hsame ▸ hs) (hsame' ▸ hs')

theorem Admitted.spend (h : Admitted s handing) (waiter : Option ℕ) (hhanded : (s.sessions id).handed = none) :
    Admitted (s.spend id waiter) handing := by
  rcases waiter with _ | w
  · exact h
  refine h.mark id (fun waiter => ?_) fun waiter token _ _ hh => by rw [hhanded] at hh; cases hh
  rcases hstage : waiter.stage with _ | _ | token | _ <;> dsimp only
  · exact .inl rfl
  · exact .inl rfl
  · split_ifs with hsession
    · exact .inr ⟨⟨token, rfl⟩, hsession, rfl⟩
    · exact .inl rfl
  · exact .inl rfl

/-- A waiter's say takes its handoff with it. -/
theorem spend_put (s : TurnAdmissions) (id : String) (waiter : Option ℕ) (here : SessionAdmission) :
    (s.spend id waiter).put id here = (s.put id here).spend id waiter := by
  rcases waiter with _ | w <;> rfl

theorem spend_sessions (s : TurnAdmissions) (id : String) (waiter : Option ℕ) : (s.spend id waiter).sessions = s.sessions := by
  rcases waiter with _ | w <;> rfl

theorem Admitted.release (h : Admitted s none) (id : String) (generation : ℕ) : Admitted (s.release id generation) none := by
  unfold TurnAdmissions.release
  dsimp only
  rcases hactive : (s.sessions id).active with _ | current <;> dsimp only
  · exact h
  split_ifs
  · exact h
  · have hput := h.put id { s.sessions id with active := none } rfl (.inl rfl) (.inr rfl) fun _ hholder => .inl hholder
    refine (hput.releaseTurnLease fun turn hturn => ?_).handOff
    rw [put_sessions, if_pos rfl] at hturn
    cases hturn

theorem Admitted.takeGate (h : Admitted s none) (id : String) : Admitted (s.takeGate id) none := by
  unfold TurnAdmissions.takeGate
  split_ifs
  · exact h
  · have hminted : Admitted { s with minted := s.minted + 1 } none := h.mint (Nat.le_succ _)
    have hput := hminted.put id { s.sessions id with gate := some s.minted } rfl (.inr rfl) (.inr rfl)
      fun holder hholder => by
        obtain rfl := Option.some.inj hholder
        exact .inr ⟨Nat.lt_succ_self _, fun hold hhold => (h.holds hold hhold).2.ne⟩
    refine Admitted.settled hput fun _ => .inr (.inl ?_)
    rw [put_sessions, if_pos rfl]
    rfl

theorem Admitted.releaseGate (h : Admitted s none) (id : String) (holder : ℕ) : Admitted (s.releaseGate id holder) none := by
  unfold TurnAdmissions.releaseGate
  split_ifs
  · exact h
  · have hput := h.put id { s.sessions id with gate := none } rfl (.inr rfl) (.inr rfl) fun _ hh => by cases hh
    exact hput.handOff

theorem Admitted.abandon (h : Admitted s none) (w : ℕ) : Admitted (s.abandon w) none := by
  unfold TurnAdmissions.abandon
  rcases hw : s.waiters[w]? with _ | waiter <;> dsimp only
  · exact h
  rcases hstage : waiter.stage with _ | _ | token | _ <;> dsimp only
  · exact h
  · exact h
  · have hmark : ∀ {t : TurnAdmissions} {x : Option String}, Admitted t x → t.waiters = s.waiters →
        (t.sessions waiter.sessionId).handed ≠ some token →
        Admitted { t with waiters := t.waiters.modify w fun waiter => { waiter with spent := true } } x := by
      intro t x ht hsame hne
      have hget : t.waiters[w]? = some waiter := by rw [hsame]; exact hw
      have hmodify : t.waiters.modify w (fun waiter => { waiter with spent := true }) =
          t.waiters.modify w fun before => if before = waiter then { before with spent := true } else before := by
        refine List.ext_getElem? fun v => ?_
        rw [List.getElem?_modify, List.getElem?_modify]
        by_cases hv : w = v
        · subst hv
          rw [hget]
          simp
        · simp [hv]
      rw [hmodify]
      refine ht.mark waiter.sessionId (fun before => ?_) fun before token' hbefore hs => ?_
      · split_ifs with heq
        · subst heq
          exact .inr ⟨⟨token, hstage⟩, rfl, rfl⟩
        · exact .inl rfl
      · obtain rfl := Option.some.inj (hbefore.symm.trans hget)
        obtain rfl := WaiterStage.woken.inj (hs.symm.trans hstage)
        exact hne
    split_ifs with hhanded
    · exact hmark h rfl hhanded
    · refine Admitted.handOff (hmark (h.put waiter.sessionId { s.sessions waiter.sessionId with handed := none } rfl (.inr rfl)
        (.inl rfl) fun _ hholder => .inl hholder) rfl ?_)
      rw [put_sessions, if_pos rfl]
      simp
  · exact h

theorem Admitted.whenIdle (h : Admitted s none) (id : String) : Admitted (s.whenIdle id) none := by
  have hpush : ∀ stage : WaiterStage, (∀ token, stage ≠ .woken token) →
      Admitted { s with waiters := s.waiters ++ [{ sessionId := id, stage := stage }] } none := by
    intro stage hstage
    refine { h with
      woken := fun w waiter token hw hs => ?_
      place := fun other token htoken => ?_
      waiting := fun other w hw => Indexed.snoc_at _ (h.waiting other w hw)
      tokens := fun w w' waiter waiter' token hw hw' hs hs' => ?_ }
    · rcases Indexed.of_snoc hw with hold | ⟨-, rfl⟩
      · exact h.woken w waiter token hold hs
      · exact absurd hs (hstage token)
    · obtain ⟨w, waiter, hw, hrest⟩ := h.place other token htoken
      exact ⟨w, waiter, Indexed.snoc_at _ hw, hrest⟩
    · rcases Indexed.of_snoc hw with hold | ⟨-, rfl⟩
      · rcases Indexed.of_snoc hw' with hold' | ⟨-, rfl⟩
        · exact h.tokens w w' waiter waiter' token hold hold' hs hs'
        · exact absurd hs' (hstage token)
      · exact absurd hs (hstage token)
  unfold TurnAdmissions.whenIdle
  dsimp only
  split_ifs with hidle
  · exact hpush .idle fun _ hh => by cases hh
  have hwaits := hpush .waiting fun _ hh => by cases hh
  have hsessions : ∀ other, (s.put id { s.sessions id with waiting := (s.sessions id).waiting ++ [s.waiters.length] }).sessions other =
      if other = id then { s.sessions id with waiting := (s.sessions id).waiting ++ [s.waiters.length] } else s.sessions other := fun other =>
    put_sessions _ _ _ _
  have hkeeps : ∀ other, ∃ queue, (s.put id { s.sessions id with waiting := (s.sessions id).waiting ++ [s.waiters.length] }).sessions other =
      { s.sessions other with waiting := queue } := by
    intro other
    rw [hsessions]
    split_ifs with hid
    · exact ⟨_, by rw [hid]⟩
    · exact ⟨_, rfl⟩
  refine { hwaits with
    active := fun other turn hturn => ?_
    handed := fun other token htoken => ?_
    gate := fun other holder hholder => ?_
    leased := fun other turn hturn => ?_
    apart := fun other hsome => ?_
    next := fun other hne hsome => ?_
    place := fun other token htoken => ?_
    waiting := fun other w hw => ?_
    once := fun other => ?_
    ours := fun hold hhold other hgated => ?_ }
  · obtain ⟨queue, hq⟩ := hkeeps other
    exact h.active other turn (by rw [hq] at hturn; exact hturn)
  · obtain ⟨queue, hq⟩ := hkeeps other
    exact h.handed other token (by rw [hq] at htoken; exact htoken)
  · obtain ⟨queue, hq⟩ := hkeeps other
    exact h.gate other holder (by rw [hq] at hholder; exact hholder)
  · obtain ⟨queue, hq⟩ := hkeeps other
    exact h.leased other turn (by rw [hq] at hturn; exact hturn)
  · obtain ⟨queue, hq⟩ := hkeeps other
    rw [hq] at hsome ⊢
    exact h.apart other hsome
  · by_cases hid : other = id
    · rw [hsessions, if_pos hid]
      -- the prompt waits because the session was not idle
      rcases hactive : (s.sessions id).active with _ | turn
      · rcases hhanded : (s.sessions id).handed with _ | token
        · rcases hgate : (s.sessions id).gate with _ | holder
          · have hqueue : (s.sessions id).waiting ≠ [] := fun hnil =>
              hidle ⟨by rw [hactive]; rfl, by rw [hhanded]; rfl, by rw [hgate]; rfl, hnil⟩
            have := h.next id (by simp) hqueue
            rw [hactive, hhanded, hgate] at this
            simp at this
          · exact .inr (.inl rfl)
        · exact .inr (.inr rfl)
      · exact .inl rfl
    · rw [hsessions, if_neg hid] at hsome ⊢
      exact h.next other hne hsome
  · obtain ⟨queue, hq⟩ := hkeeps other
    exact hwaits.place other token (by rw [hq] at htoken; exact htoken)
  · rw [hsessions] at hw
    split_ifs at hw with hid
    · subst hid
      rcases List.mem_append.mp hw with hw | hw
      · exact hwaits.waiting other w hw
      · obtain rfl := List.mem_singleton.mp hw
        exact Indexed.snoc_last _ _
    · exact hwaits.waiting other w hw
  · rw [hsessions]
    split_ifs with hid
    · refine List.nodup_append.mpr ⟨h.once id, List.nodup_singleton _, fun w hw w' hw' => ?_⟩
      obtain rfl := List.mem_singleton.mp hw'
      exact Indexed.ne_length (h.waiting id w hw)
    · exact h.once other
  · obtain ⟨queue, hq⟩ := hkeeps other
    exact h.ours hold hhold other (by rw [hq] at hgated; exact hgated)

theorem acquireTurnLease_cases (s : TurnAdmissions) (id : String) : s.acquireTurnLease id = none ∨ s.leases id = none ∧
    s.acquireTurnLease id = some (s.minted, { s with leases := Function.update s.leases id (some s.minted), minted := s.minted + 1 }) := by
  unfold TurnAdmissions.acquireTurnLease
  rcases s.leases id with _ | lease
  · exact .inr ⟨rfl, rfl⟩
  · exact .inl rfl

/-- A free lease is given out. -/
theorem Admitted.acquire (h : Admitted s handing) (hfree : s.leases id = none) :
    Admitted { s with leases := Function.update s.leases id (some s.minted), minted := s.minted + 1 } handing := by
  have hleases : ∀ other, Function.update s.leases id (some s.minted) other =
      if other = id then some s.minted else s.leases other := fun other =>
    Function.update_apply _ _ _ _
  refine { h.mint (Nat.le_succ s.minted) with lease := fun other lease hlease => ?_, leased := fun other turn hturn => ?_ }
  · dsimp only at hlease
    rw [hleases] at hlease
    split_ifs at hlease
    · obtain rfl := Option.some.inj hlease
      exact Nat.lt_succ_self _
    · exact Nat.lt_succ_of_lt (h.lease other lease hlease)
  · obtain ⟨hlease, hrest⟩ := h.leased other turn hturn
    refine ⟨?_, hrest⟩
    dsimp only
    rw [hleases, if_neg fun hid => ?_]
    · exact hlease
    · subst hid
      rw [hfree] at hlease
      cases hlease

theorem Admitted.holdIdle (h : Admitted s none) (id : String) (throws : Bool) : Admitted (s.holdIdle id throws) none := by
  unfold TurnAdmissions.holdIdle
  dsimp only
  have hgated := h.takeGate id
  split_ifs with hworking hgate
  · exact h
  · exact h
  · exact hgated.releaseGate id _
  · rcases acquireTurnLease_cases (s.takeGate id) id with hnone | ⟨hfree, hsome⟩
    · rw [hnone]
      exact hgated.releaseGate id _
    · rw [hsome]
      have hleased := hgated.acquire hfree
      have hminted : (s.takeGate id).minted = s.minted + 1 := by
        unfold TurnAdmissions.takeGate
        rw [if_neg hgate]
      refine { hleased with
        holds := fun hold hhold => ?_
        leased := fun other turn hturn => ?_
        ours := fun hold hhold other hheld => ?_ }
      · rcases List.mem_append.mp hhold with hhold | hhold
        · exact hleased.holds hold hhold
        · obtain rfl := List.mem_singleton.mp hhold
          dsimp only
          omega
      · obtain ⟨hlease, htaken, hholds⟩ := hleased.leased other turn hturn
        refine ⟨hlease, htaken, fun hold hhold => ?_⟩
        rcases List.mem_append.mp hhold with hhold | hhold
        · exact hholds hold hhold
        · obtain rfl := List.mem_singleton.mp hhold
          exact (hgated.active other turn hturn).2.ne'
      · rcases List.mem_append.mp hhold with hhold | hhold
        · exact hleased.ours hold hhold other hheld
        · obtain rfl := List.mem_singleton.mp hhold
          by_contra hid
          change ((s.takeGate id).sessions other).gate = some s.minted at hheld
          unfold TurnAdmissions.takeGate at hheld
          rw [if_neg hgate] at hheld
          dsimp only at hheld
          rw [put_sessions, if_neg (Ne.symm hid)] at hheld
          exact absurd (h.gate other _ hheld) (lt_irrefl _)

theorem Admitted.releaseHold (h : Admitted s none) (i : ℕ) : Admitted (s.releaseHold i) none := by
  unfold TurnAdmissions.releaseHold
  rcases hi : s.holds[i]? with _ | hold <;> dsimp only
  · exact h
  · refine Admitted.releaseGate (h.releaseTurnLease fun turn hturn heq => ?_) _ _
    exact (h.leased _ turn hturn).2.2 hold (List.mem_iff_getElem?.mpr ⟨i, hi⟩) heq.symm

theorem Admitted.claim (h : Admitted s none) (id turnId assistantMessageId : String) (waiter : Option ℕ) (throws : Bool) :
    Admitted (s.claim id turnId assistantMessageId waiter throws) none := by
  have hput := h.put id { s.sessions id with handed := none } rfl (.inr rfl) (.inl rfl) fun _ hholder => .inl hholder
  have hspent : Admitted ((s.spend id waiter).put id { s.sessions id with handed := none }) (some id) := by
    rw [spend_put]
    exact hput.spend waiter (by rw [put_sessions, if_pos rfl])
  unfold TurnAdmissions.claim
  dsimp only
  by_cases hactive : (s.sessions id).active.isSome = true
  · rw [if_pos hactive]
    exact h.spend waiter (h.apart id hactive)
  rw [if_neg hactive]
  by_cases hgate : (s.sessions id).gate.isSome = true
  · rw [if_pos hgate]
    refine hspent.settled fun _ => ?_
    rw [put_sessions, if_pos rfl]
    exact .inr (.inl hgate)
  rw [if_neg hgate]
  by_cases hthrows : throws = true
  · rw [if_pos hthrows]
    exact h
  rw [if_neg hthrows]
  rcases acquireTurnLease_cases (s.spend id waiter) id with hnone | ⟨hfree, hsome⟩
  · rw [hnone]
    dsimp only
    split_ifs with hhanded
    · exact hspent.handOff
    · exact h.spend waiter (by simpa using hhanded)
  rw [hsome]
  dsimp only
  set spent := s.spend id waiter with hspentdef
  have hsame : spent.sessions = s.sessions := spend_sessions s id waiter
  have hfreeput : (spent.put id { s.sessions id with handed := none }).leases id = none := hfree
  have hleased := (hspent.acquire hfreeput).mint (Nat.le_succ _)
  have hminted : spent.minted = s.minted := by rcases waiter with _ | w <;> rfl
  set turn : ActiveTurn := ⟨spent.minted + 1, turnId, assistantMessageId, spent.minted⟩ with hturndef
  set t : TurnAdmissions := { (({ spent with
    leases := Function.update spent.leases id (some spent.minted), minted := spent.minted + 1 } : TurnAdmissions).put id
      { s.sessions id with active := some turn, handed := none }) with minted := spent.minted + 1 + 1 } with ht
  have hsessions : ∀ other, t.sessions other =
      if other = id then { s.sessions id with active := some turn, handed := none } else s.sessions other := fun other => by
    rw [← congrFun hsame other]
    exact Function.update_apply _ _ _ _
  have hbefore : ∀ other, other ≠ id → t.sessions other =
      (spent.put id { s.sessions id with handed := none }).sessions other := fun other hid => by
    rw [hsessions, put_sessions, if_neg hid, if_neg hid, hsame]
  have hhere : t.sessions id = { s.sessions id with active := some turn, handed := none } := by
    rw [hsessions, if_pos rfl]
  have hwas : (spent.put id { s.sessions id with handed := none }).sessions id = { s.sessions id with handed := none } := by
    rw [put_sessions, if_pos rfl]
  change Admitted t none
  refine { hleased with
    active := fun other turn' hturn => ?_
    handed := fun other token htoken => ?_
    gate := fun other holder hholder => ?_
    leased := fun other turn' hturn => ?_
    apart := fun other hsome => ?_
    next := fun other _ hsome => ?_
    place := fun other token htoken => ?_
    waiting := fun other w hw => ?_
    once := fun other => ?_
    ours := fun hold hhold other hgated => ?_ } <;> by_cases hid : other = id
  · subst hid
    rw [hhere] at hturn
    obtain rfl := Option.some.inj hturn
    exact ⟨Nat.lt_succ_self _, Nat.lt_succ_of_lt (Nat.lt_succ_self _)⟩
  · exact hleased.active other turn' (by rw [hbefore other hid] at hturn; exact hturn)
  · subst hid
    rw [hhere] at htoken
    cases htoken
  · exact hleased.handed other token (by rw [hbefore other hid] at htoken; exact htoken)
  · subst hid
    exact hleased.gate other holder (by rw [hhere] at hholder; change ((spent.put other _).sessions other).gate = _; rw [hwas]; exact hholder)
  · exact hleased.gate other holder (by rw [hbefore other hid] at hholder; exact hholder)
  · subst hid
    rw [hhere] at hturn
    obtain rfl := Option.some.inj hturn
    refine ⟨Function.update_self _ _ _, fun hmem => ?_, fun hold hhold heq => ?_⟩
    · exact absurd (hspent.taken _ hmem) (lt_irrefl _)
    · exact absurd (heq ▸ (hspent.holds hold hhold).1) (lt_irrefl _)
  · exact hleased.leased other turn' (by rw [hbefore other hid] at hturn; exact hturn)
  · subst hid
    rw [hhere]
  · rw [hbefore other hid] at hsome ⊢
    exact hspent.apart other hsome
  · subst hid
    rw [hhere]
    exact .inl rfl
  · rw [hbefore other hid] at hsome ⊢
    exact hspent.next other (fun hh => hid (Option.some.inj hh)) hsome
  · subst hid
    rw [hhere] at htoken
    cases htoken
  · exact hleased.place other token (by rw [hbefore other hid] at htoken; exact htoken)
  · subst hid
    exact hleased.waiting other w (by rw [hhere] at hw; change w ∈ ((spent.put other _).sessions other).waiting; rw [hwas]; exact hw)
  · exact hleased.waiting other w (by rw [hbefore other hid] at hw; exact hw)
  · subst hid
    rw [hhere]
    have := hspent.once other
    rw [hwas] at this
    exact this
  · rw [hbefore other hid]
    exact hspent.once other
  · subst hid
    exact hspent.ours hold hhold other (by rw [hhere] at hgated; rw [hwas]; exact hgated)
  · exact hspent.ours hold hhold other (by rw [hbefore other hid] at hgated; exact hgated)

theorem Admitted.clear (h : Admitted s none) : Admitted s.clear none := by
  have hof : ∀ {w : ℕ} {waiter : Waiter} {token : ℕ}, s.clear.waiters[w]? = some waiter → waiter.stage = .woken token →
      s.waiters[w]? = some waiter := by
    intro w waiter token hw hstage
    unfold TurnAdmissions.clear at hw
    dsimp only at hw
    rw [List.getElem?_map] at hw
    rcases hold : s.waiters[w]? with _ | before <;> rw [hold] at hw
    · cases hw
    · obtain rfl := Option.some.inj hw
      rcases before with ⟨session, _ | _ | token' | _, spent⟩
      · rfl
      · cases hstage
      · rfl
      · rfl
  refine { h with
    active := fun _ _ hh => by cases hh
    handed := fun _ _ hh => by cases hh
    gate := fun _ _ hh => by cases hh
    woken := fun w waiter token hw hstage => h.woken w waiter token (hof hw hstage) hstage
    leased := fun _ _ hh => by cases hh
    apart := fun _ hh => by cases hh
    next := fun _ _ hh => absurd rfl hh
    place := fun _ _ hh => by cases hh
    waiting := fun _ _ hh => by cases hh
    once := fun _ => List.nodup_nil
    ours := fun _ _ _ hh => by cases hh
    tokens := fun w w' waiter waiter' token hw hw' hs hs' => h.tokens w w' waiter waiter' token (hof hw hs) (hof hw' hs') hs hs' }

theorem Admitted.step (h : Admitted s none) (label : AdmissionLabel) : Admitted (s.step label) none := by
  rcases label with id | ⟨id, turnId, assistantMessageId, waiter, throws⟩ | ⟨id, generation⟩ | id | ⟨id, holder⟩ | ⟨id, throws⟩ | i | w | _ | id |
    ⟨id, lease⟩
  · exact h.whenIdle id
  · exact h.claim id turnId assistantMessageId waiter throws
  · exact h.release id generation
  · exact h.takeGate id
  · unfold TurnAdmissions.step
    dsimp only
    split_ifs
    · exact h
    · exact h.releaseGate id holder
  · exact h.holdIdle id throws
  · exact h.releaseHold i
  · exact h.abandon w
  · exact h.clear
  · unfold TurnAdmissions.step
    rcases acquireTurnLease_cases s id with hnone | ⟨hfree, hsome⟩
    · dsimp only
      rw [hnone]
      exact h
    · dsimp only
      rw [hsome]
      have hleased := h.acquire hfree
      refine { hleased with taken := fun lease hlease => ?_, leased := fun other turn hturn => ?_ }
      · rcases List.mem_cons.mp hlease with rfl | hlease
        · exact Nat.lt_succ_self _
        · exact hleased.taken lease hlease
      · obtain ⟨hlease, htaken, hholds⟩ := hleased.leased other turn hturn
        refine ⟨hlease, fun hmem => ?_, hholds⟩
        rcases List.mem_cons.mp hmem with heq | hmem
        · exact absurd (heq ▸ (h.active other turn hturn).2) (lt_irrefl _)
        · exact htaken hmem
  · unfold TurnAdmissions.step
    dsimp only
    split_ifs with hmem
    · exact h.releaseTurnLease fun turn hturn heq => (h.leased id turn hturn).2.1 (heq ▸ hmem)
    · exact h

end

end Claxedo.Turns
