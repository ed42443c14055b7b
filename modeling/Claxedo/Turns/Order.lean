import Claxedo.Turns.Handoffs

/-! The order in which a session's waiters are woken. Its queue is always in the order of their asking; and as long as a session
that is handed to a waiter is claimed by that waiter alone, no other is woken before it had its say. -/

namespace Claxedo.Turns

open Claxedo.Lib

def WaiterStage.isWoken : WaiterStage → Bool
  | .woken _ => true
  | _ => false

/-- The waiter was woken, and has neither claimed nor abandoned. -/
def TurnAdmissions.Woken (s : TurnAdmissions) (id : String) (w : ℕ) : Prop :=
  (s.waiters[w]?).any fun waiter => waiter.sessionId = id ∧ waiter.stage.isWoken ∧ waiter.spent = false

instance (s : TurnAdmissions) (id : String) (w : ℕ) : Decidable (s.Woken id w) := inferInstanceAs (Decidable (_ = true))

/-- A session that was handed to a waiter is claimed by that waiter, or the store throws at the claim. -/
def TurnAdmissions.OwnClaim (s : TurnAdmissions) : AdmissionLabel → Prop
  | .claim id _ _ caller throws =>
    ∀ w < s.waiters.length, s.Woken id w → caller = some w ∨ (throws = true ∧ (s.sessions id).gate = none)
  | _ => True

instance (s : TurnAdmissions) : (label : AdmissionLabel) → Decidable (s.OwnClaim label)
  | .claim _ _ _ _ _ => inferInstanceAs (Decidable (∀ w < s.waiters.length, _))
  | .whenIdle _ | .release _ _ | .gate _ | .releaseGate _ _ | .holdIdle _ _ | .releaseHold _ | .abandon _ | .clear
  | .othersAcquire _ | .othersRelease _ _ => isTrue trivial

/-- A claim that takes the place of a woken waiter, and is not that waiter's own. -/
def TurnAdmissions.Displaces (s : TurnAdmissions) (label : AdmissionLabel) (id : String) (w : ℕ) : Prop :=
  ∃ turnId assistantMessageId caller throws, label = .claim id turnId assistantMessageId caller throws ∧ caller ≠ some w ∧
    s.Woken id w ∧ ((s.step label).sessions id).handed ≠ (s.sessions id).handed

/-- The waiter claims its session's turn and gets it, or gives it up. -/
def TurnAdmissions.HasTurn (s : TurnAdmissions) (label : AdmissionLabel) (id : String) (w : ℕ) : Prop :=
  label = .abandon w ∨ ∃ turnId assistantMessageId throws, label = .claim id turnId assistantMessageId (some w) throws ∧
    (s.sessions id).active = none ∧ ((s.step label).sessions id).active.isSome

/-- After the steps, no session has two woken waiters; none was woken before one that asked before it and still waits; and where a
claim took a woken waiter's place, those queued after it were woken after its turn. -/
structure RunInOrder (labels : List AdmissionLabel) : Prop where
  single : ∀ id w w', (run TurnAdmissions.step {} labels).Woken id w → (run TurnAdmissions.step {} labels).Woken id w' → w = w'
  queued : ∀ (w w' : ℕ) (waiter waiter' : Waiter), w < w' → (run TurnAdmissions.step {} labels).waiters[w]? = some waiter →
    (run TurnAdmissions.step {} labels).waiters[w']? = some waiter' → waiter'.sessionId = waiter.sessionId →
      waiter.stage = .waiting → waiter'.stage = .waiting
  served : ∀ before label more id w v, labels = before ++ label :: more →
    (run TurnAdmissions.step {} before).Displaces label id w → v ∈ ((run TurnAdmissions.step {} before).sessions id).waiting →
      (∃ waiter, (run TurnAdmissions.step {} labels).waiters[v]? = some waiter ∧ waiter.stage.isWoken) →
        ∃ between own rest, more = between ++ own :: rest ∧
          (run TurnAdmissions.step {} (before ++ label :: between)).HasTurn own id w

/-- Whoever was woken and has not had its say holds its session's handoff; who waits is in its session's queue, in order. -/
structure Lined (s : TurnAdmissions) : Prop where
  handed : ∀ (w : ℕ) (waiter : Waiter) (token : ℕ), s.waiters[w]? = some waiter → waiter.stage = .woken token →
    waiter.spent = false → (s.sessions waiter.sessionId).handed = some token
  waits : ∀ id, ∀ w ∈ (s.sessions id).waiting, s.waiters[w]? = some { sessionId := id, stage := .waiting, spent := false }
  listed : ∀ (w : ℕ) (waiter : Waiter), s.waiters[w]? = some waiter → waiter.stage = .waiting →
    w ∈ (s.sessions waiter.sessionId).waiting
  sorted : ∀ id, (s.sessions id).waiting.Pairwise (· < ·)
  behind : ∀ id, ∀ w ∈ (s.sessions id).waiting, ∀ (v : ℕ) (waiter : Waiter), w < v → s.waiters[v]? = some waiter →
    waiter.sessionId = id → waiter.stage = .waiting

section
variable {s s' : TurnAdmissions} {id : String}

theorem TurnAdmissions.woken_iff {w : ℕ} : s.Woken id w ↔
    ∃ waiter token, s.waiters[w]? = some waiter ∧ waiter.sessionId = id ∧ waiter.stage = .woken token ∧ waiter.spent = false := by
  unfold TurnAdmissions.Woken
  rw [Option.any_eq_true]
  constructor
  · rintro ⟨waiter, hw, hwoken⟩
    obtain ⟨hid, hstage, hspent⟩ := of_decide_eq_true hwoken
    rcases hs : waiter.stage with _ | _ | token | _
    case woken => exact ⟨waiter, token, hw, hid, hs, hspent⟩
    all_goals
      rw [hs] at hstage
      cases hstage
  · rintro ⟨waiter, token, hw, hid, hstage, hspent⟩
    exact ⟨waiter, hw, decide_eq_true ⟨hid, by rw [hstage]; rfl, hspent⟩⟩

theorem lined_start : Lined {} where
  handed := fun _ _ _ h => by cases h
  waits := fun _ _ h => by cases h
  listed := fun _ _ h => by cases h
  sorted := fun _ => List.Pairwise.nil
  behind := fun _ _ h => by cases h

theorem Lined.of_same (h : Lined s) (hsessions : s'.sessions = s.sessions) (hwaiters : s'.waiters = s.waiters) : Lined s' where
  handed := by rw [hsessions, hwaiters]; exact h.handed
  waits := by rw [hsessions, hwaiters]; exact h.waits
  listed := by rw [hsessions, hwaiters]; exact h.listed
  sorted := by rw [hsessions]; exact h.sorted
  behind := by rw [hsessions, hwaiters]; exact h.behind

/-- Everything but a session's queue may change, its handoff only when all it was handed to have had their say. -/
theorem Lined.put (h : Lined s) (id : String) (here : SessionAdmission) (hwaiting : here.waiting = (s.sessions id).waiting)
    (hhanded : here.handed = (s.sessions id).handed ∨ ∀ w, ¬ s.Woken id w) : Lined (s.put id here) := by
  have hqueue : ∀ other, ((s.put id here).sessions other).waiting = (s.sessions other).waiting := by
    intro other
    rw [put_sessions]
    split_ifs with hother
    · rw [hother, hwaiting]
    · rfl
  refine ⟨fun w waiter token hw hstage hspent => ?_, fun other w hw => ?_, fun w waiter hw hstage => ?_, fun other => ?_,
    fun other w hw => ?_⟩
  · rw [put_sessions]
    split_ifs with hid
    · rcases hhanded with hsame | hnone
      · rw [hsame, ← hid]
        exact h.handed w waiter token hw hstage hspent
      · exact absurd (TurnAdmissions.woken_iff.mpr ⟨waiter, token, hw, hid, hstage, hspent⟩) (hnone w)
    · exact h.handed w waiter token hw hstage hspent
  · rw [hqueue] at hw
    exact h.waits other w hw
  · rw [hqueue]
    exact h.listed w waiter hw hstage
  · rw [hqueue]
    exact h.sorted other
  · rw [hqueue] at hw
    exact h.behind other w hw

/-- A woken waiter has its say. -/
theorem Lined.mark (h : Lined s) {w : ℕ} {f : Waiter → Waiter} (hf : ∀ waiter, f waiter = waiter ∨
    (∃ token, waiter.stage = .woken token) ∧ f waiter = { waiter with spent := true }) :
    Lined { s with waiters := s.waiters.modify w f } := by
  have hof : ∀ {v : ℕ} {waiter : Waiter}, (s.waiters.modify w f)[v]? = some waiter → ∃ before, s.waiters[v]? = some before ∧
      waiter.sessionId = before.sessionId ∧ waiter.stage = before.stage ∧ (waiter.spent = false → before.spent = false) := by
    intro v waiter hv
    obtain ⟨before, hbefore, rfl⟩ := Indexed.of_modify hv
    refine ⟨before, hbefore, ?_⟩
    split_ifs
    · rcases hf before with hsame | ⟨-, hspent⟩
      · rw [hsame]
        exact ⟨rfl, rfl, fun hno => hno⟩
      · rw [hspent]
        exact ⟨rfl, rfl, fun hno => by cases hno⟩
    · exact ⟨rfl, rfl, fun hno => hno⟩
  refine ⟨fun v waiter token hv hstage hspent => ?_, fun other v hv => ?_, fun v waiter hv hstage => ?_, h.sorted,
    fun other u hu v waiter hlt hv hid => ?_⟩
  · obtain ⟨before, hbefore, hid, hsame, hno⟩ := hof hv
    rw [hid]
    exact h.handed v before token hbefore (hsame ▸ hstage) (hno hspent)
  · obtain ⟨after, hafter, rfl⟩ := Indexed.modify_exists (i := w) (f := f) (h.waits other v hv)
    refine hafter.trans (congrArg some ?_)
    split_ifs
    · rcases hf { sessionId := other, stage := .waiting, spent := false } with hsame | ⟨⟨token, hstage⟩, -⟩
      · exact hsame
      · cases hstage
    · rfl
  · obtain ⟨before, hbefore, hid, hsame, -⟩ := hof hv
    rw [hid]
    exact h.listed v before hbefore (hsame ▸ hstage)
  · obtain ⟨before, hbefore, hsession, hsame, -⟩ := hof hv
    rw [hsame]
    exact h.behind other u hu v before hlt hbefore (hsession ▸ hid)

/-- The first of the queue is woken, once all that were handed the session have had their say. -/
theorem Lined.handOff (h : Lined s) (id : String) : Lined (s.handOff id) := by
  unfold TurnAdmissions.handOff
  dsimp only
  split_ifs with hheld
  · exact h
  rw [not_or, not_or] at hheld
  obtain ⟨-, -, hhanded⟩ := hheld
  rcases hqueue : (s.sessions id).waiting with _ | ⟨next, rest⟩ <;> dsimp only
  · exact h
  have hnext := h.waits id next (by rw [hqueue]; exact List.mem_cons_self)
  have hsorted := h.sorted id
  rw [hqueue, List.pairwise_cons] at hsorted
  have hof : ∀ {w : ℕ} {waiter : Waiter},
      (s.waiters.modify next fun waiter => { waiter with stage := .woken s.minted })[w]? = some waiter →
        w = next ∧ waiter = { sessionId := id, stage := .woken s.minted } ∨ w ≠ next ∧ s.waiters[w]? = some waiter := by
    intro w waiter hw
    by_cases hwn : next = w
    · subst hwn
      rw [Indexed.modify_at hnext] at hw
      exact .inl ⟨rfl, (Option.some.inj hw).symm⟩
    · rw [Indexed.modify_other hwn] at hw
      exact .inr ⟨fun hh => hwn hh.symm, hw⟩
  have hto : ∀ {w : ℕ}, w ≠ next →
      (s.waiters.modify next fun waiter => { waiter with stage := .woken s.minted })[w]? = s.waiters[w]? := fun hne =>
    Indexed.modify_other (Ne.symm hne)
  have hwaiting : ∀ other, ((s.put id { s.sessions id with waiting := rest, handed := some s.minted }).sessions other).waiting =
      if other = id then rest else (s.sessions other).waiting := by
    intro other
    rw [put_sessions]
    split_ifs <;> rfl
  have hleft : ∀ other, ∀ w ∈ ((s.put id { s.sessions id with waiting := rest, handed := some s.minted }).sessions other).waiting,
      w ∈ (s.sessions other).waiting ∧ w ≠ next ∧ (other = id → next < w) := by
    intro other w hw
    rw [hwaiting] at hw
    split_ifs at hw with hid
    · have hlt := hsorted.1 w hw
      exact ⟨by rw [hid, hqueue]; exact List.mem_cons_of_mem _ hw, by omega, fun _ => hlt⟩
    · refine ⟨hw, ?_, fun hh => absurd hh hid⟩
      rintro rfl
      exact hid (congrArg Waiter.sessionId (Option.some.inj ((h.waits other w hw).symm.trans hnext)))
  refine ⟨fun w waiter token hw hstage hspent => ?_, fun other w hw => ?_, fun w waiter hw hstage => ?_, fun other => ?_,
    fun other u hu v waiter hlt hv hid => ?_⟩
  · dsimp only
    rw [put_sessions]
    rcases hof hw with ⟨-, rfl⟩ | ⟨-, hold⟩
    · rw [if_pos rfl]
      exact congrArg some (WaiterStage.woken.inj hstage)
    · have htoken := h.handed w waiter token hold hstage hspent
      rw [if_neg fun hh => by rw [hh] at htoken; rw [htoken] at hhanded; exact hhanded rfl]
      exact htoken
  · obtain ⟨hin, hne, -⟩ := hleft other w hw
    dsimp only
    rw [hto hne]
    exact h.waits other w hin
  · rcases hof hw with ⟨-, rfl⟩ | ⟨hne, hold⟩
    · cases hstage
    · have hin := h.listed w waiter hold hstage
      dsimp only
      rw [hwaiting]
      split_ifs with hid
      · rw [hid, hqueue] at hin
        exact (List.mem_cons.mp hin).resolve_left hne
      · exact hin
  · dsimp only
    rw [hwaiting]
    split_ifs
    · exact hsorted.2
    · exact h.sorted other
  · obtain ⟨hin, -, hfirst⟩ := hleft other u hu
    rcases hof hv with ⟨rfl, rfl⟩ | ⟨-, hold⟩
    · have := hfirst hid.symm
      omega
    · exact h.behind other u hin v waiter hlt hold hid

theorem Lined.release (h : Lined s) (id : String) (generation : ℕ) : Lined (s.release id generation) := by
  unfold TurnAdmissions.release
  dsimp only
  rcases (s.sessions id).active with _ | current <;> dsimp only
  · exact h
  split_ifs
  · exact h
  · have hgiven := h.put id { s.sessions id with active := none } rfl (.inl rfl)
    exact (hgiven.of_same (releaseTurnLease_sessions _ _ _) (releaseTurnLease_waiters _ _ _)).handOff id

theorem Lined.takeGate (h : Lined s) (id : String) : Lined (s.takeGate id) := by
  unfold TurnAdmissions.takeGate
  split_ifs
  · exact h
  · exact (h.put id { s.sessions id with gate := some s.minted } rfl (.inl rfl)).of_same rfl rfl

theorem Lined.releaseGate (h : Lined s) (id : String) (holder : ℕ) : Lined (s.releaseGate id holder) := by
  unfold TurnAdmissions.releaseGate
  split_ifs
  · exact h
  · exact (h.put id { s.sessions id with gate := none } rfl (.inl rfl)).handOff id

theorem Lined.acquire (h : Lined s) {lease : ℕ} {leased : TurnAdmissions}
    (hleased : s.acquireTurnLease id = some (lease, leased)) : Lined leased := by
  rcases acquireTurnLease_cases s id with hnone | ⟨-, hsome⟩
  · rw [hnone] at hleased
    cases hleased
  · rw [hsome] at hleased
    cases hleased
    exact h.of_same rfl rfl

theorem Lined.holdIdle (h : Lined s) (id : String) (throws : Bool) : Lined (s.holdIdle id throws) := by
  unfold TurnAdmissions.holdIdle
  dsimp only
  split_ifs
  · exact h
  · exact h
  · exact (h.takeGate id).releaseGate id _
  · rcases hleased : (s.takeGate id).acquireTurnLease id with _ | ⟨lease, leased⟩ <;> dsimp only
    · exact (h.takeGate id).releaseGate id _
    · exact ((h.takeGate id).acquire hleased).of_same rfl rfl

theorem Lined.releaseHold (h : Lined s) (i : ℕ) : Lined (s.releaseHold i) := by
  unfold TurnAdmissions.releaseHold
  rcases s.holds[i]? with _ | hold <;> dsimp only
  · exact h
  · exact (h.of_same (releaseTurnLease_sessions _ _ _) (releaseTurnLease_waiters _ _ _)).releaseGate _ _

/-- A waiter that asks is last of all waiters, and of its session's queue if it has to wait. -/
theorem Lined.whenIdle (h : Lined s) (id : String) : Lined (s.whenIdle id) := by
  unfold TurnAdmissions.whenIdle
  dsimp only
  split_ifs with hidle
  · obtain ⟨-, -, -, hempty⟩ := hidle
    refine ⟨fun w waiter token hw hstage => ?_, fun other w hw => Indexed.snoc_at _ (h.waits other w hw),
      fun w waiter hw hstage => ?_, h.sorted, fun other w hw v waiter hlt hv hid => ?_⟩
    · rcases Indexed.of_snoc hw with hold | ⟨-, rfl⟩
      · exact h.handed w waiter token hold hstage
      · cases hstage
    · rcases Indexed.of_snoc hw with hold | ⟨-, rfl⟩
      · exact h.listed w waiter hold hstage
      · cases hstage
    · rcases Indexed.of_snoc hv with hold | ⟨-, rfl⟩
      · exact h.behind other w hw v waiter hlt hold hid
      · rw [← hid, hempty] at hw
        cases hw
  have hqueue : ∀ other,
      ((s.put id { s.sessions id with waiting := (s.sessions id).waiting ++ [s.waiters.length] }).sessions other).waiting =
        if other = id then (s.sessions id).waiting ++ [s.waiters.length] else (s.sessions other).waiting := by
    intro other
    rw [put_sessions]
    split_ifs <;> rfl
  have hold : ∀ other, ∀ w ∈
      ((s.put id { s.sessions id with waiting := (s.sessions id).waiting ++ [s.waiters.length] }).sessions other).waiting,
      w ∈ (s.sessions other).waiting ∨ w = s.waiters.length ∧ other = id := by
    intro other w hw
    rw [hqueue] at hw
    split_ifs at hw with hid
    · rcases List.mem_append.mp hw with hw | hw
      · exact .inl (hid ▸ hw)
      · exact .inr ⟨List.mem_singleton.mp hw, hid⟩
    · exact .inl hw
  have hlt : ∀ other, ∀ w ∈ (s.sessions other).waiting, w < s.waiters.length := fun other w hw =>
    (List.getElem?_eq_some_iff.mp (h.waits other w hw)).1
  refine ⟨fun w waiter token hw hstage hspent => ?_, fun other w hw => ?_, fun w waiter hw hstage => ?_, fun other => ?_,
    fun other w hw v waiter hwv hv hid => ?_⟩
  · have hhanded : ∀ other, ((s.put id { s.sessions id with waiting := (s.sessions id).waiting ++ [s.waiters.length] }).sessions
        other).handed = (s.sessions other).handed := by
      intro other
      rw [put_sessions]
      split_ifs with hid
      · rw [hid]
      · rfl
    dsimp only
    rw [hhanded]
    rcases Indexed.of_snoc hw with hw | ⟨-, rfl⟩
    · exact h.handed w waiter token hw hstage hspent
    · cases hstage
  · rcases hold other w hw with hw | ⟨rfl, rfl⟩
    · exact Indexed.snoc_at _ (h.waits other w hw)
    · exact Indexed.snoc_last _ _
  · dsimp only
    rw [hqueue]
    rcases Indexed.of_snoc hw with hw | ⟨rfl, rfl⟩
    · have hin := h.listed w waiter hw hstage
      split_ifs with hid
      · exact List.mem_append_left _ (hid ▸ hin)
      · exact hin
    · rw [if_pos rfl]
      exact List.mem_append_right _ List.mem_cons_self
  · dsimp only
    rw [hqueue]
    split_ifs
    · refine List.pairwise_append.mpr ⟨h.sorted id, List.pairwise_singleton _ _, fun w hw v hv => ?_⟩
      rw [List.mem_singleton.mp hv]
      exact hlt id w hw
    · exact h.sorted other
  · rcases Indexed.of_snoc hv with hv' | ⟨-, rfl⟩
    · have hv := (List.getElem?_eq_some_iff.mp hv').1
      rcases hold other w hw with hw | ⟨rfl, -⟩
      · exact h.behind other w hw v waiter hwv hv' hid
      · omega
    · rfl

theorem Lined.spend (h : Lined s) (id : String) (caller : Option ℕ) : Lined (s.spend id caller) := by
  rcases caller with _ | w
  · exact h
  refine h.mark fun waiter => ?_
  rcases waiter.stage with _ | _ | token | _ <;> dsimp only
  · exact .inl rfl
  · exact .inl rfl
  · split_ifs
    · exact .inr ⟨⟨token, rfl⟩, rfl⟩
    · exact .inl rfl
  · exact .inl rfl

/-- The session's woken waiter having made the claim, there is none left. -/
theorem quiet_spend {caller : Option ℕ} (hown : ∀ w, s.Woken id w → caller = some w) (w : ℕ) :
    ¬ (s.spend id caller).Woken id w := by
  intro hwoken
  obtain ⟨after, token, hw, hid, hstage, hspent⟩ := TurnAdmissions.woken_iff.mp hwoken
  rcases caller with _ | v
  · cases hown w hwoken
  obtain ⟨before, hbefore, hafter⟩ := Indexed.of_modify hw
  by_cases hvw : v = w
  · rw [if_pos hvw] at hafter
    rcases hs : before.stage with _ | _ | token' | _ <;> rw [hs] at hafter <;> dsimp only at hafter
    case woken =>
      split_ifs at hafter with hsession
      · rw [hafter] at hspent
        cases hspent
      · exact hsession (hafter ▸ hid)
    all_goals
      rw [hafter, hs] at hstage
      cases hstage
  · rw [if_neg hvw] at hafter
    subst hafter
    exact hvw (Option.some.inj (hown w (TurnAdmissions.woken_iff.mpr ⟨after, token, hbefore, hid, hstage, hspent⟩)))

theorem Lined.claim (h : Lined s) {turnId assistantMessageId : String} {caller : Option ℕ} {throws : Bool}
    (hown : s.OwnClaim (.claim id turnId assistantMessageId caller throws)) :
    Lined (s.claim id turnId assistantMessageId caller throws) := by
  have hspend := h.spend id caller
  have hgives : (throws = true → (s.sessions id).gate.isSome) →
      Lined ((s.spend id caller).put id { s.sessions id with handed := none }) ∧
      ∀ turn, Lined ((s.spend id caller).put id { s.sessions id with active := some turn, handed := none }) := by
    intro hgated
    have hquiet : ∀ w, ¬ (s.spend id caller).Woken id w := quiet_spend fun w hwoken => by
      obtain ⟨waiter, -, hw, -⟩ := TurnAdmissions.woken_iff.mp hwoken
      rcases hown w (List.getElem?_eq_some_iff.mp hw).1 hwoken with hcaller | ⟨hthrows, hnone⟩
      · exact hcaller
      · rw [hnone] at hgated
        cases hgated hthrows
    exact ⟨hspend.put id _ (by rw [spend_sessions]) (.inr hquiet),
      fun _ => hspend.put id _ (by rw [spend_sessions]) (.inr hquiet)⟩
  unfold TurnAdmissions.claim
  dsimp only
  by_cases hactive : (s.sessions id).active.isSome = true
  · rw [if_pos hactive]
    exact hspend
  rw [if_neg hactive]
  by_cases hgate : (s.sessions id).gate.isSome = true
  · rw [if_pos hgate]
    exact (hgives fun _ => hgate).1
  rw [if_neg hgate]
  by_cases hthrows : throws = true
  · rw [if_pos hthrows]
    exact h
  rw [if_neg hthrows]
  obtain ⟨hgiven, htaken⟩ := hgives fun hh => absurd hh hthrows
  rcases acquireTurnLease_cases (s.spend id caller) id with hnone | ⟨-, hsome⟩
  · rw [hnone]
    dsimp only
    split_ifs
    · exact hgiven.handOff id
    · exact hspend
  · rw [hsome]
    exact (htaken _).of_same rfl rfl

theorem Lined.abandon (h : Lined s) (ha : Admitted s none) (w : ℕ) : Lined (s.abandon w) := by
  unfold TurnAdmissions.abandon
  rcases hw : s.waiters[w]? with _ | waiter <;> dsimp only
  · exact h
  rcases hstage : waiter.stage with _ | _ | token | _ <;> dsimp only
  · exact h
  · exact h
  · have hmarked : Lined { s with waiters := s.waiters.modify w fun before =>
        if before.stage = WaiterStage.woken token then { before with spent := true } else before } := by
      refine h.mark fun before => ?_
      split_ifs with hbefore
      · exact .inr ⟨⟨token, hbefore⟩, rfl⟩
      · exact .inl rfl
    have hsame : (s.waiters.modify w fun before =>
        if before.stage = WaiterStage.woken token then { before with spent := true } else before) =
        s.waiters.modify w fun waiter => { waiter with spent := true } := by
      refine List.ext_getElem? fun v => ?_
      rw [List.getElem?_modify, List.getElem?_modify]
      by_cases hv : w = v
      · subst hv
        rw [hw]
        simp [hstage]
      · simp [hv]
    rw [hsame] at hmarked
    split_ifs with hhanded
    · exact hmarked
    refine (hmarked.put waiter.sessionId { s.sessions waiter.sessionId with handed := none } rfl
      (.inr fun v hwoken => ?_)).handOff _
    -- Whoever else was woken would hold the handoff as well.
    obtain ⟨after, token', hv, hid, hwake, hspent⟩ := TurnAdmissions.woken_iff.mp hwoken
    obtain ⟨before, hbefore, rfl⟩ := Indexed.of_modify hv
    by_cases hwv : w = v
    · rw [if_pos hwv] at hspent
      cases hspent
    · rw [if_neg hwv] at hid hwake hspent
      have htoken := h.handed v before token' hbefore hwake hspent
      rw [hid, not_not.mp hhanded] at htoken
      exact hwv (ha.tokens v w before waiter token hbefore hw (by rw [hwake, ← Option.some.inj htoken]) hstage)
  · exact h

/-- A step of a run without a shutdown, in which the woken waiter alone claims its session. -/
def InTurn (s : TurnAdmissions) (label : AdmissionLabel) : Prop := label ≠ .clear ∧ s.OwnClaim label

instance (s : TurnAdmissions) (label : AdmissionLabel) : Decidable (InTurn s label) := inferInstanceAs (Decidable (_ ∧ _))

theorem Lined.step (h : Lined s) (ha : Admitted s none) {label : AdmissionLabel} (hturn : InTurn s label) :
    Lined (s.step label) := by
  obtain ⟨hclear, hown⟩ := hturn
  cases label with
  | whenIdle id => exact h.whenIdle id
  | claim id turnId assistantMessageId caller throws => exact h.claim hown
  | release id generation => exact h.release id generation
  | gate id => exact h.takeGate id
  | releaseGate id holder =>
    unfold TurnAdmissions.step
    dsimp only
    split_ifs
    · exact h
    · exact h.releaseGate id holder
  | holdIdle id throws => exact h.holdIdle id throws
  | releaseHold hold => exact h.releaseHold hold
  | abandon w => exact h.abandon ha w
  | clear => exact absurd rfl hclear
  | othersAcquire id =>
    unfold TurnAdmissions.step
    dsimp only
    rcases hleased : s.acquireTurnLease id with _ | ⟨lease, leased⟩ <;> dsimp only
    · exact h
    · exact (h.acquire hleased).of_same rfl rfl
  | othersRelease id lease =>
    unfold TurnAdmissions.step
    dsimp only
    split_ifs
    · exact h.of_same (releaseTurnLease_sessions _ _ _) (releaseTurnLease_waiters _ _ _)
    · exact h

theorem lined_run {labels : List AdmissionLabel} (h : Meets TurnAdmissions.step InTurn {} labels) :
    Lined (run TurnAdmissions.step {} labels) ∧ Admitted (run TurnAdmissions.step {} labels) none :=
  invariant_of_meets (fun s => Lined s ∧ Admitted s none) (fun _ label hs hturn => ⟨hs.1.step hs.2 hturn, hs.2.step label⟩)
    ⟨lined_start, admitted_start⟩ h

/-- Where every session that was handed to a waiter is claimed by it alone, no claim takes a woken waiter's place. -/
theorem Lined.not_displaced (h : Lined s) (ha : Admitted s none) {label : AdmissionLabel} (hown : s.OwnClaim label) {w : ℕ} :
    ¬ s.Displaces label id w := by
  rintro ⟨turnId, assistantMessageId, caller, throws, rfl, hcaller, hwoken, htaken⟩
  obtain ⟨waiter, token, hw, hid, hstage, hspent⟩ := TurnAdmissions.woken_iff.mp hwoken
  rcases hown w (List.getElem?_eq_some_iff.mp hw).1 hwoken with hsame | ⟨rfl, hgate⟩
  · exact hcaller hsame
  have hhanded := hid ▸ h.handed w waiter token hw hstage hspent
  have hactive : ¬ (s.sessions id).active.isSome = true := by
    intro hactive
    rw [ha.apart id hactive] at hhanded
    cases hhanded
  refine htaken ?_
  change ((s.claim id turnId assistantMessageId caller true).sessions id).handed = _
  unfold TurnAdmissions.claim
  dsimp only
  rw [if_neg hactive, hgate, if_neg (by simp), if_pos rfl]

end

/-- In every run whose sessions, once handed to a waiter, are claimed by that waiter alone, prompts run in the order they came. -/
theorem prompts_in_order (labels : List AdmissionLabel) (h : Meets TurnAdmissions.step InTurn {} labels) : RunInOrder labels := by
  obtain ⟨hlined, hadmitted⟩ := lined_run h
  refine ⟨fun id w w' hwoken hwoken' => ?_, fun w w' waiter waiter' hlt hw hw' hid hstage => ?_,
    fun before label more id w v hsplit htaken => ?_⟩
  · obtain ⟨waiter, token, hw, rfl, hstage, hspent⟩ := TurnAdmissions.woken_iff.mp hwoken
    obtain ⟨waiter', token', hw', hid, hstage', hspent'⟩ := TurnAdmissions.woken_iff.mp hwoken'
    have htoken := hlined.handed w waiter token hw hstage hspent
    have htoken' := hid ▸ hlined.handed w' waiter' token' hw' hstage' hspent'
    obtain rfl := Option.some.inj (htoken.symm.trans htoken')
    exact (hadmitted.tokens w w' waiter waiter' token hw hw' hstage hstage').symm
  · exact hlined.behind waiter.sessionId w (hlined.listed w waiter hw hstage) w' waiter' hlt hw' hid
  · subst hsplit
    obtain ⟨hbefore, hturn, -⟩ := (meets_append _ _ _ _ _).mp h
    obtain ⟨hlined, hadmitted⟩ := lined_run hbefore
    exact absurd htaken (hlined.not_displaced hadmitted hturn.2)

/-- Two prompts wait for a third, and each is claimed for as it is woken. -/
theorem prompts_in_order_three : RunInOrder [.claim "ses" "a" "asst_a" none false, .whenIdle "ses", .whenIdle "ses",
    .release "ses" 1, .claim "ses" "b" "asst_b" (some 0) false, .release "ses" 4, .claim "ses" "c" "asst_c" (some 1) false] :=
  prompts_in_order _ (by decide)

/-- A direct prompt claims the session between a waiter's waking and its claim. The waiter's claim is refused, it asks again, and
the one that had asked after it is woken first. -/
theorem overtaken : ¬ ∀ labels : List AdmissionLabel, .clear ∉ labels → RunInOrder labels := by
  intro hall
  have hrun := hall [.claim "ses" "a" "asst_a" none false, .whenIdle "ses", .whenIdle "ses", .release "ses" 1,
    .claim "ses" "direct" "asst_direct" none false, .claim "ses" "b" "asst_b" (some 0) false, .whenIdle "ses", .release "ses" 4]
    (by simp)
  obtain ⟨between, own, rest, hmore, hturn⟩ := hrun.served
    [.claim "ses" "a" "asst_a" none false, .whenIdle "ses", .whenIdle "ses", .release "ses" 1]
    (.claim "ses" "direct" "asst_direct" none false) [.claim "ses" "b" "asst_b" (some 0) false, .whenIdle "ses", .release "ses" 4]
    "ses" 0 1 rfl ⟨"direct", "asst_direct", none, false, rfl, by simp, by decide, by decide⟩ (by decide)
    ⟨⟨"ses", .woken 5, false⟩, by decide, rfl⟩
  rcases hturn with rfl | ⟨turnId, assistantMessageId, throws, rfl, hactive, -⟩
  · have hmem : AdmissionLabel.abandon 0 ∈ between ++ .abandon 0 :: rest := List.mem_append_right _ List.mem_cons_self
    rw [← hmore] at hmem
    simp at hmem
  · rcases between with _ | ⟨first, _ | ⟨second, _ | ⟨third, between⟩⟩⟩
    · cases hactive
    all_goals simp at hmore

end Claxedo.Turns
