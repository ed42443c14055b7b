import Claxedo.Pty.Retirement

/-! A terminal that may still run is not forgotten: while its retirement is unsettled or unrecorded it leaves the
sessions map by hand only, its cleanups run one at a time, and it never leaves while one runs. -/

namespace Claxedo.Pty

open Lib

def Cleanup.isRunning : Cleanup → Bool
  | .running _ => true
  | .resolved => false
  | .rejected => false

namespace RetiringSession

/-- The cleanup at this place is under way. -/
def Running (s : RetiringSession) (i : ℕ) : Prop := ∃ stage, s.cleanups[i]? = some (.running stage)

def Idle (s : RetiringSession) : Prop := ∀ i, ¬ s.Running i

/-- The cleanup that runs is the one that is remembered, and an exit's retention begins when its cleanup is over. -/
structure SingleCleanup (s : RetiringSession) : Prop where
  running : ∀ i, s.Running i → s.cleanupOperation = some i
  timers : 0 < s.retentionTimers → ∃ i, s.cleanupOperation = some i ∧ ¬ s.Running i

/-- It leaves the map only where nothing has to stay, and no cleanup runs. -/
def Leaves (s s' : RetiringSession) : Prop := s.held = true → s'.held = false → s'.retained = false ∧ s'.Idle

variable {s s' : RetiringSession}

theorem SingleCleanup.eq (h : s.SingleCleanup) {i j : ℕ} (hi : s.Running i) (hj : s.Running j) : i = j :=
  Option.some.inj ((h.running i hi).symm.trans (h.running j hj))

theorem SingleCleanup.idle (h : s.SingleCleanup) {i : ℕ} (hmemo : s.cleanupOperation = some i) (hi : ¬ s.Running i) : s.Idle := by
  intro j hj
  obtain rfl : i = j := Option.some.inj (hmemo.symm.trans (h.running j hj))
  exact hi hj

theorem SingleCleanup.idle_of_none (h : s.SingleCleanup) (hmemo : s.cleanupOperation = none) : s.Idle := by
  intro j hj
  have hsome := h.running j hj
  rw [hmemo] at hsome
  cases hsome

/-- What a step that leaves the cleanups alone keeps. -/
theorem SingleCleanup.of_eq (h : s.SingleCleanup) (hcleanups : s'.cleanups = s.cleanups)
    (hmemo : s'.cleanupOperation = s.cleanupOperation) (htimers : s'.retentionTimers ≤ s.retentionTimers) : s'.SingleCleanup := by
  have hrunning : ∀ i, s'.Running i ↔ s.Running i := fun i => by rw [Running, Running, hcleanups]
  refine ⟨fun i hi => ?_, fun hpos => ?_⟩
  · rw [hmemo]
    exact h.running i ((hrunning i).mp hi)
  · obtain ⟨i, hi, hover⟩ := h.timers (by omega)
    exact ⟨i, hmemo.trans hi, fun hrun => hover ((hrunning i).mp hrun)⟩

theorem Idle.of_eq (h : s.Idle) (hcleanups : s'.cleanups = s.cleanups) : s'.Idle := by
  intro i hi
  refine h i ?_
  rw [Running, ← hcleanups]
  exact hi

theorem Leaves.of_held (h : s'.held = s.held) : Leaves s s' := by
  intro hheld hgone
  rw [h, hheld] at hgone
  cases hgone

section remove

theorem cleanupSessionOwned_keeps (reason : CleanupReason) (s : RetiringSession) :
    (s.cleanupSessionOwned reason).1 = { s with
      removed := (s.cleanupSessionOwned reason).1.removed, orphanTimer := (s.cleanupSessionOwned reason).1.orphanTimer,
      subscribers := (s.cleanupSessionOwned reason).1.subscribers } := by
  unfold cleanupSessionOwned
  split
  · rfl
  · cases reason <;> rfl

variable {s : RetiringSession}

theorem cleanupSession_of_some {cleanup : ℕ} (h : s.cleanupOperation = some cleanup) (reason : CleanupReason) :
    s.cleanupSession reason = (s, cleanup) := by
  unfold cleanupSession
  rw [h]

theorem cleanupSession_of_none (h : s.cleanupOperation = none) (reason : CleanupReason) :
    s.cleanupSession reason = ({ (s.cleanupSessionOwned reason).1 with
      cleanups := s.cleanups ++ [(s.cleanupSessionOwned reason).2], cleanupOperation := some s.cleanups.length },
      s.cleanups.length) := by
  unfold cleanupSession
  rw [h]
  dsimp only
  rw [cleanupSessionOwned_keeps]

theorem running_snoc {s' : RetiringSession} {started : Cleanup} (h : s'.cleanups = s.cleanups ++ [started]) {i : ℕ}
    (hi : s'.Running i) : s.Running i ∨ i = s.cleanups.length := by
  obtain ⟨stage, hstage⟩ := hi
  have hlt : i < (s.cleanups ++ [started]).length := h ▸ (List.getElem?_eq_some_iff.mp hstage).1
  rw [List.length_append, List.length_singleton] at hlt
  by_cases hi : i < s.cleanups.length
  · rw [h, List.getElem?_append_left hi] at hstage
    exact .inl ⟨stage, hstage⟩
  · exact .inr (by omega)

/-- A new cleanup starts only where none is remembered, so none runs. -/
theorem SingleCleanup.cleanupSession (h : s.SingleCleanup) (reason : CleanupReason) :
    (s.cleanupSession reason).1.SingleCleanup := by
  rcases hmemo : s.cleanupOperation with _ | cleanup
  · rw [cleanupSession_of_none hmemo, cleanupSessionOwned_keeps]
    refine ⟨fun i hi => ?_, fun hpos => ?_⟩
    · rcases running_snoc rfl hi with hi | rfl
      · exact absurd hi (h.idle_of_none hmemo i)
      · rfl
    · obtain ⟨i, hi, -⟩ := h.timers hpos
      rw [hmemo] at hi
      cases hi
  · rw [cleanupSession_of_some hmemo]
    exact h

theorem cleanupSession_memo (reason : CleanupReason) (s : RetiringSession) :
    (s.cleanupSession reason).1.cleanupOperation = some (s.cleanupSession reason).2 := by
  rcases hmemo : s.cleanupOperation with _ | cleanup
  · rw [cleanupSession_of_none hmemo]
  · rw [cleanupSession_of_some hmemo]
    exact hmemo

theorem cleanupSession_held (reason : CleanupReason) (s : RetiringSession) : (s.cleanupSession reason).1.held = s.held := by
  rcases hmemo : s.cleanupOperation with _ | cleanup
  · rw [cleanupSession_of_none hmemo, cleanupSessionOwned_keeps]
  · rw [cleanupSession_of_some hmemo]

/-- What a turn leaves: the cleanups in order, and the terminal in the map unless nothing has to stay. -/
structure Kept (s s' : RetiringSession) : Prop where
  single : s'.SingleCleanup
  leaves : Leaves s s'

theorem Kept.of_eq {s' : RetiringSession} (h : s.SingleCleanup) (hcleanups : s'.cleanups = s.cleanups)
    (hmemo : s'.cleanupOperation = s.cleanupOperation) (htimers : s'.retentionTimers = s.retentionTimers)
    (hheld : s'.held = s.held) : Kept s s' :=
  ⟨h.of_eq hcleanups hmemo htimers.le, .of_held hheld⟩

/-- A removal lets go only where nothing is retained, which it looks at when no cleanup runs any more. -/
theorem kept_removeSettled {s₀ : RetiringSession} (h : s.SingleCleanup) (hidle : s.Idle) (hheld : Leaves s₀ s) (rejected : Bool) :
    Kept s₀ (s.removeSettled rejected) := by
  unfold removeSettled
  split
  · exact ⟨h.of_eq rfl rfl (Nat.le_refl _), fun h₀ hgone => ⟨(hheld h₀ hgone).1, hidle.of_eq rfl⟩⟩
  · dsimp only
    split
    · rename_i hretained
      rw [Bool.and_eq_true, Bool.not_eq_true'] at hretained
      exact ⟨h.of_eq rfl rfl (Nat.le_refl _), fun _ _ => ⟨hretained.1, hidle.of_eq rfl⟩⟩
    · exact ⟨h.of_eq rfl rfl (Nat.le_refl _), fun h₀ hgone => ⟨(hheld h₀ hgone).1, hidle.of_eq rfl⟩⟩

theorem kept_remove (h : s.SingleCleanup) : Kept s s.remove := by
  unfold remove
  split
  · exact .of_eq h rfl rfl rfl rfl
  · exact .of_eq h rfl rfl rfl rfl
  · exact .of_eq h rfl rfl rfl rfl
  · have hsingle := h.cleanupSession .remove
    have hmemo := cleanupSession_memo .remove s
    have hheld : Leaves s (s.cleanupSession .remove).1 := .of_held (cleanupSession_held .remove s)
    dsimp only
    split
    · rename_i hresolved
      refine kept_removeSettled hsingle (hsingle.idle hmemo fun hrun => ?_) hheld false
      obtain ⟨stage, hstage⟩ := hrun
      rw [hresolved] at hstage
      cases hstage
    · rename_i hrejected
      refine kept_removeSettled hsingle (hsingle.idle hmemo fun hrun => ?_) hheld true
      obtain ⟨stage, hstage⟩ := hrun
      rw [hrejected] at hstage
      cases hstage
    · exact ⟨hsingle.of_eq rfl rfl (Nat.le_refl _), .of_held (cleanupSession_held .remove s)⟩

end remove

section proceed

variable {s₀ s : RetiringSession} {i : ℕ}

theorem running_set {cleanup : Cleanup} {j : ℕ} (hne : j ≠ i) :
    { s with cleanups := s.cleanups.set i cleanup }.Running j ↔ s.Running j := by
  rw [Running, Running]
  dsimp only
  rw [List.getElem?_set_ne (Ne.symm hne)]

variable {stage : CleanupStage}

theorem kept_waitFor (h : s.SingleCleanup) (hi : s.Running i) (hheld : s.held = s₀.held) :
    Kept s₀ (s.waitFor i stage) := by
  refine ⟨⟨fun j hj => ?_, fun hpos => ?_⟩, .of_held hheld⟩
  · by_cases hne : j = i
    · rw [hne]
      exact h.running i hi
    · exact h.running j ((running_set hne).mp hj)
  · obtain ⟨j, hj, hover⟩ := h.timers hpos
    have hne : j ≠ i := fun he => hover (he ▸ hi)
    exact ⟨j, hj, fun hrun => hover ((running_set hne).mp hrun)⟩

/-- The one cleanup that runs is over: then none runs, and the removal that waited for it goes on. -/
theorem kept_finish (honly : ∀ j, s.Running j → j = i) (htimers : 0 < s.retentionTimers → ∃ j, s.cleanupOperation = some j)
    (hleaves : s₀.held = true → s.held = false → s.retained = false) (rejected : Bool) : Kept s₀ (s.finish i rejected) := by
  have hidle : { s with cleanups := s.cleanups.set i (if rejected then .rejected else .resolved) }.Idle := by
    intro j hj
    by_cases hne : j = i
    · obtain ⟨stage, hstage⟩ := hj
      subst hne
      dsimp only at hstage
      rw [List.getElem?_set_self'] at hstage
      obtain ⟨_, -, hcleanup⟩ := Option.map_eq_some_iff.mp hstage
      cases rejected <;> cases hcleanup
    · exact hne (honly j ((running_set hne).mp hj))
  have hsingle : { s with cleanups := s.cleanups.set i (if rejected then .rejected else .resolved) }.SingleCleanup := by
    refine ⟨fun j hj => absurd hj (hidle j), fun hpos => ?_⟩
    obtain ⟨j, hj⟩ := htimers hpos
    exact ⟨j, hj, hidle j⟩
  unfold finish
  dsimp only
  split
  · exact kept_removeSettled hsingle hidle (fun h₀ hgone => ⟨hleaves h₀ hgone, hidle⟩) rejected
  · exact ⟨hsingle, fun h₀ hgone => ⟨hleaves h₀ hgone, hidle⟩⟩

/-- While a cleanup runs no exit's retention has begun. -/
theorem SingleCleanup.no_timers (h : s.SingleCleanup) (hi : s.Running i) : s.retentionTimers = 0 := by
  by_contra hne
  obtain ⟨j, hj, hover⟩ := h.timers (Nat.pos_of_ne_zero hne)
  obtain rfl : i = j := Option.some.inj ((h.running i hi).symm.trans hj)
  exact hover hi

/-- The same where the cleanup left a note on the session first. -/
theorem kept_waitFor_of_eq (h : s₀.SingleCleanup) (hi : s₀.Running i) (hcleanups : s.cleanups = s₀.cleanups)
    (hmemo : s.cleanupOperation = s₀.cleanupOperation) (htimers : s.retentionTimers = s₀.retentionTimers)
    (hheld : s.held = s₀.held) : Kept s₀ (s.waitFor i stage) :=
  kept_waitFor (h.of_eq hcleanups hmemo htimers.le) (by rw [Running, hcleanups]; exact hi) hheld

theorem kept_proceed (h : s.SingleCleanup) (hstage : s.cleanups[i]? = some (.running stage)) (answer : CleanupAnswer) :
    Kept s (s.proceed i answer stage) := by
  have hi : s.Running i := ⟨stage, hstage⟩
  have honly : ∀ j, s.Running j → j = i := fun j hj => h.eq hj hi
  have hstays : s.held = true → s.held = false → s.retained = false := fun hheld hgone => by
    rw [hheld] at hgone
    cases hgone
  cases stage with
  | captureOwnedGroup => exact kept_waitFor h hi rfl
  | sweepGroup =>
    simp only [proceed]
    split
    · exact kept_finish honly (fun _ => ⟨i, h.running i hi⟩) hstays true
    · exact kept_waitFor h hi rfl
  | recordExit =>
    simp only [proceed]
    refine kept_waitFor_of_eq h hi ?_ ?_ ?_ ?_ <;> rfl
  | closeHistoryOfExit =>
    simp only [proceed]
    refine kept_finish ?_ (fun _ => ?_) ?_ false
    · exact honly
    · exact ⟨i, h.running i hi⟩
    · exact hstays
  | leaderVanished =>
    simp only [proceed, retired]
    refine kept_waitFor_of_eq h hi ?_ ?_ ?_ ?_ <;> rfl
  | captureDescendants => exact kept_waitFor h hi rfl
  | retire => exact kept_waitFor h hi rfl
  | retireDescendants result =>
    simp only [proceed]
    split
    · exact kept_finish honly (fun _ => ⟨i, h.running i hi⟩) hstays true
    · split
      · exact kept_waitFor h hi rfl
      · unfold retired
        refine kept_waitFor_of_eq h hi ?_ ?_ ?_ ?_ <;> rfl
  | recordRetirement result =>
    simp only [proceed, retired]
    refine kept_waitFor_of_eq h hi ?_ ?_ ?_ ?_ <;> rfl
  | closeHistory result =>
    simp only [proceed]
    split
    · refine kept_finish ?_ (fun hpos => ?_) (fun hheld hgone => ?_) false
      · exact honly
      · dsimp only at hpos
        rw [h.no_timers hi] at hpos
        cases hpos
      · dsimp only at hgone
        rw [hheld] at hgone
        cases hgone
    · rename_i hsettled
      rw [Bool.or_eq_true, not_or, Bool.not_eq_true, Bool.not_eq_true] at hsettled
      refine kept_finish ?_ (fun _ => ?_) (fun _ _ => ?_) false
      · exact honly
      · exact ⟨i, h.running i hi⟩
      · simp only [retained, hsettled.2, Bool.or_false]

end proceed

theorem idle_iff : (s.cleanups.all fun cleanup => !cleanup.isRunning) = true ↔ s.Idle := by
  rw [List.all_eq_true]
  refine ⟨fun h i hi => ?_, fun h cleanup hcleanup => ?_⟩
  · obtain ⟨stage, hstage⟩ := hi
    exact absurd (h _ (List.mem_of_getElem? hstage)) (by simp [Cleanup.isRunning])
  · obtain ⟨i, hi⟩ := List.getElem?_of_mem hcleanup
    cases cleanup with
    | running stage => exact absurd ⟨stage, hi⟩ (h i)
    | resolved => rfl
    | rejected => rfl

instance (s : RetiringSession) : Decidable s.Idle := decidable_of_iff _ idle_iff

end RetiringSession

open RetiringSession

/-- An abandon that names who answers for it and why, or a dispose. -/
def RetirementEvent.byHand (s : RetiringSession) : RetirementEvent → Prop
  | .abandon actorId reason => actorId ≠ "" ∧ reason ≠ ""
  | .abandonRecorded i _ => ∃ authorization, s.abandons[i]? = some authorization
  | .disposeSweep i => s.disposals[i]? = some .removed
  | _ => False

/-- What is asked of one turn. -/
structure NotForgotten (s : RetiringSession) (event : RetirementEvent) (s' : RetiringSession) : Prop where
  retained : s.held = true → s'.held = false → s'.retained = true → event.byHand s
  single : ∀ i j, s'.Running i → s'.Running j → i = j
  idle : s.held = true → s'.held = false → s'.Idle

def NeverForgotten (start : RetiringSession) (events : List RetirementEvent) : Prop :=
  ∀ before event after, events = before ++ event :: after →
    let s := run retirementStep start before
    NotForgotten s event (retirementStep s event)

/-- An exit's retention does not end on a terminal that is retained, and nobody lets go of one by hand while a cleanup
of it runs. -/
def LetsGo (s : RetiringSession) : RetirementEvent → Prop
  | .retentionTimer => 0 < s.retentionTimers → s.held = true → s.retained = false
  | .abandon actorId reason =>
    s.held = true → s.retained = true → actorId ≠ "" → reason ≠ "" → (s.cleanupResult.isSome && s.recorded) = false → s.Idle
  | .abandonRecorded i _ => i < s.abandons.length → s.held = true → s.Idle
  | .disposeSweep i => s.disposals[i]? = some .removed → s.held = true → s.Idle
  | _ => True

instance (s : RetiringSession) (event : RetirementEvent) : Decidable (LetsGo s event) := by
  unfold LetsGo
  split <;> infer_instance

/-- A terminal that was just created, with or without an identity that was read and a record to write. -/
def createdTerminal (identity recorded : Bool) : RetiringSession := { identity := identity, recorded := recorded }

theorem singleCleanup_created (identity recorded : Bool) : (createdTerminal identity recorded).SingleCleanup := by
  refine ⟨fun i hi => ?_, fun hpos => absurd hpos (Nat.lt_irrefl 0)⟩
  obtain ⟨stage, hstage⟩ := hi
  cases hstage

namespace RetiringSession

variable {s s' : RetiringSession} {event : RetirementEvent}

theorem Kept.notForgotten (h : Kept s s') : NotForgotten s event s' := by
  refine ⟨fun hheld hgone hretained => ?_, fun i j hi hj => h.single.eq hi hj, fun hheld hgone => (h.leaves hheld hgone).2⟩
  rw [(h.leaves hheld hgone).1] at hretained
  cases hretained

/-- Who lets go by hand does so while no cleanup runs. -/
theorem notForgotten_drop (h : s.SingleCleanup) (hcleanups : s'.cleanups = s.cleanups)
    (hmemo : s'.cleanupOperation = s.cleanupOperation) (htimers : s'.retentionTimers ≤ s.retentionTimers)
    (hhand : event.byHand s) (hidle : s.held = true → s.Idle) : NotForgotten s event s' ∧ s'.SingleCleanup := by
  have hsingle := h.of_eq hcleanups hmemo htimers
  exact ⟨⟨fun _ _ _ => hhand, fun i j hi hj => hsingle.eq hi hj, fun hheld _ => (hidle hheld).of_eq hcleanups⟩, hsingle⟩

theorem step_kept (h : s.SingleCleanup) (hgo : LetsGo s event) :
    NotForgotten s event (retirementStep s event) ∧ (retirementStep s event).SingleCleanup := by
  have hkept : ∀ {s'}, Kept s s' → NotForgotten s event s' ∧ s'.SingleCleanup := fun hs' => ⟨hs'.notForgotten, hs'.single⟩
  have hself : Kept s s := .of_eq h rfl rfl rfl rfl
  cases event with
  | connect replaySent =>
    simp only [retirementStep]
    split <;> exact hkept (.of_eq h rfl rfl rfl rfl)
  | onClose =>
    simp only [retirementStep, armOrphanTimer]
    split_ifs <;> exact hkept (.of_eq h rfl rfl rfl rfl)
  | commit =>
    simp only [retirementStep]
    split <;> exact hkept (.of_eq h rfl rfl rfl rfl)
  | exited =>
    simp only [retirementStep]
    split
    · exact hkept hself
    · have hexited : { s with exited := true }.SingleCleanup := h.of_eq rfl rfl (Nat.le_refl _)
      exact hkept ⟨hexited.cleanupSession .exit, .of_held (cleanupSession_held .exit _)⟩
  | remove =>
    simp only [retirementStep]
    split
    · exact hkept (kept_remove h)
    · exact hkept hself
  | orphanTimer =>
    simp only [retirementStep]
    split
    · split
      · exact hkept (.of_eq h rfl rfl rfl rfl)
      · have hfired : { s with orphanTimer := false }.SingleCleanup := h.of_eq rfl rfl (Nat.le_refl _)
        have hremoved := kept_remove hfired
        exact hkept ⟨hremoved.single, hremoved.leaves⟩
    · exact hkept hself
  | retentionTimer =>
    simp only [retirementStep]
    split
    · exact hkept hself
    · rename_i hpos
      obtain ⟨i, hmemo, hover⟩ := h.timers (Nat.pos_of_ne_zero hpos)
      have hidle := h.idle hmemo hover
      split
      · rename_i hheld
        refine hkept ⟨h.of_eq rfl rfl (Nat.sub_le _ _), fun _ _ => ⟨?_, hidle.of_eq rfl⟩⟩
        exact hgo (Nat.pos_of_ne_zero hpos) hheld
      · exact hkept ⟨h.of_eq rfl rfl (Nat.sub_le _ _), .of_held rfl⟩
  | proceed cleanup answer =>
    simp only [retirementStep]
    split
    · rename_i hstage
      exact hkept (kept_proceed h hstage answer)
    · exact hkept hself
  | abandon actorId reason =>
    simp only [retirementStep]
    split
    · rename_i hheld
      rw [Bool.and_eq_true] at hheld
      split
      · rename_i hnamed
        split
        · exact hkept (.of_eq h rfl rfl rfl rfl)
        · rename_i hnow
          exact notForgotten_drop h rfl rfl (Nat.le_refl _) hnamed
            fun _ => hgo hheld.1 hheld.2 hnamed.1 hnamed.2 (Bool.not_eq_true _ ▸ hnow)
      · exact hkept hself
    · exact hkept hself
  | abandonRecorded i recorded =>
    simp only [retirementStep]
    split
    · rename_i hi
      exact notForgotten_drop h rfl rfl (Nat.le_refl _) ⟨_, List.getElem?_eq_getElem hi⟩ fun hheld => hgo hi hheld
    · exact hkept hself
  | dispose => exact hkept (.of_eq h rfl rfl rfl rfl)
  | disposeRemove i =>
    simp only [retirementStep]
    split
    · split
      · have hqueued : { s with disposals := s.disposals.set i .removing }.SingleCleanup := h.of_eq rfl rfl (Nat.le_refl _)
        have hremoved := kept_remove hqueued
        exact hkept ⟨hremoved.single, hremoved.leaves⟩
      · exact hkept (.of_eq h rfl rfl rfl rfl)
    · exact hkept hself
  | disposeSweep i =>
    simp only [retirementStep]
    split
    · rename_i hi
      split
      · exact notForgotten_drop h rfl rfl (Nat.le_refl _) hi fun hheld => hgo hi hheld
      · exact hkept (.of_eq h rfl rfl rfl rfl)
    · exact hkept hself

end RetiringSession

theorem neverForgotten_of_letsGo (identity recorded : Bool) (events : List RetirementEvent)
    (h : Meets retirementStep LetsGo (createdTerminal identity recorded) events) :
    NeverForgotten (createdTerminal identity recorded) events := by
  intro before event after hevents
  subst hevents
  obtain ⟨hbefore, hgo, -⟩ := (meets_append _ _ _ _ _).mp h
  have hsingle := invariant_of_meets SingleCleanup (fun s event hs hgo => (step_kept hs hgo).2)
    (singleCleanup_created identity recorded) hbefore
  exact (step_kept hsingle hgo).1

/-- A removal that is not settled at first, and then is. -/
theorem neverForgotten_retried : NeverForgotten (createdTerminal true true)
    [.remove, .proceed 0 {}, .proceed 0 { result := { leader := .alive, descendants := .owned } }, .proceed 0 {}, .proceed 0 {},
      .proceed 0 {}, .remove, .proceed 1 {}, .proceed 1 {}, .proceed 1 {}, .proceed 1 {}, .proceed 1 {}] :=
  neverForgotten_of_letsGo true true _ (by decide)

/-- The shell exits, the record of it cannot be written, and a minute later the entry is dropped all the same. -/
theorem not_neverForgotten : ¬ NeverForgotten (createdTerminal true true)
    [.exited, .proceed 0 {}, .proceed 0 {}, .proceed 0 { recorded := false }, .proceed 0 {}, .retentionTimer] := by
  intro h
  exact (h [.exited, .proceed 0 {}, .proceed 0 {}, .proceed 0 { recorded := false }, .proceed 0 {}] .retentionTimer [] rfl).retained
    (by decide) (by decide) (by decide)

end Claxedo.Pty
