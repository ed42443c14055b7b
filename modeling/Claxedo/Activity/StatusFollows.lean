import Claxedo.Activity.StatusReads

/-! A session's tracked status is never older than its frames, in every run whose snapshots and runtimes do not race them. -/

namespace Claxedo.Activity

open Claxedo.Lib

/-! ### The runtimes of a workspace -/

section
variable (runtimes : List Runtime) (runtime : ObservedRuntime) (w s : String)

theorem newest_cons (r : Runtime) : newest (r :: runtimes) w = if r.observed.workspace = w then some r else newest runtimes w := by
  unfold newest
  rw [List.find?_cons]
  by_cases h : r.observed.workspace = w <;> simp [h]

theorem heldOf_mount : heldOf (.start runtime :: runtimes) w s = if runtime.workspace = w then .idle else heldOf runtimes w s := by
  unfold heldOf
  rw [newest_cons]
  by_cases h : runtime.workspace = w
  · rw [if_pos (show (Runtime.start runtime).observed.workspace = w from h), if_pos h]
    rfl
  · rw [if_neg (show ¬ (Runtime.start runtime).observed.workspace = w from h), if_neg h]

theorem newest_dispose (h : (newest runtimes w).map Runtime.observed ≠ some runtime) :
    newest (runtimes.filter fun r => r.observed ≠ runtime) w = newest runtimes w := by
  induction runtimes with
  | nil => rfl
  | cons r runtimes ih =>
    rw [newest_cons] at h ⊢
    by_cases hw : r.observed.workspace = w
    · rw [if_pos hw] at h ⊢
      have hother : r.observed ≠ runtime := fun hsame => h (congrArg some hsame)
      rw [List.filter_cons_of_pos (by simpa using hother), newest_cons, if_pos hw]
    · rw [if_neg hw] at h ⊢
      by_cases hother : r.observed ≠ runtime
      · rw [List.filter_cons_of_pos (by simpa using hother), newest_cons, if_neg hw, ih h]
      · rw [List.filter_cons_of_neg (by simpa using hother), ih h]

theorem workspace_newest {r : Runtime} (h : newest runtimes w = some r) : r.observed.workspace = w := by
  simpa using List.find?_some h

theorem newest_dispose_other (h : runtime.workspace ≠ w) :
    newest (runtimes.filter fun r => r.observed ≠ runtime) w = newest runtimes w := by
  refine newest_dispose runtimes runtime w fun hsame => ?_
  obtain ⟨r, hr, rfl⟩ := Option.map_eq_some_iff.mp hsame
  exact h (workspace_newest runtimes w hr)

theorem observed_frame (frame : Frame) (r : Runtime) :
    (if r.observed = runtime then r.sends frame else r).observed = r.observed := by
  unfold Runtime.sends
  split_ifs <;> rfl

theorem newest_frame (frame : Frame) : newest (runtimes.map fun r => if r.observed = runtime then r.sends frame else r) w =
    (newest runtimes w).map fun r => if r.observed = runtime then r.sends frame else r := by
  induction runtimes with
  | nil => rfl
  | cons r runtimes ih =>
    rw [List.map_cons, newest_cons, newest_cons, observed_frame, ih]
    split_ifs <;> simp_all

theorem held_sends (r : Runtime) (frame : Frame) :
    (r.sends frame).held s = if frame.sessionID ≠ "" ∧ s = frame.sessionID then (r.held s).change frame else r.held s := by
  unfold Runtime.sends
  by_cases hnone : frame.sessionID = ""
  · rw [if_pos hnone, if_neg fun hboth => hboth.1 hnone]
  · rw [if_neg hnone]
    dsimp only
    by_cases hs : s = frame.sessionID
    · subst hs
      rw [Function.update_self, if_pos ⟨hnone, rfl⟩]
    · rw [Function.update_of_ne hs, if_neg fun hboth => hs hboth.2]

/-- A frame changes what its workspace's newest runtime holds, where that runtime sent it. -/
theorem heldOf_frame (frame : Frame) :
    heldOf (runtimes.map fun r => if r.observed = runtime then r.sends frame else r) w s =
      if (newest runtimes w).map Runtime.observed = some runtime ∧ frame.sessionID ≠ "" ∧ s = frame.sessionID then
        (heldOf runtimes w s).change frame
      else heldOf runtimes w s := by
  unfold heldOf
  rw [newest_frame]
  rcases newest runtimes w with _ | r
  · rfl
  · simp only [Option.map_some, Option.getD_some, Option.some.injEq]
    by_cases hr : r.observed = runtime
    · rw [if_pos hr, held_sends]
      by_cases hnone : frame.sessionID ≠ "" ∧ s = frame.sessionID
      · rw [if_pos hnone, if_pos ⟨hr, hnone⟩]
      · rw [if_neg hnone, if_neg fun hall => hnone hall.2]
    · rw [if_neg hr, if_neg fun hall => hr hall.1]

theorem find_of_newest (h : (newest runtimes w).map Runtime.observed = some runtime) :
    (runtimes.find? fun r => r.observed = runtime) = newest runtimes w := by
  have hworkspace : runtime.workspace = w := by
    obtain ⟨r, hr, rfl⟩ := Option.map_eq_some_iff.mp h
    exact workspace_newest runtimes w hr
  induction runtimes with
  | nil => cases h
  | cons r runtimes ih =>
    rw [newest_cons] at h ⊢
    rw [List.find?_cons]
    by_cases hw : r.observed.workspace = w
    · rw [if_pos hw] at h ⊢
      have hsame : r.observed = runtime := Option.some.inj h
      simp [hsame]
    · rw [if_neg hw] at h ⊢
      have hother : r.observed ≠ runtime := fun hsame => hw (hsame ▸ hworkspace)
      simp only [hother, decide_false]
      exact ih h

end

/-! ### The invariant -/

/-- What a snapshot read is what the runtime holds. -/
def Stage.Sound (held : String → Held) : Stage → Prop
  | .status none => True
  | .status (some none) => ∀ s, (held s).Same .idle
  | .status (some (some rows)) => Collected [] (statusRead rows) held
  | .requests .permission sessions none => Collected [] sessions held
  | .requests .permission sessions (some rows) => Collected [.permission] (requestsRead .permission rows sessions) held
  | .requests .question sessions none => Collected [.permission] sessions held
  | .requests .question sessions (some rows) =>
    Collected [.question, .permission] (requestsRead .question rows sessions) held

theorem Part.Same.trans {part : Part} {a b c : Held} (h : part.Same a b) (h' : part.Same b c) : part.Same a c := by
  cases part with
  | status => exact ⟨h.1.trans h'.1, h.2.trans h'.2⟩
  | requests asks => exact fun id => (h id).trans (h' id)

theorem Stage.Sound.same {held held' : String → Held} {stage : Stage} (h : stage.Sound held)
    (hsame : ∀ part ∈ stage.parts, ∀ s, part.Same (held s) (held' s)) : stage.Sound held' := by
  match stage with
  | .status none => trivial
  | .status (some none) =>
    intro s part
    refine ((hsame part ?_ s).symm).trans (h s part)
    rcases part with _ | ⟨_ | _⟩ <;> simp [Stage.parts]
  | .status (some (some rows)) => exact Collected.same h (hsame .status (by simp [Stage.parts])) nofun
  | .requests .permission sessions none => exact Collected.same h (hsame .status (by simp [Stage.parts])) nofun
  | .requests .permission sessions (some rows) =>
    exact Collected.same h (hsame .status (by simp [Stage.parts])) fun asks hasks =>
      hsame (.requests asks) (by simp [Stage.parts, List.mem_singleton.mp hasks])
  | .requests .question sessions none =>
    exact Collected.same h (hsame .status (by simp [Stage.parts])) fun asks hasks =>
      hsame (.requests asks) (by simp [Stage.parts, List.mem_singleton.mp hasks])
  | .requests .question sessions (some rows) =>
    refine Collected.same h (hsame .status (by simp [Stage.parts])) fun asks hasks => hsame (.requests asks) ?_
    cases asks <;> simp [Stage.parts]

/-- What the runtime that answers a read holds, or nothing of what is read where none answers. -/
theorem Stage.Sound.sampled {held : String → Held} {stage : Stage} {host : Option Runtime} (h : stage.Sound held)
    (hhost : ∀ r, host = some r → r.Sound ∧ r.held = held)
    (hnone : host = none → ∀ part ∈ stage.nextParts, ∀ s, part.Same (held s) .idle) : (stage.sampled host).Sound held := by
  have hrequests (asks : Asks) {parts : List Asks} {sessions : List (String × RuntimeSessionActivity)}
      (hcollected : Collected parts sessions held)
      (hread : host = none → ∀ s, (Part.requests asks).Same (held s) .idle) :
      Collected (asks :: parts) (requestsRead asks ((host.map fun r => r.requestRows asks).getD []) sessions) held := by
    rcases hcase : host with _ | r
    · exact hcollected.requestsRead_nil asks (hread hcase)
    · obtain ⟨hsound, rfl⟩ := hhost r hcase
      exact hcollected.requestsRead hsound asks
  match stage with
  | .status none =>
    rcases hcase : host with _ | r
    · intro s part
      refine hnone hcase part ?_ s
      rcases part with _ | ⟨_ | _⟩ <;> simp [Stage.nextParts]
    · obtain ⟨hsound, rfl⟩ := hhost r hcase
      exact collected_statusRead hsound
  | .status (some _) => exact h
  | .requests .permission sessions none =>
    exact hrequests .permission h fun hcase => hnone hcase (.requests .permission) (by simp [Stage.nextParts])
  | .requests .question sessions none =>
    exact hrequests .question h fun hcase => hnone hcase (.requests .question) (by simp [Stage.nextParts])
  | .requests _ sessions (some _) => exact h

theorem Stage.Sound.answered {held : String → Held} {stage stage' : Stage} (h : stage.Sound held)
    (hanswered : stage.answered = .reads stage') :
    stage'.Sound held := by
  match stage with
  | .status none => cases hanswered
  | .status (some none) => cases hanswered
  | .status (some (some rows)) =>
    cases hanswered
    exact h
  | .requests asks sessions none => cases asks <;> cases hanswered
  | .requests .permission sessions (some rows) =>
    cases hanswered
    exact h
  | .requests .question sessions (some rows) => cases hanswered

/-- All that was read, as the entries that replace a workspace's. -/
theorem Collected.agrees {sessions : List (String × RuntimeSessionActivity)} {held : String → Held}
    (h : Collected [.question, .permission] sessions held) (s : String) (now : ℕ) :
    Agrees ((Assoc.lookup s (sessions.map fun pair => (pair.1, tracked now pair.2))).getD ⟨.idle, [], NO_BACKGROUND_WORK, 0⟩)
      (held s) := by
  have hkind := h.kind s
  have hwork := h.work s
  have hrequests := h.requests s
  rw [lookup_map_snd]
  refine ⟨?_, ?_, fun key => ?_⟩
  · rw [← hkind]
    rcases Assoc.lookup s sessions <;> rfl
  · rw [← hwork]
    rcases Assoc.lookup s sessions <;> rfl
  · have hall : (∃ request ∈ (held s).requests, pendingKey request.1 request.2 = key) ↔
        ∃ request ∈ (held s).requests, request.1 ∈ [Asks.question, .permission] ∧ pendingKey request.1 request.2 = key := by
      refine exists_congr fun request => and_congr_right fun _ => ?_
      rcases request with ⟨_ | _, id⟩ <;> simp
    rw [hall, ← hrequests]
    rcases Assoc.lookup s sessions <;> rfl

namespace World

/-- The tracker has what the runtimes hold, and so have the snapshots in flight. -/
structure Sound (σ : World) : Prop where
  attached : σ.tracker.attached = σ.runtimes.map Runtime.observed
  runtimes : ∀ r ∈ σ.runtimes, r.Sound
  hosts : ∀ w runtime, Assoc.lookup w σ.hosts = some runtime → (newest σ.runtimes w).map Runtime.observed = some runtime
  tracks : ∀ w s, Agrees (σ.tracked w s) (σ.held w s)
  reads : ∀ snap ∈ σ.reads, snap.stage.Sound (σ.held snap.workspace)

theorem sound_start : Sound start :=
  ⟨rfl, nofun, nofun, fun _ _ => agrees_idle 0, nofun⟩

section
variable {σ : World}

theorem Sound.keepsReads (h : σ.Sound) {e : Event} (hkeeps : σ.KeepsRead e) :
    ∀ snap ∈ σ.reads, snap.stage.Sound (heldOf (runtimesAfter σ.runtimes e) snap.workspace) :=
  fun snap hsnap => (h.reads snap hsnap).same (hkeeps snap hsnap)

theorem Sound.mount (h : σ.Sound) (runtime : ObservedRuntime)
    (hapart : σ.Apart (.mount runtime)) : (σ.step (.mount runtime)).Sound := by
  have hkeeps := h.keepsReads hapart.keepsRead
  by_cases hmounted : runtime ∈ σ.runtimes.map Runtime.observed
  · have hstep : σ.step (.mount runtime) = σ := by
      simp [step, hostsAfter, runtimesAfter, mounted, h.attached, hmounted]
    rwa [hstep]
  · have hafter : runtimesAfter σ.runtimes (.mount runtime) = .start runtime :: σ.runtimes := if_neg hmounted
    have hattached : runtime ∉ σ.tracker.attached := h.attached ▸ hmounted
    have htracker : mounted σ.tracker runtime = { σ.tracker with attached := runtime :: σ.tracker.attached } := if_neg hattached
    rw [hafter] at hkeeps
    refine ⟨?_, fun r hr => ?_, fun w host hhost => ?_, fun w s => ?_, fun snap hsnap => ?_⟩
    · dsimp only [step]
      rw [hafter, htracker, h.attached]
      rfl
    · dsimp only [step] at hr
      rw [hafter] at hr
      rcases List.mem_cons.mp hr with rfl | hr
      · exact Runtime.sound_start runtime
      · exact h.runtimes r hr
    · dsimp only [step, hostsAfter] at hhost ⊢
      rw [if_neg hmounted, Assoc.lookup_assign] at hhost
      rw [hafter, newest_cons]
      by_cases hw : runtime.workspace = w
      · rw [if_pos hw] at hhost
        rw [if_pos (show (Runtime.start runtime).observed.workspace = w from hw)]
        exact hhost
      · rw [if_neg hw] at hhost
        rw [if_neg (show ¬ (Runtime.start runtime).observed.workspace = w from hw)]
        exact h.hosts w host hhost
    · dsimp only [step, tracked, held]
      rw [hafter, htracker, heldOf_mount]
      split_ifs with hw
      · subst hw
        exact (h.tracks runtime.workspace s).same (hapart.mount runtime rfl hmounted s)
      · exact h.tracks w s
    · dsimp only [step, held]
      rw [hafter]
      exact hkeeps snap hsnap

theorem Sound.retire (h : σ.Sound) (runtime : ObservedRuntime) : (σ.step (.retire runtime)).Sound := by
  refine ⟨h.attached, h.runtimes, fun w host hhost => h.hosts w host ?_, h.tracks, h.reads⟩
  dsimp only [step, hostsAfter] at hhost
  split_ifs at hhost
  · rw [Assoc.lookup_erase] at hhost
    split_ifs at hhost
    exact hhost
  · exact hhost

theorem Sound.dispose (h : σ.Sound) (runtime : ObservedRuntime) (hapart : σ.Apart (.dispose runtime)) :
    (σ.step (.dispose runtime)).Sound := by
  have hkeeps := h.keepsReads hapart.keepsRead
  have hidle := hapart.dispose runtime rfl
  refine ⟨?_, fun r hr => h.runtimes r (List.mem_of_mem_filter hr), fun w host hhost => ?_, fun w s => ?_, hkeeps⟩
  · have hattached : (σ.step (.dispose runtime)).tracker.attached = σ.tracker.attached.filter (· ≠ runtime) := rfl
    rw [hattached, h.attached, List.filter_map]
    rfl
  · dsimp only [step, hostsAfter, runtimesAfter] at hhost ⊢
    by_cases hw : runtime.workspace = w
    · subst hw
      by_cases hhosts : Assoc.lookup runtime.workspace σ.hosts = some runtime
      · rw [if_pos hhosts, Assoc.lookup_erase, if_pos rfl] at hhost
        cases hhost
      · rw [if_neg hhosts] at hhost
        have hnewest := h.hosts _ host hhost
        rw [newest_dispose _ _ _ fun hsame => hhosts (hhost.trans (hnewest.symm.trans hsame)), hnewest]
    · rw [newest_dispose_other _ _ _ hw]
      refine h.hosts w host ?_
      split_ifs at hhost
      · rw [Assoc.lookup_erase, if_neg hw] at hhost
        exact hhost
      · exact hhost
  · dsimp only [step, tracked, held, disposed]
    rw [entryOf_runtimeGone]
    split_ifs with hw
    · subst hw
      exact (agrees_idle 0).same fun part => ((hidle s) part).symm
    · dsimp only [runtimesAfter, heldOf]
      rw [newest_dispose_other _ _ _ hw]
      exact h.tracks w s

theorem agrees_applyFrame (t : Tracker) (w : String) (frame : Frame) (now : ℕ) {w' s' : String} {h : Held}
    (hagrees : Agrees (t.entryOf w' s' 0) h) : Agrees ((applyFrame t w frame now).1.entryOf w' s' 0)
      (if w = w' ∧ frame.sessionID ≠ "" ∧ s' = frame.sessionID then h.change frame else h) := by
  obtain ⟨time, htime⟩ := entryOf_now t w frame.sessionID now
  unfold applyFrame
  by_cases hnone : frame.sessionID = ""
  · rw [if_pos hnone, if_neg fun hall => hall.2.1 hnone]
    exact hagrees
  · rw [if_neg hnone]
    by_cases hsame : w = w' ∧ frame.sessionID = s'
    · obtain ⟨rfl, rfl⟩ := hsame
      rw [if_pos ⟨rfl, hnone, rfl⟩]
      have hentry : Agrees (t.entryOf w frame.sessionID now) h := htime ▸ hagrees.time time
      dsimp only
      rcases happly : (t.entryOf w frame.sessionID now).apply frame with _ | entry'
      · dsimp only
        rw [entryOf_setEntry, if_pos ⟨rfl, rfl⟩, change_of_apply_none happly]
        exact hentry
      · dsimp only
        split_ifs
        · rw [entryOf_setEntry, if_pos ⟨rfl, rfl⟩]
          exact hentry.apply happly
        · rw [entryOf_setEntry, if_pos ⟨rfl, rfl⟩]
          exact (hentry.apply happly).time now
    · rw [if_neg fun hall => hsame ⟨hall.1, hall.2.2.symm⟩]
      dsimp only
      rcases (t.entryOf w frame.sessionID now).apply frame with _ | entry'
      · dsimp only
        rw [entryOf_setEntry, if_neg hsame]
        exact hagrees
      · dsimp only
        split_ifs <;> rw [entryOf_setEntry, if_neg hsame] <;> exact hagrees

theorem attached_applyFrame (t : Tracker) (w : String) (frame : Frame) (now : ℕ) :
    (applyFrame t w frame now).1.attached = t.attached := by
  unfold applyFrame
  split_ifs
  · rfl
  · dsimp only
    split
    · rfl
    · split_ifs <;> rfl

theorem Sound.frame (h : σ.Sound) (runtime : ObservedRuntime) (frame : Frame) (now : ℕ) (hapart : σ.Apart (.frame runtime frame now)) :
    (σ.step (.frame runtime frame now)).Sound := by
  have hkeeps := h.keepsReads hapart.keepsRead
  have hafter : (σ.step (.frame runtime frame now)).runtimes =
      σ.runtimes.map fun r => if r.observed = runtime then r.sends frame else r := by
    dsimp only [step, runtimesAfter]
    split_ifs <;> rfl
  have hobserved : (σ.step (.frame runtime frame now)).runtimes.map Runtime.observed = σ.runtimes.map Runtime.observed := by
    rw [hafter, List.map_map]
    exact List.map_congr_left fun r _ => observed_frame runtime frame r
  have hhosts : (σ.step (.frame runtime frame now)).hosts = σ.hosts := by
    dsimp only [step, hostsAfter]
    split_ifs <;> rfl
  have hreads : (σ.step (.frame runtime frame now)).reads = σ.reads := by
    dsimp only [step]
    split_ifs <;> rfl
  refine ⟨?_, fun r hr => ?_, fun w host hhost => ?_, fun w s => ?_, fun snap hsnap => ?_⟩
  · rw [hobserved, ← h.attached]
    dsimp only [step]
    split_ifs
    · exact attached_applyFrame _ _ _ _
    · rfl
  · rw [hafter] at hr
    obtain ⟨r', hr', rfl⟩ := List.mem_map.mp hr
    split_ifs
    · exact (h.runtimes r' hr').sends frame
    · exact h.runtimes r' hr'
  · rw [hhosts] at hhost
    rw [hafter, newest_frame, ← h.hosts w host hhost, Option.map_map]
    exact congrArg (fun f => (newest σ.runtimes w).map f) (funext fun r => observed_frame runtime frame r)
  · unfold held
    rw [hafter, heldOf_frame]
    by_cases hlive : runtime ∈ σ.runtimes.map Runtime.observed
    · have hattached : runtime ∈ σ.tracker.attached := h.attached ▸ hlive
      have happlied := agrees_applyFrame σ.tracker runtime.workspace frame now (h.tracks w s)
      have htracked : (σ.step (.frame runtime frame now)).tracked w s =
          (applyFrame σ.tracker runtime.workspace frame now).1.entryOf w s 0 := by
        dsimp only [step, tracked]
        rw [if_pos hattached]
      rw [htracked]
      by_cases hnewest : (newest σ.runtimes w).map Runtime.observed = some runtime
      · have hw : runtime.workspace = w := by
          obtain ⟨r, hr, rfl⟩ := Option.map_eq_some_iff.mp hnewest
          exact workspace_newest σ.runtimes w hr
        simp only [hnewest, true_and]
        simp only [hw, true_and] at happlied
        rw [hw]
        exact happlied
      · rw [if_neg fun hall => hnewest hall.1]
        split_ifs at happlied with hall
        · obtain ⟨rfl, -, rfl⟩ := hall
          exact happlied.same ((hapart.frame runtime frame now rfl hlive).resolve_left hnewest)
        · exact happlied
    · have hattached : runtime ∉ σ.tracker.attached := h.attached ▸ hlive
      have hnewest : (newest σ.runtimes w).map Runtime.observed ≠ some runtime := by
        intro hsame
        obtain ⟨r, hr, rfl⟩ := Option.map_eq_some_iff.mp hsame
        exact hlive (List.mem_map_of_mem (List.mem_of_find?_eq_some hr))
      have htracked : (σ.step (.frame runtime frame now)).tracked w s = σ.tracked w s := by
        dsimp only [step, tracked]
        rw [if_neg hattached]
      rw [if_neg fun hall => hnewest hall.1, htracked]
      exact h.tracks w s
  · rw [hreads] at hsnap
    unfold held
    rw [hafter]
    exact hkeeps snap hsnap

theorem Sound.read (h : σ.Sound) (id : ℕ) (hapart : σ.Apart (.read id)) : (σ.step (.read id)).Sound := by
  refine ⟨h.attached, h.runtimes, h.hosts, h.tracks, fun snap hsnap => ?_⟩
  obtain ⟨before, hbefore, rfl⟩ := List.mem_map.mp hsnap
  by_cases hid : before.id = id
  · rw [if_pos hid]
    refine (h.reads before hbefore).sampled (fun r hr => ?_) fun hnone => ?_
    · obtain ⟨runtime, hhost, hfind⟩ := Option.bind_eq_some_iff.mp hr
      have hnewest := h.hosts _ _ hhost
      rw [find_of_newest _ _ _ hnewest] at hfind
      refine ⟨h.runtimes r (List.mem_of_find?_eq_some hfind), funext fun s => ?_⟩
      unfold held heldOf
      rw [hfind]
      rfl
    · refine hapart.read id rfl before hbefore hid ?_
      rcases hhost : Assoc.lookup before.workspace σ.hosts with _ | runtime
      · rfl
      · have hnewest := h.hosts _ _ hhost
        unfold hostOf at hnone
        rw [hhost, Option.bind_some, find_of_newest _ _ _ hnewest] at hnone
        rw [hnone] at hnewest
        cases hnewest
  · rw [if_neg hid]
    exact h.reads before hbefore

theorem Sound.answer (h : σ.Sound) (id now : ℕ) : (σ.step (.answer id now)).Sound := by
  show (σ.answered id now).Sound
  rcases answered_cases σ id now with hsame | ⟨snap, hsnap, -, stage, hstage, hafter⟩ | ⟨snap, hsnap, -, activity, hends, hafter⟩
  · rwa [hsame]
  · rw [hafter]
    refine ⟨h.attached, h.runtimes, h.hosts, h.tracks, fun snap' hsnap' => ?_⟩
    obtain ⟨before, hbefore, rfl⟩ := List.mem_map.mp hsnap'
    split_ifs
    · exact (h.reads snap hsnap).answered hstage
    · exact h.reads before hbefore
  · rw [hafter]
    refine ⟨?_, h.runtimes, h.hosts, fun w s => ?_, fun snap' hsnap' => h.reads snap' (List.mem_of_mem_filter hsnap')⟩
    · rw [← h.attached]
      rcases activity <;> rfl
    · have hread := h.reads snap hsnap
      dsimp only [tracked, held]
      unfold snapshotEnds Tracker.entryOf Tracker.sessionsOf
      by_cases hw : snap.workspace = w
      · subst hw
        rcases hstage : snap.stage with ⟨_ | _ | rows⟩ | ⟨_ | _, sessions, _ | rows⟩ <;> rw [hstage] at hends hread <;> cases hends
        · dsimp only
          rw [Assoc.lookup_erase, if_pos rfl]
          exact (agrees_idle 0).same fun part => (hread s part).symm
        · dsimp only
          rw [Assoc.lookup_assign, if_pos rfl]
          exact Collected.agrees hread s now
      · have hother := h.tracks w s
        rcases activity with _ | activity
        · dsimp only
          rw [Assoc.lookup_erase, if_neg hw]
          exact hother
        · dsimp only
          rw [Assoc.lookup_assign, if_neg hw]
          exact hother

theorem Sound.step (h : σ.Sound) (e : Event) (hapart : σ.Apart e) : (σ.step e).Sound := by
  cases e with
  | mount runtime => exact h.mount runtime hapart
  | retire runtime => exact h.retire runtime
  | dispose runtime => exact h.dispose runtime hapart
  | frame runtime frame now => exact h.frame runtime frame now hapart
  | snapshot id workspaceId =>
    unfold World.step
    dsimp only
    split_ifs
    · exact h
    · refine ⟨h.attached, h.runtimes, h.hosts, h.tracks, fun snap hsnap => ?_⟩
      rcases List.mem_append.mp hsnap with hsnap | hsnap
      · exact h.reads snap hsnap
      · rw [List.mem_singleton.mp hsnap]
        trivial
  | read id => exact h.read id hapart
  | answer id now => exact h.answer id now
  | fail id => exact ⟨h.attached, h.runtimes, h.hosts, h.tracks, fun snap hsnap => h.reads snap (List.mem_of_mem_filter hsnap)⟩

end

theorem sound_worldOf {events : List Event} (h : Meets step Apart start events) : (worldOf events).Sound :=
  invariant_of_meets Sound (fun _ e hsound hapart => hsound.step e hapart) sound_start h

end World

/-- In a run whose frames, mounts and disposals change nothing that a snapshot in flight has read, whose runtimes of one
workspace do not overlap in what they hold, and whose snapshots read no runtime that is torn down, every session is tracked as
its runtime holds it, and every change was told. -/
theorem follows_worldOf (events more : List Event) (h : Meets World.step World.Apart World.start (events ++ more)) :
    World.Follows (worldOf events) (worldOf (events ++ more)) := by
  have hbefore : (worldOf events).Sound := World.sound_worldOf ((meets_append _ _ _ _ _).mp h).1
  have hafter : (worldOf (events ++ more)).Sound := World.sound_worldOf h
  have hshown {σ : World} (hsound : σ.Sound) (w s : String) : σ.shown w s = (σ.held w s).shown := (hsound.tracks w s).shown
  have hrun : worldOf (events ++ more) = Lib.run World.step (worldOf events) more := run_append _ _ _ _
  obtain ⟨new, htold, hnew⟩ := World.tells_run (worldOf events) more
  rw [← hrun] at htold hnew
  refine ⟨hafter.tracks, fun w s hchanged => ?_⟩
  rw [htold, List.drop_left]
  rw [← hshown hbefore, ← hshown hafter] at hchanged
  rw [← hshown hafter]
  exact (hnew w s).resolve_left fun hsame => hchanged hsame.symm

/-- A runtime is mounted, a session is busy, a snapshot reads it, and the session is idle. -/
def followed : List Event :=
  [.mount ⟨1, "ws_a"⟩, .frame ⟨1, "ws_a"⟩ (.status "s1" .busy) 1000, .snapshot 7 "ws_a", .read 7, .answer 7 1001, .read 7,
   .answer 7 1002, .read 7, .answer 7 1003, .frame ⟨1, "ws_a"⟩ (.idle "s1") 1004]

section
variable {σ : World} {runtime : ObservedRuntime}

theorem keepsRead_still (σ : World) {e : Event} (h : runtimesAfter σ.runtimes e = σ.runtimes) : σ.KeepsRead e := by
  intro snap _ part _ s
  rw [h]
  exact Held.Same.refl _ part

theorem apart_snapshot (id : ℕ) (w : String) : σ.Apart (.snapshot id w) := ⟨keepsRead_still σ rfl, nofun, nofun, nofun, nofun⟩

theorem apart_answer (id now : ℕ) : σ.Apart (.answer id now) := ⟨keepsRead_still σ rfl, nofun, nofun, nofun, nofun⟩

theorem apart_read {id : ℕ} (h : ∀ snap ∈ σ.reads, Assoc.lookup snap.workspace σ.hosts ≠ none) : σ.Apart (.read id) :=
  ⟨keepsRead_still σ rfl, nofun, nofun, nofun, fun _ _ snap hsnap _ hnone => absurd hnone (h snap hsnap)⟩

theorem apart_frame {frame : Frame} {now : ℕ} (hreads : σ.reads = [])
    (hnewest : (newest σ.runtimes runtime.workspace).map Runtime.observed = some runtime) : σ.Apart (.frame runtime frame now) := by
  refine ⟨fun snap hsnap => ?_, nofun, nofun, fun runtime' frame' now' heq _ => ?_, nofun⟩
  · rw [hreads] at hsnap
    cases hsnap
  · cases heq
    exact .inl hnewest

theorem apart_mount (hreads : σ.reads = []) (hruntimes : σ.runtimes = []) : σ.Apart (.mount runtime) := by
  refine ⟨fun snap hsnap => ?_, fun runtime' _ _ s => ?_, nofun, nofun, nofun⟩
  · rw [hreads] at hsnap
    cases hsnap
  · unfold World.held heldOf newest
    rw [hruntimes]
    exact Held.Same.refl _

end

theorem follows_followed : World.Follows (worldOf []) (worldOf ([] ++ followed)) :=
  follows_worldOf [] followed
    ⟨apart_mount rfl rfl, apart_frame rfl rfl, apart_snapshot 7 "ws_a", apart_read (by decide +kernel), apart_answer 7 1001,
      apart_read (by decide +kernel), apart_answer 7 1002, apart_read (by decide +kernel), apart_answer 7 1003,
      apart_frame (by decide +kernel) (by decide +kernel), trivial⟩

/-- The session is idle again before the snapshot that read it busy ends. -/
def overtaken : List Event :=
  [.mount ⟨1, "ws_a"⟩, .frame ⟨1, "ws_a"⟩ (.status "s1" .busy) 1000, .snapshot 7 "ws_a", .read 7,
   .frame ⟨1, "ws_a"⟩ (.idle "s1") 1001, .answer 7 1002, .read 7, .answer 7 1003, .read 7, .answer 7 1004]

theorem snapshot_overtakes_frame : ¬ ∀ events more : List Event, (worldOf events).Quiet → (worldOf (events ++ more)).Quiet →
    World.Follows (worldOf events) (worldOf (events ++ more)) := by
  intro h
  have hfollows := h [] overtaken (by decide +kernel) (by decide +kernel)
  exact absurd (hfollows.tracks "ws_a" "s1").kind (by decide +kernel)

end Claxedo.Activity
