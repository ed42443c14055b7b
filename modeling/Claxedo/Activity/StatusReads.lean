import Claxedo.Activity.SessionStatus

/-! What the tracker holds follows each frame, and whatever it shows anew it tells. -/

namespace Claxedo.Activity

open Claxedo.Lib

/-! ### The tracker's maps -/

section
variable (t : Tracker) (w s w' s' : String) (now : ℕ)

theorem sessionsOf_setEntry (entry : Tracked) : (t.setEntry w s entry).sessionsOf w' =
    if w = w' then Assoc.assign s entry (t.sessionsOf w) else t.sessionsOf w' := by
  unfold Tracker.setEntry Tracker.sessionsOf
  dsimp only
  rw [Assoc.lookup_assign]
  split_ifs <;> rfl

theorem entryOf_setEntry (entry : Tracked) : (t.setEntry w s entry).entryOf w' s' now =
    if w = w' ∧ s = s' then entry else t.entryOf w' s' now := by
  unfold Tracker.entryOf
  rw [sessionsOf_setEntry]
  by_cases hw : w = w'
  · subst hw
    rw [if_pos rfl, Assoc.lookup_assign]
    split_ifs with hs hboth hboth
    · rfl
    · exact absurd ⟨rfl, hs⟩ hboth
    · exact absurd hboth.2 hs
    · rfl
  · rw [if_neg hw, if_neg fun hboth => hw hboth.1]

theorem sessionsOf_runtimeGone : (runtimeGone t w).1.sessionsOf w' = if w = w' then [] else t.sessionsOf w' := by
  unfold runtimeGone Tracker.sessionsOf
  dsimp only
  rw [Assoc.lookup_erase]
  split_ifs <;> rfl

theorem entryOf_runtimeGone : (runtimeGone t w).1.entryOf w' s' now =
    if w = w' then ⟨.idle, [], NO_BACKGROUND_WORK, now⟩ else t.entryOf w' s' now := by
  unfold Tracker.entryOf
  rw [sessionsOf_runtimeGone]
  split_ifs <;> rfl

/-- What a session is tracked as, its time apart. -/
theorem entryOf_now : ∃ time, t.entryOf w s now = { t.entryOf w s 0 with time } := by
  unfold Tracker.entryOf
  rcases Assoc.lookup s (t.sessionsOf w) with _ | entry
  · exact ⟨now, rfl⟩
  · exact ⟨entry.time, rfl⟩

end

/-! ### A row -/

theorem sameStatus_iff (a b : SessionRowStatus) : sameStatus a b = true ↔ shownRow a = shownRow b := by
  simp [sameStatus, shownRow, and_assoc]

theorem shown_of_idle {entry : Tracked} (h : idle entry = true) : shownRow (rowStatus entry) = Held.idle.shown := by
  simp only [idle, Bool.and_eq_true, decide_eq_true_eq, Bool.not_eq_true', List.isEmpty_iff] at h
  obtain ⟨⟨hkind, hpending⟩, hwork⟩ := h
  simp [shownRow, rowStatus, hkind, hpending, hwork, Held.shown, Held.idle]

theorem Agrees.shown {entry : Tracked} {h : Held} (hagrees : Agrees entry h) : shownRow (rowStatus entry) = h.shown := by
  have hempty : entry.pending.isEmpty = h.requests.isEmpty := by
    rw [Bool.eq_iff_iff, List.isEmpty_iff, List.isEmpty_iff, List.eq_nil_iff_forall_not_mem, List.eq_nil_iff_forall_not_mem]
    constructor
    · exact fun hnone request hrequest => hnone _ ((hagrees.requests _).mpr ⟨request, hrequest, rfl⟩)
    · intro hnone key hkey
      obtain ⟨request, hrequest, -⟩ := (hagrees.requests key).mp hkey
      exact hnone request hrequest
  have hwork : (if backgroundWorkActive entry.backgroundWork = true then some entry.backgroundWork else none).getD NO_BACKGROUND_WORK =
      entry.backgroundWork := by
    generalize entry.backgroundWork = work
    obtain ⟨agents, shells, other⟩ := work
    split_ifs with hactive
    · rfl
    · simp only [backgroundWorkActive, decide_eq_true_eq] at hactive
      rw [Option.getD_none, NO_BACKGROUND_WORK, BackgroundWork.mk.injEq]
      omega
  rw [shownRow, rowStatus, Held.shown, hwork, hempty, hagrees.kind, hagrees.work]

/-! ### What a step tells -/

/-- What a session's row shows. -/
def World.shown (σ : World) (w s : String) : Shown := shownRow (rowStatus (σ.tracked w s))

section
variable (t : Tracker) (w w' s' : String) (frame : Frame) (now : ℕ)

theorem applyFrame_told : shownRow (rowStatus ((applyFrame t w frame now).1.entryOf w' s' 0)) =
      shownRow (rowStatus (t.entryOf w' s' 0)) ∨
    w = w' ∧ frame.sessionID = s' ∧ (applyFrame t w frame now).2 = [.changed w frame.sessionID] := by
  obtain ⟨time, htime⟩ := entryOf_now t w frame.sessionID now
  have hset (entry : Tracked) (hentry : shownRow (rowStatus entry) = shownRow (rowStatus (t.entryOf w frame.sessionID now))) :
      shownRow (rowStatus ((t.setEntry w frame.sessionID entry).entryOf w' s' 0)) = shownRow (rowStatus (t.entryOf w' s' 0)) := by
    rw [entryOf_setEntry]
    split_ifs with hsame
    · obtain ⟨rfl, rfl⟩ := hsame
      rw [hentry, htime]
      rfl
    · rfl
  unfold applyFrame
  split_ifs with hnone
  · exact .inl rfl
  · dsimp only
    rcases happly : (t.entryOf w frame.sessionID now).apply frame with _ | entry'
    · exact .inl (hset _ rfl)
    · dsimp only
      split_ifs with hsame
      · exact .inl (hset _ ((sameStatus_iff _ _).mp hsame))
      · by_cases hboth : w = w' ∧ frame.sessionID = s'
        · exact .inr ⟨hboth.1, hboth.2, rfl⟩
        · rw [entryOf_setEntry, if_neg hboth]
          exact .inl rfl

theorem runtimeGone_told : shownRow (rowStatus ((runtimeGone t w).1.entryOf w' s' 0)) = shownRow (rowStatus (t.entryOf w' s' 0)) ∨
    .changed w' s' ∈ (runtimeGone t w).2 := by
  rw [entryOf_runtimeGone]
  split_ifs with hw
  · subst hw
    unfold Tracker.entryOf
    rcases hlookup : Assoc.lookup s' (t.sessionsOf w) with _ | entry
    · exact .inl rfl
    · rcases hidle : idle entry with _ | _
      · refine .inr (List.mem_filterMap.mpr ⟨(s', entry), ?_, by simp [hidle]⟩)
        obtain ⟨pair, hpair, rfl⟩ := Option.map_eq_some_iff.mp hlookup
        obtain ⟨hmem, rfl⟩ := Table.mem_of_get hpair
        exact hmem
      · refine .inl ?_
        rw [Option.getD_some, shown_of_idle hidle]
        rfl
  · exact .inl rfl

theorem lookup_map_snd {α β : Type*} (f : α → β) (rows : List (String × α)) (key : String) :
    Assoc.lookup key (rows.map fun pair => (pair.1, f pair.2)) = (Assoc.lookup key rows).map f := by
  unfold Assoc.lookup
  rw [Table.get_map fun _ => rfl, Option.map_map, Option.map_map]
  rfl

theorem snapshotEnds_told (activity : Option (List (String × RuntimeSessionActivity))) :
    shownRow (rowStatus ((snapshotEnds t w activity now).1.entryOf w' s' 0)) = shownRow (rowStatus (t.entryOf w' s' 0)) ∨
    ∃ notice ∈ (snapshotEnds t w activity now).2,
      notice.Tells w' s' (shownRow (rowStatus ((snapshotEnds t w activity now).1.entryOf w' s' 0))) := by
  by_cases hw : w = w'
  · subst hw
    rcases activity with _ | activity
    · refine .inr ⟨_, List.mem_singleton_self _, rfl, ?_⟩
      have hgone := entryOf_runtimeGone t w w s' 0
      rw [if_pos rfl] at hgone
      exact (congrArg (fun entry => shownRow (rowStatus entry)) hgone).symm
    · refine .inr ⟨_, List.mem_singleton_self _, rfl, ?_⟩
      unfold snapshotEnds Tracker.entryOf Tracker.sessionsOf
      dsimp only
      rw [Assoc.lookup_assign, if_pos rfl, Option.getD_some, lookup_map_snd]
      generalize Assoc.lookup s' (activity.map fun pair => (pair.1, tracked now pair.2)) = found
      cases found <;> rfl
  · refine .inl ?_
    unfold snapshotEnds Tracker.entryOf Tracker.sessionsOf
    rcases activity with _ | activity
    · dsimp only
      rw [Assoc.lookup_erase, if_neg hw]
    · dsimp only
      rw [Assoc.lookup_assign, if_neg hw]

end

namespace World

variable (σ : World) (e : Event)

/-- What the tracker told stays told, and a row that shows something else was told. -/
structure Tells (σ σ' : World) (new : List Notice) : Prop where
  told : σ'.told = σ.told ++ new
  shown : ∀ w s, σ'.shown w s = σ.shown w s ∨ ∃ notice ∈ new, notice.Tells w s (σ'.shown w s)

theorem tells_nothing {σ σ' : World} (htold : σ'.told = σ.told) (hworkspaces : σ'.tracker.workspaces = σ.tracker.workspaces) :
    Tells σ σ' [] := by
  refine ⟨by rw [htold, List.append_nil], fun w s => .inl ?_⟩
  unfold shown tracked Tracker.entryOf Tracker.sessionsOf
  rw [hworkspaces]

theorem answered_cases (id now : ℕ) : σ.answered id now = σ ∨
    (∃ snap ∈ σ.reads, snap.id = id ∧ ∃ stage, snap.stage.answered = .reads stage ∧
      σ.answered id now = { σ with reads := setStage σ.reads snap stage }) ∨
    ∃ snap ∈ σ.reads, snap.id = id ∧ ∃ activity, snap.stage.answered = .ends activity ∧
      σ.answered id now = { σ with
        tracker := (snapshotEnds σ.tracker snap.workspace activity now).1
        reads := without σ.reads id
        told := σ.told ++ (snapshotEnds σ.tracker snap.workspace activity now).2 } := by
  unfold answered
  split
  · exact .inl rfl
  · rename_i snap hfind
    have hmem := List.mem_of_find?_eq_some hfind
    have hid : snap.id = id := by simpa using List.find?_some hfind
    split
    · exact .inl rfl
    · rename_i stage hstage
      exact .inr (.inl ⟨snap, hmem, hid, stage, hstage, rfl⟩)
    · rename_i activity hends
      exact .inr (.inr ⟨snap, hmem, hid, activity, hends, rfl⟩)

theorem tells_step : ∃ new, Tells σ (σ.step e) new := by
  cases e with
  | mount runtime =>
    refine ⟨[], tells_nothing rfl ?_⟩
    unfold step mounted
    dsimp only
    split_ifs <;> rfl
  | dispose runtime =>
    refine ⟨(disposed σ.tracker runtime).2, rfl, fun w s => ?_⟩
    refine (runtimeGone_told { σ.tracker with attached := σ.tracker.attached.filter (· ≠ runtime) } runtime.workspace w s).imp_right ?_
    exact fun hmem => ⟨_, hmem, rfl, rfl⟩
  | frame runtime frame now =>
    by_cases hattached : runtime ∈ σ.tracker.attached
    · refine ⟨(applyFrame σ.tracker runtime.workspace frame now).2, ?_, fun w s => ?_⟩
      · unfold step
        dsimp only
        rw [if_pos hattached]
      · unfold step shown tracked
        dsimp only
        rw [if_pos hattached]
        refine (applyFrame_told σ.tracker runtime.workspace w s frame now).imp_right ?_
        rintro ⟨rfl, rfl, htold⟩
        exact ⟨.changed runtime.workspace frame.sessionID, htold ▸ List.mem_singleton_self _, rfl, rfl⟩
    · refine ⟨[], tells_nothing ?_ ?_⟩ <;>
      · unfold step
        dsimp only
        rw [if_neg hattached]
  | answer id now =>
    show ∃ new, Tells σ (σ.answered id now) new
    rcases answered_cases σ id now with hsame | ⟨snap, -, -, stage, -, hstage⟩ | ⟨snap, -, -, activity, -, hends⟩
    · rw [hsame]
      exact ⟨[], tells_nothing rfl rfl⟩
    · rw [hstage]
      exact ⟨[], tells_nothing rfl rfl⟩
    · rw [hends]
      exact ⟨(snapshotEnds σ.tracker snap.workspace activity now).2, rfl,
        fun w s => snapshotEnds_told σ.tracker snap.workspace w s now activity⟩
  | snapshot id workspaceId =>
    refine ⟨[], tells_nothing ?_ ?_⟩ <;>
    · unfold step
      dsimp only
      split_ifs <;> rfl
  | _ => exact ⟨[], tells_nothing rfl rfl⟩

/-- Over a run, what a row shows anew was told last as it shows it. -/
theorem tells_run (events : List Event) : ∃ new, Tells σ (Lib.run step σ events) new := by
  induction events using List.reverseRecOn with
  | nil => exact ⟨[], tells_nothing rfl rfl⟩
  | append_singleton events e ih =>
    rw [run_snoc]
    obtain ⟨new, hnew⟩ := ih
    obtain ⟨more, hmore⟩ := tells_step (Lib.run step σ events) e
    refine ⟨new ++ more, by rw [hmore.told, hnew.told, List.append_assoc], fun w s => ?_⟩
    rcases hmore.shown w s with hsame | ⟨notice, hmem, htells⟩
    · rw [hsame]
      refine (hnew.shown w s).imp_right ?_
      rintro ⟨notice, hmem, htells⟩
      exact ⟨notice, List.mem_append_left _ hmem, htells⟩
    · exact .inr ⟨notice, List.mem_append_right _ hmem, htells⟩

end World

/-! What a snapshot reads of a runtime, part by part. -/

/-! ### Keys and parts -/

theorem pendingKey_inj {a b : Asks} {i j : String} (h : pendingKey a i = pendingKey b j) : a = b ∧ i = j := by
  have hlists := congrArg String.toList h
  simp only [pendingKey, String.toList_append, List.append_assoc] at hlists
  cases a <;> cases b
  · exact ⟨rfl, String.toList_injective (List.append_cancel_left (List.append_cancel_left hlists))⟩
  · exact absurd (List.head_eq_of_cons_eq hlists) (by decide)
  · exact absurd (List.head_eq_of_cons_eq hlists) (by decide)
  · exact ⟨rfl, String.toList_injective (List.append_cancel_left (List.append_cancel_left hlists))⟩

theorem mem_addPending {pending : List String} {key key' : String} : key' ∈ addPending pending key ↔ key' ∈ pending ∨ key' = key := by
  unfold addPending
  split_ifs with h
  · constructor
    · exact .inl
    · rintro (hkey | rfl)
      · exact hkey
      · exact h
  · rw [List.mem_append, List.mem_singleton]

theorem Held.Same.refl (h : Held) : h.Same h := by
  intro part
  cases part
  · exact ⟨rfl, rfl⟩
  · exact fun _ => Iff.rfl

theorem Part.Same.symm {part : Part} {h h' : Held} (hsame : part.Same h h') : part.Same h' h := by
  cases part with
  | status => exact ⟨hsame.1.symm, hsame.2.symm⟩
  | requests asks => exact fun id => (hsame id).symm

theorem mem_requests_of_same {h h' : Held} (hsame : h.Same h') (request : Asks × String) :
    request ∈ h.requests ↔ request ∈ h'.requests := hsame (.requests request.1) request.2

section
variable {entry entry' : Tracked} {h h' : Held} {frame : Frame}

theorem Agrees.same (hagrees : Agrees entry h) (hsame : h.Same h') : Agrees entry h' := by
  refine ⟨hagrees.kind.trans (hsame .status).1, hagrees.work.trans (hsame .status).2, fun key => ?_⟩
  rw [hagrees.requests]
  exact exists_congr fun request => and_congr_left fun _ => mem_requests_of_same hsame request

theorem agrees_idle (now : ℕ) : Agrees ⟨.idle, [], NO_BACKGROUND_WORK, now⟩ .idle := ⟨rfl, rfl, fun key => by simp [Held.idle]⟩

theorem Agrees.time (hagrees : Agrees entry h) (time : ℕ) : Agrees { entry with time } h :=
  ⟨hagrees.kind, hagrees.work, hagrees.requests⟩

/-- A frame changes the entry as it changes what the runtime holds. -/
theorem Agrees.apply (hagrees : Agrees entry h) (happly : entry.apply frame = some entry') : Agrees entry' (h.change frame) := by
  cases frame with
  | status s kind =>
    obtain rfl := Option.some.inj happly
    exact ⟨rfl, hagrees.work, hagrees.requests⟩
  | idle s =>
    obtain rfl := Option.some.inj happly
    exact ⟨rfl, hagrees.work, hagrees.requests⟩
  | error s =>
    obtain rfl := Option.some.inj happly
    exact ⟨rfl, hagrees.work, hagrees.requests⟩
  | backgroundWork s work =>
    obtain rfl := Option.some.inj happly
    exact ⟨hagrees.kind, rfl, hagrees.requests⟩
  | asked asks s id =>
    obtain rfl := Option.some.inj happly
    unfold Held.change
    dsimp only
    by_cases hid : id = ""
    · rw [if_pos hid, if_pos (.inl hid)]
      exact hagrees
    · rw [if_neg hid]
      split_ifs with hheld
      · refine ⟨hagrees.kind, hagrees.work, fun key => ?_⟩
        rw [mem_addPending, hagrees.requests]
        refine ⟨?_, .inl⟩
        rintro (hkey | rfl)
        · exact hkey
        · exact ⟨_, hheld.resolve_left hid, rfl⟩
      · refine ⟨hagrees.kind, hagrees.work, fun key => ?_⟩
        rw [mem_addPending, hagrees.requests]
        simp only [List.mem_append, List.mem_singleton, or_and_right, exists_or, exists_eq_left]
        exact or_congr_right eq_comm
  | settled asks s id =>
    obtain rfl := Option.some.inj happly
    unfold Held.change
    dsimp only
    split_ifs with hid
    · exact hagrees
    · refine ⟨hagrees.kind, hagrees.work, fun key => ?_⟩
      simp only [List.mem_filter, decide_eq_true_eq, hagrees.requests]
      constructor
      · rintro ⟨⟨request, hrequest, rfl⟩, hother⟩
        exact ⟨request, ⟨hrequest, fun hsame => hother (hsame ▸ rfl)⟩, rfl⟩
      · rintro ⟨request, ⟨hrequest, hother⟩, rfl⟩
        refine ⟨⟨request, hrequest, rfl⟩, fun hkey => hother ?_⟩
        obtain ⟨hasks, hid⟩ := pendingKey_inj hkey
        exact Prod.ext hasks hid
  | other s => cases happly

theorem change_of_apply_none (happly : entry.apply frame = none) : h.change frame = h := by
  cases frame <;> first | rfl | cases happly

end

/-! ### What was read -/

/-- The parts read of a runtime so far, from the list of what was read. -/
structure Collected (parts : List Asks) (sessions : List (String × RuntimeSessionActivity)) (held : String → Held) : Prop where
  kind : ∀ s, ((Assoc.lookup s sessions).map RuntimeSessionActivity.kind).getD .idle = (held s).kind
  work : ∀ s, ((Assoc.lookup s sessions).bind RuntimeSessionActivity.backgroundWork).getD NO_BACKGROUND_WORK = (held s).work
  requests : ∀ s key, key ∈ ((Assoc.lookup s sessions).map RuntimeSessionActivity.pending).getD [] ↔
    ∃ request ∈ (held s).requests, request.1 ∈ parts ∧ pendingKey request.1 request.2 = key

section
variable {parts : List Asks} {sessions : List (String × RuntimeSessionActivity)} {held held' : String → Held}

theorem Collected.same (h : Collected parts sessions held) (hstatus : ∀ s, Part.status.Same (held s) (held' s))
    (hrequests : ∀ asks ∈ parts, ∀ s, (Part.requests asks).Same (held s) (held' s)) : Collected parts sessions held' := by
  refine ⟨fun s => (h.kind s).trans (hstatus s).1, fun s => (h.work s).trans (hstatus s).2, fun s key => ?_⟩
  rw [h.requests]
  refine exists_congr fun request => ?_
  constructor
  · rintro ⟨hrequest, hparts, hkey⟩
    exact ⟨(hrequests _ hparts s request.2).mp hrequest, hparts, hkey⟩
  · rintro ⟨hrequest, hparts, hkey⟩
    exact ⟨(hrequests _ hparts s request.2).mpr hrequest, hparts, hkey⟩

theorem lookup_statusRead (rows : List StatusRow) (s : String) : Assoc.lookup s (statusRead rows) =
    (rows.reverse.find? fun row => row.sessionID = s).map fun row => ⟨row.kind, [], row.backgroundWork⟩ := by
  unfold statusRead
  induction rows using List.reverseRecOn with
  | nil => rfl
  | append_singleton rows row ih =>
    rw [List.foldl_append, List.foldl_cons, List.foldl_nil, Assoc.lookup_assign, ih, List.reverse_append, List.reverse_singleton,
      List.singleton_append, List.find?_cons]
    by_cases hrow : row.sessionID = s <;> simp [hrow]

/-- A runtime that is idle in every session it does not know. -/
structure Runtime.Sound (r : Runtime) : Prop where
  outside : ∀ s, s ∉ r.sessions → r.held s = .idle
  named : "" ∉ r.sessions
  ids : ∀ s, ∀ request ∈ (r.held s).requests, request.2 ≠ ""

theorem Runtime.sound_start (runtime : ObservedRuntime) : (Runtime.start runtime).Sound := ⟨fun _ _ => rfl, nofun, nofun⟩

theorem Runtime.Sound.sends {r : Runtime} (h : r.Sound) (frame : Frame) : (r.sends frame).Sound := by
  unfold Runtime.sends
  split_ifs with hnone hknown
  · exact h
  all_goals
    refine ⟨fun s hs => ?_, ?_, fun s request hrequest => ?_⟩
    · dsimp only at hs ⊢
      rw [Function.update_of_ne]
      · exact h.outside s fun hmem => hs (by simp [hmem])
      · rintro rfl
        simp_all
    · simpa [Ne.symm hnone] using h.named
    · dsimp only at hrequest
      by_cases hs : s = frame.sessionID
      · subst hs
        rw [Function.update_self] at hrequest
        cases frame with
        | asked asks s id =>
          unfold Held.change at hrequest
          dsimp only at hrequest
          split_ifs at hrequest with hid
          · exact h.ids _ request hrequest
          · rcases List.mem_append.mp hrequest with hrequest | hrequest
            · exact h.ids _ request hrequest
            · rw [List.mem_singleton.mp hrequest]
              exact fun hempty => hid (.inl hempty)
        | settled asks s id =>
          unfold Held.change at hrequest
          dsimp only at hrequest
          split_ifs at hrequest
          · exact h.ids _ request hrequest
          · exact h.ids _ request (List.mem_of_mem_filter hrequest)
        | _ => exact h.ids _ request hrequest
      · rw [Function.update_of_ne hs] at hrequest
        exact h.ids s request hrequest

theorem work_of_inactive {work : BackgroundWork} (h : backgroundWorkActive work = false) : work = NO_BACKGROUND_WORK := by
  obtain ⟨agents, shells, other⟩ := work
  simp only [backgroundWorkActive, decide_eq_false_iff_not] at h
  rw [NO_BACKGROUND_WORK, BackgroundWork.mk.injEq]
  omega

theorem collected_statusRead {r : Runtime} (h : r.Sound) : Collected [] (statusRead r.statusRows) r.held := by
  have hrow : ∀ row ∈ r.statusRows, row.kind = (r.held row.sessionID).kind ∧
      row.backgroundWork.getD NO_BACKGROUND_WORK = (r.held row.sessionID).work := by
    intro row hrow
    obtain ⟨s, -, rfl⟩ := List.mem_map.mp hrow
    refine ⟨rfl, ?_⟩
    dsimp only
    split_ifs with hactive
    · rfl
    · exact (work_of_inactive (Bool.not_eq_true _ ▸ hactive)).symm
  have hnone (s : String) (hfind : r.statusRows.reverse.find? (fun row => row.sessionID = s) = none) :
      (r.held s).kind = .idle ∧ (r.held s).work = NO_BACKGROUND_WORK := by
    by_cases hs : s ∈ r.sessions
    · have hskipped : ¬ ((r.held s).kind ≠ .idle ∨ backgroundWorkActive (r.held s).work = true) := by
        intro hshown
        have hmem : (⟨s, (r.held s).kind, if backgroundWorkActive (r.held s).work = true then some (r.held s).work else none⟩ :
            StatusRow) ∈ r.statusRows := List.mem_map.mpr ⟨s, List.mem_filter.mpr ⟨hs, decide_eq_true hshown⟩, rfl⟩
        exact List.find?_eq_none.mp hfind _ (List.mem_reverse.mpr hmem) (decide_eq_true rfl)
      obtain ⟨hkind, hwork⟩ := not_or.mp hskipped
      exact ⟨not_not.mp hkind, work_of_inactive (Bool.not_eq_true _ ▸ hwork)⟩
    · rw [h.outside s hs]
      exact ⟨rfl, rfl⟩
  have hcase (s : String) : (∃ row ∈ r.statusRows, row.sessionID = s ∧
      Assoc.lookup s (statusRead r.statusRows) = some ⟨row.kind, [], row.backgroundWork⟩) ∨
      Assoc.lookup s (statusRead r.statusRows) = none ∧ (r.held s).kind = .idle ∧ (r.held s).work = NO_BACKGROUND_WORK := by
    rw [lookup_statusRead]
    rcases hfind : r.statusRows.reverse.find? (fun row => row.sessionID = s) with _ | row
    · exact .inr ⟨by rw [hfind, Option.map_none], hnone s hfind⟩
    · have hs : row.sessionID = s := by simpa using List.find?_some hfind
      exact .inl ⟨row, List.mem_reverse.mp (List.mem_of_find?_eq_some hfind), hs, by rw [hfind, Option.map_some]⟩
  refine ⟨fun s => ?_, fun s => ?_, fun s key => ?_⟩ <;>
    rcases hcase s with ⟨row, hmem, rfl, hlookup⟩ | ⟨hlookup, hkind, hwork⟩ <;> rw [hlookup]
  · exact (hrow row hmem).1
  · exact hkind.symm
  · exact (hrow row hmem).2
  · exact hwork.symm
  · simp
  · simp

section
variable (asks : Asks) (s : String)

theorem lookup_addRequest (row : RequestRow) (sessions : List (String × RuntimeSessionActivity)) :
    ((Assoc.lookup s (addRequest asks sessions row)).map RuntimeSessionActivity.kind).getD .idle =
      ((Assoc.lookup s sessions).map RuntimeSessionActivity.kind).getD .idle ∧
    (Assoc.lookup s (addRequest asks sessions row)).bind RuntimeSessionActivity.backgroundWork =
      (Assoc.lookup s sessions).bind RuntimeSessionActivity.backgroundWork ∧
    ∀ key, key ∈ ((Assoc.lookup s (addRequest asks sessions row)).map RuntimeSessionActivity.pending).getD [] ↔
      key ∈ ((Assoc.lookup s sessions).map RuntimeSessionActivity.pending).getD [] ∨
        row.sessionID = s ∧ s ≠ "" ∧ row.id ≠ "" ∧ pendingKey asks row.id = key := by
  unfold addRequest
  split_ifs with hskip
  · refine ⟨rfl, rfl, fun key => ⟨.inl, ?_⟩⟩
    rintro (hkey | ⟨rfl, hs, hid, -⟩)
    · exact hkey
    · exact absurd hskip (not_or.mpr ⟨hs, hid⟩)
  · obtain ⟨hnamed, hid⟩ := not_or.mp hskip
    rw [Assoc.lookup_assign]
    split_ifs with hs
    · subst hs
      refine ⟨?_, ?_, fun key => ?_⟩
      · rcases Assoc.lookup row.sessionID sessions <;> rfl
      · rcases Assoc.lookup row.sessionID sessions <;> rfl
      · rw [Option.map_some, Option.getD_some, mem_addPending]
        refine or_congr ?_ ⟨fun hkey => ⟨rfl, hnamed, hid, hkey.symm⟩, fun hkey => hkey.2.2.2.symm⟩
        rcases Assoc.lookup row.sessionID sessions <;> rfl
    · exact ⟨rfl, rfl, fun key => ⟨.inl, fun hkey => hkey.resolve_right fun hrow => hs hrow.1⟩⟩

theorem lookup_requestsRead (rows : List RequestRow) (sessions : List (String × RuntimeSessionActivity)) :
    ((Assoc.lookup s (requestsRead asks rows sessions)).map RuntimeSessionActivity.kind).getD .idle =
      ((Assoc.lookup s sessions).map RuntimeSessionActivity.kind).getD .idle ∧
    (Assoc.lookup s (requestsRead asks rows sessions)).bind RuntimeSessionActivity.backgroundWork =
      (Assoc.lookup s sessions).bind RuntimeSessionActivity.backgroundWork ∧
    ∀ key, key ∈ ((Assoc.lookup s (requestsRead asks rows sessions)).map RuntimeSessionActivity.pending).getD [] ↔
      key ∈ ((Assoc.lookup s sessions).map RuntimeSessionActivity.pending).getD [] ∨
        ∃ row ∈ rows, row.sessionID = s ∧ s ≠ "" ∧ row.id ≠ "" ∧ pendingKey asks row.id = key := by
  unfold requestsRead
  induction rows using List.reverseRecOn with
  | nil => exact ⟨rfl, rfl, fun key => by simp⟩
  | append_singleton rows row ih =>
    obtain ⟨hkind, hwork, hpending⟩ := ih
    obtain ⟨hkind', hwork', hpending'⟩ := lookup_addRequest asks s row (rows.foldl (addRequest asks) sessions)
    rw [List.foldl_append, List.foldl_cons, List.foldl_nil]
    refine ⟨hkind'.trans hkind, hwork'.trans hwork, fun key => ?_⟩
    rw [hpending', hpending, or_assoc]
    refine or_congr_right ?_
    simp only [List.mem_append, List.mem_singleton, or_and_right, exists_or, exists_eq_left]

end

theorem Collected.requestsRead {r : Runtime} (hr : r.Sound) (h : Collected parts sessions r.held) (asks : Asks) :
    Collected (asks :: parts) (requestsRead asks (r.requestRows asks) sessions) r.held := by
  have hrows (s key : String) : (∃ row ∈ r.requestRows asks, row.sessionID = s ∧ s ≠ "" ∧ row.id ≠ "" ∧ pendingKey asks row.id = key) ↔
      ∃ request ∈ (r.held s).requests, request.1 = asks ∧ pendingKey request.1 request.2 = key := by
    constructor
    · rintro ⟨row, hrow, rfl, -, -, hkey⟩
      obtain ⟨s, -, hrow⟩ := List.mem_flatMap.mp hrow
      obtain ⟨request, hrequest, rfl⟩ := List.mem_map.mp hrow
      obtain ⟨hmem, hasks⟩ := List.mem_filter.mp hrequest
      have hasks := of_decide_eq_true hasks
      exact ⟨request, hmem, hasks, hasks ▸ hkey⟩
    · rintro ⟨request, hrequest, rfl, hkey⟩
      have hs : s ∈ r.sessions := by
        by_contra hs
        rw [hr.outside s hs] at hrequest
        cases hrequest
      refine ⟨⟨s, request.2⟩, List.mem_flatMap.mpr ⟨s, hs, List.mem_map.mpr ⟨request, ?_, rfl⟩⟩, rfl, ?_,
          hr.ids s request hrequest, hkey⟩
      · exact List.mem_filter.mpr ⟨hrequest, decide_eq_true rfl⟩
      · rintro rfl
        exact hr.named hs
  refine ⟨fun s => ?_, fun s => ?_, fun s key => ?_⟩
  · rw [(lookup_requestsRead asks s _ sessions).1, h.kind]
  · rw [(lookup_requestsRead asks s _ sessions).2.1, h.work]
  · rw [(lookup_requestsRead asks s _ sessions).2.2, hrows, h.requests]
    simp only [List.mem_cons, or_and_right, and_or_left, exists_or]
    exact or_comm

theorem Collected.requestsRead_nil (h : Collected parts sessions held) (asks : Asks)
    (hnone : ∀ s, (Part.requests asks).Same (held s) .idle) : Collected (asks :: parts)
      (Activity.requestsRead asks [] sessions) held := by
  refine ⟨h.kind, h.work, fun s key => ?_⟩
  refine (h.requests s key).trans (exists_congr fun request => ?_)
  constructor
  · exact fun hrequest => ⟨hrequest.1, List.mem_cons_of_mem _ hrequest.2.1, hrequest.2.2⟩
  · rintro ⟨hrequest, hparts, hkey⟩
    refine ⟨hrequest, (List.mem_cons.mp hparts).resolve_left ?_, hkey⟩
    rintro rfl
    cases (hnone s request.2).mp hrequest

end

end Claxedo.Activity
