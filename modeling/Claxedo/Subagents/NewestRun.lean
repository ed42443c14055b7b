import Claxedo.Subagents.Rebuild
import Claxedo.Subagents.Runs

/-! The stored status of a host child against the reports that were admitted of it. A report for a turn with no run recorded
passes as the current run's, and one terminal status replaces another; short of these, the status is the newest run's. -/

namespace Claxedo.Subagents

open Claxedo.Lib

section Reports

variable {reports : List (String × SubagentStatus)} {turn other : String} {status : SubagentStatus}

theorem newestRun_snoc (reports : List (String × SubagentStatus)) (turn : String) (status : SubagentStatus) :
    newestRun (reports ++ [(turn, status)]) = if turn ∈ reports.map Prod.fst then newestRun reports else some turn := by
  unfold newestRun
  rw [List.map_append, List.map_singleton, firsts_snoc]
  split_ifs with h
  · rfl
  · rw [List.getLast?_concat]

theorem newestRun_mem (h : newestRun reports = some turn) : turn ∈ reports.map Prod.fst :=
  mem_firsts.mp (List.mem_of_getLast? h)

theorem runStatus_snoc_of_ne (h : turn ≠ other) : runStatus (reports ++ [(turn, status)]) other = runStatus reports other := by
  unfold runStatus
  rw [List.filter_append, List.filter_cons_of_neg (by simpa using h), List.filter_nil, List.append_nil]

theorem settled_snoc (statuses : List SubagentStatus) (status : SubagentStatus) :
    ((statuses ++ [status]).find? isTerminalSubagentStatus).or (statuses ++ [status]).getLast? =
      some (if ((statuses.find? isTerminalSubagentStatus).or statuses.getLast?).any isTerminalSubagentStatus then
        ((statuses.find? isTerminalSubagentStatus).or statuses.getLast?).getD status else status) := by
  rw [List.find?_append, List.getLast?_concat]
  obtain hfound | ⟨found, hfound⟩ := Option.eq_none_or_eq_some (statuses.find? isTerminalSubagentStatus)
  · have hlast : (statuses.getLast?).any isTerminalSubagentStatus = false := by
      rcases hcase : statuses.getLast? with _ | last
      · rfl
      · have := List.find?_eq_none.mp hfound last (List.mem_of_getLast? hcase)
        simpa using this
    simp only [hfound, Option.none_or, hlast, Bool.false_eq_true, if_false]
    cases hstatus : isTerminalSubagentStatus status with
    | true => rw [List.find?_cons_of_pos hstatus]; rfl
    | false => rw [List.find?_cons_of_neg (by simp [hstatus])]; rfl
  · have hterminal := List.find?_some hfound
    simp [hfound, hterminal]

theorem runStatus_snoc (reports : List (String × SubagentStatus)) (turn : String) (status : SubagentStatus) :
    runStatus (reports ++ [(turn, status)]) turn =
      some (if (runStatus reports turn).any isTerminalSubagentStatus then (runStatus reports turn).getD status else status) := by
  unfold runStatus
  rw [List.filter_append, List.filter_cons_of_pos (by simp), List.filter_nil, List.map_append, List.map_singleton]
  exact settled_snoc _ status

theorem runStatus_eq_none (h : turn ∉ reports.map Prod.fst) : runStatus reports turn = none := by
  have hnone : (reports.filter fun report => report.1 = turn) = [] :=
    List.filter_eq_nil_iff.mpr fun report hreport hsame =>
      h (List.mem_map.mpr ⟨report, hreport, of_decide_eq_true hsame⟩)
  unfold runStatus
  rw [hnone]
  rfl

end Reports

/-! ### One admission -/

section Tables

variable {s : StatusStore} {parent key : String} {keys : List String}

/-- The keys that were added are those that were not there, and nothing else changes. -/
theorem addCorrelations_spec (s : StatusStore) (parent key : String) (keys : List String) :
    (s.addCorrelations parent key keys).2.subagents = s.subagents ∧ (s.addCorrelations parent key keys).2.store = s.store ∧
      (∀ k, k ∈ (s.addCorrelations parent key keys).1 ↔ k ∈ keys ∧ (Assoc.lookup (parent, k, key) s.correlations).isSome = false) ∧
      ∀ k, Assoc.lookup (parent, k, key) (s.addCorrelations parent key keys).2.correlations =
        if k ∈ (s.addCorrelations parent key keys).1 then some none else Assoc.lookup (parent, k, key) s.correlations := by
  induction keys generalizing s with
  | nil => exact ⟨rfl, rfl, by simp [StatusStore.addCorrelations], by simp [StatusStore.addCorrelations]⟩
  | cons first keys ih =>
    unfold StatusStore.addCorrelations
    split_ifs with hthere
    · obtain ⟨hsubagents, hstore, hfresh, hlookup⟩ := ih s
      refine ⟨hsubagents, hstore, fun k => ?_, hlookup⟩
      rw [hfresh, List.mem_cons]
      refine ⟨fun h => ⟨.inr h.1, h.2⟩, fun h => ⟨h.1.resolve_left ?_, h.2⟩⟩
      rintro rfl
      rw [h.2] at hthere
      cases hthere
    · obtain ⟨hsubagents, hstore, hfresh, hlookup⟩ :=
        ih { s with correlations := Assoc.assign (parent, first, key) none s.correlations }
      dsimp only at hsubagents hstore hfresh hlookup ⊢
      have hstep : ∀ k, Assoc.lookup (parent, k, key) (Assoc.assign (parent, first, key) none s.correlations) =
          if first = k then some none else Assoc.lookup (parent, k, key) s.correlations := by
        intro k
        rw [Assoc.lookup_assign]
        by_cases hk : first = k
        · rw [if_pos hk, if_pos (by rw [hk])]
        · rw [if_neg hk, if_neg fun heq => hk (Prod.mk.inj (Prod.mk.inj heq).2).1]
      refine ⟨hsubagents, hstore, fun k => ?_, fun k => ?_⟩
      · rw [List.mem_cons, List.mem_cons, hfresh, hstep]
        by_cases hk : first = k
        · subst hk
          simp [Bool.not_eq_true _ ▸ hthere]
        · rw [if_neg hk]
          simp [Ne.symm hk]
      · rw [hlookup, hstep]
        by_cases hk : first = k
        · subst hk
          simp
        · simp [hk, Ne.symm hk]

variable {row : SubagentRow} {revision : ℕ}

theorem rowOf_assign : StatusStore.rowOf { s with subagents := Assoc.assign (parent, key) row s.subagents } parent key = row := by
  unfold StatusStore.rowOf
  rw [Assoc.lookup_assign, if_pos rfl]
  rfl

theorem lookup_recordRun {fresh : List String} (correlations : List ((String × String × String) × Option ℕ)) (k : String) :
    Assoc.lookup (parent, k, key) (fresh.foldl (fun correlations k => Assoc.assign (parent, k, key) (some revision) correlations)
      correlations) = if k ∈ fresh then some (some revision) else Assoc.lookup (parent, k, key) correlations := by
  induction fresh generalizing correlations with
  | nil => simp
  | cons first fresh ih =>
    rw [List.foldl_cons, ih, Assoc.lookup_assign]
    by_cases hk : first = k
    · subst hk
      simp
    · have hne : (parent, first, key) ≠ (parent, k, key) := fun heq => hk (Prod.mk.inj (Prod.mk.inj heq).2).1
      rw [if_neg hne]
      simp [Ne.symm hk]

/-- A status that comes with a later revision replaces the stored one, but for one that is not terminal on a terminal one. -/
theorem persistStatus_status {status : SubagentStatus} {startsNewRun : Bool} (hlater : row.statusRevision < revision) :
    (StatusStore.persistStatus row status revision startsNewRun).status =
      if isTerminalSubagentStatus row.status ∧ ¬ isTerminalSubagentStatus status ∧ ¬ startsNewRun then row.status else status := by
  unfold StatusStore.persistStatus subagentStatusAdvances
  cases isTerminalSubagentStatus row.status <;> cases isTerminalSubagentStatus status <;> cases startsNewRun <;> simp [hlater]

theorem persistStatus_other {status : SubagentStatus} {startsNewRun : Bool} :
    (StatusStore.persistStatus row status revision startsNewRun).runRevision = row.runRevision ∧
      (StatusStore.persistStatus row status revision startsNewRun).statusRevision ≤ max row.statusRevision revision := by
  unfold StatusStore.persistStatus
  constructor
  · split_ifs <;> rfl
  · split_ifs
    all_goals simp

theorem persistSubagentEvent_spec {event : SubagentUpdatedEvent} (runRevision : Option ℕ) (startsNewRun : Bool)
    (hlater : (s.rowOf parent event.subagentKey).statusRevision < event.revision) :
    let row := s.rowOf parent event.subagentKey
    let s' := s.persistSubagentEvent parent event runRevision startsNewRun
    s'.correlations = s.correlations ∧ (s'.rowOf parent event.subagentKey).runRevision = row.runRevision ∧
      (s'.rowOf parent event.subagentKey).statusRevision ≤ event.revision ∧
      (s'.rowOf parent event.subagentKey).status =
        match event.input.status with
        | none => row.status
        | some status =>
          if (runRevision.all fun run => row.runRevision.getD 0 ≤ run) ∧
              ¬ (isTerminalSubagentStatus row.status ∧ ¬ isTerminalSubagentStatus status ∧ ¬ startsNewRun) then status
          else row.status := by
  intro row s'
  refine ⟨rfl, ?_, ?_, ?_⟩
  all_goals
    unfold s' StatusStore.persistSubagentEvent
    rw [rowOf_assign]
    rcases event.input.status with _ | status
    all_goals dsimp only
  · split_ifs
    · exact persistStatus_other.1
    · rfl
  · exact hlater.le
  · split_ifs
    · exact persistStatus_other.2.trans (max_le hlater.le le_rfl)
    · exact hlater.le
  · by_cases hpasses : runRevision.all fun run => decide (row.runRevision.getD 0 ≤ run)
    · rw [if_pos hpasses]
      rw [persistStatus_status]
      · simp only [hpasses, true_and]
        rw [ite_not]
      · exact hlater
    · rw [if_neg hpasses, if_neg (fun h => hpasses h.1)]

/-- What an admission leaves of the subagent's columns and of a correlation key's run. -/
theorem admitStatus_spec {input : AdmissionInput} {event : SubagentUpdatedEvent}
    (hlater : (s.rowOf input.parentSessionId event.subagentKey).statusRevision < event.revision) :
    let row := s.rowOf input.parentSessionId event.subagentKey
    let added := s.addCorrelations input.parentSessionId event.subagentKey (correlationKeys input.observation)
    let startsNewRun := observationStartsNewRun input.observation added.1
    let run := added.2.subagentRunRevision input.parentSessionId event.subagentKey (some input.observation)
    let s' := s.admitStatus input event
    (s'.rowOf input.parentSessionId event.subagentKey).runRevision = (if startsNewRun then some event.revision else row.runRevision) ∧
      (s'.rowOf input.parentSessionId event.subagentKey).statusRevision ≤ event.revision ∧
      (s'.rowOf input.parentSessionId event.subagentKey).status =
        (match event.input.status with
        | none => row.status
        | some status =>
          if ((if startsNewRun then some event.revision else run).all fun run => row.runRevision.getD 0 ≤ run) ∧
              ¬ (isTerminalSubagentStatus row.status ∧ ¬ isTerminalSubagentStatus status ∧ ¬ startsNewRun) then status
          else row.status) ∧
      ∀ k, Assoc.lookup (input.parentSessionId, k, event.subagentKey) s'.correlations =
        if k ∈ added.1 then some (if startsNewRun then some event.revision else none)
        else Assoc.lookup (input.parentSessionId, k, event.subagentKey) s.correlations := by
  intro row added startsNewRun run s'
  obtain ⟨hsubagents, -, -, hlookup⟩ :=
    addCorrelations_spec s input.parentSessionId event.subagentKey (correlationKeys input.observation)
  have hrow : added.2.rowOf input.parentSessionId event.subagentKey = row := by
    unfold StatusStore.rowOf
    rw [hsubagents]
    rfl
  obtain ⟨hcorrelations, hrun, hrevision, hstatus⟩ := persistSubagentEvent_spec (s := added.2)
    (if startsNewRun then some event.revision else run) startsNewRun (by rw [hrow]; exact hlater)
  rw [hrow] at hrun hstatus
  have hs' : s' = if startsNewRun then
      (added.2.persistSubagentEvent input.parentSessionId event (if startsNewRun then some event.revision else run)
        startsNewRun).recordSubagentRun input.parentSessionId event.subagentKey added.1 event.revision
    else added.2.persistSubagentEvent input.parentSessionId event (if startsNewRun then some event.revision else run)
      startsNewRun := rfl
  generalize (added.2.persistSubagentEvent input.parentSessionId event (if startsNewRun then some event.revision else run)
    startsNewRun) = persisted at hcorrelations hrun hrevision hstatus hs'
  cases hstarts : startsNewRun with
  | false =>
    rw [hstarts, if_neg (by simp)] at hs'
    rw [hs', hcorrelations]
    rw [hstarts] at hstatus
    exact ⟨hrun, hrevision, hstatus, hlookup⟩
  | true =>
    rw [hstarts, if_pos rfl] at hs'
    have hrecorded : s'.rowOf input.parentSessionId event.subagentKey =
        { persisted.rowOf input.parentSessionId event.subagentKey with runRevision := some event.revision } := by
      rw [hs']
      exact rowOf_assign
    rw [hrecorded]
    rw [hstarts] at hstatus
    refine ⟨rfl, hrevision, hstatus, fun k => ?_⟩
    rw [hs']
    change Assoc.lookup _ (added.1.foldl _ persisted.correlations) = _
    rw [lookup_recordRun, hcorrelations, hlookup]
    by_cases hk : k ∈ added.1
    · rw [if_pos hk, if_pos hk, if_pos rfl]
    · rw [if_neg hk, if_neg hk, if_neg hk]

end Tables

/-! ### The host child's rows -/

section HostChild

variable {s : StatusStore} {parent key : String} {observed : Observed} {event : SubagentUpdatedEvent}

variable {observation : SubagentObservation} {turn : String} {status : SubagentStatus}

theorem stableRunKey_ne {c : Char} {first rest : String} (hc : c ≠ 's') (hfirst : first.toList.head? = some c) :
    stableRunKey observation ≠ first ++ rest := by
  intro heq
  have hhead := congrArg (fun text : String => text.toList.head?) heq
  unfold stableRunKey at hhead
  simp only [String.toList_append, List.head?_append, hfirst, Option.some_or] at hhead
  exact hc (Option.some.inj hhead).symm

theorem stableRunKey_mem {other : SubagentObservation} (h : stableRunKey observation ∈ correlationKeys other) :
    turnOf other = some (stableRunKey observation) := by
  unfold correlationKeys at h
  obtain ⟨found, hfound, hsome⟩ := List.mem_filterMap.mp h
  obtain rfl : found = some (stableRunKey observation) := hsome
  rcases List.mem_cons.mp hfound with hprovider | hfound
  · unfold providerKey at hprovider
    split at hprovider
    · next kind _ _ =>
      refine absurd (Option.some.inj hprovider) ?_
      rw [String.append_assoc, String.append_assoc]
      exact stableRunKey_ne (c := 'p') (by decide) (by decide)
    · cases hprovider
  rcases List.mem_cons.mp hfound with hstable | htool
  · unfold turnOf
    rcases hid : present other.stableCorrelationId with _ | id
    · rw [hid] at hstable; cases hstable
    · rw [hid] at hstable
      rw [Option.map_some, Option.some.inj hstable]
      obtain ⟨hsame, -⟩ := present_eq_some_iff.mp hid
      unfold stableRunKey
      rw [hsame]
      rfl
  · rw [List.mem_singleton] at htool
    obtain ⟨id, -, hkey⟩ := Option.map_eq_some_iff.mp htool.symm
    rw [String.append_assoc, String.append_assoc] at hkey
    exact absurd hkey.symm (stableRunKey_ne (c := 't') (by decide) (by decide))

theorem turnOf_mem (h : turnOf observation = some turn) :
    turn ∈ correlationKeys observation ∧ turn = stableRunKey observation := by
  obtain ⟨id, hid, rfl⟩ := Option.map_eq_some_iff.mp h
  refine ⟨List.mem_filterMap.mpr ⟨some (stableRunKey observation), ?_, rfl⟩, rfl⟩
  obtain ⟨hsame, -⟩ := present_eq_some_iff.mp hid
  rw [hid]
  unfold stableRunKey
  rw [hsame]
  exact List.mem_cons_of_mem _ List.mem_cons_self

/-- The columns of a host child are of the rows of its observations: no revision is ahead of them, each turn that was reported
has its key, and a run that is recorded with a turn is one of a turn that was reported; the newest turn's is the subagent's. -/
structure HostRuns (parent key : String) (s : StatusStore) : Prop where
  sound : Sound s.store
  own : ∀ row ∈ s.store.rows, row.parentSessionId = parent ∧ row.subagentKey = key
  status : (s.rowOf parent key).statusRevision ≤ s.store.rows.length
  run : ∀ revision, (s.rowOf parent key).runRevision = some revision → revision ≤ s.store.rows.length
  named : ∀ turn ∈ (s.reports parent key).map Prod.fst, (Assoc.lookup (parent, turn, key) s.correlations).isSome
  recorded : ∀ observation revision, s.runOf parent key (stableRunKey observation) = some revision →
    stableRunKey observation ∈ (s.reports parent key).map Prod.fst
  newest : ∀ turn revision, newestRun (s.reports parent key) = some turn → s.runOf parent key turn = some revision →
    (s.rowOf parent key).runRevision = some revision

theorem HostRuns.admitted (h : HostRuns parent key s) {input : AdmissionInput} {goesThrough : Bool}
    (hhost : OfHostChild parent key input) (hadmitted : s.admitted input goesThrough = some event) :
    event.subagentKey = key ∧ event.revision = s.store.rows.length + 1 ∧ event.input.status = input.observation.status ∧
      Sound (s.store.admitObservation input goesThrough) ∧
      (s.store.admitObservation input goesThrough).rows = s.store.rows ++ [storedRow input event] := by
  have hcut : ∀ row ∈ s.store.rows, row.parentSessionId ≠ input.parentSessionId →
      Cut '\x00' row.parentSessionId.toList input.parentSessionId.toList := fun row hrow hne =>
    absurd ((h.own row hrow).1.trans hhost.parent.symm) hne
  obtain ⟨m, hhydrate, hsame⟩ := h.sound.hydrate
  have htaken := hsame.admitInput input
  unfold StatusStore.admitted at hadmitted
  rw [hhydrate] at hadmitted
  dsimp only at hadmitted
  rcases hleft : m.admitInput input with e | ⟨admitted, after⟩
  · rw [hleft] at hadmitted; cases hadmitted
  rw [hleft] at hadmitted htaken
  rcases hright : s.store.live.admitInput input with e | ⟨admitted', after'⟩
  · rw [hright] at htaken; cases htaken
  rw [hright] at htaken
  obtain ⟨rfl, -⟩ := htaken
  dsimp only at hadmitted
  split_ifs at hadmitted with hstay
  obtain rfl := Option.some.inj hadmitted
  have hfresh := h.sound.fresh hcut (not_or.mp hstay).1
  obtain ⟨child, bindings, childOwners, -, -, hevent, -⟩ := admit_spec hfresh hright
  have hnext := h.sound.story.continues h.sound.live hcut hfresh hright
  have hkey : admitted.event.subagentKey = key := by
    rw [hevent]
    unfold AdmissionMachine.resolve
    simp only [hhost.key, Option.some_or, Option.getD_some]
  have hrows : (s.store.admitObservation input goesThrough).rows = s.store.rows ++ [storedRow input admitted.event] := by
    unfold SubagentStore.admitObservation
    rw [hhydrate]
    dsimp only
    rw [hleft]
    dsimp only
    rw [if_neg hstay]
  refine ⟨hkey, ?_, by rw [hevent]; rfl, h.sound.admitObservation input goesThrough hcut, hrows⟩
  have hall : (s.store.rows.countP fun other => Sibling other (storedRow input admitted.event)) = s.store.rows.length :=
    List.countP_eq_length.mpr fun row hrow =>
      decide_eq_true ⟨(h.own row hrow).1.trans hhost.parent.symm, (h.own row hrow).2.trans hkey.symm⟩
  rw [← hall]
  exact hnext.numbered.symm

theorem startsNewRun_of_none {fresh : List String} (hstatus : observation.status = none) :
    observationStartsNewRun observation fresh = false := by
  unfold observationStartsNewRun
  rw [hstatus]

theorem startsNewRun_of_turn {input : AdmissionInput} {fresh : List String} (hhost : OfHostChild parent key input)
    (hturn : turnOf input.observation = some turn) (hstatus : input.observation.status = some status) :
    observationStartsNewRun input.observation fresh = (!isTerminalSubagentStatus status && decide (turn ∈ fresh)) := by
  have hpresent : present input.observation.stableCorrelationId ≠ none := by
    obtain ⟨id, hid, -⟩ := Option.map_eq_some_iff.mp hturn
    rw [hid]
    nofun
  unfold observationStartsNewRun
  rw [hstatus]
  cases hterminal : isTerminalSubagentStatus status with
  | true => simp [hterminal]
  | false => simp [hterminal, hhost.host, hpresent, (turnOf_mem hturn).2]

theorem HostRuns.step_admitted (h : HostRuns parent key s) (hhost : OfHostChild parent key observed.input)
    (hadmitted : s.admitted observed.input observed.goesThrough = some event) :
    let observation := observed.input.observation
    let fresh := (s.addCorrelations parent key (correlationKeys observation)).1
    let starts := observationStartsNewRun observation fresh
    let row := s.rowOf parent key
    let s' := s.step observed
    s'.store.rows = s.store.rows ++ [storedRow observed.input event] ∧ Sound s'.store ∧ event.subagentKey = key ∧
      (∀ k, k ∈ fresh ↔ k ∈ correlationKeys observation ∧ (Assoc.lookup (parent, k, key) s.correlations).isSome = false) ∧
      (s'.rowOf parent key).runRevision = (if starts then some (s.store.rows.length + 1) else row.runRevision) ∧
      (s'.rowOf parent key).statusRevision ≤ s.store.rows.length + 1 ∧
      (observation.status = none → (s'.rowOf parent key).status = row.status) ∧
      (∀ turn status, turnOf observation = some turn → observation.status = some status → (s'.rowOf parent key).status =
        if ((if starts then some (s.store.rows.length + 1) else if turn ∈ fresh then none else s.runOf parent key turn).all
              fun run => row.runRevision.getD 0 ≤ run) ∧
            ¬ (isTerminalSubagentStatus row.status ∧ ¬ isTerminalSubagentStatus status ∧ ¬ starts) then status
        else row.status) ∧
      ∀ k, Assoc.lookup (parent, k, key) s'.correlations =
        if k ∈ fresh then some (if starts then some (s.store.rows.length + 1) else none)
        else Assoc.lookup (parent, k, key) s.correlations := by
  intro observation fresh starts row s'
  obtain ⟨hkey, hrevision, hstatus, hsound, hrows⟩ := h.admitted hhost hadmitted
  have hstep : s' = { s.admitStatus observed.input event with
      store := s.store.admitObservation observed.input observed.goesThrough } := by
    change s.admitObservation observed.input observed.goesThrough = _
    unfold StatusStore.admitObservation
    rw [hadmitted]
  have hparent := hhost.parent
  obtain ⟨-, -, hfresh, hlookup⟩ := addCorrelations_spec s parent key (correlationKeys observation)
  have hadmit := @admitStatus_spec s observed.input event
    (by rw [hkey, hparent, hrevision]; exact Nat.lt_succ_of_le h.status)
  rw [hkey, hparent, hrevision, hstatus] at hadmit
  obtain ⟨hrun, hlater, hnewstatus, hcorrelations⟩ := hadmit
  rw [hstep]
  refine ⟨hrows, hsound, hkey, hfresh, hrun, hlater, fun hnone => ?_, fun turn status hturn hsome => ?_, hcorrelations⟩
  · refine hnewstatus.trans ?_
    rw [hnone]
  · refine hnewstatus.trans ?_
    have hpresent : observation.stableCorrelationId ≠ none := by
      obtain ⟨id, hid, -⟩ := Option.map_eq_some_iff.mp hturn
      rw [(present_eq_some_iff.mp hid).1]
      nofun
    have hnamed : (s.addCorrelations parent key (correlationKeys observation)).2.subagentRunRevision parent key (some observation) =
        if turn ∈ fresh then none else s.runOf parent key turn := by
      unfold StatusStore.subagentRunRevision
      simp only [observation, hhost.host, ne_eq, true_and]
      rw [if_pos hpresent, ← (turnOf_mem hturn).2]
      unfold StatusStore.runOf
      rw [hlookup]
      by_cases hin : turn ∈ fresh
      · rw [if_pos hin, if_pos hin]; rfl
      · rw [if_neg hin, if_neg hin]
    rw [hsome, hnamed]

theorem reports_step {observed : Observed} {s' : StatusStore} (hhost : OfHostChild parent key observed.input)
    (hkey : event.subagentKey = key)
    (hrows : s'.store.rows = s.store.rows ++ [storedRow observed.input event]) :
    s'.reports parent key = s.reports parent key ++ (match turnOf observed.input.observation, observed.input.observation.status with
      | some turn, some status => [(turn, status)]
      | _, _ => []) := by
  have hown : (storedRow observed.input event).parentSessionId = parent ∧ (storedRow observed.input event).subagentKey = key :=
    ⟨hhost.parent, hkey⟩
  unfold StatusStore.reports
  rw [hrows, List.filter_append, List.filterMap_append, List.filter_cons_of_pos (by simpa using hown), List.filter_nil]
  refine congrArg (_ ++ ·) ?_
  change ([storedRow observed.input event].filterMap fun row => reportOf row) = _
  rw [List.filterMap_cons, List.filterMap_nil]
  unfold reportOf
  have hturn : turnOf (storedRow observed.input event).observation = turnOf observed.input.observation := rfl
  have hstatus : (storedRow observed.input event).observation.status = observed.input.observation.status := rfl
  rw [hturn, hstatus]
  rcases turnOf observed.input.observation with _ | turn <;> rcases observed.input.observation.status with _ | status <;> rfl

theorem join_ite {c : Prop} [Decidable c] (a b : Option (Option ℕ)) : (if c then a else b).join = if c then a.join else b.join :=
  apply_ite Option.join c a b

/-- An observation without a status leaves the child's status and run. -/
theorem HostRuns.step_silent (h : HostRuns parent key s) (hhost : OfHostChild parent key observed.input)
    (hadmitted : s.admitted observed.input observed.goesThrough = some event) (hnone : observed.input.observation.status = none) :
    HostRuns parent key (s.step observed) ∧ (s.step observed).reports parent key = s.reports parent key ∧
      ((s.step observed).rowOf parent key).status = (s.rowOf parent key).status ∧
      ((s.step observed).rowOf parent key).runRevision = (s.rowOf parent key).runRevision := by
  obtain ⟨hrows, hsound, hkey, hfresh, hrun, hlater, hsame, -, hcorrelations⟩ := h.step_admitted hhost hadmitted
  have hreports : (s.step observed).reports parent key = s.reports parent key := by
    rw [reports_step hhost hkey hrows, hnone]
    cases turnOf observed.input.observation <;> exact List.append_nil _
  rw [startsNewRun_of_none hnone] at hrun hcorrelations
  simp only [Bool.false_eq_true, if_false] at hrun hcorrelations
  have hruns : ∀ k, (s.step observed).runOf parent key k =
      if k ∈ (s.addCorrelations parent key (correlationKeys observed.input.observation)).1 then none else s.runOf parent key k := by
    intro k
    unfold StatusStore.runOf
    rw [hcorrelations, join_ite]
    rfl
  refine ⟨⟨hsound, ?_, ?_, ?_, ?_, ?_, ?_⟩, hreports, hsame hnone, hrun⟩
  · intro row hrow
    rw [hrows] at hrow
    rcases List.mem_append.mp hrow with hrow | hrow
    · exact h.own row hrow
    · obtain rfl := List.mem_singleton.mp hrow
      exact ⟨hhost.parent, hkey⟩
  · rw [hrows, List.length_append, List.length_singleton]
    exact hlater
  · intro revision hrevision
    rw [hrows, List.length_append]
    exact (h.run revision (hrun ▸ hrevision)).trans (Nat.le_add_right _ _)
  · intro turn hturn
    rw [hreports] at hturn
    rw [hcorrelations]
    split_ifs
    · rfl
    · exact h.named turn hturn
  · intro observation revision hrecorded
    rw [hruns] at hrecorded
    split_ifs at hrecorded
    rw [hreports]
    exact h.recorded observation revision hrecorded
  · intro turn revision hnewest hrecorded
    rw [hreports] at hnewest
    rw [hruns] at hrecorded
    split_ifs at hrecorded
    exact hrun.trans (h.newest turn revision hnewest hrecorded)

/-- A report starts a run where its status is not terminal and nothing named its turn before. -/
def StartsRun (parent key : String) (s : StatusStore) (turn : String) (status : SubagentStatus) : Prop :=
  isTerminalSubagentStatus status = false ∧ (Assoc.lookup (parent, turn, key) s.correlations).isSome = false

instance {turn : String} {status : SubagentStatus} : Decidable (StartsRun parent key s turn status) :=
    inferInstanceAs (Decidable (_ ∧ _))

theorem HostRuns.step_report (h : HostRuns parent key s) (hhost : OfHostChild parent key observed.input)
    (hadmitted : s.admitted observed.input observed.goesThrough = some event)
    (hturn : turnOf observed.input.observation = some turn) (hstatus : observed.input.observation.status = some status) :
    let row := s.rowOf parent key
    HostRuns parent key (s.step observed) ∧ (s.step observed).reports parent key = s.reports parent key ++ [(turn, status)] ∧
      ((s.step observed).rowOf parent key).runRevision =
        (if StartsRun parent key s turn status then some (s.store.rows.length + 1) else row.runRevision) ∧
      ((s.step observed).rowOf parent key).status =
        if StartsRun parent key s turn status ∨ ((s.runOf parent key turn).all fun run => row.runRevision.getD 0 ≤ run) ∧
            (isTerminalSubagentStatus row.status → isTerminalSubagentStatus status) then status
        else row.status := by
  intro row
  obtain ⟨hrows, hsound, hkey, hfresh, hrun, hlater, -, hnewstatus, hcorrelations⟩ := h.step_admitted hhost hadmitted
  have hreports : (s.step observed).reports parent key = s.reports parent key ++ [(turn, status)] := by
    rw [reports_step hhost hkey hrows, hturn, hstatus]
  have hin : turn ∈ (s.addCorrelations parent key (correlationKeys observed.input.observation)).1 ↔
      (Assoc.lookup (parent, turn, key) s.correlations).isSome = false := by
    rw [hfresh]
    exact and_iff_right (turnOf_mem hturn).1
  have hstarts : observationStartsNewRun observed.input.observation
      (s.addCorrelations parent key (correlationKeys observed.input.observation)).1 = decide (StartsRun parent key s turn status) := by
    rw [startsNewRun_of_turn hhost hturn hstatus, Bool.eq_iff_iff, Bool.and_eq_true, Bool.not_eq_true', decide_eq_true_iff,
      decide_eq_true_iff, hin]
    exact Iff.rfl
  specialize hnewstatus turn status hturn hstatus
  rw [hstarts] at hrun hnewstatus hcorrelations
  simp only [decide_eq_true_eq] at hrun hnewstatus hcorrelations
  have hruns : ∀ k, (s.step observed).runOf parent key k =
      if k ∈ (s.addCorrelations parent key (correlationKeys observed.input.observation)).1 then
        (if StartsRun parent key s turn status then some (s.store.rows.length + 1) else none)
      else s.runOf parent key k := by
    intro k
    unfold StatusStore.runOf
    rw [hcorrelations, join_ite]
    rfl
  -- a key that is there already is not added
  have hold : ∀ k, k ∈ (s.reports parent key).map Prod.fst →
      k ∉ (s.addCorrelations parent key (correlationKeys observed.input.observation)).1 := by
    intro k hk hadded
    have hthere := h.named k hk
    rw [((hfresh k).mp hadded).2] at hthere
    cases hthere
  have hbelow : row.runRevision.getD 0 ≤ s.store.rows.length + 1 := by
    rcases hcase : row.runRevision with _ | revision
    · exact Nat.zero_le _
    · exact (h.run revision hcase).trans (Nat.le_succ _)
  refine ⟨⟨hsound, ?_, ?_, ?_, ?_, ?_, ?_⟩, hreports, hrun, ?_⟩
  · intro stored hrow
    rw [hrows] at hrow
    rcases List.mem_append.mp hrow with hrow | hrow
    · exact h.own stored hrow
    · obtain rfl := List.mem_singleton.mp hrow
      exact ⟨hhost.parent, hkey⟩
  · rw [hrows, List.length_append, List.length_singleton]
    exact hlater
  · intro revision hrevision
    rw [hrows, List.length_append, List.length_singleton]
    rw [hrun] at hrevision
    split_ifs at hrevision
    · exact (Option.some.inj hrevision).ge
    · exact (h.run revision hrevision).trans (Nat.le_succ _)
  · intro other hother
    rw [hreports, List.map_append, List.mem_append] at hother
    rw [hcorrelations]
    split_ifs with hadded
    · rfl
    · rfl
    · rcases hother with hother | hother
      · exact h.named other hother
      · obtain rfl := List.mem_singleton.mp hother
        rw [hin, Bool.not_eq_false] at hadded
        exact hadded
  · intro observation revision hrecorded
    rw [hreports, List.map_append, List.mem_append]
    rw [hruns] at hrecorded
    split_ifs at hrecorded with hadded hnew
    · right
      have hsame := stableRunKey_mem ((hfresh _).mp hadded).1
      exact List.mem_singleton.mpr (Option.some.inj (hsame.symm.trans hturn))
    · exact .inl (h.recorded observation revision hrecorded)
  · intro other revision hnewest hrecorded
    rw [hreports, newestRun_snoc] at hnewest
    rw [hruns] at hrecorded
    split_ifs at hnewest with hknown
    · rw [if_neg (hold other (newestRun_mem hnewest))] at hrecorded
      have hnot : ¬ StartsRun parent key s turn status := fun hnew => hold turn hknown (hin.mpr hnew.2)
      rw [hrun, if_neg hnot]
      exact h.newest other revision hnewest hrecorded
    · obtain rfl := Option.some.inj hnewest
      split_ifs at hrecorded with hadded hnew
      · rw [hrun, if_pos hnew]
        exact hrecorded
      · rw [(turnOf_mem hturn).2] at hrecorded hknown
        exact absurd (h.recorded _ revision hrecorded) hknown
  · refine hnewstatus.trans ?_
    by_cases hnew : StartsRun parent key s turn status
    · have hpasses : (some (s.store.rows.length + 1)).all (fun run => decide (row.runRevision.getD 0 ≤ run)) = true := by
        simpa using hbelow
      rw [if_pos hnew, if_pos ⟨hpasses, fun hrefused => hrefused.2.2 hnew⟩, if_pos (.inl hnew)]
    · rw [if_neg hnew]
      refine if_congr ?_ rfl rfl
      simp only [hnew, not_false_eq_true, and_true, false_or, not_and, not_not]
      refine and_congr_left fun _ => ?_
      split_ifs with hadded
      · -- a key that is new has no run
        have hnone : s.runOf parent key turn = none := by
          unfold StatusStore.runOf
          rw [Option.isSome_eq_false_iff.mp (hin.mp hadded) |> Option.isNone_iff_eq_none.mp]
          rfl
        rw [hnone]
      · rfl

theorem step_refused (hadmitted : s.admitted observed.input observed.goesThrough = none) : s.step observed = s := by
  change s.admitObservation observed.input observed.goesThrough = s
  unfold StatusStore.admitObservation
  rw [hadmitted]

theorem HostRuns.step (h : HostRuns parent key s) (hhost : OfHostChild parent key observed.input) :
    HostRuns parent key (s.step observed) := by
  rcases hadmitted : s.admitted observed.input observed.goesThrough with _ | event
  · rw [step_refused hadmitted]; exact h
  rcases hstatus : observed.input.observation.status with _ | status
  · exact (h.step_silent hhost hadmitted hstatus).1
  · obtain ⟨turn, hturn⟩ := Option.ne_none_iff_exists'.mp (hhost.names (by rw [hstatus]; nofun))
    exact (h.step_report hhost hadmitted hturn hstatus).1

theorem stays_iff {current : SubagentStatus} :
    (if isTerminalSubagentStatus current → isTerminalSubagentStatus status then status else current) = current ↔
      ¬ Replaces current status := by
  unfold Replaces
  constructor
  · intro hsame hreplaces
    rw [if_pos hreplaces.2] at hsame
    exact hreplaces.1 hsame
  · intro hkept
    split_ifs with hallowed
    · by_contra hne
      exact hkept ⟨hne, hallowed⟩
    · rfl

/-- A status is kept where a report does not pass, or would not replace it. -/
theorem keeps_iff {current : SubagentStatus} {passes : Prop} [Decidable passes] :
    (if passes ∧ (isTerminalSubagentStatus current → isTerminalSubagentStatus status) then status else current) = current ↔
      (passes → ¬ Replaces current status) := by
  by_cases hpasses : passes
  · simp only [hpasses, true_and, true_implies]
    exact stays_iff
  · simp only [hpasses, false_and, if_false, false_implies]

/-- One admission keeps the status the newest run's, and an older turn's report off it, just where the condition lets it. -/
theorem HostRuns.follows_step (h : HostRuns parent key s) (hfollows : FollowsNewestRun parent key s)
    (hhost : OfHostChild parent key observed.input) :
    FollowsNewestRun parent key (s.step observed) ∧ SparesNewestRun parent key s observed ↔ KeepsRun parent key s observed := by
  rcases hadmitted : s.admitted observed.input observed.goesThrough with _ | event
  · refine iff_of_true ?_ fun hne => absurd hadmitted hne
    unfold SparesNewestRun
    rw [step_refused hadmitted]
    exact ⟨hfollows, fun _ _ _ _ => ⟨rfl, rfl⟩⟩
  rcases hstatus : observed.input.observation.status with _ | status
  · obtain ⟨-, hreports, hsame, hrun⟩ := h.step_silent hhost hadmitted hstatus
    refine iff_of_true ⟨?_, fun _ _ _ _ => ⟨hsame, hrun⟩⟩ fun _ _ _ status hsome => ?_
    · unfold FollowsNewestRun
      rw [hreports, hsame]
      exact hfollows
    · cases hstatus.symm.trans hsome
  obtain ⟨turn, hturn⟩ := Option.ne_none_iff_exists'.mp (hhost.names (by rw [hstatus]; nofun))
  obtain ⟨-, hreports, hrun, hnewstatus⟩ := h.step_report hhost hadmitted hturn hstatus
  have hcond : KeepsRun parent key s observed ↔
      if turn ∉ (s.reports parent key).map Prod.fst then
        (Assoc.lookup (parent, turn, key) s.correlations).isSome → isTerminalSubagentStatus (s.rowOf parent key).status →
          isTerminalSubagentStatus status
      else if newestRun (s.reports parent key) = some turn then
        isTerminalSubagentStatus (s.rowOf parent key).status → ¬ Replaces (s.rowOf parent key).status status
      else ((s.runOf parent key turn).all fun run => (s.rowOf parent key).runRevision.getD 0 ≤ run) →
        ¬ Replaces (s.rowOf parent key).status status := by
    constructor
    · intro hkeeps
      exact hkeeps (by rw [hadmitted]; nofun) turn hturn status hstatus
    · intro hkeeps _ other hother found hfound
      obtain rfl := Option.some.inj (hturn.symm.trans hother)
      obtain rfl := Option.some.inj (hstatus.symm.trans hfound)
      exact hkeeps
  have hspares : SparesNewestRun parent key s observed ↔ (turn ∈ (s.reports parent key).map Prod.fst →
      newestRun (s.reports parent key) ≠ some turn → ((s.step observed).rowOf parent key).status = (s.rowOf parent key).status ∧
        ((s.step observed).rowOf parent key).runRevision = (s.rowOf parent key).runRevision) := by
    constructor
    · exact fun hall hmem => hall turn hmem hturn
    · intro hone other hmem hother
      obtain rfl := Option.some.inj (hturn.symm.trans hother)
      exact hone hmem
  rw [hcond, hspares]
  unfold FollowsNewestRun
  rw [hreports, newestRun_snoc]
  by_cases hknown : turn ∈ (s.reports parent key).map Prod.fst
  · -- a turn that was reported starts no run
    have hnot : ¬ StartsRun parent key s turn status := by
      rintro ⟨-, hfresh⟩
      rw [h.named turn hknown] at hfresh
      cases hfresh
    simp only [hnot, false_or] at hnewstatus
    rw [if_neg hnot] at hrun
    rw [if_pos hknown, if_neg (not_not.mpr hknown)]
    by_cases hnewest : newestRun (s.reports parent key) = some turn
    · -- the newest turn's report: the first terminal status stays
      have hcurrent := hfollows turn hnewest
      have hpasses : (s.runOf parent key turn).all fun run => (s.rowOf parent key).runRevision.getD 0 ≤ run := by
        rcases hrecorded : s.runOf parent key turn with _ | revision
        · rfl
        · rw [h.newest turn revision hnewest hrecorded]
          simp
      rw [if_pos hnewest]
      simp only [hpasses, true_and] at hnewstatus
      have hexpected : runStatus (s.reports parent key ++ [(turn, status)]) turn =
          some (if isTerminalSubagentStatus (s.rowOf parent key).status then (s.rowOf parent key).status else status) := by
        rw [runStatus_snoc, hcurrent]
        rfl
      constructor
      · rintro ⟨hstays, -⟩ hterminal
        have hsame := hstays turn hnewest
        rw [hexpected, if_pos hterminal, hnewstatus] at hsame
        exact stays_iff.mp (Option.some.inj hsame).symm
      · intro hkeeps
        refine ⟨fun other hother => ?_, fun _ hne => absurd hnewest hne⟩
        obtain rfl := Option.some.inj (hnewest.symm.trans hother)
        rw [hexpected, hnewstatus]
        by_cases hterminal : isTerminalSubagentStatus (s.rowOf parent key).status = true
        · rw [if_pos hterminal]
          rw [stays_iff.mpr (hkeeps hterminal)]
        · rw [if_neg hterminal, if_pos (fun hyes => absurd hyes hterminal)]
    · -- an older turn's report: the status stays the newest run's
      rw [if_neg hnewest, ← keeps_iff, ← hnewstatus]
      constructor
      · rintro ⟨-, hspared⟩
        exact (hspared hknown hnewest).1
      · intro hsame
        refine ⟨fun other hother => ?_, fun _ _ => ⟨hsame, hrun⟩⟩
        have hne : turn ≠ other := by
          rintro rfl
          exact hnewest hother
        rw [runStatus_snoc_of_ne hne, hsame]
        exact hfollows other hother
  · -- the first report of its turn
    have hnone : s.runOf parent key turn = none := by
      rw [Option.eq_none_iff_forall_ne_some]
      intro revision hrecorded
      rw [(turnOf_mem hturn).2] at hrecorded hknown
      exact hknown (h.recorded _ revision hrecorded)
    have hexpected : runStatus (s.reports parent key ++ [(turn, status)]) turn = some status := by
      rw [runStatus_snoc, runStatus_eq_none hknown]
      rfl
    rw [if_neg hknown, if_pos hknown]
    rw [hnone] at hnewstatus
    have hstays : ((s.step observed).rowOf parent key).status = status ↔
        ((Assoc.lookup (parent, turn, key) s.correlations).isSome → isTerminalSubagentStatus (s.rowOf parent key).status →
          isTerminalSubagentStatus status) := by
      rw [hnewstatus]
      constructor
      · intro hsame hthere hterminal
        by_contra hnonterminal
        have hnot : ¬ StartsRun parent key s turn status := by
          rintro ⟨-, hfresh⟩
          rw [hthere] at hfresh
          cases hfresh
        rw [if_neg] at hsame
        · rw [hsame] at hterminal
          exact hnonterminal hterminal
        · rintro (hstarts | ⟨-, hboth⟩)
          · exact hnot hstarts
          · exact hnonterminal (hboth hterminal)
      · intro hallowed
        split_ifs with hpasses
        · rfl
        · rw [not_or] at hpasses
          obtain ⟨hnot, hrefused⟩ := hpasses
          exfalso
          refine hrefused ⟨rfl, fun hterminal => ?_⟩
          by_contra hnonterminal
          refine hnot ⟨by simpa using hnonterminal, ?_⟩
          by_contra hthere
          exact hnonterminal (hallowed (eq_true_of_ne_false hthere) hterminal)
    rw [← hstays]
    constructor
    · rintro ⟨hall, -⟩
      have hsame := hall turn rfl
      rw [hexpected] at hsame
      exact (Option.some.inj hsame).symm
    · intro hsame
      refine ⟨?_, fun hmem => absurd hmem hknown⟩
      rintro other hother
      obtain rfl := Option.some.inj hother
      rw [hexpected, hsame]

theorem hostRuns_start : HostRuns parent key {} := by
  have hreports : ({} : StatusStore).reports parent key = [] := rfl
  have hrow : ({} : StatusStore).rowOf parent key = {} := rfl
  have hrun : ∀ k, ({} : StatusStore).runOf parent key k = none := fun _ => rfl
  refine ⟨sound_empty, fun row hmem => absurd hmem List.not_mem_nil, ?_, fun revision hrevision => ?_, fun turn hturn => ?_,
    fun observation revision hrecorded => ?_, fun turn revision hnewest => ?_⟩
  · rw [hrow]
    exact Nat.zero_le _
  · rw [hrow] at hrevision
    cases hrevision
  · rw [hreports] at hturn
    exact absurd hturn List.not_mem_nil
  · rw [hrun] at hrecorded
    cases hrecorded
  · rw [hreports] at hnewest
    cases hnewest

end HostChild

/-- After every admission the stored status of a host child is its newest run's, and no older turn's report has moved it, just
where each admission meets the condition. -/
theorem follows_iff_keepsRun (parent key : String) (observations : List Observed)
    (h : ∀ observed ∈ observations, OfHostChild parent key observed.input) :
    Meets StatusStore.step (fun s observed => FollowsNewestRun parent key (s.step observed) ∧ SparesNewestRun parent key s observed)
        {} observations ↔
      Meets StatusStore.step (KeepsRun parent key) {} observations := by
  have hall : ∀ s, HostRuns parent key s → FollowsNewestRun parent key s →
      (Meets StatusStore.step (fun s observed => FollowsNewestRun parent key (s.step observed) ∧ SparesNewestRun parent key s observed)
        s observations ↔ Meets StatusStore.step (KeepsRun parent key) s observations) := by
    induction observations with
    | nil => exact fun s _ _ => Iff.rfl
    | cons observed observations ih =>
      intro s hs hfollows
      have hhost := h observed List.mem_cons_self
      have hone := hs.follows_step hfollows hhost
      have hrest := ih (fun other hother => h other (List.mem_cons_of_mem _ hother)) (s.step observed) (hs.step hhost)
      unfold Meets
      rw [hone]
      refine and_congr_right fun hkeeps => hrest (hone.mpr hkeeps).1
  refine hall {} hostRuns_start fun turn hnewest => ?_
  cases hnewest

/-- A report of the host for a turn of its child. -/
def reported (observationId turn : String) (status : SubagentStatus) : Observed where
  input :=
    { parentSessionId := "parent"
      observation :=
        { observationId, subagentKey := some "child", providerKind := some "claxedo", harnessExecutionId := some "session",
          stableCorrelationId := some turn, status := some status }
      allocatedKey := "child" }

/-- Two turns, and the first one's end after the second has started. -/
def lateEnd : List Observed :=
  [reported "started:a" "a" .running, reported "started:b" "b" .running, reported "finished:a" "a" .completed]

theorem follows_lateEnd :
    Meets StatusStore.step
        (fun s observed => FollowsNewestRun "parent" "child" (s.step observed) ∧ SparesNewestRun "parent" "child" s observed) {}
        lateEnd ↔
      Meets StatusStore.step (KeepsRun "parent" "child") {} lateEnd :=
  follows_iff_keepsRun "parent" "child" lateEnd (by
    intro observed hobserved
    simp only [lateEnd, List.mem_cons, List.not_mem_nil, or_false] at hobserved
    rcases hobserved with rfl | rfl | rfl <;> exact ⟨rfl, rfl, rfl, fun _ => by decide⟩)

/-- A turn whose start was not reported ends, another starts, and the end of the first is reported again. -/
def endedTwice : List Observed :=
  [reported "finished:a" "a" .completed, reported "started:b" "b" .running, reported "again:a" "a" .completed]

/-- The repeated end is taken for the end of the run that goes on. -/
theorem older_end_completes_newest_run :
    (∀ observed ∈ endedTwice, OfHostChild "parent" "child" observed.input) ∧
      ¬ Meets StatusStore.step
        (fun s observed => FollowsNewestRun "parent" "child" (s.step observed) ∧ SparesNewestRun "parent" "child" s observed) {}
        endedTwice := by
  constructor
  · intro observed hobserved
    simp only [endedTwice, List.mem_cons, List.not_mem_nil, or_false] at hobserved
    rcases hobserved with rfl | rfl | rfl <;> exact ⟨rfl, rfl, rfl, fun _ => by decide⟩
  · rintro ⟨-, -, ⟨hfollows, -⟩, -⟩
    have hnewest : newestRun ((run StatusStore.step {} endedTwice).reports "parent" "child") = some "stable:session:b" := by
      decide +kernel
    have hstatus : runStatus ((run StatusStore.step {} endedTwice).reports "parent" "child") "stable:session:b" = some .running := by
      decide +kernel
    have hrow : ((run StatusStore.step {} endedTwice).rowOf "parent" "child").status = .completed := by decide +kernel
    have hsame := hfollows "stable:session:b" hnewest
    rw [show (StatusStore.step (StatusStore.step (StatusStore.step {} (reported "finished:a" "a" .completed))
      (reported "started:b" "b" .running)) (reported "again:a" "a" .completed)) = run StatusStore.step {} endedTwice from rfl,
      hstatus, hrow] at hsame
    cases hsame

end Claxedo.Subagents
