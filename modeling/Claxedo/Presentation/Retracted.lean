import Claxedo.Presentation.Withdrawal

/-! A retraction withdraws what its responses wrote: at every point of a turn, exactly as long as every response keeps to
its own parts. -/

namespace Claxedo.Presentation

open Claxedo.Lib

/-! ### A call that was started -/

namespace CallTrace

variable {t : CallTrace} {rep : Report}

/-- The call has a status, and the last that was shown of it is its end or it is open. -/
structure Followed (t : CallTrace) : Prop where
  status : t.record.status.isSome = true
  shown : t.shown ≠ []
  tracks : Tracks t

theorem followed_start : Followed (t.step .start) := by
  refine ⟨rfl, ?_, ?_⟩
  · rw [step]
    exact List.append_ne_nil_of_right_ne_nil _ (List.cons_ne_nil _ _)
  · intro x hx
    obtain rfl : t.record.drawn (t.record.status.getD .running) = x := by
      simpa [@getLast?_step t .start _ rfl] using hx
    rcases hfin : (t.record.drawn (t.record.status.getD .running)).finished with _ | _
    · exact .inr (@isOpen_of_follows .start _ _ trivial rfl hfin)
    · exact .inl rfl

theorem status_report {r : CallRecord} (h : r.status.isSome = true) : (r.report rep).1.status.isSome = true := by
  cases rep with
  | output | error | close =>
    simp only [CallRecord.report]
    split_ifs <;> first | exact h | rfl
  | start | input | status => rfl
  | content | location | terminal => exact h

theorem followed_step (h : Followed t) (hlocation : rep = .location → t.record.isOpen = true) : Followed (t.step rep) := by
  refine ⟨status_report h.status, List.append_ne_nil_of_left_ne_nil h.shown _, tracks_step ?_ h.tracks⟩
  cases rep with
  | content | terminal => exact h.status
  | location => exact hlocation rfl
  | _ => trivial

/-- A sweep finds open what was last shown unfinished. -/
theorem Followed.isOpen_iff (h : Followed t) (hended : Ended t) :
    t.record.isOpen = true ↔ t.shown.getLast?.any (fun x => !x.finished) = true := by
  obtain ⟨x, hx⟩ : ∃ x, t.shown.getLast? = some x := ⟨_, List.getLast?_eq_some_getLast h.shown⟩
  rw [hx, Option.any_some]
  rcases hfin : x.finished with _ | _
  · simpa [hfin] using h.tracks x hx
  · simpa using hended x hx hfin

theorem not_location_followed (h : t.record.isOpen = false) :
    (t.step .location).record.isOpen = false ∧ (t.step .location).shown.getLast?.any (fun x => !x.finished) = true :=
  ⟨h, by rw [@getLast?_step t .location _ rfl]; rfl⟩

end CallTrace

/-! ### The ledger and the members -/

/-- The members are what the ledger has, and the calls started are as they were last shown. -/
structure Sound (known calls : Finset String) (w : Watched) : Prop where
  within : Within calls w.turn.state
  keyed : Keyed known w.turn.state.responses.members
  current : w.turn.state.responses.current = w.ledger.current
  kept : ∀ r, w.turn.state.responses.current = some r → (Assoc.lookup r w.turn.state.responses.members).isSome = true
  parts : ∀ r id, id ∈ partsOf w.turn.state r ↔ (r, id) ∈ w.ledger.live
  nodup : ∀ r, (partsOf w.turn.state r).Nodup
  calls : ∀ r c, c ∈ callsOf w.turn.state r ↔ (r, c) ∈ w.ledger.started
  own : ∀ r r' id, (r, id) ∈ w.ledger.live → (r', id) ∈ w.ledger.wrote → r' = r
  lived : ∀ entry ∈ w.ledger.live, entry ∈ w.ledger.wrote
  reasoning : ∀ r part, w.turn.state.responses.current = some r → w.turn.state.openReasoning = some part →
    part.partId ∈ partsOf w.turn.state r
  ended : ∀ c, CallTrace.Ended (traceOf w.turn c)
  followed : ∀ r c, (r, c) ∈ w.ledger.started → CallTrace.Followed (traceOf w.turn c)

theorem sound_start (known calls : Finset String) (options : Options) : Sound known calls (Watched.start options) where
  within := within_start calls options
  keyed := .nil
  current := rfl
  kept := fun r h => by cases h
  parts := fun r id => iff_of_false List.not_mem_nil List.not_mem_nil
  nodup := fun r => List.nodup_nil
  calls := fun r c => iff_of_false List.not_mem_nil List.not_mem_nil
  own := fun r r' id h => absurd h List.not_mem_nil
  lived := fun entry h => absurd h List.not_mem_nil
  reasoning := fun r part h => by cases h
  ended := fun c x hx => by cases hx
  followed := fun r c h => absurd h List.not_mem_nil

section
variable {known calls : Finset String} {options : Options} {w : Watched} {cl : Call}

theorem Sound.retractsExactly (h : Sound known calls w) : RetractsExactly options w := by
  intro ids reason now
  have hretracts : Retracts w.turn.state ids reason (ingest options w.turn.state (.responseRetracted ids reason) now) :=
    retracts_ingest options now h.within.status.1 h.kept
  obtain ⟨parts, hparts, hnamed⟩ := hretracts.named
  have hmem (id : String) : id ∈ parts.map PartRef.partID ↔ ∃ r ∈ ids, (r, id) ∈ w.ledger.live := by
    rw [hnamed, List.mem_flatMap]
    exact exists_congr fun r => and_congr mem_firsts (h.parts r id)
  refine ⟨⟨parts, hparts, ?_, hmem⟩, ?_, hretracts.once, fun c => ?_, hretracts.marked⟩
  · rw [hnamed, List.nodup_flatMap]
    refine ⟨fun r _ => h.nodup r, (nodup_firsts ids).imp fun {r r'} hne => ?_⟩
    intro id hid hid'
    exact hne (h.own r' r id ((h.parts r' id).mp hid') (h.lived _ ((h.parts r id).mp hid)))
  · intro named hin part hpart r hwrote
    have hnamed' : named = parts := by
      change named ∈ List.map Prod.snd (retractions (ingest options w.turn.state (.responseRetracted ids reason) now).2) at hin
      rw [hparts] at hin
      split_ifs at hin
      · cases hin
      · simpa using hin
    subst hnamed'
    obtain ⟨r', hr', hlive⟩ := (hmem part.partID).mp (List.mem_map_of_mem hpart)
    exact h.own r' r part.partID hlive hwrote ▸ hr'
  · refine (hretracts.tools c).trans ?_
    constructor
    · rintro ⟨⟨r, hr, hc⟩, hopen⟩
      have hstarted := (h.calls r c).mp hc
      exact ⟨⟨r, hr, hstarted⟩, ((h.followed r c hstarted).isOpen_iff (h.ended c)).mp hopen⟩
    · rintro ⟨⟨r, hr, hstarted⟩, hopen⟩
      exact ⟨⟨r, hr, (h.calls r c).mpr hstarted⟩, ((h.followed r c hstarted).isOpen_iff (h.ended c)).mpr hopen⟩

/-! ### A step -/

theorem told_location {s : State} {c : String} (h : cl.told s c = some .location) :
    ∃ locations now, cl = .ingest (.toolLocation c locations) now := by
  cases cl with
  | thrown => cases h
  | terminalizeOpenTools error now =>
    dsimp only [Call.told, sweeps] at h
    split_ifs at h
    cases h
  | ingest event now =>
    cases event with
    | toolLocation d locations =>
      dsimp only [Call.told, told, only] at h
      split_ifs at h with hd
      exact ⟨locations, now, hd ▸ rfl⟩
    | toolInput d input display metadata =>
      dsimp only [Call.told, told] at h
      split_ifs at h
      dsimp only [only] at h
      split_ifs at h
      cases h
    | responseRetracted ids reason =>
      dsimp only [Call.told, told, sweeps] at h
      split_ifs at h
      cases h
    | toolStart | toolStatus | toolContent | toolOutput | toolError | toolTerminal =>
      dsimp only [Call.told, told, only] at h
      split_ifs at h
      cases h
    | _ => cases h

theorem ended_traces (h : Sound known calls w) (hcalls : calls.card ≤ RETAINED_TOOL_CALLS_MAX)
    (hcl : ∀ c, cl.toolCallId? = some c → c ∈ calls) (c : String) : CallTrace.Ended (traceOf (w.turn.step options cl) c) := by
  rw [(traceOf_step options c cl hcalls h.within hcl).2]
  rcases cl.told w.turn.state c with _ | rep
  · exact h.ended c
  · exact CallTrace.ended_step (h.ended c)

theorem followed_traces (h : Sound known calls w) (hcalls : calls.card ≤ RETAINED_TOOL_CALLS_MAX)
    (hcl : ∀ c, cl.toolCallId? = some c → c ∈ calls) (hcond : StaysOwn w cl) {r c : String} (hstarted : (r, c) ∈ w.ledger.started) :
    CallTrace.Followed (traceOf (w.turn.step options cl) c) := by
  rw [(traceOf_step options c cl hcalls h.within hcl).2]
  rcases htold : cl.told w.turn.state c with _ | rep
  · exact h.followed r c hstarted
  · refine CallTrace.followed_step (h.followed r c hstarted) ?_
    rintro rfl
    obtain ⟨locations, now, rfl⟩ := told_location htold
    change (recordOf w.turn.state c).isOpen = true
    rw [← any_isOpen]
    exact hcond ⟨r, hstarted⟩

theorem sound_thrown (h : Sound known calls w) (hcalls : calls.card ≤ RETAINED_TOOL_CALLS_MAX) :
    Sound known calls (w.step options .thrown) := by
  have hcl : ∀ c, Call.thrown.toolCallId? = some c → c ∈ calls := fun c hc => by cases hc
  have hcond : StaysOwn w .thrown := trivial
  exact { h with
    ended := ended_traces h hcalls hcl
    followed := fun _ _ hstarted => followed_traces h hcalls hcl hcond hstarted }

theorem terminalize_rest (options : Options) (s : State) (error : String) (now : ℕ) :
    (terminalize options s error now).1.responses = s.responses ∧ (terminalize options s error now).1.openReasoning = none := by
  obtain ⟨hresponses, hreasoning, -⟩ := run_spec options now (terminalizeOpenTools (endReasoning s now).1 error now none).1
    ((endReasoning s now).2 ++ (terminalizeOpenTools (endReasoning s now).1 error now none).2)
  have hcloses := terminalizeEach_spec error now none (endReasoning s now).1.toolStatusByCallId (endReasoning s now).1
  have hended : (endReasoning s now).1.responses = s.responses ∧ (endReasoning s now).1.openReasoning = none := by
    unfold endReasoning
    split
    · rename_i hnone
      exact ⟨rfl, hnone⟩
    · exact ⟨rfl, rfl⟩
  exact ⟨hresponses.trans (hcloses.responses.trans hended.1), hreasoning.trans (hcloses.reasoning.trans hended.2)⟩

theorem sound_terminalize (h : Sound known calls w) (hcalls : calls.card ≤ RETAINED_TOOL_CALLS_MAX) (error : String) (now : ℕ) :
    Sound known calls (w.step options (.terminalizeOpenTools error now)) := by
  have hcl : ∀ c, (Call.terminalizeOpenTools error now).toolCallId? = some c → c ∈ calls := fun c hc => by cases hc
  obtain ⟨hresponses, hreasoning⟩ := terminalize_rest options w.turn.state error now
  have hcond : StaysOwn w (.terminalizeOpenTools error now) := trivial
  have hstate : (w.step options (.terminalizeOpenTools error now)).turn.state = (terminalize options w.turn.state error now).1 := rfl
  refine ⟨(traceOf_step options "" _ hcalls h.within hcl).1, ?_, ?_, ?_, fun r id => ?_, fun r => ?_, fun r c => ?_, h.own, h.lived,
    fun r part _ hpart => ?_, ended_traces h hcalls hcl, fun _ _ hstarted => followed_traces h hcalls hcl hcond hstarted⟩
  · rw [hstate, hresponses]
    exact h.keyed
  · rw [hstate, hresponses]
    exact h.current
  · rw [hstate, hresponses]
    exact h.kept
  · rw [hstate, partsOf_congr hresponses]
    exact h.parts r id
  · rw [hstate, partsOf_congr hresponses]
    exact h.nodup r
  · rw [hstate, callsOf_congr hresponses]
    exact h.calls r c
  · rw [hstate, hreasoning] at hpart
    cases hpart

theorem foldl_addCall_of_mem {as l : List String} (h : ∀ a ∈ as, a ∈ l) : as.foldl addCall l = l := by
  induction as with
  | nil => rfl
  | cons a as ih =>
    obtain ⟨ha, has⟩ := List.forall_mem_cons.mp h
    have hsame : addCall l a = l := by rw [addCall, if_pos ha]
    rw [List.foldl_cons, hsame, ih has]

theorem mem_openReasoning {s : State} {id : String} : id ∈ (s.openReasoning.map OpenReasoningPart.partId).toList ↔
    ∃ part, s.openReasoning = some part ∧ part.partId = id := by
  rw [Option.mem_toList, Option.map_eq_some_iff]

theorem sound_responseStart {r : String} {now : ℕ} (h : Sound known calls w) (hcalls : calls.card ≤ RETAINED_TOOL_CALLS_MAX)
    (hknown : known.card ≤ RETAINED_RESPONSES_MAX) (hr : r ∈ known) (hcond : StaysOwn w (.ingest (.responseStart r) now)) :
    Sound known calls (w.step options (.ingest (.responseStart r) now)) := by
  have hcl : ∀ c, (Call.ingest (.responseStart r) now).toolCallId? = some c → c ∈ calls := fun c hc => by cases hc
  obtain ⟨hstarts, hkeyed⟩ := starts_ingest options w.turn.state r now h.keyed hr hknown
  have hparts (r' : String) : partsOf (ingest options w.turn.state (.responseStart r) now).1 r' = partsOf w.turn.state r' := by
    rw [hstarts.parts]
    split_ifs with heq
    · subst heq
      refine foldl_addCall_of_mem fun id hid => ?_
      obtain ⟨part, hpart, rfl⟩ := mem_openReasoning.mp hid
      exact hcond part hpart
    · rfl
  have hstate : (w.step options (.ingest (.responseStart r) now)).turn.state =
      (ingest options w.turn.state (.responseStart r) now).1 := rfl
  refine ⟨(traceOf_step options "" _ hcalls h.within hcl).1, hkeyed, hstarts.current, fun r' hr' => ?_, fun r' id => ?_,
    fun r' => ?_, fun r' c => ?_, h.own, h.lived, fun r' part _ hpart => ?_, ended_traces h hcalls hcl,
    fun _ _ hstarted => followed_traces h hcalls hcl hcond hstarted⟩
  · rw [hstate, hstarts.current] at hr'
    exact Option.some.inj hr' ▸ hstarts.kept
  · rw [hstate, hparts]
    exact h.parts r' id
  · rw [hstate, hparts]
    exact h.nodup r'
  · rw [hstate, hstarts.calls]
    exact h.calls r' c
  · rw [hstate, hstarts.reasoning] at hpart
    cases hpart

theorem sound_responseRetracted {ids : List String} {reason : String} {now : ℕ} (h : Sound known calls w)
    (hcalls : calls.card ≤ RETAINED_TOOL_CALLS_MAX) :
    Sound known calls (w.step options (.ingest (.responseRetracted ids reason) now)) := by
  have hcl : ∀ c, (Call.ingest (.responseRetracted ids reason) now).toolCallId? = some c → c ∈ calls := fun c hc => by cases hc
  have hcond : StaysOwn w (.ingest (.responseRetracted ids reason) now) := fun _ _ _ hkind => by cases hkind
  have hretracts : Retracts w.turn.state ids reason (ingest options w.turn.state (.responseRetracted ids reason) now) :=
    retracts_ingest options now h.within.status.1 h.kept
  have hstate : (w.step options (.ingest (.responseRetracted ids reason) now)).turn.state =
      (ingest options w.turn.state (.responseRetracted ids reason) now).1 := rfl
  have hcurrent (r : String) (hr : (ingest options w.turn.state (.responseRetracted ids reason) now).1.responses.current = some r) :
      w.turn.state.responses.current = some r ∧ r ∉ ids := by
    rw [hretracts.current, Option.filter_eq_some_iff] at hr
    exact ⟨hr.1, of_decide_eq_true hr.2⟩
  have hstays (entries : List (String × String)) (entry : String × String) :
      entry ∈ entries.filter (fun entry => entry.1 ∉ ids) ↔ entry ∈ entries ∧ entry.1 ∉ ids := by
    rw [List.mem_filter, decide_eq_true_eq]
  refine ⟨(traceOf_step options "" _ hcalls h.within hcl).1, hretracts.keyed known h.keyed, ?_, fun r hr => ?_, fun r id => ?_,
    fun r => ?_, fun r c => ?_, fun r r' id hlive => ?_, fun entry hentry => ?_, fun r part hr hpart => ?_,
    ended_traces h hcalls hcl, fun r c hstarted => ?_⟩
  · rw [hstate, hretracts.current, h.current]
    rfl
  · obtain ⟨hbefore, hnot⟩ := hcurrent r hr
    exact hretracts.kept r hnot (h.kept r hbefore)
  · rw [hstate, hretracts.parts]
    refine Iff.trans ?_ (hstays _ _).symm
    rw [← h.parts]
    split_ifs with hr <;> simp [hr]
  · rw [hstate, hretracts.parts]
    split_ifs
    · exact List.nodup_nil
    · exact h.nodup r
  · rw [hstate, hretracts.calls]
    refine Iff.trans ?_ (hstays _ _).symm
    rw [← h.calls]
    split_ifs with hr <;> simp [hr]
  · exact h.own r r' id ((hstays _ _).mp hlive).1
  · exact h.lived entry ((hstays _ _).mp hentry).1
  · obtain ⟨hbefore, hnot⟩ := hcurrent r hr
    rw [hstate, hretracts.reasoning] at hpart
    rw [hstate, hretracts.parts, if_neg hnot]
    exact h.reasoning r part hbefore hpart
  · exact followed_traces h hcalls hcl hcond ((hstays _ _).mp hstarted).1

theorem mem_entries {l : Ledger} {ids : List String} {r id : String} :
    (r, id) ∈ l.entries ids ↔ l.current = some r ∧ id ∈ ids := by
  unfold Ledger.entries
  rcases l.current with _ | current
  · simp
  · simp [eq_comm, and_comm]

section
variable {event : RuntimeEvent} {now : ℕ}

theorem after_other (l : Ledger) (events : List Payload) (hstart : ∀ r, event ≠ .responseStart r)
    (hretracted : ∀ ids reason, event ≠ .responseRetracted ids reason) :
    l.after (.ingest event now) events =
      { l with
        live := l.live ++ l.entries (deltas events)
        wrote := l.wrote ++ l.entries (deltas events)
        started := l.started ++ l.entries (startedCall event) } := by
  cases event with
  | responseStart r => exact absurd rfl (hstart r)
  | responseRetracted ids reason => exact absurd rfl (hretracted ids reason)
  | _ => rfl

/-- Where a delta goes under the current response, as the call allows it. -/
theorem writesOwn_of_staysOwn (hstart : ∀ r, event ≠ .responseStart r) (hcond : StaysOwn w (.ingest event now)) {r : String}
    {kind : DeltaKind} (hr : w.turn.state.responses.current = some r) (hkind : deltaKind w.turn.state event = some kind) :
    WritesOwn w r kind := by
  cases event with
  | responseStart r => exact absurd rfl (hstart r)
  | toolLocation => cases hkind
  | _ => exact hcond r kind hr hkind

theorem startedCall_told {c : String} (h : c ∈ startedCall event) : (Call.ingest event now).told w.turn.state c = some .start := by
  cases event with
  | toolStart d =>
    obtain rfl := List.mem_singleton.mp h
    exact if_pos rfl
  | _ => cases h

/-- A part the current response may write is its own or new. -/
theorem mem_targets {r id : String}
    (hown : ∀ kind, deltaKind w.turn.state event = some kind → WritesOwn w r kind) :
    id ∈ partsOf w.turn.state r ∨ id ∈ opens w.turn.state (deltaKind w.turn.state event) ↔
      id ∈ partsOf w.turn.state r ∨ id ∈ targets w.turn.state (deltaKind w.turn.state event) := by
  rcases hkind : deltaKind w.turn.state event with _ | kind
  · exact Iff.rfl
  · have hkept := hown kind hkind
    unfold WritesOwn at hkept
    by_cases hseen : seen w.turn.state (targetKey w.turn.state kind) = true
    · have hopens : opens w.turn.state (some kind) = [] := if_pos hseen
      rw [if_pos hseen] at hkept
      rw [hopens, targets, List.mem_singleton, List.mem_nil_iff, or_false]
      exact ⟨.inl, fun h => h.elim (fun h => h) fun h => h ▸ hkept⟩
    · have hopens : opens w.turn.state (some kind) = targets w.turn.state (some kind) := if_neg hseen
      rw [hopens]

theorem target_own (h : Sound known calls w) {r r' id : String}
    (hown : ∀ kind, deltaKind w.turn.state event = some kind → WritesOwn w r kind)
    (hid : id ∈ targets w.turn.state (deltaKind w.turn.state event)) (hwrote : (r', id) ∈ w.ledger.wrote) : r' = r := by
  rcases hkind : deltaKind w.turn.state event with _ | kind
  · rw [hkind] at hid
    cases hid
  · rw [hkind, targets, List.mem_singleton] at hid
    subst hid
    have hkept := hown kind hkind
    unfold WritesOwn at hkept
    split_ifs at hkept
    · exact h.own r r' _ ((h.parts r _).mp hkept) hwrote
    · exact hkept (r', _) hwrote rfl

theorem endedBy_subset (h : Sound known calls w) {r : String} (hr : w.turn.state.responses.current = some r) :
    ∀ id ∈ endedBy w.turn.state event, id ∈ partsOf w.turn.state r := by
  intro id hid
  unfold endedBy at hid
  split_ifs at hid
  · obtain ⟨part, hpart, rfl⟩ := mem_openReasoning.mp hid
    exact h.reasoning r part hr hpart
  · cases hid

/-- The ledger after an event that starts no response and retracts none. -/
structure Enters (w w' : Watched) (event : RuntimeEvent) : Prop where
  live : ∀ r id, (r, id) ∈ w'.ledger.live ↔ (r, id) ∈ w.ledger.live ∨
    w.turn.state.responses.current = some r ∧ id ∈ targets w.turn.state (deltaKind w.turn.state event)
  wrote : ∀ r id, (r, id) ∈ w'.ledger.wrote ↔ (r, id) ∈ w.ledger.wrote ∨
    w.turn.state.responses.current = some r ∧ id ∈ targets w.turn.state (deltaKind w.turn.state event)
  started : ∀ r c, (r, c) ∈ w'.ledger.started ↔ (r, c) ∈ w.ledger.started ∨
    w.turn.state.responses.current = some r ∧ c ∈ startedCall event
  current : w'.ledger.current = w.ledger.current

theorem enters_step (h : Sound known calls w) (hstart : ∀ r, event ≠ .responseStart r)
    (hretracted : ∀ ids reason, event ≠ .responseRetracted ids reason) :
    Enters w (w.step options (.ingest event now)) event := by
  have hrecords := records_ingest options w.turn.state event now hstart hretracted h.kept
  have hledger : (w.step options (.ingest event now)).ledger =
      { w.ledger with
        live := w.ledger.live ++ w.ledger.entries (targets w.turn.state (deltaKind w.turn.state event))
        wrote := w.ledger.wrote ++ w.ledger.entries (targets w.turn.state (deltaKind w.turn.state event))
        started := w.ledger.started ++ w.ledger.entries (startedCall event) } := by
    rw [← hrecords.deltas]
    exact after_other w.ledger _ hstart hretracted
  rw [Watched.step] at hledger ⊢
  refine ⟨fun r id => ?_, fun r id => ?_, fun r c => ?_, ?_⟩ <;> dsimp only at hledger ⊢ <;> rw [hledger]
  · rw [List.mem_append, mem_entries, h.current]
  · rw [List.mem_append, mem_entries, h.current]
  · rw [List.mem_append, mem_entries, h.current]

theorem mem_partsOf_records {answered : State × List Payload} (hrecords : Records w.turn.state event answered) (r id : String) :
    id ∈ partsOf answered.1 r ↔ id ∈ partsOf w.turn.state r ∨ w.turn.state.responses.current = some r ∧
      (id ∈ endedBy w.turn.state event ∨ id ∈ opens w.turn.state (deltaKind w.turn.state event)) := by
  rw [hrecords.parts]
  split_ifs with hr
  · rw [mem_foldl_addCall, List.mem_append]
    simp [hr]
  · simp [hr]

theorem sound_other (h : Sound known calls w) (hcalls : calls.card ≤ RETAINED_TOOL_CALLS_MAX)
    (hcl : ∀ c, (Call.ingest event now).toolCallId? = some c → c ∈ calls) (hstart : ∀ r, event ≠ .responseStart r)
    (hretracted : ∀ ids reason, event ≠ .responseRetracted ids reason) (hcond : StaysOwn w (.ingest event now)) :
    Sound known calls (w.step options (.ingest event now)) := by
  have hrecords := records_ingest options w.turn.state event now hstart hretracted h.kept
  have hstate : (w.step options (.ingest event now)).turn.state = (ingest options w.turn.state event now).1 := rfl
  obtain ⟨hlive, hwrote, hstarted, hcurrent⟩ := @enters_step _ _ options _ _ now h hstart hretracted
  have hown {r : String} (hr : w.turn.state.responses.current = some r) (kind : DeltaKind)
      (hkind : deltaKind w.turn.state event = some kind) : WritesOwn w r kind :=
    writesOwn_of_staysOwn hstart hcond hr hkind
  have hparts (r id : String) : id ∈ partsOf (ingest options w.turn.state event now).1 r ↔
      id ∈ partsOf w.turn.state r ∨ w.turn.state.responses.current = some r ∧
        id ∈ targets w.turn.state (deltaKind w.turn.state event) := by
    rw [mem_partsOf_records hrecords]
    by_cases hr : w.turn.state.responses.current = some r
    · have hsubset := @endedBy_subset _ _ _ event h _ hr id
      have htargets : _ ↔ _ := @mem_targets w _ r id (hown hr)
      tauto
    · simp [hr]
  refine ⟨(traceOf_step options "" _ hcalls h.within hcl).1, hrecords.keyed known h.keyed, ?_, fun r hr => ?_, fun r id => ?_,
    fun r => ?_, fun r c => ?_, fun r r' id hid hid' => ?_, fun entry hentry => ?_, fun r part hr hpart => ?_,
    ended_traces h hcalls hcl, fun r c hc => ?_⟩
  · rw [hstate, hrecords.current, hcurrent]
    exact h.current
  · rw [hstate, hrecords.current] at hr
    exact hrecords.kept r (h.kept r hr)
  · rw [hlive, hstate, hparts, h.parts]
  · rw [hstate, hrecords.parts]
    split_ifs
    · exact nodup_foldl_addCall (h.nodup r)
    · exact h.nodup r
  · rw [hstarted, hstate, hrecords.calls, ← h.calls]
    split_ifs with hr
    · simp [mem_foldl_addCall, hr]
    · simp [hr]
  · rcases (hlive r id).mp hid with hold | ⟨hr, htarget⟩ <;> rcases (hwrote r' id).mp hid' with hold' | ⟨hr', htarget'⟩
    · exact h.own r r' id hold hold'
    · exact (target_own h (hown hr') htarget' (h.lived _ hold)).symm
    · exact target_own h (hown hr) htarget hold'
    · exact Option.some.inj (hr'.symm.trans hr)
  · exact (hwrote entry.1 entry.2).mpr (((hlive entry.1 entry.2).mp hentry).imp_left (h.lived entry))
  · rw [hstate, hrecords.current] at hr
    rw [hstate] at hpart ⊢
    rw [hparts]
    have hreasons := hrecords.reasoning
    unfold reasonsAfter at hreasons
    split at hreasons
    · rename_i hkind
      obtain ⟨part', hpart', hid⟩ := hreasons
      obtain rfl : part' = part := Option.some.inj (hpart'.symm.trans hpart)
      exact .inr ⟨hr, by rw [hkind, hid]; exact List.mem_singleton_self _⟩
    · rw [hreasons] at hpart
      split_ifs at hpart
      exact .inl (h.reasoning r part hr hpart)
  · rcases (hstarted r c).mp hc with hold | ⟨-, hnew⟩
    · exact followed_traces h hcalls hcl hcond hold
    · have htrace : traceOf (w.turn.step options (.ingest event now)) c = (traceOf w.turn c).step .start := by
        rw [(traceOf_step options c _ hcalls h.within hcl).2, startedCall_told hnew]
        rfl
      change CallTrace.Followed (traceOf (w.turn.step options (.ingest event now)) c)
      rw [htrace]
      exact CallTrace.followed_start

end

theorem event_cases (event : RuntimeEvent) :
    (∃ r, event = .responseStart r) ∨ (∃ ids reason, event = .responseRetracted ids reason) ∨
      ((∀ r, event ≠ .responseStart r) ∧ ∀ ids reason, event ≠ .responseRetracted ids reason) := by
  cases event with
  | responseStart r => exact .inl ⟨r, rfl⟩
  | responseRetracted ids reason => exact .inr (.inl ⟨ids, reason, rfl⟩)
  | _ => exact .inr (.inr ⟨nofun, nofun⟩)

/-! ### A response and its own parts -/

/-- What a retraction of one response tells of it. -/
structure Exact (w : Watched) : Prop where
  parts : ∀ r id, id ∈ partsOf w.turn.state r ↔ (r, id) ∈ w.ledger.live
  own : ∀ r r' id, id ∈ partsOf w.turn.state r → (r', id) ∈ w.ledger.wrote → r' = r
  tools : ∀ r c, (r, c) ∈ w.ledger.started → w.stillOpen c → (recordOf w.turn.state c).isOpen = true

theorem exact_of_retractsExactly (hstatus : Keyed calls w.turn.state.toolStatusByCallId)
    (hkept : ∀ r, w.turn.state.responses.current = some r → (Assoc.lookup r w.turn.state.responses.members).isSome = true)
    (h : RetractsExactly options w) : Exact w := by
  have hretracts (r : String) : Retracts w.turn.state [r] "" (ingest options w.turn.state (.responseRetracted [r] "") 0) :=
    retracts_ingest options 0 hstatus.1 hkept
  have hparts (r : String) : ∃ parts : List PartRef,
      retractions (ingest options w.turn.state (.responseRetracted [r] "") 0).2 = (if parts = [] then [] else [("", parts)]) ∧
      ∀ id, id ∈ parts.map PartRef.partID ↔ id ∈ partsOf w.turn.state r := by
    obtain ⟨parts, heq, hnamed⟩ := (hretracts r).named
    exact ⟨parts, heq, fun id => by rw [hnamed]; simp [firsts]⟩
  refine ⟨fun r id => ?_, fun r r' id hid hwrote => ?_, fun r c hstarted hopen => ?_⟩
  · obtain ⟨parts, heq, hmem⟩ := hparts r
    obtain ⟨parts', heq', -, hmem'⟩ := (h [r] "" 0).named
    have hsame : parts = parts' := by
      have heq' : (if parts = [] then [] else [("", parts)]) = if parts' = [] then [] else [("", parts')] := heq.symm.trans heq'
      split_ifs at heq' <;> simp_all
    rw [← hmem, hsame, hmem']
    simp
  · obtain ⟨parts, heq, hmem⟩ := hparts r
    obtain ⟨part, hpart, rfl⟩ := List.mem_map.mp ((hmem id).mpr hid)
    have hne : parts ≠ [] := List.ne_nil_of_mem hpart
    rw [if_neg hne] at heq
    refine List.mem_singleton.mp ((h [r] "" 0).others parts ?_ part hpart r' hwrote)
    exact List.mem_map.mpr ⟨("", parts), heq ▸ List.mem_singleton_self _, rfl⟩
  · have hmem := ((h [r] "" 0).tools c).mpr ⟨⟨r, List.mem_singleton_self r, hstarted⟩, hopen⟩
    exact (((hretracts r).tools c).mp hmem).2

theorem writesOwn_of_exact {event : RuntimeEvent} {now : ℕ} (h : Sound known calls w) {r : String} {kind : DeltaKind}
    (hstart : ∀ r, event ≠ .responseStart r) (hretracted : ∀ ids reason, event ≠ .responseRetracted ids reason)
    (hexact : Exact (w.step options (.ingest event now))) (hr : w.turn.state.responses.current = some r)
    (hkind : deltaKind w.turn.state event = some kind) : WritesOwn w r kind := by
  have hrecords := records_ingest options w.turn.state event now hstart hretracted h.kept
  have henters := @enters_step _ _ options _ _ now h hstart hretracted
  have hparts (id : String) : id ∈ partsOf (w.step options (.ingest event now)).turn.state r ↔ id ∈ partsOf w.turn.state r ∨
      w.turn.state.responses.current = some r ∧
        (id ∈ endedBy w.turn.state event ∨ id ∈ opens w.turn.state (deltaKind w.turn.state event)) :=
    mem_partsOf_records hrecords r id
  have htarget : targetId w.turn.state kind ∈ targets w.turn.state (deltaKind w.turn.state event) := by
    rw [hkind]
    exact List.mem_singleton_self _
  have hnamed : targetId w.turn.state kind ∈ partsOf (w.step options (.ingest event now)).turn.state r :=
    (hexact.parts r _).mpr ((henters.live r _).mpr (.inr ⟨hr, htarget⟩))
  unfold WritesOwn
  split_ifs with hseen
  · have hopens : opens w.turn.state (some kind) = [] := if_pos hseen
    rcases (hparts _).mp hnamed with hold | ⟨-, hended | hopened⟩
    · exact hold
    · exact endedBy_subset h hr _ hended
    · rw [hkind, hopens] at hopened
      cases hopened
  · rintro ⟨r', id⟩ hwrote rfl
    exact hexact.own r r' _ hnamed ((henters.wrote r' _).mpr (.inl hwrote))

section
variable (h : Sound known calls w) (hcalls : calls.card ≤ RETAINED_TOOL_CALLS_MAX) (hknown : known.card ≤ RETAINED_RESPONSES_MAX)
  (hcl : ∀ c, cl.toolCallId? = some c → c ∈ calls) (hr : ∀ r, cl.responseId? = some r → r ∈ known)
include h hcalls hknown hr

theorem kept_step (r : String) (hcurrent : (w.step options cl).turn.state.responses.current = some r) :
    (Assoc.lookup r (w.step options cl).turn.state.responses.members).isSome = true := by
  cases cl with
  | thrown => exact h.kept r hcurrent
  | terminalizeOpenTools error now => exact (sound_terminalize h hcalls error now).kept r hcurrent
  | ingest event now =>
    rcases event_cases event with ⟨r', rfl⟩ | ⟨ids, reason, rfl⟩ | ⟨hstart, hretracted⟩
    · obtain ⟨hstarts, -⟩ := starts_ingest options w.turn.state r' now h.keyed (hr r' rfl) hknown
      obtain rfl : r' = r := Option.some.inj (hstarts.current.symm.trans hcurrent)
      exact hstarts.kept
    · exact (sound_responseRetracted h hcalls).kept r hcurrent
    · have hrecords := records_ingest options w.turn.state event now hstart hretracted h.kept
      exact hrecords.kept r (h.kept r (hrecords.current.symm.trans hcurrent))

include hcl

theorem sound_step (hcond : StaysOwn w cl) : Sound known calls (w.step options cl) := by
  cases cl with
  | thrown => exact sound_thrown h hcalls
  | terminalizeOpenTools error now => exact sound_terminalize h hcalls error now
  | ingest event now =>
    rcases event_cases event with ⟨r, rfl⟩ | ⟨ids, reason, rfl⟩ | ⟨hstart, hretracted⟩
    · exact sound_responseStart h hcalls hknown (hr r rfl) hcond
    · exact sound_responseRetracted h hcalls
    · exact sound_other h hcalls hcl hstart hretracted hcond

theorem staysOwn_of_exact (hexact : Exact (w.step options cl)) : StaysOwn w cl := by
  cases cl with
  | thrown => exact trivial
  | terminalizeOpenTools error now => exact trivial
  | ingest event now =>
    cases event with
    | responseStart r =>
      intro part hpart
      obtain ⟨hstarts, -⟩ := starts_ingest options w.turn.state r now h.keyed (hr r rfl) hknown
      have hnamed : part.partId ∈ partsOf (w.step options (.ingest (.responseStart r) now)).turn.state r := by
        have hparts := hstarts.parts r
        rw [if_pos rfl] at hparts
        refine (congrArg (part.partId ∈ ·) hparts).mpr ?_
        exact mem_foldl_addCall.mpr (.inr (mem_openReasoning.mpr ⟨part, hpart, rfl⟩))
      exact (h.parts r _).mpr ((hexact.parts r _).mp hnamed)
    | responseRetracted ids reason => exact fun _ _ _ hkind => by cases hkind
    | toolLocation c locations =>
      rintro ⟨r, hstarted⟩
      have henters : Enters w (w.step options (.ingest (.toolLocation c locations) now)) (.toolLocation c locations) :=
        enters_step h (fun _ h => by cases h) (fun _ _ h => by cases h)
      have htrace : traceOf (w.turn.step options (.ingest (.toolLocation c locations) now)) c =
          (traceOf w.turn c).step .location := by
        rw [(traceOf_step options c _ hcalls h.within hcl).2]
        have htold : (Call.ingest (.toolLocation c locations) now).told w.turn.state c = some .location := if_pos rfl
        rw [htold]
        rfl
      rw [any_isOpen]
      by_contra hclosed
      obtain ⟨hrecord, hshown⟩ := CallTrace.not_location_followed (t := traceOf w.turn c) (Bool.not_eq_true _ ▸ hclosed)
      rw [← htrace] at hrecord hshown
      have hopen := hexact.tools r c ((henters.started r c).mpr (.inl hstarted)) hshown
      exact absurd (hrecord.symm.trans hopen) Bool.false_ne_true
    | _ => exact fun _ _ => writesOwn_of_exact h (fun _ h => by cases h) (fun _ _ h => by cases h) hexact

theorem retractsExactly_step : RetractsExactly options (w.step options cl) ↔ StaysOwn w cl := by
  have hwithin : Within calls (w.step options cl).turn.state := (traceOf_step options "" cl hcalls h.within hcl).1
  constructor
  · intro hexact
    exact staysOwn_of_exact h hcalls hknown hcl hr
      (exact_of_retractsExactly hwithin.status (kept_step h hcalls hknown hr) hexact)
  · exact fun hcond => (sound_step h hcalls hknown hcl hr hcond).retractsExactly

end

/-! ### A run -/

theorem sound_watch {calls : List Call} {known : Finset String} {tools : Finset String}
    (htools : tools.card ≤ RETAINED_TOOL_CALLS_MAX) (hknown : known.card ≤ RETAINED_RESPONSES_MAX)
    (hcalls : ∀ cl ∈ calls, ∀ c, cl.toolCallId? = some c → c ∈ tools)
    (hresponses : ∀ cl ∈ calls, ∀ r, cl.responseId? = some r → r ∈ known) :
    ((∀ before, before <+: calls → RetractsExactly options (watch options before)) ↔
      Meets (Watched.step options) StaysOwn (Watched.start options) calls) ∧
    (Meets (Watched.step options) StaysOwn (Watched.start options) calls → Sound known tools (watch options calls)) := by
  induction calls using List.reverseRecOn with
  | nil =>
    have hstart := sound_start known tools options
    refine ⟨iff_of_true (fun before hbefore => ?_) trivial, fun _ => hstart⟩
    rw [List.prefix_nil.mp hbefore]
    exact hstart.retractsExactly
  | append_singleton calls cl ih =>
    obtain ⟨hcalls, hcl⟩ := List.forall_mem_append.mp hcalls
    obtain ⟨hresponses, hr⟩ := List.forall_mem_append.mp hresponses
    obtain ⟨hiff, hsound⟩ := ih hcalls hresponses
    have hlast := List.mem_singleton_self cl
    have hstep : watch options (calls ++ [cl]) = (watch options calls).step options cl := run_snoc _ _ _ _
    have hmeets : Meets (Watched.step options) StaysOwn (Watched.start options) (calls ++ [cl]) ↔
        Meets (Watched.step options) StaysOwn (Watched.start options) calls ∧ StaysOwn (watch options calls) cl := by
      rw [meets_append]
      exact and_congr_right fun _ => and_iff_left trivial
    rw [hmeets, hstep]
    refine ⟨⟨fun h => ?_, fun ⟨h, hcond⟩ before hbefore => ?_⟩, fun ⟨h, hcond⟩ => ?_⟩
    · have hbefore := hiff.mp fun before hbefore => h before (hbefore.trans (List.prefix_append _ _))
      have hexact := h _ (List.prefix_refl _)
      rw [hstep] at hexact
      exact ⟨hbefore, (retractsExactly_step (hsound hbefore) htools hknown (hcl cl hlast) (hr cl hlast)).mp hexact⟩
    · rcases List.prefix_concat_iff.mp hbefore with rfl | hbefore
      · rw [hstep]
        exact (retractsExactly_step (hsound h) htools hknown (hcl cl hlast) (hr cl hlast)).mpr hcond
      · exact hiff.mpr h before hbefore
    · exact sound_step (hsound h) htools hknown (hcl cl hlast) (hr cl hlast) hcond

end

theorem mem_responses {calls : List Call} : ∀ cl ∈ calls, ∀ r, cl.responseId? = some r → r ∈ responses calls := by
  intro cl hcl r hr
  exact List.mem_toFinset.mpr (List.mem_filterMap.mpr ⟨cl, hcl, hr⟩)

/-- At every point of a turn a retraction withdraws exactly what its responses wrote, exactly as long as every response
keeps to its own parts. -/
theorem retractsExactly_iff_staysOwn (options : Options) (calls : List Call)
    (htools : (toolCalls calls).card ≤ RETAINED_TOOL_CALLS_MAX) (hresponses : (responses calls).card ≤ RETAINED_RESPONSES_MAX) :
    (∀ before, before <+: calls → RetractsExactly options (watch options before)) ↔
      Meets (Watched.step options) StaysOwn (Watched.start options) calls :=
  (sound_watch htools hresponses mem_toolCalls mem_responses).1

theorem staysOwn_delta {w : Watched} {event : RuntimeEvent} {now : ℕ} {r : String} {kind : DeltaKind}
    (hr : w.turn.state.responses.current = some r) (hkind : deltaKind w.turn.state event = some kind)
    (h : WritesOwn w r kind) : StaysOwn w (.ingest event now) := by
  have hown : ∀ r' kind', w.turn.state.responses.current = some r' → deltaKind w.turn.state event = some kind' →
      WritesOwn w r' kind' := by
    intro r' kind' hr' hkind'
    obtain rfl : r = r' := Option.some.inj (hr.symm.trans hr')
    obtain rfl : kind = kind' := Option.some.inj (hkind.symm.trans hkind')
    exact h
  cases event with
  | responseStart | toolLocation => cases hkind
  | _ => exact hown

/-- Two responses, of which the first thinks, runs a command and answers before the second starts. -/
def answeredTwice : List Call :=
  [.ingest (.responseStart "response-1") 100, .ingest (.thinkingDelta "why") 100, .ingest (.textDelta "so") 101,
   .ingest (.toolStart "tool-1" "bash" none none) 102, .ingest (.responseStart "response-2") 103,
   .ingest (.textDelta "then") 104]

theorem retracts_answeredTwice : RetractsExactly (.beside "session-1" "msg_turn_1_r")
    (watch (.beside "session-1" "msg_turn_1_r") answeredTwice) := by
  refine (retractsExactly_iff_staysOwn _ answeredTwice (by decide) (by decide)).mpr
    ⟨?_, ?_, ?_, ?_, ?_, ?_, trivial⟩ _ (List.prefix_refl _)
  · exact fun part h => by cases h
  · exact staysOwn_delta (r := "response-1") (by decide +kernel) rfl (by decide +kernel)
  · exact staysOwn_delta (r := "response-1") (by decide +kernel) rfl (by decide +kernel)
  · exact fun _ _ _ h => by cases h
  · have hnone : (watch (.beside "session-1" "msg_turn_1_r") (answeredTwice.take 4)).turn.state.openReasoning = none := by
      decide +kernel
    exact fun part h => by cases hnone.symm.trans h
  · exact staysOwn_delta (r := "response-2") (by decide +kernel) rfl (by decide +kernel)

/-- A response that was still thinking when the next one started. -/
def thoughtOn : List Call :=
  [.ingest (.responseStart "response-1") 100, .ingest (.thinkingDelta "why") 100, .ingest (.responseStart "response-2") 101]

theorem retraction_names_other_response :
    ¬ ∀ (options : Options) (calls : List Call), (responses calls).card ≤ RETAINED_RESPONSES_MAX →
      RetractsExactly options (watch options calls) := by
  intro h
  have hothers := (h (.beside "session-1" "msg_turn_1_r") thoughtOn (by decide) ["response-2"] "refusal" 102).others
  have hnamed : (retractions (call (.beside "session-1" "msg_turn_1_r")
      (watch (.beside "session-1" "msg_turn_1_r") thoughtOn).turn.state
      (.ingest (.responseRetracted ["response-2"] "refusal") 102)).2).map Prod.snd =
      [[⟨"msg_turn_1_r", "000000_msg_turn_1_r-reasoning"⟩]] := by decide +kernel
  have hwrote : ("response-1", "000000_msg_turn_1_r-reasoning") ∈
      (watch (.beside "session-1" "msg_turn_1_r") thoughtOn).ledger.wrote := by decide +kernel
  rw [hnamed] at hothers
  exact absurd (hothers _ (List.mem_singleton_self _) _ (List.mem_singleton_self _) _ hwrote) (by decide)

end Claxedo.Presentation
