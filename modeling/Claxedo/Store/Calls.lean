import Claxedo.Store.Homes

/-! Every call of the store is a list of moves, each made where it is legal, of rows that are at home
where the call's own arguments are. -/

namespace Claxedo.Store

open Lib RuntimeStore

variable (home : Homes)

/-- What the call's arguments name is the session's own. -/
def StoreCall.AtHome : StoreCall → Prop
  | .startTurn sessionId _ turn _ _ _ => (Content.control (.turnStart turn)).AtHome home sessionId
  | .appendEvent sessionId _ payload _ _ _ _ => (Content.event payload).AtHome home sessionId
  | .brokerTransaction calls _ => ∀ call ∈ calls, ∀ entry, BrokerCall.Writes call entry →
      entry.content.AtHome home entry.sessionId
  | _ => True

/-- A broker's transaction that lands finds no delta of the sessions it writes still pending. -/
def StoreCall.Quiet (σ : RuntimeStore) : StoreCall → Prop
  | .brokerTransaction calls throws => (σ.brokerTransaction calls throws).2 = .ok () →
      ∀ call ∈ calls, ∀ entry, BrokerCall.Writes call entry → σ.pendingOf entry.sessionId = []
  | _ => True

/-- The moves a call may make. -/
structure Allowed (quiet : Prop) (σ : RuntimeStore) (m : Move) : Prop where
  legal : σ.Legal m
  home : m.AtHome home
  quiet : quiet → σ.Quiet m

variable {home}

variable {quiet : Prop} {σ : RuntimeStore} {sessionId : String} {db : Database}

theorem allowed_settle (sessionId : Option String) :
    Allowed home quiet σ (.settle sessionId) :=
  ⟨trivial, fun row hrow => absurd hrow (by simp [Move.row?]), fun _ => trivial⟩

theorem allowed_replay {stops : Option ℕ} (h : σ.Legal (.replay sessionId stops)) :
    Allowed home quiet σ (.replay sessionId stops) :=
  ⟨h, fun row hrow => absurd hrow (by simp [Move.row?]), fun _ => trivial⟩

namespace RuntimeStore

/-- From one state to another by allowed moves. -/
def MovesTo (home : Homes) (quiet : Prop) (σ σ' : RuntimeStore) : Prop :=
  ∃ moves, σ' = Lib.run move σ moves ∧ Meets move (Allowed home quiet) σ moves

namespace MovesTo

variable {quiet : Prop} {σ σ' σ'' : RuntimeStore}

theorem refl (σ : RuntimeStore) : MovesTo home quiet σ σ := ⟨[], rfl, trivial⟩

theorem trans (h : MovesTo home quiet σ σ') (h' : MovesTo home quiet σ' σ'') : MovesTo home quiet σ σ'' := by
  obtain ⟨moves, rfl, hmoves⟩ := h
  obtain ⟨moves', rfl, hmoves'⟩ := h'
  exact ⟨moves ++ moves', (run_append _ _ _ _).symm, (meets_append _ _ _ _ _).mpr ⟨hmoves, hmoves'⟩⟩

theorem one {m : Move} (h : Allowed home quiet σ m) : MovesTo home quiet σ (σ.move m) := ⟨[m], rfl, h, trivial⟩

theorem of_takesIn {sessionId : String} {stops : Option ℕ} (h : σ.TakesIn sessionId stops σ') : MovesTo home quiet σ σ' := by
  have hlevel : MovesTo home quiet σ (σ.level sessionId stops) := by
    rcases σ.level_cases sessionId stops with hsame | ⟨hfailed, hreplay⟩
    · rw [hsame]
      exact .refl σ
    · rw [hreplay]
      exact .one (allowed_replay (.inl hfailed))
  rcases h with rfl | rfl
  · exact hlevel
  · exact hlevel.trans (.one (allowed_settle (some sessionId)))

theorem tidy (h : MovesTo home quiet σ σ') (hσ : σ.Tidy home) : σ'.Tidy home := by
  obtain ⟨moves, rfl, hmoves⟩ := h
  exact invariant_of_meets (RuntimeStore.Tidy home) (fun _ _ ht hm => ht.move hm.home) hσ hmoves

end MovesTo

theorem failed_of_level {σ σ' : RuntimeStore} {sessionId : String} {stops : Option ℕ}
    (h : σ.assertProjectionCurrent sessionId stops = (σ', none)) : σ'.failedProjections sessionId = none := by
  unfold assertProjectionCurrent at h
  rcases hfailed : σ.failedProjections sessionId with _ | failure
  · rw [hfailed] at h
    rw [← (Prod.mk.inj h).1]
    exact hfailed
  · rw [hfailed] at h
    dsimp only at h
    generalize (if failure.repairable = true then σ.replay sessionId stops else (σ, true)) = replayed at h
    obtain ⟨σ₁, replayed⟩ := replayed
    cases replayed with
    | true =>
      obtain ⟨rfl, hnone⟩ := Prod.mk.inj h
      exact Option.map_eq_none_iff.mp hnone
    | false => cases (Prod.mk.inj h).2

variable {quiet : Prop} {σ σ' : RuntimeStore}

theorem commit_moves (σ : RuntimeStore) (entry : Entry) (hentry : entry.content.AtHome home entry.sessionId)
    (fencingToken : Option ℤ) (advance : Bool) (stops : Option ℕ) (throws : Bool) :
    MovesTo home quiet σ (σ.commit entry fencingToken advance stops throws).1 := by
  have hlevel : σ.TakesIn entry.sessionId stops (σ.assertProjectionCurrent entry.sessionId stops).1 := .inl rfl
  have hsettled : σ.TakesIn entry.sessionId stops
      ((σ.assertProjectionCurrent entry.sessionId stops).1.settleDeltas (some entry.sessionId)) := .inr rfl
  have hfailed := @failed_of_level σ (σ.assertProjectionCurrent entry.sessionId stops).1 entry.sessionId stops
  unfold commit
  rcases hassert : σ.assertProjectionCurrent entry.sessionId stops with ⟨σ₁, _ | error⟩
  swap
  · exact .of_takesIn (hassert ▸ hlevel)
  rw [hassert] at hlevel hsettled hfailed
  have hfailed := hfailed rfl
  dsimp only at hlevel hsettled hfailed ⊢
  by_cases hdeleted : σ₁.db.deletedSession entry.sessionId ∧ ¬ entry.survivesDelete
  · rw [if_pos hdeleted]
    exact .of_takesIn hlevel
  rw [if_neg hdeleted]
  by_cases hdelta : entry.isDelta
  · -- A delta is journaled and deferred; nothing is settled ahead of it.
    simp only [if_pos hdelta]
    split_ifs with hrefused
    · exact .of_takesIn hlevel
    · have hopen : σ₁.db.deletedSession entry.sessionId = false := by
        by_contra hgone
        refine hdeleted ⟨by simpa using hgone, ?_⟩
        unfold Entry.isDelta Row.isDelta Entry.row at hdelta
        unfold Entry.survivesDelete
        split at hdelta
        · simp_all
        · cases hdelta
      exact (MovesTo.of_takesIn hlevel).trans (.one (m := .defer (entry.row (σ₁.db.next entry.sessionId)))
        ⟨⟨rfl, hfailed, hdelta, hopen⟩, fun row hrow => Option.some.inj hrow ▸ hentry, fun _ => trivial⟩)
  · simp only [if_neg hdelta]
    have hfailed' : (σ₁.settleDeltas (some entry.sessionId)).failedProjections entry.sessionId = none := by
      rw [failedProjections_settleDeltas]
      exact hfailed
    have hquiet : (σ₁.settleDeltas (some entry.sessionId)).pendingOf entry.sessionId = [] := pendingOf_settled ..
    split_ifs with hrefused hthrows hfence
    · exact .of_takesIn hsettled
    · exact .of_takesIn hsettled
    · exact (MovesTo.of_takesIn hsettled).trans (.one (m := .fail (entry.row _))
        ⟨⟨rfl, hfailed', fun _ => hquiet⟩, fun row hrow => Option.some.inj hrow ▸ hentry, fun _ => hquiet⟩)
    · exact (MovesTo.of_takesIn hsettled).trans (.one (m := .project (entry.row _))
        ⟨⟨rfl, hfailed', fun _ => hquiet⟩, fun row hrow => Option.some.inj hrow ▸ hentry, fun _ => hquiet⟩)

theorem commitInside_moves {entry : Entry} {fencingToken : Option ℤ} (h : σ.commitInside entry fencingToken = .ok σ')
    (hentry : entry.content.AtHome home entry.sessionId) (hplain : ∀ seq, (entry.row seq).turnStart? = none)
    (hquiet : quiet → σ.pendingOf entry.sessionId = []) :
    MovesTo home quiet σ σ' ∧ σ'.pendingDeltas = σ.pendingDeltas := by
  obtain ⟨-, hfailed, rfl⟩ := commitInside_ok h
  have hstart : (entry.row (σ.db.next entry.sessionId)).turnStart?.isSome → σ.pendingOf entry.sessionId = [] := fun hstart =>
    absurd hstart (by simp [hplain])
  exact ⟨.one (m := .project (entry.row _)) ⟨⟨rfl, hfailed, hstart⟩, fun row hrow => Option.some.inj hrow ▸ hentry, hquiet⟩, rfl⟩

theorem commitAll_moves {entries : List Entry} {fencingToken : Option ℤ} (h : σ.commitAll fencingToken entries = .ok σ')
    (hentries : ∀ entry ∈ entries, entry.content.AtHome home entry.sessionId)
    (hplain : ∀ entry ∈ entries, ∀ seq, (entry.row seq).turnStart? = none)
    (hquiet : ∀ entry ∈ entries, quiet → σ.pendingOf entry.sessionId = []) : MovesTo home quiet σ σ' := by
  induction entries generalizing σ with
  | nil =>
    obtain rfl : σ = σ' := Except.ok.inj h
    exact .refl σ
  | cons entry entries ih =>
    obtain ⟨hentry, hrest⟩ := List.forall_mem_cons.mp hentries
    obtain ⟨hstart, hstarts⟩ := List.forall_mem_cons.mp hplain
    rw [commitAll] at h
    split at h
    · rename_i σ₁ hok
      obtain ⟨hmoves, hpending⟩ := commitInside_moves hok hentry hstart (hquiet entry List.mem_cons_self)
      refine hmoves.trans (ih h hrest hstarts fun e he hq => ?_)
      rw [pendingOf, hpending]
      exact hquiet e (List.mem_cons_of_mem _ he) hq
    · cases h

theorem BrokerCall.Writes.plain {call : BrokerCall} {entry : Entry} (h : call.Writes entry) (seq : ℕ) :
    (entry.row seq).turnStart? = none := by
  cases call with
  | appendInside sessionId payload ts =>
    obtain rfl : entry = _ := h
    rfl
  | persistGrantInside sessionId grantKey ts =>
    obtain ⟨patch, rfl⟩ := h
    rfl

theorem brokerRun_moves {calls : List BrokerCall} (h : σ.brokerRun calls = .ok σ')
    (hhome : ∀ call ∈ calls, ∀ entry, BrokerCall.Writes call entry → entry.content.AtHome home entry.sessionId)
    (hquiet : ∀ call ∈ calls, ∀ entry, BrokerCall.Writes call entry → quiet → σ.pendingOf entry.sessionId = []) :
    MovesTo home quiet σ σ' := by
  induction calls generalizing σ with
  | nil =>
    obtain rfl : σ = σ' := Except.ok.inj h
    exact .refl σ
  | cons call calls ih =>
    obtain ⟨entry, σ₁, hwrites, hok, hrun⟩ := brokerRun_cons h
    obtain ⟨hmoves, hpending⟩ := commitInside_moves hok (hhome call List.mem_cons_self entry hwrites) hwrites.plain
      (hquiet call List.mem_cons_self entry hwrites)
    refine hmoves.trans (ih hrun (fun c hc => hhome c (List.mem_cons_of_mem _ hc)) fun c hc e he hq => ?_)
    rw [pendingOf, hpending]
    exact hquiet c (List.mem_cons_of_mem _ hc) e he hq

end RuntimeStore

theorem Database.Tidy.latestTurnStart (h : db.Tidy home) {row : Row} {turn : Turn}
    (hstart : db.latestTurnStart sessionId = some (row, turn)) : home.message turn.assistantMessageId = sessionId := by
  obtain ⟨r, hr, hturn⟩ := List.mem_filterMap.mp (List.mem_of_getLast? hstart)
  obtain ⟨turn', hturn', heq⟩ := Option.map_eq_some_iff.mp hturn
  obtain ⟨hr, hsession⟩ := List.mem_filter.mp hr
  have hhome := h.journal r hr
  unfold Row.turnStart? at hturn'
  split at hturn'
  · rename_i turn'' hcontent
    rw [hcontent] at hhome
    rw [← Option.some.inj hturn', Prod.mk.injEq] at heq
    rw [← heq.2, hhome.1]
    exact of_decide_eq_true hsession
  · cases hturn'

theorem Database.Tidy.latestReplySegment (h : db.Tidy home) {turnId : String} {info : MessageInfo}
    (hsegment : db.latestReplySegment sessionId turnId = some info) : home.message info.id = sessionId := by
  obtain ⟨r, hr, rfl⟩ := Option.map_eq_some_iff.mp (Option.filter_eq_some_iff.mp hsegment).1
  have hmem : ∀ (rows : List MessageRow) (newest : Option MessageRow),
      rows.foldl (fun newest row => if newest.all (·.ord ≤ row.ord) then some row else newest) newest = some r →
        newest = some r ∨ r ∈ rows := by
    intro rows
    induction rows with
    | nil => exact fun newest hnewest => .inl hnewest
    | cons row rows ih =>
      intro newest hnewest
      rcases ih _ hnewest with hnew | hnew
      · dsimp only at hnew
        by_cases hlater : newest.all (·.ord ≤ row.ord)
        · rw [if_pos hlater] at hnew
          exact .inr (Option.some.inj hnew ▸ List.mem_cons_self)
        · rw [if_neg hlater] at hnew
          exact .inl hnew
      · exact .inr (List.mem_cons_of_mem _ hnew)
  rcases hmem _ _ hr with hnone | hrow
  · cases hnone
  · obtain ⟨hrow, hsession⟩ := List.mem_filter.mp hrow
    have hathome := h.message r hrow
    rw [hathome.id, hathome.home]
    simp only [decide_eq_true_eq] at hsession
    exact hsession.1

theorem Database.Tidy.finishEntries (h : db.Tidy home) {active : Row} {turn : Turn}
    (hstart : db.latestTurnStart sessionId = some (active, turn)) (outcome : AgentTurnOutcome) (now : ℕ → ℕ) :
    ∀ entry ∈ finishEntries db sessionId active turn outcome now,
      entry.sessionId = sessionId ∧ entry.content.AtHome home entry.sessionId ∧ ∀ seq, (entry.row seq).turnStart? = none := by
  have hreply : home.message (((db.latestReplySegment sessionId turn.assistantMessageId).map (·.id)).getD
      turn.assistantMessageId) = sessionId := by
    rcases hsegment : db.latestReplySegment sessionId turn.assistantMessageId with _ | info
    · exact h.latestTurnStart hstart
    · exact h.latestReplySegment hsegment
  have hevents : ∀ payload ∈ terminalEvents db sessionId active turn outcome,
      (Content.event payload).AtHome home sessionId := by
    intro payload hpayload
    unfold terminalEvents at hpayload
    dsimp only at hpayload
    split at hpayload
    · simp only [List.mem_cons, List.not_mem_nil, or_false] at hpayload
      rcases hpayload with rfl | rfl
      · exact ⟨rfl, hreply⟩
      · exact fun id hid => (Option.some.inj hid).symm
    all_goals
      rcases List.mem_append.mp hpayload with hpayload | hpayload
      · split_ifs at hpayload
        · cases hpayload
        · rw [List.mem_singleton.mp hpayload]
          exact hreply
      · rw [List.mem_singleton.mp hpayload]
        rfl
  intro entry hentry
  rcases List.mem_append.mp hentry with hentry | hentry
  · obtain ⟨⟨payload, i⟩, hpayload, rfl⟩ := List.mem_map.mp hentry
    exact ⟨rfl, hevents payload (List.fst_mem_of_mem_zipIdx hpayload), fun _ => rfl⟩
  · rw [List.mem_singleton.mp hentry]
    exact ⟨rfl, trivial, fun _ => rfl⟩

open RuntimeStore in
theorem step_moves (hσ : σ.Tidy home) {call : StoreCall} (hcall : call.AtHome home) :
    MovesTo home (call.Quiet σ) σ (σ.step call) := by
  cases call with
  | startTurn sessionId agentSessionId turn ts stops throws =>
    unfold step startTurn
    dsimp only
    split
    · split_ifs <;> exact .refl σ
    · exact commit_moves σ { sessionId, ts, agentSessionId, content := .control (.turnStart turn) } hcall _ _ _ _
  | appendEvent sessionId agentSessionId payload fencingToken ts stops throws =>
    exact commit_moves σ { sessionId, ts, agentSessionId, content := .event payload } hcall _ _ _ _
  | sessionControl sessionId agentSessionId control ts stops throws =>
    exact commit_moves σ { sessionId, ts, agentSessionId, content := .control (.session control) } trivial _ _ _ _
  | interruptTurn sessionId assistantMessageId leaseId fencingToken message ts stops throws =>
    rcases interruptTurn_cases σ sessionId assistantMessageId leaseId fencingToken message ts stops throws with
      hin | ⟨agentSessionId, hok⟩
    · exact .of_takesIn hin
    · exact (MovesTo.of_takesIn (.settled σ sessionId stops)).trans
        (commitInside_moves hok trivial (fun _ => rfl) fun _ => pendingOf_settled _ _).1
  | finishTurn sessionId assistantMessageId leaseId fencingToken outcome now stops throws =>
    rcases finishTurn_cases σ sessionId assistantMessageId leaseId fencingToken outcome now stops throws with
      hin | ⟨σ₁, active, turn, hsettled, hstart, -, -, -, hok⟩
    · exact .of_takesIn hin
    · have hmoves : MovesTo home (StoreCall.Quiet σ (.finishTurn sessionId assistantMessageId leaseId fencingToken outcome now
          stops throws)) σ σ₁ := .of_takesIn (.inr hsettled)
      have hentries := (hmoves.tidy hσ).db.finishEntries hstart outcome now
      refine hmoves.trans (commitAll_moves hok (fun entry hentry => (hentries entry hentry).2.1)
        (fun entry hentry => (hentries entry hentry).2.2) fun entry hentry _ => ?_)
      rw [(hentries entry hentry).1, hsettled]
      exact pendingOf_settled _ _
  | brokerTransaction calls throws =>
    rcases transaction_cases σ (σ.brokerRun calls) throws with hsame | hok
    · unfold step brokerTransaction
      dsimp only
      rw [hsame]
      exact .refl σ
    · cases throws with
      | false =>
        have hlands : (σ.brokerTransaction calls false).2 = .ok () := by rw [brokerTransaction, hok, transaction, if_neg nofun]
        exact brokerRun_moves hok hcall fun c hc entry hentry hq => hq hlands c hc entry hentry
      | true =>
        unfold step brokerTransaction
        dsimp only
        rw [transaction_throws]
        exact .refl σ
  | settleDeltas sessionId =>
    exact .one (allowed_settle sessionId)
  | recover sessionId stops =>
    exact (MovesTo.one (allowed_settle (some sessionId))).trans (.one (allowed_replay (.inr (pendingOf_settled σ sessionId))))
  | acquireLease sessionId leaseId =>
    unfold step acquireLease
    dsimp only
    split_ifs
    · exact .refl σ
    · exact .one (m := .lease _) ⟨trivial, fun row hrow => absurd hrow (by simp [Move.row?]), fun _ => trivial⟩
  | releaseLease sessionId leaseId =>
    unfold step releaseLease
    dsimp only
    split_ifs
    · exact .one (m := .lease _) ⟨trivial, fun row hrow => absurd hrow (by simp [Move.row?]), fun _ => trivial⟩
    · exact .refl σ
  | reopen => exact .one (m := .reopen) ⟨trivial, fun row hrow => absurd hrow (by simp [Move.row?]), fun _ => trivial⟩

open RuntimeStore in
theorem run_moves (hσ : σ.Tidy home) {calls : List StoreCall}
    (h : Meets RuntimeStore.step (fun σ call => call.AtHome home ∧ (quiet → call.Quiet σ)) σ calls) :
    MovesTo home quiet σ (Lib.run RuntimeStore.step σ calls) := by
  induction calls generalizing σ with
  | nil => exact .refl σ
  | cons call calls ih =>
    obtain ⟨⟨hhome, hquiet⟩, hrest⟩ := h
    obtain ⟨moves, hmoves, hallowed⟩ := step_moves hσ hhome
    have hstep : MovesTo home quiet σ (σ.step call) := ⟨moves, hmoves, meets_mono (fun σ' m hm =>
      ⟨hm.legal, hm.home, fun hq => hm.quiet (hquiet hq)⟩) hallowed⟩
    exact hstep.trans (ih (hstep.tidy hσ) hrest)

theorem tidy_empty (home : Homes) : RuntimeStore.Tidy home {} :=
  ⟨⟨fun _ h => absurd h List.not_mem_nil, fun _ h => absurd h List.not_mem_nil, fun _ h => absurd h List.not_mem_nil⟩,
    fun _ h => absurd h List.not_mem_nil⟩

end Claxedo.Store
