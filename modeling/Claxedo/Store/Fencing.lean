import Claxedo.Store.Journal

/-! Turns and their fence: the tokens of a session's turn starts never decrease, a stale token
journals nothing, and a turn ends once, under the session's lease and with one terminal event. -/

namespace Claxedo.Store

open Lib

/-- What a session's journal keeps through every run. -/
structure TurnLaw (db : Database) (sessionId : String) : Prop where
  ascending : ((db.journalOf sessionId).map (·.seq)).Pairwise (· < ·)
  tokens : (db.fencingTokens sessionId).Pairwise (· ≤ ·)
  finishes : (db.turnFinishes sessionId).Nodup

theorem turnStart?_of_partId (row : Row) (h : row.partId.isSome) : row.turnStart? = none := by
  unfold Row.partId at h
  unfold Row.turnStart?
  split at h
  · simp_all
  · cases h

theorem turnFinish?_of_partId (row : Row) (h : row.partId.isSome) : row.turnFinish? = none := by
  unfold Row.partId at h
  unfold Row.turnFinish?
  split at h
  · simp_all
  · cases h

namespace TurnLaw

variable {db : Database} {sessionId : String}

theorem of_ledger {db' : Database} (h : TurnLaw db sessionId) (hledger : db'.ledger = db.ledger) : TurnLaw db' sessionId := by
  have hjournal := Database.journalOf_of_ledger hledger sessionId
  refine ⟨?_, ?_, ?_⟩
  · rw [hjournal]
    exact h.ascending
  · rw [Database.fencingTokens, hjournal]
    exact h.tokens
  · rw [Database.turnFinishes, hjournal]
    exact h.finishes

/-- A new row keeps the law where its token is no smaller than any before, and the turn it ends has no end yet. -/
theorem insert (h : TurnLaw db sessionId) {row : Row} (hseq : row.seq = db.next row.sessionId)
    (htoken : ∀ token, row.turnStart?.bind (·.fencingToken) = some token → ∀ u ∈ db.fencingTokens row.sessionId, u ≤ token)
    (hfinish : ∀ turn, row.turnFinish? = some turn → turn ∉ db.turnFinishes row.sessionId) :
    TurnLaw (db.insertRuntimeJournal row) sessionId := by
  by_cases hs : row.sessionId = sessionId
  · subst hs
    have hstarts : (db.kept row).filterMap (fun row => row.turnStart?.bind (·.fencingToken)) =
        db.fencingTokens row.sessionId :=
      Database.filterMap_kept db row _ fun r hr => by rw [turnStart?_of_partId r hr, Option.bind_none]
    have hends : (db.kept row).filterMap (·.turnFinish?) = db.turnFinishes row.sessionId :=
      Database.filterMap_kept db row _ turnFinish?_of_partId
    refine ⟨?_, ?_, ?_⟩
    · rw [Database.journalOf_insert_self, List.map_append, List.pairwise_append]
      refine ⟨h.ascending.sublist ((db.kept_sublist row).map _), List.pairwise_singleton _ _, fun n hn m hm => ?_⟩
      obtain ⟨r, hr, rfl⟩ := List.mem_map.mp hn
      have hm' : m = row.seq := by simpa using hm
      rw [hm', hseq]
      exact Database.lt_next ((db.kept_sublist row).subset hr)
    · rw [Database.fencingTokens, Database.journalOf_insert_self, List.filterMap_append, hstarts, List.pairwise_append]
      refine ⟨h.tokens, ?_, fun u hu t ht => ?_⟩
      · cases hbind : row.turnStart?.bind (·.fencingToken) <;> simp [hbind]
      · have ht' : row.turnStart?.bind (·.fencingToken) = some t := by simpa using ht
        exact htoken t ht' u hu
    · rw [Database.turnFinishes, Database.journalOf_insert_self, List.filterMap_append, hends, List.nodup_append]
      refine ⟨h.finishes, ?_, fun u hu t ht hut => ?_⟩
      · cases hfin : row.turnFinish? <;> simp [hfin]
      · have ht' : row.turnFinish? = some t := by simpa using ht
        exact hfinish t ht' (hut ▸ hu)
  · have hjournal := Database.journalOf_insert_of_ne db hs
    refine ⟨?_, ?_, ?_⟩
    · rw [hjournal]
      exact h.ascending
    · rw [Database.fencingTokens, hjournal]
      exact h.tokens
    · rw [Database.turnFinishes, hjournal]
      exact h.finishes

/-- The newest token is the largest. -/
theorem le_latest (h : TurnLaw db sessionId) {current : ℤ} (hlatest : db.latestFencingToken sessionId = some current) :
    ∀ u ∈ db.fencingTokens sessionId, u ≤ current := by
  intro u hu
  unfold Database.latestFencingToken at hlatest
  obtain ⟨front, hfront⟩ := List.getLast?_eq_some_iff.mp hlatest
  have hsorted := h.tokens
  rw [hfront] at hsorted hu
  rcases List.mem_append.mp hu with hu | hu
  · exact (List.pairwise_append.mp hsorted).2.2 u hu current (List.mem_singleton_self _)
  · rw [List.mem_singleton.mp hu]

/-- A token that is let through is the newest, or on a turn's start no older than it. -/
theorem le_of_not_refused (h : TurnLaw db sessionId) {token : ℤ} {advance : Bool}
    (hpass : db.fencingTokenRefused sessionId (some token) advance = false) :
    (∀ u ∈ db.fencingTokens sessionId, u ≤ token) ∧ (advance = false → db.latestFencingToken sessionId = some token) := by
  unfold Database.fencingTokenRefused at hpass
  dsimp only at hpass
  by_cases hbad : ¬ Database.isSafeInteger token ∨ token ≤ 0
  · rw [if_pos hbad] at hpass
    cases hpass
  rw [if_neg hbad] at hpass
  rcases hlatest : db.latestFencingToken sessionId with _ | current
  · rw [hlatest] at hpass
    have hnil : db.fencingTokens sessionId = [] := List.getLast?_eq_none_iff.mp hlatest
    refine ⟨by simp [hnil], fun hadvance => ?_⟩
    rw [hadvance] at hpass
    cases hpass
  · rw [hlatest] at hpass
    have hle := h.le_latest hlatest
    cases advance with
    | true =>
      have hcurrent : current ≤ token := by simpa using hpass
      exact ⟨fun u hu => (hle u hu).trans hcurrent, fun hf => absurd hf Bool.noConfusion⟩
    | false =>
      have hcurrent : token = current := by simpa using hpass
      exact ⟨fun u hu => hcurrent ▸ hle u hu, fun _ => by rw [hcurrent]⟩

/-- A token smaller than one already journaled is refused. -/
theorem refused_of_lt (h : TurnLaw db sessionId) {token u : ℤ} (hu : u ∈ db.fencingTokens sessionId) (hlt : token < u)
    (advance : Bool) : db.fencingTokenRefused sessionId (some token) advance = true := by
  by_contra hpass
  have := (h.le_of_not_refused (by simpa using hpass)).1 u hu
  omega

end TurnLaw

/-- An entry that neither starts nor ends a turn. -/
def RuntimeStore.Entry.plain (entry : RuntimeStore.Entry) : Bool :=
  (entry.row 0).turnStart?.isNone ∧ (entry.row 0).turnFinish?.isNone

namespace TurnLaw

open RuntimeStore

variable {σ : RuntimeStore}

variable {entry : Entry} {fencingToken : Option ℤ} {σ' : RuntimeStore}

theorem insert_plain {db : Database} (h : ∀ sessionId, TurnLaw db sessionId) (hplain : entry.plain) (sessionId : String) :
    TurnLaw (db.insertRuntimeJournal (entry.row (db.next entry.sessionId))) sessionId := by
  simp only [Entry.plain, Bool.decide_and, Bool.and_eq_true, decide_eq_true_eq, Option.isNone_iff_eq_none] at hplain
  refine (h sessionId).insert rfl (fun token htoken => ?_) (fun turn hturn => ?_)
  · rw [show (entry.row (db.next entry.sessionId)).turnStart? = none from hplain.1] at htoken
    cases htoken
  · rw [show (entry.row (db.next entry.sessionId)).turnFinish? = none from hplain.2] at hturn
    cases hturn

theorem commitInside {σ : RuntimeStore} (h : ∀ sessionId, TurnLaw σ.db sessionId)
    (hok : σ.commitInside entry fencingToken = .ok σ') (hplain : entry.plain) (sessionId : String) : TurnLaw σ'.db sessionId := by
  obtain ⟨-, -, rfl⟩ := commitInside_ok hok
  exact (insert_plain h hplain sessionId).of_ledger (Database.ledger_project _ _)

theorem commitAll {σ : RuntimeStore} (h : ∀ sessionId, TurnLaw σ.db sessionId) {entries : List Entry}
    (hok : σ.commitAll fencingToken entries = .ok σ') (hplain : ∀ entry ∈ entries, entry.plain) (sessionId : String) :
    TurnLaw σ'.db sessionId := by
  induction entries generalizing σ with
  | nil =>
    obtain rfl : σ = σ' := Except.ok.inj hok
    exact h sessionId
  | cons entry entries ih =>
    obtain ⟨hentry, hrest⟩ := List.forall_mem_cons.mp hplain
    rw [RuntimeStore.commitAll] at hok
    split at hok
    · rename_i σ₁ hinside
      exact ih (fun s => commitInside h hinside hentry s) hok hrest
    · cases hok

/-- A row that ends no turn leaves the ends where they are. -/
theorem turnFinishes_commitInside {σ : RuntimeStore} (hok : σ.commitInside entry fencingToken = .ok σ')
    (hentry : (entry.row 0).turnFinish? = none) (sessionId : String) :
    σ'.db.turnFinishes sessionId = σ.db.turnFinishes sessionId := by
  obtain ⟨-, -, rfl⟩ := commitInside_ok hok
  rw [Database.turnFinishes, Database.journalOf_of_ledger (Database.ledger_project _ _), Database.turnFinishes]
  exact Database.filterMap_insert σ.db (entry.row (σ.db.next entry.sessionId)) (·.turnFinish?) turnFinish?_of_partId
    hentry sessionId

theorem turnFinishes_commitAll {σ : RuntimeStore} {entries : List Entry} (hok : σ.commitAll fencingToken entries = .ok σ')
    (hplain : ∀ entry ∈ entries, (entry.row 0).turnFinish? = none) (sessionId : String) :
    σ'.db.turnFinishes sessionId = σ.db.turnFinishes sessionId := by
  induction entries generalizing σ with
  | nil =>
    obtain rfl : σ = σ' := Except.ok.inj hok
    rfl
  | cons entry entries ih =>
    obtain ⟨hentry, hrest⟩ := List.forall_mem_cons.mp hplain
    rw [RuntimeStore.commitAll] at hok
    split at hok
    · rename_i σ₁ hinside
      rw [ih hok hrest, turnFinishes_commitInside hinside hentry]
    · cases hok

theorem plain_of_writes {call : BrokerCall} (h : call.Writes entry) : entry.plain := by
  cases call with
  | appendInside sessionId payload ts =>
    rw [show entry = _ from h]
    rfl
  | persistGrantInside sessionId grantKey ts =>
    obtain ⟨patch, rfl⟩ := h
    rfl

theorem brokerRun {σ : RuntimeStore} (h : ∀ sessionId, TurnLaw σ.db sessionId) {calls : List BrokerCall}
    (hok : σ.brokerRun calls = .ok σ') (sessionId : String) : TurnLaw σ'.db sessionId := by
  induction calls generalizing σ with
  | nil =>
    obtain rfl : σ = σ' := Except.ok.inj hok
    exact h sessionId
  | cons call calls ih =>
    obtain ⟨entry, σ₁, hwrites, hinside, hrest⟩ := brokerRun_cons hok
    exact ih (fun s => commitInside h hinside (plain_of_writes hwrites) s) hrest

theorem startTurn (h : ∀ sessionId, TurnLaw σ.db sessionId) (sessionId : String) (agentSessionId : Option String)
    (turn : Turn) (ts : ℕ) (stops : Option ℕ) (throws : Bool) (session : String) :
    TurnLaw (σ.startTurn sessionId agentSessionId turn ts stops throws).1.db session := by
  unfold RuntimeStore.startTurn
  split
  · split_ifs <;> exact h session
  · rcases commit_cases σ { sessionId, ts, agentSessionId, content := .control (.turnStart turn) } turn.fencingToken true
      stops throws with ⟨hpass, hledger⟩ | ⟨-, hin⟩
    · refine ((h session).insert rfl (fun token htoken => ?_) (fun turn hturn => ?_)).of_ledger hledger
      · have htoken' : turn.fencingToken = some token := htoken
        rw [htoken'] at hpass
        exact ((h sessionId).le_of_not_refused hpass).1
      · cases hturn
    · exact (h session).of_ledger hin.ledger

theorem finishTurn (h : ∀ sessionId, TurnLaw σ.db sessionId) (sessionId : String) (assistantMessageId : Option String)
    (leaseId : String) (fencingToken : Option ℤ) (outcome : AgentTurnOutcome) (now : ℕ → ℕ) (stops : Option ℕ)
    (throws : Bool) (session : String) :
    TurnLaw (σ.finishTurn sessionId assistantMessageId leaseId fencingToken outcome now stops throws).1.db session := by
  rcases finishTurn_cases σ sessionId assistantMessageId leaseId fencingToken outcome now stops throws with
    hin | ⟨σ₁, active, turn, hsettled, -, -, -, hnew, hok⟩
  · exact (h session).of_ledger hin.ledger
  · have hledger := TakesIn.ledger (.inr hsettled)
    have h₁ : ∀ s, TurnLaw σ₁.db s := fun s => (h s).of_ledger hledger
    -- The terminal events end no turn; the last row ends the one that had no end.
    obtain ⟨σ₂, hevents, hlast⟩ := commitAll_append hok
    have hplain : ∀ entry ∈ (terminalEvents σ₁.db sessionId active turn outcome).zipIdx.map (fun event =>
        ({ sessionId, ts := now event.2, agentSessionId := active.agentSessionId, content := .event event.1 } : Entry)),
        entry.sessionId = sessionId ∧ entry.plain ∧ (entry.row 0).turnFinish? = none := by
      intro entry hentry
      obtain ⟨⟨payload, i⟩, -, rfl⟩ := List.mem_map.mp hentry
      exact ⟨rfl, rfl, rfl⟩
    have h₂ := fun s => commitAll h₁ hevents (fun entry hentry => (hplain entry hentry).2.1) s
    have hfinishes : σ₂.db.turnFinishes sessionId = σ₁.db.turnFinishes sessionId :=
      turnFinishes_commitAll hevents (fun entry hentry => (hplain entry hentry).2.2) sessionId
    rw [RuntimeStore.commitAll] at hlast
    split at hlast
    · rename_i σ₃ hinside
      obtain rfl : σ₃ = _ := Except.ok.inj hlast
      obtain ⟨-, -, hσ₃⟩ := commitInside_ok hinside
      rw [hσ₃]
      refine ((h₂ session).insert rfl (fun token htoken => ?_) (fun ended hended => ?_)).of_ledger
        (Database.ledger_project _ _)
      · cases htoken
      · obtain rfl : turn.assistantMessageId = ended := Option.some.inj hended
        change turn.assistantMessageId ∉ σ₂.db.turnFinishes sessionId
        rw [hfinishes]
        exact hnew
    · cases hlast

theorem turnFinishes_brokerRun {σ : RuntimeStore} {calls : List BrokerCall} (hok : σ.brokerRun calls = .ok σ')
    (sessionId : String) : σ'.db.turnFinishes sessionId = σ.db.turnFinishes sessionId := by
  induction calls generalizing σ with
  | nil =>
    obtain rfl : σ = σ' := Except.ok.inj hok
    rfl
  | cons call calls ih =>
    obtain ⟨entry, σ₁, hwrites, hinside, hrest⟩ := brokerRun_cons hok
    have hplain := plain_of_writes hwrites
    simp only [Entry.plain, Bool.decide_and, Bool.and_eq_true, decide_eq_true_eq, Option.isNone_iff_eq_none] at hplain
    rw [ih hrest, turnFinishes_commitInside hinside hplain.2]

/-- Every call keeps the law of every session. -/
theorem step (h : ∀ sessionId, TurnLaw σ.db sessionId) (call : StoreCall) (session : String) :
    TurnLaw (σ.step call).db session := by
  have hcommit : ∀ (entry : Entry) (fencingToken : Option ℤ) (advance : Bool) (stops : Option ℕ) (throws : Bool),
      entry.plain → TurnLaw (σ.commit entry fencingToken advance stops throws).1.db session := by
    intro entry fencingToken advance stops throws hplain
    rcases commit_cases σ entry fencingToken advance stops throws with ⟨-, hledger⟩ | ⟨-, hin⟩
    · exact (insert_plain h hplain session).of_ledger hledger
    · exact (h session).of_ledger hin.ledger
  cases call with
  | startTurn sessionId agentSessionId turn ts stops throws => exact startTurn h sessionId agentSessionId turn ts stops throws session
  | appendEvent sessionId agentSessionId payload fencingToken ts stops throws => exact hcommit _ _ _ _ _ rfl
  | sessionControl sessionId agentSessionId control ts stops throws => exact hcommit _ _ _ _ _ rfl
  | interruptTurn sessionId assistantMessageId leaseId fencingToken message ts stops throws =>
    rcases interruptTurn_cases σ sessionId assistantMessageId leaseId fencingToken message ts stops throws with
      hin | ⟨agentSessionId, hok⟩
    · exact (h session).of_ledger hin.ledger
    · have hsettled : ∀ s, TurnLaw ((σ.level sessionId stops).settleDeltas (some sessionId)).db s :=
        fun s => (h s).of_ledger (TakesIn.settled σ sessionId stops).ledger
      exact commitInside hsettled hok rfl session
  | finishTurn sessionId assistantMessageId leaseId fencingToken outcome now stops throws =>
    exact finishTurn h sessionId assistantMessageId leaseId fencingToken outcome now stops throws session
  | brokerTransaction calls throws =>
    rcases transaction_cases σ (σ.brokerRun calls) throws with hsame | hok
    · rw [RuntimeStore.step, brokerTransaction, hsame]
      exact h session
    · exact brokerRun h hok session
  | settleDeltas sessionId => exact (h session).of_ledger (ledger_settleDeltas ..)
  | recover sessionId stops =>
    exact (h session).of_ledger ((ledger_replay ..).trans (ledger_settleDeltas ..))
  | acquireLease sessionId leaseId =>
    rw [RuntimeStore.step, acquireLease]
    split_ifs
    · exact h session
    · exact ⟨(h session).ascending, (h session).tokens, (h session).finishes⟩
  | releaseLease sessionId leaseId =>
    rw [RuntimeStore.step, releaseLease]
    split_ifs
    · exact ⟨(h session).ascending, (h session).tokens, (h session).finishes⟩
    · exact h session
  | reopen => exact (h session).of_ledger (ledger_reopen _)

theorem empty (sessionId : String) : TurnLaw {} sessionId :=
  ⟨.nil, .nil, List.nodup_nil⟩

theorem run (calls : List StoreCall) (sessionId : String) : TurnLaw (Lib.run RuntimeStore.step {} calls).db sessionId :=
  Lib.invariant_of_run (fun σ : RuntimeStore => ∀ s, TurnLaw σ.db s) (fun _ call h => step h call) empty calls sessionId

end TurnLaw

/-- The session and the token a call's rows are fenced by. -/
def StoreCall.fence : StoreCall → Option (String × ℤ)
  | .startTurn sessionId _ turn _ _ _ => turn.fencingToken.map (sessionId, ·)
  | .appendEvent sessionId _ _ fencingToken _ _ _ => fencingToken.map (sessionId, ·)
  | .interruptTurn sessionId _ _ fencingToken _ _ _ _ => fencingToken.map (sessionId, ·)
  | .finishTurn sessionId _ _ fencingToken _ _ _ _ => fencingToken.map (sessionId, ·)
  | _ => none

def StoreCall.opensTurn : StoreCall → Bool
  | .startTurn .. => true
  | _ => false

def Content.isTerminal : Content → Bool
  | .event (.sessionIdle ..) | .event (.sessionError ..) => true
  | _ => false

/-- What one call may do to a session's turns. -/
structure TurnStep (σ : RuntimeStore) (call : StoreCall) : Prop where
  /-- Rows under a token follow every row there was, the newest fenced start carrying that token. -/
  placed : ∀ sessionId token, call.fence = some (sessionId, token) → ∀ row ∈ (σ.step call).db.journalOf sessionId,
    row ∉ σ.db.journalOf sessionId →
      (∀ earlier ∈ σ.db.journalOf sessionId, earlier.seq < row.seq) ∧
        (call.opensTurn ∨ σ.db.latestFencingToken sessionId = some token)
  /-- A stale token journals nothing; the projection may take in rows that were journaled before. -/
  refused : ∀ sessionId token, call.fence = some (sessionId, token) →
    (∃ u ∈ σ.db.fencingTokens sessionId, token < u) →
      (σ.step call).db.runtimeJournal = σ.db.runtimeJournal ∧
        (σ.step call = σ ∨ ∃ stops, σ.TakesIn sessionId stops (σ.step call))
  /-- A turn's end is journaled by `finishTurn`, under the stored lease, behind its one terminal event. -/
  ended : ∀ sessionId turn, turn ∈ (σ.step call).db.turnFinishes sessionId → turn ∉ σ.db.turnFinishes sessionId →
    ∃ leaseId, (∃ id token outcome now stops throws,
        call = .finishTurn sessionId id leaseId token outcome now stops throws) ∧
      σ.db.sessionTurnLease sessionId = some leaseId ∧
      ∃ replied terminal finish, (σ.step call).db.journalOf sessionId =
          σ.db.journalOf sessionId ++ replied ++ [terminal, finish] ∧
        (∀ row ∈ replied, row.content.isTerminal = false) ∧ terminal.content.isTerminal ∧ finish.turnFinish? = some turn

namespace TurnStep

open RuntimeStore

variable {σ : RuntimeStore}

variable {call : StoreCall}

theorem of_journal (hjournal : (σ.step call).db.runtimeJournal = σ.db.runtimeJournal)
    (hrefused : ∀ sessionId token, call.fence = some (sessionId, token) → σ.step call = σ ∨ ∃ stops,
      σ.TakesIn sessionId stops (σ.step call)) :
    TurnStep σ call := by
  have hsame : ∀ sessionId, (σ.step call).db.journalOf sessionId = σ.db.journalOf sessionId := by
    intro sessionId
    rw [Database.journalOf, Database.journalOf, hjournal]
  refine ⟨fun s token _ row hrow hnew => ?_, fun s token hfence _ => ⟨hjournal, hrefused s token hfence⟩,
    fun s turn hended hnot => ?_⟩
  · rw [hsame] at hrow
    exact absurd hrow hnew
  · rw [Database.turnFinishes, hsame] at hended
    exact absurd hended hnot

theorem of_takesIn {sessionId : String} {stops : Option ℕ} (h : σ.TakesIn sessionId stops (σ.step call))
    (hfence : ∀ s token, call.fence = some (s, token) → s = sessionId) :
    TurnStep σ call :=
  of_journal (congrArg Prod.fst h.ledger) fun s token hs => .inr ⟨stops, hfence s token hs ▸ h⟩

/-- A call that commits one row which ends no turn. -/
theorem of_insert (entry : Entry) (hlaw : ∀ sessionId, TurnLaw σ.db sessionId)
    (hledger : (σ.step call).db.ledger = (σ.db.insertRuntimeJournal (entry.row (σ.db.next entry.sessionId))).ledger)
    (hfinish : (entry.row 0).turnFinish? = none)
    (hpass : ∀ s token, call.fence = some (s, token) → s = entry.sessionId ∧ σ.db.fencingTokenRefused entry.sessionId
      (some token) call.opensTurn = false) :
    TurnStep σ call := by
  refine ⟨fun s token hfence row hrow hnew => ?_, fun s token hfence hstale => ?_, fun s turn hended hnot => ?_⟩
  · obtain ⟨rfl, hpass⟩ := hpass s token hfence
    have hinsert := Database.journalOf_insert_self σ.db (entry.row (σ.db.next entry.sessionId))
    rw [Database.journalOf_of_ledger hledger] at hrow
    rw [show (entry.row (σ.db.next entry.sessionId)).sessionId = entry.sessionId from rfl] at hinsert
    rw [hinsert] at hrow
    rcases List.mem_append.mp hrow with hrow | hrow
    · exact absurd ((Database.kept_sublist _ _).subset hrow) hnew
    · rw [List.mem_singleton.mp hrow]
      refine ⟨fun earlier hearlier => Database.lt_next hearlier, ?_⟩
      cases hopens : call.opensTurn with
      | true => exact .inl rfl
      | false => exact .inr (((hlaw entry.sessionId).le_of_not_refused (hopens ▸ hpass)).2 rfl)
  · obtain ⟨rfl, hpass⟩ := hpass s token hfence
    obtain ⟨u, hu, hlt⟩ := hstale
    rw [(hlaw entry.sessionId).refused_of_lt hu hlt] at hpass
    cases hpass
  · rw [Database.turnFinishes, Database.journalOf_of_ledger hledger,
      Database.filterMap_insert σ.db (entry.row (σ.db.next entry.sessionId)) (·.turnFinish?) turnFinish?_of_partId hfinish] at hended
    exact absurd hended hnot

theorem terminalEvents_shape (db : Database) (sessionId : String) (active : Row) (turn : Turn) (outcome : AgentTurnOutcome) :
    ∃ replies terminal, terminalEvents db sessionId active turn outcome = replies ++ [terminal] ∧
      (∀ event ∈ replies, (Content.event event).isTerminal = false) ∧ (Content.event terminal).isTerminal := by
  unfold terminalEvents
  cases outcome.status with
  | failed => exact ⟨[_], _, rfl, by simp [Content.isTerminal], rfl⟩
  | completed | cancelled =>
    dsimp only
    split_ifs
    · exact ⟨[], _, rfl, by simp, rfl⟩
    · exact ⟨[_], _, rfl, by simp [Content.isTerminal], rfl⟩

theorem finishEntries_content (db : Database) (sessionId : String) (active : Row) (turn : Turn) (outcome : AgentTurnOutcome)
    (now : ℕ → ℕ) :
    (finishEntries db sessionId active turn outcome now).map (·.content) =
      (terminalEvents db sessionId active turn outcome).map .event ++ [.control (.turnFinish turn.assistantMessageId
        { outcome with assistantMessageId := some turn.assistantMessageId })] := by
  unfold finishEntries
  rw [List.map_append, List.map_map]
  congr 1
  have hpayloads := congrArg (List.map Content.event) (List.zipIdx_map_fst 0 (terminalEvents db sessionId active turn outcome))
  rwa [List.map_map] at hpayloads

theorem finishEntries_plain {db : Database} {sessionId : String} {active : Row} {turn : Turn} {outcome : AgentTurnOutcome}
    {now : ℕ → ℕ} {entry : Entry} (h : entry ∈ finishEntries db sessionId active turn outcome now) :
    entry.sessionId = sessionId ∧ ∀ seq, (entry.row seq).partId = none := by
  unfold finishEntries at h
  rcases List.mem_append.mp h with h | h
  · obtain ⟨⟨payload, i⟩, hpayload, rfl⟩ := List.mem_map.mp h
    refine ⟨rfl, fun seq => ?_⟩
    have hevent : payload ∈ terminalEvents db sessionId active turn outcome := List.fst_mem_of_mem_zipIdx hpayload
    unfold terminalEvents at hevent
    cases hstatus : outcome.status with
    | failed =>
      rw [hstatus] at hevent
      rcases List.mem_cons.mp hevent with rfl | hevent
      · rfl
      · rw [List.mem_singleton.mp hevent]
        rfl
    | completed | cancelled =>
      rw [hstatus] at hevent
      rcases List.mem_append.mp hevent with hevent | hevent
      · split_ifs at hevent
        · cases hevent
        · rw [List.mem_singleton.mp hevent]
          rfl
      · rw [List.mem_singleton.mp hevent]
        rfl
  · rw [List.mem_singleton.mp h]
    exact ⟨rfl, fun _ => rfl⟩

theorem finishTurn (hlaw : ∀ sessionId, TurnLaw σ.db sessionId) (sessionId : String) (assistantMessageId : Option String)
    (leaseId : String) (fencingToken : Option ℤ) (outcome : AgentTurnOutcome) (now : ℕ → ℕ) (stops : Option ℕ)
    (throws : Bool) : TurnStep σ (.finishTurn sessionId assistantMessageId leaseId fencingToken outcome now stops throws) := by
  have hfence : ∀ s token, StoreCall.fence
      (.finishTurn sessionId assistantMessageId leaseId fencingToken outcome now stops throws) = some (s, token) →
        s = sessionId ∧ fencingToken = some token := by
    intro s token hs
    obtain ⟨t, ht, hpair⟩ := Option.map_eq_some_iff.mp hs
    obtain ⟨rfl, rfl⟩ := Prod.mk.inj hpair
    exact ⟨rfl, ht⟩
  rcases finishTurn_cases σ sessionId assistantMessageId leaseId fencingToken outcome now stops throws with
    hin | ⟨σ₁, active, turn, hsettled, -, hlease, hpass, hnew, hok⟩
  · exact of_takesIn hin fun s token hs => (hfence s token hs).1
  have hledger := TakesIn.ledger (.inr hsettled)
  rw [Database.refused_of_ledger hledger] at hpass
  obtain ⟨replies, terminal, hevents, hreplies, hterminal⟩ := terminalEvents_shape σ₁.db sessionId active turn outcome
  obtain ⟨⟨rows, hrows, hcontents⟩, hother⟩ := commitAll_ok hok fun entry hentry => finishEntries_plain hentry
  rw [Database.journalOf_of_ledger hledger] at hrows
  rw [finishEntries_content, hevents, List.map_append, List.append_assoc] at hcontents
  obtain ⟨replied, ending, rfl, hreplied, hending⟩ := List.map_eq_append_iff.mp hcontents
  obtain ⟨closing, finish, rfl, hclosing, hfinish⟩ := List.map_eq_append_iff.mp hending
  obtain ⟨terminalRow, rfl, hterminalRow⟩ := List.map_eq_singleton_iff.mp hclosing
  obtain ⟨finishRow, rfl, hfinishRow⟩ := List.map_eq_singleton_iff.mp hfinish
  have hjournal : (σ.step (.finishTurn sessionId assistantMessageId leaseId fencingToken outcome now stops throws)).db.journalOf
      sessionId = σ.db.journalOf sessionId ++ replied ++ [terminalRow, finishRow] := by
    rw [List.append_assoc]
    exact hrows
  refine ⟨fun s token hs row hrow hnewRow => ?_, fun s token hs hstale => ?_, fun s ended hended hnot => ?_⟩
  · obtain ⟨rfl, rfl⟩ := hfence s token hs
    refine ⟨fun earlier hearlier => ?_, .inr (((hlaw s).le_of_not_refused hpass).2 rfl)⟩
    have hascending := (TurnLaw.step hlaw
      (.finishTurn s assistantMessageId leaseId (some token) outcome now stops throws) s).ascending
    rw [hjournal, List.append_assoc, List.map_append, List.pairwise_append] at hascending
    rw [hjournal, List.append_assoc] at hrow
    rcases List.mem_append.mp hrow with hrow | hrow
    · exact absurd hrow hnewRow
    · exact hascending.2.2 _ (List.mem_map_of_mem hearlier) _ (List.mem_map_of_mem hrow)
  · obtain ⟨rfl, rfl⟩ := hfence s token hs
    obtain ⟨u, hu, hlt⟩ := hstale
    rw [(hlaw s).refused_of_lt hu hlt] at hpass
    cases hpass
  · by_cases hsession : s = sessionId
    · subst hsession
      have hnone : ∀ row ∈ replied ++ [terminalRow], row.turnFinish? = none := by
        intro row hrow
        have hevent : ∃ event, row.content = .event event := by
          rcases List.mem_append.mp hrow with hrow | hrow
          · have hmem : row.content ∈ replies.map Content.event := hreplied ▸ List.mem_map_of_mem hrow
            obtain ⟨event, -, hevent⟩ := List.mem_map.mp hmem
            exact ⟨event, hevent.symm⟩
          · exact ⟨terminal, by rw [List.mem_singleton.mp hrow, hterminalRow]⟩
        obtain ⟨event, hevent⟩ := hevent
        rw [Row.turnFinish?, hevent]
      refine ⟨leaseId, ⟨_, _, _, _, _, _, rfl⟩, ?_, replied, terminalRow, finishRow, hjournal, fun row hrow => ?_, ?_, ?_⟩
      · rw [← Database.lease_of_ledger hledger]
        exact hlease
      · have hmem : row.content ∈ replies.map Content.event := hreplied ▸ List.mem_map_of_mem hrow
        obtain ⟨event, hevent, heq⟩ := List.mem_map.mp hmem
        rw [← heq]
        exact hreplies event hevent
      · rw [hterminalRow]
        exact hterminal
      · -- The end that is new is the one the last row records.
        rw [Database.turnFinishes, hjournal, List.append_assoc] at hended
        obtain ⟨row, hrow, hends⟩ := List.mem_filterMap.mp hended
        rcases List.mem_append.mp hrow with hrow | hrow
        · exact absurd (List.mem_filterMap.mpr ⟨row, hrow, hends⟩) hnot
        rw [show replied ++ [terminalRow, finishRow] = replied ++ [terminalRow] ++ [finishRow] by simp] at hrow
        rcases List.mem_append.mp hrow with hrow | hrow
        · rw [hnone row hrow] at hends
          cases hends
        · rw [← List.mem_singleton.mp hrow]
          exact hends
    · rw [Database.turnFinishes, show (σ.step (.finishTurn sessionId assistantMessageId leaseId fencingToken outcome now stops
        throws)).db.journalOf s = σ₁.db.journalOf s from hother s hsession, Database.journalOf_of_ledger hledger] at hended
      exact absurd hended hnot

/-- Every call of every run keeps to its fence. -/
theorem step (hlaw : ∀ sessionId, TurnLaw σ.db sessionId) (call : StoreCall) : TurnStep σ call := by
  have hcommit : ∀ (entry : Entry) (fencingToken : Option ℤ) (advance : Bool) (stops : Option ℕ) (throws : Bool),
      σ.step call = (σ.commit entry fencingToken advance stops throws).1 → call.opensTurn = advance →
      (entry.row 0).turnFinish? = none →
      (∀ s token, call.fence = some (s, token) → s = entry.sessionId ∧ fencingToken = some token) → TurnStep σ call := by
    intro entry fencingToken advance stops throws hstep hopens hfinish hfence
    rcases commit_cases σ entry fencingToken advance stops throws with ⟨hpass, hledger⟩ | ⟨-, hin⟩
    · refine of_insert entry hlaw (hstep ▸ hledger) hfinish fun s token hs => ?_
      obtain ⟨hsession, rfl⟩ := hfence s token hs
      exact ⟨hsession, hopens ▸ hpass⟩
    · exact of_takesIn (hstep ▸ hin) fun s token hs => (hfence s token hs).1
  cases call with
  | startTurn sessionId agentSessionId turn ts stops throws =>
    have hfence : ∀ s token, StoreCall.fence (.startTurn sessionId agentSessionId turn ts stops throws) = some (s, token) →
        s = sessionId ∧ turn.fencingToken = some token := by
      intro s token hs
      obtain ⟨t, ht, hpair⟩ := Option.map_eq_some_iff.mp hs
      obtain ⟨rfl, rfl⟩ := Prod.mk.inj hpair
      exact ⟨rfl, ht⟩
    rcases hactive : σ.db.activeTurn sessionId turn.assistantMessageId with _ | ⟨start, active⟩
    · refine hcommit { sessionId, ts, agentSessionId, content := .control (.turnStart turn) } turn.fencingToken true stops
        throws ?_ rfl rfl hfence
      simp only [RuntimeStore.step, RuntimeStore.startTurn, hactive]
    · have hsame : σ.step (.startTurn sessionId agentSessionId turn ts stops throws) = σ := by
        simp only [RuntimeStore.step, RuntimeStore.startTurn, hactive]
        split_ifs <;> rfl
      exact of_journal (by rw [hsame]) fun _ _ _ => .inl hsame
  | appendEvent sessionId agentSessionId payload fencingToken ts stops throws =>
    refine hcommit _ _ _ _ _ rfl rfl rfl fun s token hs => ?_
    obtain ⟨t, ht, hpair⟩ := Option.map_eq_some_iff.mp hs
    obtain ⟨rfl, rfl⟩ := Prod.mk.inj hpair
    exact ⟨rfl, ht⟩
  | sessionControl sessionId agentSessionId control ts stops throws =>
    exact hcommit _ _ _ _ _ rfl rfl rfl fun s token hs => by cases hs
  | interruptTurn sessionId assistantMessageId leaseId fencingToken message ts stops throws =>
    have hfence : ∀ s token, StoreCall.fence
        (.interruptTurn sessionId assistantMessageId leaseId fencingToken message ts stops throws) = some (s, token) →
          s = sessionId ∧ fencingToken = some token := by
      intro s token hs
      obtain ⟨t, ht, hpair⟩ := Option.map_eq_some_iff.mp hs
      obtain ⟨rfl, rfl⟩ := Prod.mk.inj hpair
      exact ⟨rfl, ht⟩
    rcases interruptTurn_cases σ sessionId assistantMessageId leaseId fencingToken message ts stops throws with
      hin | ⟨agentSessionId, hok⟩
    · exact of_takesIn hin fun s token hs => (hfence s token hs).1
    · have hledger := (TakesIn.settled σ sessionId stops).ledger
      obtain ⟨hpass, -, hdone⟩ := commitInside_ok hok
      rw [Database.refused_of_ledger hledger] at hpass
      refine of_insert { sessionId, ts, agentSessionId, content := .control (.session (.interrupted message)) } hlaw ?_ rfl
        fun s token hs => ?_
      · rw [RuntimeStore.step, hdone, Database.ledger_project, Database.next_of_ledger hledger]
        exact Database.insert_of_ledger hledger _
      · obtain ⟨hsession, rfl⟩ := hfence s token hs
        exact ⟨hsession, hpass⟩
  | finishTurn sessionId assistantMessageId leaseId fencingToken outcome now stops throws =>
    exact finishTurn hlaw sessionId assistantMessageId leaseId fencingToken outcome now stops throws
  | brokerTransaction calls throws =>
    rcases transaction_cases σ (σ.brokerRun calls) throws with hsame | hok
    · exact of_journal (by rw [RuntimeStore.step, brokerTransaction, hsame]) fun s token hs => by cases hs
    · refine ⟨fun s token hs => (by cases hs), fun s token hs => (by cases hs), fun s turn hended hnot => ?_⟩
      rw [show (σ.step (.brokerTransaction calls throws)).db.turnFinishes s = _ from TurnLaw.turnFinishes_brokerRun hok s] at hended
      exact absurd hended hnot
  | settleDeltas sessionId =>
    exact of_journal (congrArg Prod.fst (ledger_settleDeltas ..)) fun s token hs => by cases hs
  | recover sessionId stops =>
    exact of_journal (congrArg Prod.fst ((ledger_replay ..).trans (ledger_settleDeltas ..))) fun s token hs => by cases hs
  | acquireLease sessionId leaseId =>
    refine of_journal ?_ fun s token hs => by cases hs
    rw [RuntimeStore.step, acquireLease]
    split_ifs <;> rfl
  | releaseLease sessionId leaseId =>
    refine of_journal ?_ fun s token hs => by cases hs
    rw [RuntimeStore.step, releaseLease]
    split_ifs <;> rfl
  | reopen => exact of_journal (congrArg Prod.fst (ledger_reopen _)) fun s token hs => by cases hs

end TurnStep

/-- Through every run: the tokens of a session's starts never decrease, each turn has at most one end,
and the next call, whichever it is and whoever makes it, keeps to its fence and its lease. -/
theorem turns_fenced (calls : List StoreCall) (call : StoreCall) :
    (∀ sessionId, TurnLaw (Lib.run RuntimeStore.step {} calls).db sessionId) ∧
      TurnStep (Lib.run RuntimeStore.step {} calls) call :=
  ⟨TurnLaw.run calls, TurnStep.step (TurnLaw.run calls) call⟩

namespace Example

/-- A turn under token 1, then one under token 2 with a delta of its reply still pending. -/
def streaming : List StoreCall :=
  [.sessionControl "session" none (.bind "/workspace") 1 none false,
    .startTurn "session" none { assistantMessageId := "reply-1", fencingToken := some 1 } 2 none false,
    .startTurn "session" none { assistantMessageId := "reply-2", fencingToken := some 2 } 3 none false,
    .appendEvent "session" none (.messagePartDelta "session" "reply-2" "part" "text" "Hello") (some 2) 4 none false]

end Example

/-- A refused append has settled the session's pending deltas first: its part rows are not what they were. -/
theorem refused_append_settles :
    ¬ ∀ (calls : List StoreCall) (sessionId : String) (payload : AgentPresentationEvent) (token : ℤ) (ts : ℕ),
      (∃ u ∈ (Lib.run RuntimeStore.step {} calls).db.fencingTokens sessionId, token < u) →
        ((Lib.run RuntimeStore.step {} calls).step (.appendEvent sessionId none payload (some token) ts none false)).db.part =
          (Lib.run RuntimeStore.step {} calls).db.part := by
  intro h
  have hsame := congrArg List.length
    (h Example.streaming "session" (.elsewhere "todo.updated") 1 5 ⟨2, by decide +kernel, by decide⟩)
  revert hsame
  decide +kernel

end Claxedo.Store
