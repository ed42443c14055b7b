import Claxedo.Store.RuntimeStore

/-! What each call does to the journal. Projection writes no journal row and no lease, so a call
leaves the ledger as it was, or adds the rows it committed. -/

namespace Claxedo.Store

open Lib

namespace Database

/-- The journal and the turn leases: what projection never writes. -/
def ledger (db : Database) : List Row × (String → Option String) := (db.runtimeJournal, db.sessionTurnLease)

theorem ledger_foldl {α : Type*} (f : Database → α → Database) (h : ∀ db a, (f db a).ledger = db.ledger)
    (as : List α) (db : Database) : (as.foldl f db).ledger = db.ledger := by
  induction as generalizing db with
  | nil => rfl
  | cons a as ih => rw [List.foldl_cons, ih, h]

@[simp] theorem ledger_upsertMessage (db : Database) (info : MessageInfo) (row : Row) :
    (db.upsertMessage info row).ledger = db.ledger := by
  unfold upsertMessage
  split_ifs <;> rfl

@[simp] theorem ledger_upsertPart (db : Database) (part : Record) (ts : ℕ) : (db.upsertPart part ts).ledger = db.ledger := by
  unfold upsertPart
  split <;> rfl

@[simp] theorem ledger_delta (db : Database) (sessionId messageId partId field text : String) (ts : ℕ) :
    (db.delta sessionId messageId partId field text ts).ledger = db.ledger := ledger_upsertPart ..

@[simp] theorem ledger_finishTools (db : Database) (sessionId : String) (ts : ℕ) :
    (db.finishTools sessionId ts).ledger = db.ledger := by
  refine ledger_foldl _ (fun db row => ?_) _ _
  cases closeTool row.data ts with
  | none => rfl
  | some part => exact ledger_upsertPart db part ts

@[simp] theorem ledger_retractStoredParts (db : Database) (sessionID : String) (parts : List PartRef) (reason : String)
    (ts : ℕ) : (db.retractStoredParts sessionID parts reason ts).ledger = db.ledger := by
  refine ledger_foldl _ (fun db ref => ?_) _ _
  dsimp only
  cases hpart : Option.bind _ _ with
  | none => rfl
  | some part => exact ledger_upsertPart db part ts

@[simp] theorem ledger_upsertSession (db : Database) (id directory : String) (status : Option String) (owner : Bool) :
    (db.upsertSession id directory status owner).ledger = db.ledger := by
  unfold upsertSession
  cases db.session id with
  | none => cases owner <;> rfl
  | some prev => rfl

@[simp] theorem ledger_applyConfigUpdate (db : Database) (id : String) (patch : ConfigPatch) :
    (db.applyConfigUpdate id patch).ledger = db.ledger := by
  unfold applyConfigUpdate
  cases db.session id with
  | none => rfl
  | some prev =>
    dsimp only
    split_ifs <;> rfl

@[simp] theorem ledger_applySessionControl (db : Database) (row : Row) (control : SessionControl) :
    (db.applySessionControl row control).ledger = db.ledger := by
  cases control with
  | bind directory => exact ledger_upsertSession ..
  | interrupted message => simp [applySessionControl]
  | noticeCreated message => simp [applySessionControl]
  | configUpdate patch => simp [applySessionControl]
  | delete | update | permissionStaled | questionStaled | noticeAcknowledged | projectionResetRequested | goalUpdate => rfl

@[simp] theorem ledger_applyTurnStart (db : Database) (row : Row) (turn : Turn) :
    (db.applyTurnStart row turn).ledger = db.ledger := by
  unfold applyTurnStart
  simp only [ledger_upsertSession, ledger_upsertMessage]
  split
  · rw [ledger_foldl _ (fun db part => ledger_upsertPart db part row.ts), ledger_upsertMessage]
  · rfl

@[simp] theorem ledger_applyEvent (db : Database) (row : Row) (event : AgentPresentationEvent) :
    (db.applyEvent row event).ledger = db.ledger := by
  unfold applyEvent
  split_ifs with hdeleted
  · rfl
  · cases event with
    | messageUpdated info => exact ledger_upsertMessage ..
    | messagePartUpdated part => exact ledger_upsertPart ..
    | messagePartRetracted sessionID parts reason => exact ledger_retractStoredParts ..
    | messagePartDelta sessionID messageID partID field text => exact ledger_delta ..
    | messageCompleted sessionID messageID cancelled =>
      dsimp only
      split
      · exact ledger_upsertMessage ..
      · rfl
    | sessionUsage messageID observation =>
      dsimp only
      split
      · exact ledger_upsertMessage ..
      · rfl
    | sessionStatus sessionID status => exact ledger_upsertSession ..
    | sessionIdle sessionID lastTurn => exact ledger_upsertSession ..
    | sessionError sessionID error lastTurn => exact ledger_upsertSession ..
    | elsewhere type => rfl

@[simp] theorem ledger_apply (db : Database) (row : Row) : (db.apply row).ledger = db.ledger := by
  unfold apply
  split
  · rename_i control _
    cases control with
    | turnStart turn => exact ledger_applyTurnStart ..
    | turnFinish assistantMessageId outcome => rfl
    | session control => exact ledger_applySessionControl ..
  · exact ledger_applyEvent ..

@[simp] theorem ledger_setCheckpoint (db : Database) (sessionId : String) (seq : ℕ) :
    (db.setCheckpoint sessionId seq).ledger = db.ledger := rfl

@[simp] theorem ledger_project (db : Database) (row : Row) : (db.project row).ledger = db.ledger := ledger_apply db row

variable {db db' : Database} {row : Row} {sessionId : String}

theorem journalOf_of_ledger (h : db'.ledger = db.ledger) (sessionId : String) :
    db'.journalOf sessionId = db.journalOf sessionId := by
  have hjournal : db'.runtimeJournal = db.runtimeJournal := congrArg Prod.fst h
  rw [journalOf, journalOf, hjournal]

theorem lease_of_ledger (h : db'.ledger = db.ledger) (sessionId : String) :
    db'.sessionTurnLease sessionId = db.sessionTurnLease sessionId := congrFun (congrArg Prod.snd h) sessionId

theorem next_of_ledger (h : db'.ledger = db.ledger) (sessionId : String) :
    db'.next sessionId = db.next sessionId := by
  rw [next, next, getSessionMaxSeq, getSessionMaxSeq, journalOf_of_ledger h]

theorem refused_of_ledger (h : db'.ledger = db.ledger) (sessionId : String) (token : Option ℤ) (advance : Bool) :
    db'.fencingTokenRefused sessionId token advance = db.fencingTokenRefused sessionId token advance := by
  unfold fencingTokenRefused latestFencingToken fencingTokens
  rw [journalOf_of_ledger h]

theorem insert_of_ledger (h : db'.ledger = db.ledger) (row : Row) :
    (db'.insertRuntimeJournal row).ledger = (db.insertRuntimeJournal row).ledger := by
  have hjournal : db'.runtimeJournal = db.runtimeJournal := congrArg Prod.fst h
  have hlease : db'.sessionTurnLease = db.sessionTurnLease := congrArg Prod.snd h
  simp only [ledger, insertRuntimeJournal, hjournal, hlease]

/-- The rows of a session that an inserted row leaves: all but the earlier updates of its part. -/
def kept (db : Database) (row : Row) : List Row :=
  (db.journalOf row.sessionId).filter fun earlier =>
    ¬ ((nonEmpty row.partId).isSome ∧ earlier.partId = nonEmpty row.partId ∧ earlier.seq < row.seq)

theorem journalOf_insert_self (db : Database) (row : Row) :
    (db.insertRuntimeJournal row).journalOf row.sessionId = db.kept row ++ [row] := by
  unfold insertRuntimeJournal journalOf kept
  rcases hpart : nonEmpty row.partId with _ | partId
  · simp [journalOf]
  · simp only [List.filter_append, journalOf, List.filter_filter, List.filter_cons, decide_true, if_true, List.filter_nil]
    congr 1
    refine List.filter_congr fun earlier _ => ?_
    by_cases hs : earlier.sessionId = row.sessionId <;> simp [hs]

theorem journalOf_insert_of_ne (db : Database) (h : row.sessionId ≠ sessionId) :
    (db.insertRuntimeJournal row).journalOf sessionId = db.journalOf sessionId := by
  unfold insertRuntimeJournal journalOf
  rcases hpart : nonEmpty row.partId with _ | partId
  · simp [h]
  · simp only [List.filter_append, List.filter_filter, List.filter_cons, h, decide_false, Bool.false_eq_true, if_false,
      List.filter_nil, List.append_nil]
    refine List.filter_congr fun earlier _ => ?_
    by_cases hs : earlier.sessionId = sessionId
    · have hne : ¬ sessionId = row.sessionId := fun he => h he.symm
      simp [hs, hne]
    · simp [hs]

theorem kept_sublist (db : Database) (row : Row) : (db.kept row).Sublist (db.journalOf row.sessionId) :=
  List.filter_sublist

/-- Only updates of a part are ever taken out of the journal. -/
theorem filterMap_kept {β : Type*} (db : Database) (row : Row) (f : Row → Option β) (hf : ∀ r, r.partId.isSome → f r = none) :
    (db.kept row).filterMap f = (db.journalOf row.sessionId).filterMap f := by
  unfold kept
  induction db.journalOf row.sessionId with
  | nil => rfl
  | cons r rs ih =>
    rw [List.filter_cons]
    split_ifs with hr
    · rw [List.filterMap_cons, List.filterMap_cons, ih]
    · have hnone : f r = none := by
        refine hf r ?_
        simp only [decide_not, Bool.not_eq_true, Bool.not_eq_false', decide_eq_true_eq] at hr
        rw [hr.2.1]
        exact hr.1
      rw [List.filterMap_cons, hnone, ih]

/-- A row that `f` reads nothing of leaves what `f` reads of every session's journal. -/
theorem filterMap_insert {β : Type*} (db : Database) (row : Row) (f : Row → Option β)
    (hf : ∀ r, r.partId.isSome → f r = none) (hrow : f row = none) (sessionId : String) :
    ((db.insertRuntimeJournal row).journalOf sessionId).filterMap f = (db.journalOf sessionId).filterMap f := by
  by_cases hs : row.sessionId = sessionId
  · rw [← hs, journalOf_insert_self, List.filterMap_append, filterMap_kept db row f hf, List.filterMap_cons, hrow,
      List.filterMap_nil, List.append_nil]
  · rw [journalOf_insert_of_ne db hs]

theorem le_foldr_max {ns : List ℕ} {n : ℕ} (h : n ∈ ns) : n ≤ ns.foldr max 0 := by
  induction ns with
  | nil => cases h
  | cons m ns ih =>
    rw [List.foldr_cons]
    rcases List.mem_cons.mp h with rfl | h
    · exact le_max_left _ _
    · exact (ih h).trans (le_max_right _ _)

theorem le_maxSeq (h : row ∈ db.journalOf sessionId) :
    row.seq ≤ db.getSessionMaxSeq sessionId := le_foldr_max (List.mem_map_of_mem h)

theorem lt_next (h : row ∈ db.journalOf sessionId) :
    row.seq < db.next sessionId := Nat.lt_succ_of_le (le_maxSeq h)

end Database

namespace RuntimeStore

open Database

theorem ledger_settleSession (σ : RuntimeStore) (sessionId : String) (items : List PendingDelta) :
    (σ.settleSession sessionId items).db.ledger = σ.db.ledger := by
  unfold settleSession
  split_ifs
  · rfl
  · simp only [ledger_setCheckpoint]
    exact ledger_foldl _ (fun db item => ledger_delta ..) _ _

variable {σ σ' : RuntimeStore} {fencingToken : Option ℤ}

theorem settle_foldl (p : RuntimeStore → Prop) (sessions : List String) (items : String → List PendingDelta)
    (h : ∀ σ session, p σ → p (σ.settleSession session (items session))) (hσ : p σ) :
    p (sessions.foldl (fun σ session => σ.settleSession session (items session)) σ) := by
  induction sessions generalizing σ with
  | nil => exact hσ
  | cons s ss ih => exact ih (h σ s hσ)

@[simp] theorem ledger_settleDeltas (σ : RuntimeStore) (sessionId : Option String) :
    (σ.settleDeltas sessionId).db.ledger = σ.db.ledger :=
  settle_foldl (fun σ' => σ'.db.ledger = σ.db.ledger) _ _
    (fun σ' session h => (ledger_settleSession σ' session _).trans h) rfl

@[simp] theorem ledger_deferDelta (σ : RuntimeStore) (row : Row) : (σ.deferDelta row).db.ledger = σ.db.ledger := by
  unfold deferDelta
  split
  · dsimp only
    split
    · split_ifs
      · rfl
      · exact ledger_settleDeltas ..
    · rfl
  · rfl

theorem ledger_replayRows (σ : RuntimeStore) (rows : List Row) (stops : Option ℕ) :
    (σ.replayRows rows stops).1.db.ledger = σ.db.ledger := by
  induction rows generalizing σ stops with
  | nil => rfl
  | cons row rows ih =>
    rcases stops with _ | _ | k
    · rw [replayRows, ih, ledger_project]
      simp
    · rfl
    · rw [replayRows, ih, ledger_project]
      simp

@[simp] theorem ledger_replay (σ : RuntimeStore) (sessionId : String) (stops : Option ℕ) :
    (σ.replay sessionId stops).1.db.ledger = σ.db.ledger := by
  unfold replay
  split_ifs
  · exact ledger_replayRows ..
  · rfl

@[simp] theorem ledger_assertProjectionCurrent (σ : RuntimeStore) (sessionId : String) (stops : Option ℕ) :
    (σ.assertProjectionCurrent sessionId stops).1.db.ledger = σ.db.ledger := by
  unfold assertProjectionCurrent
  split
  · rfl
  · rename_i failure _
    cases hrepairable : failure.repairable with
    | false => rfl
    | true =>
      simp only [if_true]
      split_ifs <;> exact ledger_replay ..

@[simp] theorem ledger_reopen (db : Database) : (reopen db).db.ledger = db.ledger := by
  have hfold : ∀ (sessions : List String) (σ : RuntimeStore),
      (sessions.foldl (fun σ sessionId => (σ.replay sessionId none).1) σ).db.ledger = σ.db.ledger := by
    intro sessions
    induction sessions with
    | nil => exact fun _ => rfl
    | cons s ss ih =>
      intro σ
      rw [List.foldl_cons, ih, ledger_replay]
  exact hfold _ _

/-- The store once the session's projection is level with its journal, as far as it can be. -/
def level (σ : RuntimeStore) (sessionId : String) (stops : Option ℕ) : RuntimeStore :=
  (σ.assertProjectionCurrent sessionId stops).1

/-- What a refused write may leave behind: rows already journaled, taken into the projection. -/
def TakesIn (σ : RuntimeStore) (sessionId : String) (stops : Option ℕ) (σ' : RuntimeStore) : Prop :=
  σ' = σ.level sessionId stops ∨ σ' = (σ.level sessionId stops).settleDeltas (some sessionId)

theorem TakesIn.settled (σ : RuntimeStore) (sessionId : String) (stops : Option ℕ) :
    σ.TakesIn sessionId stops ((σ.level sessionId stops).settleDeltas (some sessionId)) := .inr rfl

theorem TakesIn.ledger {sessionId : String} {stops : Option ℕ} (h : σ.TakesIn sessionId stops σ') :
    σ'.db.ledger = σ.db.ledger := by
  rcases h with rfl | rfl
  · exact ledger_assertProjectionCurrent ..
  · rw [ledger_settleDeltas]
    exact ledger_assertProjectionCurrent ..

/-- A commit's row is journaled past its fence, or nothing is. -/
theorem commit_cases (σ : RuntimeStore) (entry : Entry) (fencingToken : Option ℤ) (advance : Bool) (stops : Option ℕ)
    (throws : Bool) :
    (σ.db.fencingTokenRefused entry.sessionId fencingToken advance = false ∧
      (σ.commit entry fencingToken advance stops throws).1.db.ledger =
        (σ.db.insertRuntimeJournal (entry.row (σ.db.next entry.sessionId))).ledger) ∨
    ((∃ error, (σ.commit entry fencingToken advance stops throws).2 = .error error) ∧
      σ.TakesIn entry.sessionId stops (σ.commit entry fencingToken advance stops throws).1) := by
  have hlevel := ledger_assertProjectionCurrent σ entry.sessionId stops
  unfold commit TakesIn level
  rcases hassert : σ.assertProjectionCurrent entry.sessionId stops with ⟨σ₁, _ | error⟩
  · rw [hassert] at hlevel
    dsimp only at hlevel ⊢
    split_ifs with hdeleted hdelta hrefused hrefused hthrows hfence
    · exact .inr ⟨⟨_, rfl⟩, .inl rfl⟩
    · exact .inr ⟨⟨_, rfl⟩, .inl rfl⟩
    · refine .inl ⟨?_, ?_⟩
      · rw [Database.refused_of_ledger hlevel] at hrefused
        simpa using hrefused
      · rw [ledger_deferDelta, Database.next_of_ledger hlevel]
        exact Database.insert_of_ledger hlevel _
    · exact .inr ⟨⟨_, rfl⟩, .inr rfl⟩
    · exact .inr ⟨⟨_, rfl⟩, .inr rfl⟩
    all_goals
      have hsettled := (ledger_settleDeltas σ₁ (some entry.sessionId)).trans hlevel
      refine .inl ⟨?_, ?_⟩
      · rw [Database.refused_of_ledger hsettled] at hrefused
        simpa using hrefused
    · rw [Database.next_of_ledger hsettled]
      exact Database.insert_of_ledger hsettled _
    · rw [Database.ledger_project, Database.next_of_ledger hsettled]
      exact Database.insert_of_ledger hsettled _
  · exact .inr ⟨⟨_, rfl⟩, .inl rfl⟩

theorem commitInside_ok {entry : Entry} (h : σ.commitInside entry fencingToken = .ok σ') :
    σ.db.fencingTokenRefused entry.sessionId fencingToken false = false ∧ σ.failedProjections entry.sessionId = none ∧
      σ' = { σ with db :=
        (σ.db.insertRuntimeJournal (entry.row (σ.db.next entry.sessionId))).project (entry.row (σ.db.next entry.sessionId)) } := by
  unfold commitInside at h
  split_ifs at h with hrefused
  split at h
  · cases h
  · exact ⟨by simpa using hrefused, ‹_›, (Except.ok.inj h).symm⟩

theorem transaction_cases (σ : RuntimeStore) (result : Except StoreError RuntimeStore) (throws : Bool) :
    (σ.transaction result throws).1 = σ ∨ result = .ok (σ.transaction result throws).1 := by
  unfold transaction
  cases result with
  | error error => exact .inl rfl
  | ok σ' =>
    cases throws with
    | true => exact .inl rfl
    | false => exact .inr rfl

theorem transaction_throws (σ : RuntimeStore) (result : Except StoreError RuntimeStore) : (σ.transaction result true).1 = σ := by
  cases result <;> rfl

theorem endTurn_cases (σ : RuntimeStore) (sessionId : String) (stops : Option ℕ)
    (run : RuntimeStore → RuntimeStore × Except StoreError Unit) (gone : Except StoreError Unit) :
    σ.TakesIn sessionId stops (σ.endTurn sessionId stops run gone).1 ∨
      (σ.endTurn sessionId stops run gone) = run ((σ.level sessionId stops).settleDeltas (some sessionId)) := by
  unfold endTurn TakesIn level
  rcases σ.assertProjectionCurrent sessionId stops with ⟨σ₁, _ | error⟩
  · dsimp only
    split_ifs
    · exact .inl (.inr rfl)
    · exact .inr rfl
  · exact .inl (.inl rfl)

/-- Rows that land together for one session: in order at the end of its journal, where none is an
update of a part, and nowhere else. -/
theorem commitAll_ok {sessionId : String} {entries : List Entry} (h : σ.commitAll fencingToken entries = .ok σ')
    (hs : ∀ entry ∈ entries, entry.sessionId = sessionId ∧ ∀ seq, (entry.row seq).partId = none) :
    (∃ rows, σ'.db.journalOf sessionId = σ.db.journalOf sessionId ++ rows ∧
      rows.map (·.content) = entries.map (·.content)) ∧
      ∀ other, other ≠ sessionId → σ'.db.journalOf other = σ.db.journalOf other := by
  induction entries generalizing σ with
  | nil =>
    obtain rfl : σ = σ' := Except.ok.inj h
    exact ⟨⟨[], by simp⟩, fun _ _ => rfl⟩
  | cons entry entries ih =>
    obtain ⟨hentry, hrest⟩ := List.forall_mem_cons.mp hs
    obtain ⟨hsession, hpart⟩ := hentry
    rw [commitAll] at h
    split at h
    · rename_i σ₁ hok
      obtain ⟨-, -, rfl⟩ := commitInside_ok hok
      obtain ⟨⟨rows, hrows, hcontents⟩, hother⟩ := ih h hrest
      refine ⟨⟨entry.row (σ.db.next entry.sessionId) :: rows, ?_, by simp [hcontents, Entry.row]⟩, fun other hne => ?_⟩
      swap
      · rw [hother other hne, Database.journalOf_of_ledger (Database.ledger_project _ _)]
        exact Database.journalOf_insert_of_ne σ.db fun he => hne (he.symm.trans hsession)
      rw [hrows, Database.journalOf_of_ledger (Database.ledger_project _ _), ← hsession]
      have hkept : σ.db.kept (entry.row (σ.db.next entry.sessionId)) = σ.db.journalOf entry.sessionId := by
        refine List.filter_eq_self.mpr fun earlier _ => ?_
        simp [hpart, nonEmpty]
      have hinsert := Database.journalOf_insert_self σ.db (entry.row (σ.db.next entry.sessionId))
      rw [hkept] at hinsert
      rw [show (entry.row (σ.db.next entry.sessionId)).sessionId = entry.sessionId from rfl] at hinsert
      rw [hinsert, List.append_assoc]
      rfl
    · cases h

theorem commitAll_append {entries entries' : List Entry} (h : σ.commitAll fencingToken (entries ++ entries') = .ok σ') :
    ∃ σ₁, σ.commitAll fencingToken entries = .ok σ₁ ∧ σ₁.commitAll fencingToken entries' = .ok σ' := by
  induction entries generalizing σ with
  | nil => exact ⟨σ, rfl, h⟩
  | cons entry entries ih =>
    rw [List.cons_append, commitAll] at h
    rw [commitAll]
    split at h
    · exact ih h
    · cases h

theorem interruptTurn_cases (σ : RuntimeStore) (sessionId assistantMessageId leaseId : String) (fencingToken : Option ℤ)
    (message : String) (ts : ℕ) (stops : Option ℕ) (throws : Bool) :
    σ.TakesIn sessionId stops
        (σ.interruptTurn sessionId assistantMessageId leaseId fencingToken message ts stops throws).1 ∨
      ∃ agentSessionId, ((σ.level sessionId stops).settleDeltas (some sessionId)).commitInside
        { sessionId, ts, agentSessionId, content := .control (.session (.interrupted message)) } fencingToken =
          .ok (σ.interruptTurn sessionId assistantMessageId leaseId fencingToken message ts stops throws).1 := by
  unfold interruptTurn
  rcases endTurn_cases σ sessionId stops _ (.ok ()) with hin | hrun
  · exact .inl hin
  rw [hrun]
  clear hrun
  have hsettled := TakesIn.settled σ sessionId stops
  generalize (σ.level sessionId stops).settleDeltas (some sessionId) = σ₁ at hsettled ⊢
  by_cases hlease : σ₁.db.sessionTurnLease sessionId ≠ some leaseId
  · rw [if_pos hlease]
    exact .inl hsettled
  by_cases hrefused : σ₁.db.fencingTokenRefused sessionId fencingToken false
  · rw [if_neg hlease, if_pos hrefused]
    exact .inl hsettled
  rw [if_neg hlease, if_neg hrefused]
  rcases hstart : (σ₁.db.latestTurnStart sessionId).filter (·.2.assistantMessageId = assistantMessageId) with
    _ | ⟨active, turn⟩
  · simp only [hstart]
    exact .inl hsettled
  simp only [hstart]
  split_ifs with hfinished
  · exact .inl hsettled
  · rcases transaction_cases σ₁ (σ₁.commitInside _ fencingToken) throws with hsame | hok
    · rw [hsame]
      exact .inl hsettled
    · exact .inr ⟨active.agentSessionId, hok⟩

theorem finishTurn_cases (σ : RuntimeStore) (sessionId : String) (assistantMessageId : Option String) (leaseId : String)
    (fencingToken : Option ℤ) (outcome : AgentTurnOutcome) (now : ℕ → ℕ) (stops : Option ℕ) (throws : Bool) :
    σ.TakesIn sessionId stops
        (σ.finishTurn sessionId assistantMessageId leaseId fencingToken outcome now stops throws).1 ∨
      ∃ (σ₁ : RuntimeStore) (active : Row) (turn : Turn), σ₁ = (σ.level sessionId stops).settleDeltas (some sessionId) ∧
        σ₁.db.latestTurnStart sessionId = some (active, turn) ∧ σ₁.db.sessionTurnLease sessionId = some leaseId ∧
        σ₁.db.fencingTokenRefused sessionId fencingToken false = false ∧
        turn.assistantMessageId ∉ σ₁.db.turnFinishes sessionId ∧
        σ₁.commitAll fencingToken (finishEntries σ₁.db sessionId active turn outcome now) =
          .ok (σ.finishTurn sessionId assistantMessageId leaseId fencingToken outcome now stops throws).1 := by
  unfold finishTurn
  rcases endTurn_cases σ sessionId stops _ (.error .deleted) with hin | hrun
  · exact .inl hin
  rw [hrun]
  clear hrun
  have hsettled := TakesIn.settled σ sessionId stops
  generalize (σ.level sessionId stops).settleDeltas (some sessionId) = σ₁ at hsettled ⊢
  by_cases hlease : σ₁.db.sessionTurnLease sessionId ≠ some leaseId
  · rw [if_pos hlease]
    exact .inl hsettled
  by_cases hrefused : σ₁.db.fencingTokenRefused sessionId fencingToken false
  · rw [if_neg hlease, if_pos hrefused]
    exact .inl hsettled
  rw [if_neg hlease, if_neg hrefused]
  rcases hstart : σ₁.db.latestTurnStart sessionId with _ | ⟨active, turn⟩
  · exact .inl hsettled
  dsimp only
  split_ifs with hempty hother hfinished
  · exact .inl hsettled
  · exact .inl hsettled
  · exact .inl hsettled
  · rcases transaction_cases σ₁ (σ₁.commitAll fencingToken _) throws with hsame | hok
    · rw [hsame]
      exact .inl hsettled
    · exact .inr ⟨σ₁, active, turn, rfl, hstart, by simpa using hlease, by simpa using hrefused,
        by simpa [Database.readTurnFinished] using hfinished, hok⟩

/-- The row a broker's call commits. -/
def BrokerCall.Writes : BrokerCall → Entry → Prop
  | .appendInside sessionId payload ts, entry => entry = { sessionId, ts, content := .event payload }
  | .persistGrantInside sessionId _ ts, entry =>
    ∃ patch, entry = { sessionId, ts, content := .control (.session (.configUpdate patch)) }

theorem brokerRun_cons {call : BrokerCall} {calls : List BrokerCall} (h : σ.brokerRun (call :: calls) = .ok σ') :
    ∃ entry σ₁, call.Writes entry ∧ σ.commitInside entry none = .ok σ₁ ∧ σ₁.brokerRun calls = .ok σ' := by
  cases call with
  | appendInside sessionId payload ts =>
    rw [brokerRun] at h
    split at h
    · rename_i σ₁ hinside
      exact ⟨_, σ₁, rfl, hinside, h⟩
    · cases h
  | persistGrantInside sessionId grantKey ts =>
    rw [brokerRun] at h
    split at h
    · rename_i σ₁ hinside
      unfold brokerPersistGrantInside at hinside
      split at hinside
      · cases hinside
      · dsimp only at hinside
        split at hinside
        · cases hinside
        · exact ⟨_, σ₁, ⟨_, rfl⟩, hinside, h⟩
    · cases h

end RuntimeStore

end Claxedo.Store
