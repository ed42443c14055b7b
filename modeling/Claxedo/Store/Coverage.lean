import Claxedo.Store.Messages

/-! `turnCoverage`: how much of one turn the projection accounts for. The extent it reads runs from a
prompt to the first prompt the turn did not take in, while the turn's messages are those its rows
name it on; the two agree where the prompt opens the turn. -/

namespace Claxedo.Store

open Lib

variable {home : Homes}

structure TurnEvidence where
  started : Bool := false
  finished : Bool := false
  outcome : Option AgentTurnOutcome := none

/-- The outcome of a `turn.finish` row of the turn. -/
def Row.turnOutcome? (row : Row) (assistantMessageId : String) : Option AgentTurnOutcome :=
  match row.content with
  | .control (.turnFinish id outcome) => if id = assistantMessageId then some outcome else none
  | _ => none

namespace Database

variable (db : Database) (sessionId : String)

/-- The id of the turn either of its message ids names. -/
def readTurnId (messageId : String) : Option String :=
  (((db.journalOf sessionId).filterMap (·.turnStart?)).filter fun turn =>
    turn.assistantMessageId = messageId ∨ turn.userMessageId = some messageId).getLast?.map (·.assistantMessageId)

def readTurnEvidence (turnId : String) : TurnEvidence :=
  match nonEmpty (db.readTurnId sessionId turnId) with
  | none => {}
  | some started =>
    match ((db.journalOf sessionId).filterMap (·.turnOutcome? started)).getLast? with
    | none => { started := true }
    | some outcome => { started := true, finished := true, outcome := some outcome }

/-- The session's messages, as `ORDER BY ord ASC` gives them. -/
def messagesByOrd (where_ : MessageRow → Bool) : List MessageRow :=
  (db.message.filter fun row => row.sessionId = sessionId ∧ where_ row).insertionSort (·.ord ≤ ·.ord)

/-- The turn's own prompt and every prompt steered into it, in projection order. -/
def readTurnPrompts (turnId : String) : List MessageRow :=
  db.messagesByOrd sessionId fun row => row.turnId = some turnId ∧ row.role = .user

/-- Where the messages of the turn whose prompt sits at `boundaryOrd` end: at the first prompt it did not take in. -/
def readTurnEndOrd (boundaryOrd : ℕ) (prompts : List String) : Option ℕ :=
  ((db.message.filter fun row =>
    row.sessionId = sessionId ∧ row.role = .user ∧ boundaryOrd < row.ord ∧ row.id ∉ prompts).map (·.ord)).min?

def messageNamed (id : String) : Option MessageRow :=
  (Table.get MessageRow.id id db.message).filter fun row => row.sessionId = sessionId

/-- The prompt the named message is or answers. -/
def turnBoundary (named : MessageRow) : Option MessageRow :=
  if named.role = .user then some named else named.info.parentID.bind (db.messageNamed sessionId)

end Database

/-- One whole turn: its user message, then only the `prompts` taken into it and assistants that answer one of them. -/
def isContiguousTurn (rows : List MessageRow) (prompts : List String) : Bool :=
  match rows with
  | [] => false
  | first :: rest =>
    first.info.role = .user ∧ first.info.id = first.id ∧ rest.all fun row =>
      if row.info.role = .user then row.info.id ∈ prompts
      else row.info.role = .assistant ∧ row.info.parentID.any (· ∈ prompts)

inductive AgentTurnCoverage where
  | complete
  | partialTurn
  | unavailable
  deriving DecidableEq

/-- The messages are their rows; what hydration adds to a row is read elsewhere. -/
structure AgentTurnCoveragePage where
  turnId : String
  coverage : AgentTurnCoverage
  reason : Option String := none
  terminal : Option AgentTurnOutcome := none
  committedSequence : ℕ
  messages : List MessageRow := []

inductive CoverageError where
  | agentMessagePageError (status : ℕ) (message : String)
  /-- What the replay threw. -/
  | thrown

namespace RuntimeStore

/-- What `turnCoverage` answers over a store that is settled and replayed. -/
def coverageOf (σ : RuntimeStore) (sessionId turnId : String) : Except CoverageError AgentTurnCoveragePage :=
  let evidence := σ.db.readTurnEvidence sessionId turnId
  let answer (coverage : AgentTurnCoverage) (reason : Option String) (messages : List MessageRow) : AgentTurnCoveragePage :=
    { turnId, coverage, reason, terminal := evidence.outcome, committedSequence := σ.db.journalCheckpoint sessionId, messages }
  match nonEmpty (σ.db.readTurnId sessionId turnId) with
  | none =>
    -- A turn of another session is that session's to answer for.
    if σ.db.runtimeJournal.any fun row => row.turnStart?.any fun turn =>
        turn.assistantMessageId = turnId ∨ turn.userMessageId = some turnId then
      .error (.agentMessagePageError 404 s!"Turn {turnId} does not belong to session {sessionId}")
    else .ok (answer .unavailable (some s!"The journal records no turn {turnId} for session {sessionId}") [])
  | some ownTurn =>
    match σ.failedProjections sessionId with
    | some failure =>
      .ok (answer .unavailable (some s!"The projection for session {sessionId} is blocked at seq {failure.seq}") [])
    | none =>
      if ¬ σ.db.message.any (·.sessionId = sessionId) then
        .ok (answer .unavailable (some s!"Session {sessionId} has no projected transcript in this store") [])
      else
        match σ.db.messageNamed sessionId turnId with
        | none => .ok (answer .partialTurn (some s!"The projection holds no message {turnId}") [])
        | some named =>
          match σ.db.turnBoundary sessionId named with
          | none => .ok (answer .partialTurn (some s!"The projection holds no user message owning {turnId}") [])
          | some boundary =>
            let prompts := boundary.id :: (σ.db.readTurnPrompts sessionId ownTurn).map (·.id)
            let stop := σ.db.readTurnEndOrd sessionId boundary.ord prompts
            let rows := σ.db.messagesByOrd sessionId fun row => boundary.ord ≤ row.ord ∧ stop.all (row.ord < ·)
            if ¬ isContiguousTurn rows prompts then
              .ok (answer .partialTurn (some s!"Turn {turnId} is not contiguous in the projection") rows)
            else if ¬ evidence.finished then
              .ok (answer .partialTurn (some s!"The journal records no end for turn {turnId}") rows)
            else .ok (answer .complete none rows)

def turnCoverage (σ : RuntimeStore) (sessionId turnId : String) (stops : Option ℕ) :
    RuntimeStore × Except CoverageError AgentTurnCoveragePage :=
  let σ := σ.settleDeltas (some sessionId)
  if (σ.db.session sessionId).isNone then
    (σ, .error (.agentMessagePageError 404 s!"Session not found: {sessionId}"))
  else
    match σ.replay sessionId stops with
    | (σ, false) => (σ, .error .thrown)
    | (σ, true) => (σ, σ.coverageOf sessionId turnId)

end RuntimeStore

/-- The prompt comes before every message of the turn, with no prompt of another turn between. -/
def Opens (db : Database) (sessionId own : String) (boundary : MessageRow) : Prop :=
  ∀ row ∈ db.message, row.sessionId = sessionId → row.turnId = some own → boundary.ord ≤ row.ord ∧
    ∀ prompt ∈ db.message, prompt.sessionId = sessionId → prompt.role = .user → boundary.ord < prompt.ord →
      prompt.ord ≤ row.ord → prompt.turnId = some own

/-- The turn has ended, the projection is level with the journal, and every message of the turn is among
`messages`, in their order. -/
structure Honest (σ : RuntimeStore) (sessionId own : String) (messages : List MessageRow) : Prop where
  finished : own ∈ σ.db.turnFinishes sessionId
  checkpoint : σ.db.journalCheckpoint sessionId = σ.db.getSessionMaxSeq sessionId
  settled : σ.pendingOf sessionId = []
  unblocked : σ.failedProjections sessionId = none
  whole : ∀ row ∈ σ.db.message, row.sessionId = sessionId → row.turnId = some own → row ∈ messages
  ordered : messages.Pairwise (·.ord < ·.ord)

theorem Row.turnFinish?_of_turnOutcome? {row : Row} {own : String} {outcome : AgentTurnOutcome}
    (h : row.turnOutcome? own = some outcome) : row.turnFinish? = some own := by
  unfold Row.turnOutcome? at h
  split at h
  · rename_i id _ hcontent
    split_ifs at h with hid
    rw [Row.turnFinish?, hcontent, hid]
  · cases h

namespace Database

variable {db : Database} {s own : String}

theorem mem_turnFinishes_of_finished {turnId : String} (hown : nonEmpty (db.readTurnId s turnId) = some own)
    (h : (db.readTurnEvidence s turnId).finished) : own ∈ db.turnFinishes s := by
  unfold readTurnEvidence at h
  rw [hown] at h
  dsimp only at h
  rcases houtcome : ((db.journalOf s).filterMap (·.turnOutcome? own)).getLast? with _ | outcome
  · rw [houtcome] at h
    cases h
  · obtain ⟨row, hrow, hat⟩ := List.mem_filterMap.mp (List.mem_of_getLast? houtcome)
    exact List.mem_filterMap.mpr ⟨row, hrow, Row.turnFinish?_of_turnOutcome? hat⟩

theorem mem_messagesByOrd {p : MessageRow → Bool} {row : MessageRow} :
    row ∈ db.messagesByOrd s p ↔ row ∈ db.message ∧ row.sessionId = s ∧ p row := by
  simp [messagesByOrd, List.mem_insertionSort]

/-- Two messages of a session do not share an id. -/
theorem eq_of_id (hids : (db.outline s).Pairwise (·.id ≠ ·.id)) {a b : MessageRow} (ha : a ∈ db.message) (hb : b ∈ db.message)
    (has : a.sessionId = s) (hbs : b.sessionId = s) (hid : a.id = b.id) : a = b := by
  rw [outline, List.pairwise_map] at hids
  have hsymm : Std.Symm fun a b : MessageRow => a.stand.id ≠ b.stand.id := ⟨fun _ _ h => h.symm⟩
  by_contra hne
  exact hids.forall (List.mem_filter.mpr ⟨ha, by simpa using has⟩) (List.mem_filter.mpr ⟨hb, by simpa using hbs⟩) hne hid

theorem ordered_messagesByOrd (hords : (db.outline s).Pairwise (·.ord < ·.ord)) (p : MessageRow → Bool) :
    (db.messagesByOrd s p).Pairwise (·.ord < ·.ord) := by
  rw [outline, List.pairwise_map] at hords
  have hsub : (db.message.filter fun row => row.sessionId = s ∧ p row).Pairwise (fun a b => a.ord < b.ord) :=
    hords.sublist (List.monotone_filter_right _ fun row hrow => by simp_all)
  unfold messagesByOrd
  rw [List.Pairwise.insertionSort_eq]
  · exact hsub
  · exact hsub.imp fun h => h.le

/-- What the answer leaves out of the turn stands before the prompt or past another turn's. -/
theorem whole_iff_opens (hids : (db.outline s).Pairwise (·.id ≠ ·.id)) {boundary : MessageRow} (hmem : boundary ∈ db.message)
    (hs : boundary.sessionId = s) :
    (∀ row ∈ db.message, row.sessionId = s → row.turnId = some own → row ∈ db.messagesByOrd s fun row =>
      boundary.ord ≤ row.ord ∧
        (db.readTurnEndOrd s boundary.ord (boundary.id :: (db.readTurnPrompts s own).map (·.id))).all (row.ord < ·)) ↔
      Opens db s own boundary := by
  have hprompts : ∀ p ∈ db.message, p.sessionId = s → p.role = .user → boundary.ord < p.ord →
      (p.id ∈ boundary.id :: (db.readTurnPrompts s own).map (·.id) ↔ p.turnId = some own) := by
    intro p hp hps hrole hlt
    refine ⟨fun hid => ?_, fun hturn => ?_⟩
    · rcases List.mem_cons.mp hid with hid | hid
      · rw [eq_of_id hids hp hmem hps hs hid] at hlt
        exact absurd hlt (lt_irrefl _)
      · obtain ⟨q, hq, hid⟩ := List.mem_map.mp hid
        obtain ⟨hqmem, hqs, hq⟩ := mem_messagesByOrd.mp hq
        rw [← eq_of_id hids hqmem hp hqs hps hid]
        exact (of_decide_eq_true hq).1
    · refine List.mem_cons_of_mem _ (List.mem_map.mpr ⟨p, mem_messagesByOrd.mpr ⟨hp, hps, ?_⟩, rfl⟩)
      simp [hturn, hrole]
  have hend : ∀ ord, (db.readTurnEndOrd s boundary.ord (boundary.id :: (db.readTurnPrompts s own).map (·.id))).all (ord < ·) ↔
      ∀ p ∈ db.message, p.sessionId = s → p.role = .user → boundary.ord < p.ord → p.ord ≤ ord → p.turnId = some own := by
    intro ord
    rcases hend : db.readTurnEndOrd s boundary.ord _ with _ | stop
    · have hnone := List.map_eq_nil_iff.mp (List.min?_eq_none_iff.mp hend)
      refine iff_of_true rfl fun p hp hps hrole hlt hle => ?_
      by_contra hturn
      refine List.filter_eq_nil_iff.mp hnone p hp (decide_eq_true ⟨hps, hrole, hlt, ?_⟩)
      rwa [hprompts p hp hps hrole hlt]
    · obtain ⟨hstop, hleast⟩ := List.min?_eq_some_iff.mp hend
      obtain ⟨q, hq, rfl⟩ := List.mem_map.mp hstop
      obtain ⟨hqmem, hq⟩ := List.mem_filter.mp hq
      obtain ⟨hqs, hqrole, hqlt, hqid⟩ := of_decide_eq_true hq
      rw [Option.all_some, decide_eq_true_eq]
      refine ⟨fun hlt p hp hps hrole hplt hple => ?_, fun h => ?_⟩
      · by_contra hturn
        have := hleast p.ord (List.mem_map.mpr ⟨p, List.mem_filter.mpr ⟨hp, decide_eq_true ⟨hps, hrole, hplt,
          by rwa [hprompts p hp hps hrole hplt]⟩⟩, rfl⟩)
        omega
      · by_contra hge
        exact hqid ((hprompts q hqmem hqs hqrole hqlt).mpr (h q hqmem hqs hqrole hqlt (not_lt.mp hge)))
  refine forall_congr' fun row => forall_congr' fun hrow => forall_congr' fun hrs => forall_congr' fun hturn => ?_
  rw [mem_messagesByOrd, ← hend row.ord]
  simp [hrow, hrs]

theorem mem_of_messageNamed {id : String} {row : MessageRow} (h : db.messageNamed s id = some row) :
    row ∈ db.message ∧ row.sessionId = s := by
  obtain ⟨hget, hs⟩ := Option.filter_eq_some_iff.mp h
  exact ⟨(Table.mem_of_get hget).1, of_decide_eq_true hs⟩

theorem mem_of_turnBoundary {turnId : String} {named boundary : MessageRow} (hnamed : db.messageNamed s turnId = some named)
    (h : db.turnBoundary s named = some boundary) : boundary ∈ db.message ∧ boundary.sessionId = s := by
  unfold turnBoundary at h
  split_ifs at h
  · cases h
    exact mem_of_messageNamed hnamed
  · obtain ⟨id, -, hid⟩ := Option.bind_eq_some_iff.mp h
    exact mem_of_messageNamed hid

/-- The same prompt, seen from the turn's first message. -/
def OpensFirst (db : Database) (sessionId own : String) (boundary : MessageRow) : Prop :=
  ∀ first ∈ db.message, first.sessionId = sessionId → first.turnId = some own →
    (∀ row ∈ db.message, row.sessionId = sessionId → row.turnId = some own → first.ord ≤ row.ord) →
    boundary.ord ≤ first.ord ∧ ∀ prompt ∈ db.message, prompt.sessionId = sessionId → prompt.role = .user →
      boundary.ord < prompt.ord → first.ord ≤ prompt.ord

/-- The turn's start is journaled in one place. -/
def StartsOnce (db : Database) (sessionId own : String) : Prop :=
  ∀ n m, StartedAt (db.journalOf sessionId) (some own) n → StartedAt (db.journalOf sessionId) (some own) m → n = m

end Database

/-- What stands between two messages of a turn that starts once is of the turn. -/
theorem Spans.between {db : Database} {s own : String} {upto : ℕ} (h : Spans (db.journalOf s) upto (db.outline s))
    (hascending : (db.journalOf s).Pairwise (·.seq < ·.seq)) (hpositive : ∀ row ∈ db.journalOf s, 0 < row.seq)
    (honce : db.StartsOnce s own) {a b c : Stand} (ha : a ∈ db.outline s) (hb : b ∈ db.outline s) (hc : c ∈ db.outline s)
    (hab : a.ord ≤ b.ord) (hbc : b.ord ≤ c.ord) (hown : a.turnId = some own) (hown' : c.turnId = some own) :
    b.turnId = some own := by
  obtain ⟨-, hords, seqs, hstarts, hseqs, -⟩ := h
  obtain ⟨i, hi, rfl⟩ := List.mem_iff_getElem.mp ha
  obtain ⟨j, hj, rfl⟩ := List.mem_iff_getElem.mp hb
  obtain ⟨k, hk, rfl⟩ := List.mem_iff_getElem.mp hc
  have hlength := hstarts.length_eq
  have hle : ∀ i j (hi : i < (db.outline s).length) (hj : j < (db.outline s).length),
      (db.outline s)[i].ord ≤ (db.outline s)[j].ord → seqs[i] ≤ seqs[j] := by
    intro i j hi hj hord
    rcases lt_trichotomy i j with hlt | rfl | hgt
    · exact List.pairwise_iff_getElem.mp hseqs i j (by omega) (by omega) hlt
    · exact le_rfl
    · have := List.pairwise_iff_getElem.mp hords j i hj hi hgt
      omega
  have hij := hle i j hi hj hab
  have hjk := hle j k hj hk hbc
  have hstart : ∀ i (hi : i < (db.outline s).length), StartedAt (db.journalOf s) (db.outline s)[i].turnId (seqs[i]) :=
    fun i hi => hstarts.get hi (by omega)
  have hi' := hstart i hi
  have hk' := hstart k hk
  rw [hown] at hi'
  rw [hown'] at hk'
  have hsame := honce _ _ hi' hk'
  have heq : seqs[j] = seqs[i] := by omega
  have hj' := heq ▸ hstart j hj
  obtain ⟨row, hrow, hseq, turn, hturn, hid⟩ := hi'
  rcases hturnId : (db.outline s)[j].turnId with _ | id
  · rw [hturnId] at hj'
    have : seqs[i] = 0 := hj'
    have := hpositive row hrow
    omega
  · rw [hturnId] at hj'
    obtain ⟨row', hrow', hseq', turn', hturn', hid'⟩ := hj'
    have hsymm : Std.Symm fun a b : Row => a.seq ≠ b.seq := ⟨fun _ _ h => h.symm⟩
    have hrows : row = row' := by
      by_contra hne
      exact (hascending.imp fun h => h.ne).forall hrow hrow' hne (hseq.trans hseq'.symm)
    subst hrows
    rw [hturn] at hturn'
    rw [← hid', ← Option.some.inj hturn', hid]

/-- Where the turn starts once, it is enough to look as far as its first message. -/
theorem Database.opens_iff_opensFirst {db : Database} {s own : String} {upto : ℕ} (h : Spans (db.journalOf s) upto (db.outline s))
    (hascending : (db.journalOf s).Pairwise (·.seq < ·.seq)) (hpositive : ∀ row ∈ db.journalOf s, 0 < row.seq)
    (honce : db.StartsOnce s own) (boundary : MessageRow) : Opens db s own boundary ↔ db.OpensFirst s own boundary := by
  have hstand : ∀ row ∈ db.message, row.sessionId = s → row.stand ∈ db.outline s := fun row hrow hs =>
    List.mem_map_of_mem (List.mem_filter.mpr ⟨hrow, by simpa using hs⟩)
  refine ⟨fun hopens first hfirst hs hturn hleast => ?_, fun hopens row hrow hs hturn => ?_⟩
  · obtain ⟨hle, hbetween⟩ := hopens first hfirst hs hturn
    refine ⟨hle, fun prompt hprompt hps hrole hlt => ?_⟩
    by_contra hbefore
    have hbefore := not_le.mp hbefore
    exact absurd (hleast prompt hprompt hps (hbetween prompt hprompt hps hrole hlt hbefore.le)) (not_le.mpr hbefore)
  · obtain ⟨first, ⟨hfirst, hfs, hfturn⟩, hleast⟩ := (InvImage.wf MessageRow.ord Nat.lt_wfRel.wf).has_min
      {r | r ∈ db.message ∧ r.sessionId = s ∧ r.turnId = some own} ⟨row, hrow, hs, hturn⟩
    have hleast : ∀ r ∈ db.message, r.sessionId = s → r.turnId = some own → first.ord ≤ r.ord :=
      fun r hr hrs hrturn => not_lt.mp (hleast r ⟨hr, hrs, hrturn⟩)
    obtain ⟨hle, hbetween⟩ := hopens first hfirst hfs hfturn hleast
    refine ⟨hle.trans (hleast row hrow hs hturn), fun prompt hprompt hps hrole hlt hbefore => ?_⟩
    exact h.between hascending hpositive honce (hstand first hfirst hfs) (hstand prompt hprompt hps) (hstand row hrow hs)
      (hbetween prompt hprompt hps hrole hlt) hbefore hfturn hturn

namespace RuntimeStore

theorem coverageOf_complete {σ : RuntimeStore} {s turnId : String} {page : AgentTurnCoveragePage}
    (h : σ.coverageOf s turnId = .ok page) (hcomplete : page.coverage = .complete) :
    ∃ own named boundary, nonEmpty (σ.db.readTurnId s turnId) = some own ∧ σ.failedProjections s = none ∧
      σ.db.messageNamed s turnId = some named ∧ σ.db.turnBoundary s named = some boundary ∧
      (σ.db.readTurnEvidence s turnId).finished ∧
      page.messages = σ.db.messagesByOrd s fun row => boundary.ord ≤ row.ord ∧
        (σ.db.readTurnEndOrd s boundary.ord (boundary.id :: (σ.db.readTurnPrompts s own).map (·.id))).all (row.ord < ·) := by
  unfold coverageOf at h
  rcases hown : nonEmpty (σ.db.readTurnId s turnId) with _ | own
  · rw [hown] at h
    dsimp only at h
    split_ifs at h
    cases h
    cases hcomplete
  rw [hown] at h
  rcases hfailed : σ.failedProjections s with _ | failure
  swap
  · rw [hfailed] at h
    cases h
    cases hcomplete
  rw [hfailed] at h
  dsimp only at h
  by_cases hany : σ.db.message.any (·.sessionId = s)
  swap
  · rw [if_pos hany] at h
    cases h
    cases hcomplete
  rw [if_neg (not_not_intro hany)] at h
  rcases hnamed : σ.db.messageNamed s turnId with _ | named
  · rw [hnamed] at h
    cases h
    cases hcomplete
  rw [hnamed] at h
  dsimp only at h
  rcases hboundary : σ.db.turnBoundary s named with _ | boundary
  · rw [hboundary] at h
    cases h
    cases hcomplete
  rw [hboundary] at h
  dsimp only at h
  split_ifs at h with hcontiguous hfinished
  · cases h
    exact ⟨own, named, boundary, rfl, rfl, rfl, hboundary, hfinished, rfl⟩
  all_goals
    cases h
    cases hcomplete

theorem level_of_replay {σ : RuntimeStore} {s : String} (h : Placed σ s) (hpending : σ.pendingOf s = []) (stops : Option ℕ)
    (hunblocked : (σ.replay s stops).1.failedProjections s = none) :
    (σ.replay s stops).1.pendingOf s = [] ∧
      (σ.replay s stops).1.db.journalCheckpoint s = (σ.replay s stops).1.db.getSessionMaxSeq s := by
  have hkept := Kept.replay h.ascending h.checkpoint hpending stops
  have hidle : (σ.replay s stops).1.pendingOf s = [] := by
    unfold replay replaySession
    split_ifs
    · have hspec := Kept.replayRows_spec (s := s) { σ with failedProjections := Function.update σ.failedProjections s none }
        ((σ.db.journalOf s).filter fun row => σ.db.journalCheckpoint s < row.seq ∧ row.seq ≤ σ.db.getSessionMaxSeq s)
        (fun row hrow => of_decide_eq_true (List.mem_filter.mp (List.mem_of_mem_filter hrow)).2) stops
      rw [pendingOf, hspec.1]
      exact hpending
    · exact hpending
  refine ⟨hidle, le_antisymm hkept.checkpoint ?_⟩
  have howed := (hkept.waits hunblocked).owed_eq_nil hidle
  refine List.max_le_of_forall_le _ _ fun n hn => ?_
  obtain ⟨row, hrow, rfl⟩ := List.mem_map.mp hn
  simpa using List.filter_eq_nil_iff.mp howed row hrow

/-- Every row takes a sequence past one. -/
theorem positive_move {σ : RuntimeStore} {m : Move} (h : ∀ row ∈ σ.db.runtimeJournal, 0 < row.seq) (hlegal : σ.Legal m) :
    ∀ row ∈ (σ.move m).db.runtimeJournal, 0 < row.seq := by
  have hsame : ∀ db' : Database, db'.ledger = σ.db.ledger → ∀ row ∈ db'.runtimeJournal, 0 < row.seq := fun db' hledger => by
    rw [show db'.runtimeJournal = σ.db.runtimeJournal from congrArg Prod.fst hledger]
    exact h
  have hinsert : ∀ row' : Row, row'.seq = σ.db.next row'.sessionId → ∀ db' : Database,
      db'.ledger = (σ.db.insertRuntimeJournal row').ledger → ∀ row ∈ db'.runtimeJournal, 0 < row.seq := by
    intro row' hseq db' hledger row hrow
    rw [show db'.runtimeJournal = (σ.db.insertRuntimeJournal row').runtimeJournal from congrArg Prod.fst hledger,
      Database.insertRuntimeJournal] at hrow
    rcases List.mem_append.mp hrow with hrow | hrow
    · split at hrow
      · exact h row (List.mem_of_mem_filter hrow)
      · exact h row hrow
    · rw [List.mem_singleton.mp hrow, hseq]
      exact Nat.succ_pos _
  cases m with
  | settle sessionId => exact hsame _ (ledger_settleDeltas ..)
  | replay sessionId stops => exact hsame _ (ledger_replay ..)
  | defer row => exact hinsert row hlegal.1 _ (ledger_deferDelta ..)
  | project row => exact hinsert row hlegal.1 _ (Database.ledger_project ..)
  | fail row => exact hinsert row hlegal.1 _ rfl
  | lease leases => exact h
  | reopen => exact hsame _ (ledger_reopen ..)

end RuntimeStore

open RuntimeStore

/-- In every run, a complete answer holds a finished turn over a level projection, and all of the turn's
messages in their order just where the prompt it reads the extent from opens the turn. -/
theorem complete_honest_iff {calls : List StoreCall}
    (h : Meets RuntimeStore.step (fun _ call => call.AtHome home) {} calls) {s turnId : String} {stops : Option ℕ}
    {σ : RuntimeStore} {page : AgentTurnCoveragePage}
    (hanswer : (Lib.run RuntimeStore.step {} calls).turnCoverage s turnId stops = (σ, .ok page))
    (hcomplete : page.coverage = .complete) :
    ∃ own named boundary, nonEmpty (σ.db.readTurnId s turnId) = some own ∧ σ.db.messageNamed s turnId = some named ∧
      σ.db.turnBoundary s named = some boundary ∧ (Honest σ s own page.messages ↔ Opens σ.db s own boundary) ∧
      (σ.db.StartsOnce s own → (Opens σ.db s own boundary ↔ σ.db.OpensFirst s own boundary)) := by
  have hpositive : ∀ row ∈ (Lib.run RuntimeStore.step {} calls).db.runtimeJournal, 0 < row.seq := by
    have hquiet : Meets RuntimeStore.step (fun σ call => call.AtHome home ∧ (False → call.Quiet σ)) {} calls :=
      meets_mono (fun σ call hcall => ⟨hcall, fun hq => hq.elim⟩) h
    obtain ⟨moves, hrun, hmoves⟩ := run_moves (tidy_empty home) hquiet
    rw [hrun]
    exact invariant_of_meets (fun σ => ∀ row ∈ σ.db.runtimeJournal, 0 < row.seq)
      (fun σ m hσ hm => positive_move hσ hm.legal) (fun _ hrow => absurd hrow List.not_mem_nil) hmoves
  obtain ⟨htidy, hplaced⟩ := placed_of_run h s
  generalize Lib.run RuntimeStore.step {} calls = σ₀ at hanswer hpositive htidy hplaced
  have htidy := htidy.settleDeltas (some s)
  have hsettled := hplaced.settle
  have hpending := pendingOf_settled σ₀ s
  have hreplayed := hsettled.replay htidy stops
  have hlevel := level_of_replay hsettled hpending stops
  have hpositive : ∀ row ∈ ((σ₀.settleDeltas (some s)).replay s stops).1.db.runtimeJournal, 0 < row.seq := by
    rw [show ((σ₀.settleDeltas (some s)).replay s stops).1.db.runtimeJournal = σ₀.db.runtimeJournal from
      congrArg Prod.fst ((ledger_replay ..).trans (ledger_settleDeltas ..))]
    exact hpositive
  unfold turnCoverage at hanswer
  dsimp only at hanswer
  split_ifs at hanswer
  · cases (Prod.mk.inj hanswer).2
  rcases hreplay : (σ₀.settleDeltas (some s)).replay s stops with ⟨σ', _ | _⟩
  · rw [hreplay] at hanswer
    cases (Prod.mk.inj hanswer).2
  rw [hreplay] at hanswer hreplayed hlevel hpositive
  obtain ⟨rfl, hpage⟩ := Prod.mk.inj hanswer
  obtain ⟨own, named, boundary, hown, hunblocked, hnamed, hboundary, hfinished, hmessages⟩ := coverageOf_complete hpage hcomplete
  obtain ⟨hsettled, hlevel⟩ := hlevel hunblocked
  obtain ⟨hmem, hs⟩ := Database.mem_of_turnBoundary hnamed hboundary
  have hspans := hreplayed.spans
  refine ⟨own, named, boundary, hown, hnamed, hboundary, ?_, fun honce => ?_⟩
  · rw [← Database.whole_iff_opens hspans.ids hmem hs, ← hmessages]
    refine ⟨fun hhonest => hhonest.whole, fun hwhole => ?_⟩
    refine ⟨Database.mem_turnFinishes_of_finished hown hfinished, hlevel, hsettled, hunblocked, hwhole, ?_⟩
    rw [hmessages]
    exact Database.ordered_messagesByOrd hspans.ords _
  · exact Database.opens_iff_opensFirst hspans hreplayed.ascending (fun row hrow => hpositive row (List.mem_of_mem_filter hrow))
      honce boundary

def completed : AgentTurnOutcome := { status := .completed, completedAt := 9 }

/-- Two turns, one after the other. -/
def twoTurns : List StoreCall :=
  [.sessionControl "s" none (.bind "/w") 1 none false, .acquireLease "s" "l",
    .startTurn "s" none { userMessageId := some "u1", assistantMessageId := "a1" } 2 none false,
    .finishTurn "s" none "l" none completed (fun _ => 3) none false,
    .startTurn "s" none { userMessageId := some "u2", assistantMessageId := "a2" } 4 none false,
    .finishTurn "s" none "l" none completed (fun _ => 5) none false]

theorem meets_twoTurns :
    Meets RuntimeStore.step (fun _ call => call.AtHome ⟨fun _ => "s", fun _ => "s"⟩) {} twoTurns := by
  have hstart : ∀ turn : Turn, (Content.control (.turnStart turn)).AtHome ⟨fun _ => "s", fun _ => "s"⟩ "s" := fun turn =>
    ⟨rfl, fun id hid => ⟨rfl, fun i hi => rfl⟩⟩
  exact ⟨trivial, trivial, hstart _, trivial, hstart _, trivial, trivial⟩

/-- A third turn answers the first one's prompt again, with no user message of its own. -/
def answersEarlierPrompt : List StoreCall :=
  twoTurns ++ [.startTurn "s" none { parentMessageId := some "u1", assistantMessageId := "a3" } 6 none false,
    .finishTurn "s" none "l" none completed (fun _ => 7) none false]

/-- What a coverage call answers: the coverage, and the ids of the messages. -/
def covered (calls : List StoreCall) (turnId : String) : Option (AgentTurnCoverage × List String) :=
  match ((run step {} calls).turnCoverage "s" turnId none).2 with
  | .ok page => some (page.coverage, page.messages.map (·.id))
  | .error _ => none

/-- The second of two turns is covered whole. -/
theorem second_turn_honest :
    ∃ σ page, (run step {} twoTurns).turnCoverage "s" "a2" none = (σ, .ok page) ∧ page.coverage = .complete ∧
      Honest σ "s" "a2" page.messages := by
  have hcovered : covered twoTurns "a2" = some (.complete, ["u2", "a2"]) := by decide +kernel
  unfold covered at hcovered
  rcases hanswer : (run step {} twoTurns).turnCoverage "s" "a2" none with ⟨σ, error | page⟩
  · rw [hanswer] at hcovered
    cases hcovered
  rw [hanswer] at hcovered
  have hcomplete : page.coverage = .complete := congrArg Prod.fst (Option.some.inj hcovered)
  obtain ⟨own, named, boundary, hown, hnamed, hboundary, hiff, -⟩ := complete_honest_iff meets_twoTurns hanswer hcomplete
  have hσ : σ = ((run step {} twoTurns).turnCoverage "s" "a2" none).1 := by rw [hanswer]
  have hid : nonEmpty (σ.db.readTurnId "s" "a2") = some "a2" := by
    rw [hσ]
    decide +kernel
  obtain rfl : own = "a2" := Option.some.inj (hown.symm.trans hid)
  have hord : ((σ.db.messageNamed "s" "a2").bind (σ.db.turnBoundary "s")).map (·.ord) = some 2 := by
    rw [hσ]
    decide +kernel
  rw [hnamed, Option.bind_some, hboundary] at hord
  refine ⟨σ, page, rfl, hcomplete, hiff.mpr ?_⟩
  have hord : boundary.ord = 2 := Option.some.inj hord
  unfold Opens
  rw [hord, hσ]
  decide +kernel

/-- The third turn's answer is complete, and its one reply is not in it. -/
theorem complete_leaves_reply_out :
    covered answersEarlierPrompt "a3" = some (.complete, ["u1", "a1"]) ∧
      (run step {} answersEarlierPrompt).db.message.map (fun r => (r.id, r.turnId)) =
        [("u1", some "a1"), ("a1", some "a1"), ("u2", some "a2"), ("a2", some "a2"), ("a3", some "a3")] := by
  decide +kernel

end Claxedo.Store
