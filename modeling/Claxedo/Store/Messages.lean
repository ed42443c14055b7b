import Claxedo.Store.Recovery

/-! The message table. Only `upsertMessage` writes it, apart from a session's deletion, and it keeps the
place and the turn of a message that is there; so a session's messages stand in the order of the turns
they were projected in. -/

namespace Claxedo.Store

open Lib

variable {home : Homes}

/-- Where a message stands, and the turn it is of. -/
structure Stand where
  id : String
  ord : ℕ
  turnId : Option String

def MessageRow.stand (r : MessageRow) : Stand := ⟨r.id, r.ord, r.turnId⟩

namespace Database

theorem message_foldl {α : Type*} {f : Database → α → Database} (h : ∀ db a, (f db a).message = db.message) (as : List α)
    (db : Database) : (as.foldl f db).message = db.message := by
  induction as generalizing db with
  | nil => rfl
  | cons a as ih => rw [List.foldl_cons, ih, h]

@[simp] theorem message_upsertPart (db : Database) (part : Record) (ts : ℕ) : (db.upsertPart part ts).message = db.message := by
  unfold upsertPart
  split <;> rfl

@[simp] theorem message_delta (db : Database) (sessionId messageId partId field text : String) (ts : ℕ) :
    (db.delta sessionId messageId partId field text ts).message = db.message := message_upsertPart ..

@[simp] theorem message_fold (db : Database) (items : List PendingDelta) : (db.fold items).message = db.message :=
  message_foldl (fun _ _ => message_delta ..) _ _

@[simp] theorem message_finishTools (db : Database) (sessionId : String) (ts : ℕ) :
    (db.finishTools sessionId ts).message = db.message := by
  refine message_foldl (fun db row => ?_) _ _
  cases closeTool row.data ts with
  | none => rfl
  | some part => exact message_upsertPart db part ts

@[simp] theorem message_retractStoredParts (db : Database) (sessionID : String) (parts : List PartRef) (reason : String)
    (ts : ℕ) : (db.retractStoredParts sessionID parts reason ts).message = db.message := by
  refine message_foldl (fun db ref => ?_) _ _
  dsimp only
  cases hpart : Option.bind _ _ with
  | none => rfl
  | some part => exact message_upsertPart db part ts

@[simp] theorem message_upsertSession (db : Database) (id directory : String) (status : Option String) (owner : Bool) :
    (db.upsertSession id directory status owner).message = db.message := by
  unfold upsertSession
  cases db.session id with
  | none => cases owner <;> rfl
  | some prev => rfl

@[simp] theorem message_applyConfigUpdate (db : Database) (id : String) (patch : ConfigPatch) :
    (db.applyConfigUpdate id patch).message = db.message := by
  unfold applyConfigUpdate
  cases db.session id with
  | none => rfl
  | some prev =>
    dsimp only
    split_ifs <;> rfl

/-- What `apply` may do to the messages: upsert one of the row's session, delete the session's, or
leave them. -/
theorem apply_induction {P : Database → Prop} {row : Row} (hrow : row.content.AtHome home row.sessionId)
    (hframe : ∀ db db' : Database, db'.ledger = db.ledger → db'.message = db.message → P db → P db')
    (hmessage : ∀ (db : Database) (info : MessageInfo), P db → info.sessionID = row.sessionId →
      home.message info.id = row.sessionId → P (db.upsertMessage info row))
    (hdelete : ∀ db : Database, P db → P (db.deleteSessionProjection row.sessionId))
    {db : Database} (hdb : db.Tidy home) (h : P db) : P (db.apply row) := by
  unfold apply
  rcases hcontent : row.content with control | event
  · rw [hcontent] at hrow
    cases control with
    | turnStart turn =>
      obtain ⟨hassistant, huser⟩ := hrow
      refine hframe _ _ (ledger_upsertSession ..) (message_upsertSession ..) (hmessage _ _ ?_ rfl hassistant)
      unfold turnStartMessages
      rcases hid : nonEmpty turn.userMessageId with _ | id
      · exact h
      · obtain ⟨hsome, -⟩ := Option.filter_eq_some_iff.mp hid
        refine hframe _ _ (ledger_foldl _ (fun _ _ => ledger_upsertPart ..) _ _)
          (message_foldl (fun _ _ => message_upsertPart ..) _ _) ?_
        exact hmessage db _ h rfl (huser id hsome).1
    | turnFinish => exact h
    | session control =>
      cases control with
      | bind directory => exact hframe db _ (ledger_upsertSession ..) (message_upsertSession ..) h
      | interrupted message =>
        exact hframe db _ ((ledger_upsertSession ..).trans (ledger_finishTools ..))
          ((message_upsertSession ..).trans (message_finishTools ..)) h
      | delete => exact hframe (db.deleteSessionProjection row.sessionId) _ rfl rfl (hdelete db h)
      | noticeCreated message => exact hframe db _ (ledger_upsertSession ..) (message_upsertSession ..) h
      | configUpdate patch => exact hframe db _ (ledger_applyConfigUpdate ..) (message_applyConfigUpdate ..) h
      | update | permissionStaled | questionStaled | noticeAcknowledged | projectionResetRequested | goalUpdate => exact h
  · rw [hcontent] at hrow
    unfold applyEvent
    split_ifs with hdeleted
    · exact h
    cases event with
    | messageUpdated info => exact hmessage db info h hrow.1 hrow.2
    | messagePartUpdated part => exact hframe db _ (ledger_upsertPart ..) (message_upsertPart ..) h
    | messagePartRetracted sessionID parts reason =>
      exact hframe db _ (ledger_retractStoredParts ..) (message_retractStoredParts ..) h
    | messagePartDelta sessionID messageID partID field text => exact hframe db _ (ledger_delta ..) (message_delta ..) h
    | messageCompleted sessionID messageID cancelled =>
      dsimp only
      split
      · rename_i stored hget
        obtain ⟨hmem, hk⟩ := Table.mem_of_get hget
        have hathome := hdb.message stored hmem
        refine hmessage db _ h ?_ ?_
        · exact hathome.session.trans (hathome.home.symm.trans ((congrArg home.message hk).trans hrow))
        · exact (congrArg home.message (hathome.id.trans hk)).trans hrow
      · exact h
    | sessionUsage messageID observation =>
      dsimp only
      rcases hinfo : (nonEmpty messageID).bind (db.storedAssistantMessage row.sessionId) with _ | info
      · exact h
      cases observation with
      | none => exact h
      | some observation =>
        obtain ⟨id, -, hstored⟩ := Option.bind_eq_some_iff.mp hinfo
        obtain ⟨stored, hfound, rfl⟩ := Option.map_eq_some_iff.mp hstored
        obtain ⟨hget, hs⟩ := Option.filter_eq_some_iff.mp hfound
        have hathome := hdb.message stored (Table.mem_of_get hget).1
        have hs := (of_decide_eq_true hs).1
        exact hmessage db _ h (hathome.session.trans hs) (by rw [hathome.id, hathome.home, hs])
    | sessionStatus | sessionIdle | sessionError => exact hframe db _ (ledger_upsertSession ..) (message_upsertSession ..) h
    | elsewhere => exact h

/-- The session's messages, as they stand. -/
def outline (db : Database) (s : String) : List Stand := (db.message.filter fun r => r.sessionId = s).map MessageRow.stand

theorem outline_of_message {db db' : Database} (h : db'.message = db.message) (s : String) : db'.outline s = db.outline s := by
  rw [outline, outline, h]

/-- A message that is there keeps its place and its turn; a new one comes last, in the turn of its row. -/
theorem outline_upsertMessage {db : Database} (hhome : ∀ r ∈ db.message, home.message r.id = r.sessionId) {info : MessageInfo}
    {s : String} (hs : info.sessionID = s) (hid : home.message info.id = s) (row : Row) :
    (db.upsertMessage info row).outline s = db.outline s ∨
      ∃ ord, (db.upsertMessage info row).outline s =
          db.outline s ++ [⟨info.id, ord, readJournaledTurn db row.sessionId row.seq⟩] ∧
        ∀ o ∈ db.outline s, o.ord < ord ∧ o.id ≠ info.id := by
  subst hs
  unfold upsertMessage
  split_ifs
  · exact .inl rfl
  have hkey : ∀ r ∈ db.message, r.id = info.id → r.sessionId = info.sessionID := fun r hr hk => by rw [← hhome r hr, hk, hid]
  have hget : Table.get MessageRow.id info.id (db.message.filter fun r => r.sessionId = info.sessionID) =
      Table.get MessageRow.id info.id db.message := Table.get_filter fun r hr hk => by simpa using hkey r hr hk
  unfold outline
  dsimp only
  rw [Table.filter_put fun r hr hk => by simp [hkey r hr hk], if_pos (by simp)]
  rcases hprev : Table.get MessageRow.id info.id db.message with _ | prev
  · right
    rw [Table.put_of_get_none (hget.trans hprev), List.map_append]
    refine ⟨_, rfl, fun o ho => ?_⟩
    obtain ⟨r, hr, rfl⟩ := List.mem_map.mp ho
    refine ⟨?_, Table.get_eq_none_iff.mp (hget.trans hprev) r hr⟩
    unfold messageOrd
    rw [hprev]
    exact Nat.lt_of_succ_le (le_foldr_max (List.mem_map.mpr ⟨r, hr, rfl⟩))
  · left
    have hsame : ∀ row' : MessageRow, row'.id = info.id → row'.stand = prev.stand →
        (Table.put MessageRow.id row' (db.message.filter fun r => r.sessionId = info.sessionID)).map MessageRow.stand =
          (db.message.filter fun r => r.sessionId = info.sessionID).map MessageRow.stand := by
      intro row' hid' heq
      rw [← List.filterMap_eq_map, Table.filterMap_put_of_get (r := prev) (by rw [hid', hget, hprev])]
      exact congrArg some heq
    refine hsame _ rfl ?_
    have hprevId := (Table.mem_of_get hprev).2
    unfold messageOrd MessageRow.stand
    rw [hprev, hprevId]

end Database

/-- The turn's start row stands at `n` in the journal; no turn starts at 0. -/
def StartedAt (journal : List Row) (turnId : Option String) (n : ℕ) : Prop :=
  match turnId with
  | none => n = 0
  | some id => ∃ row ∈ journal, row.seq = n ∧ ∃ turn, row.turnStart? = some turn ∧ turn.assistantMessageId = id

theorem StartedAt.grow {journal journal' : List Row} {turnId : Option String} {n : ℕ} (h : StartedAt journal turnId n)
    (hgrow : ∀ row ∈ journal, row.turnStart?.isSome → row ∈ journal') : StartedAt journal' turnId n := by
  unfold StartedAt at h ⊢
  split at h
  · exact h
  · obtain ⟨row, hrow, hseq, turn, hturn, hid⟩ := h
    exact ⟨row, hgrow row hrow (by rw [hturn]; rfl), hseq, turn, hturn, hid⟩

theorem StartedAt.cases {journal : List Row} {turnId : Option String} {n : ℕ} (h : StartedAt journal turnId n) :
    n = 0 ∨ ∃ row ∈ journal, row.seq = n ∧ row.turnStart?.isSome := by
  unfold StartedAt at h
  split at h
  · exact .inl h
  · obtain ⟨row, hrow, hseq, turn, hturn, -⟩ := h
    exact .inr ⟨row, hrow, hseq, by rw [hturn]; rfl⟩

/-- Messages stand in their order, and in the order of their turns' starts, none later than `upto`. -/
structure Spans (journal : List Row) (upto : ℕ) (outline : List Stand) : Prop where
  ids : outline.Pairwise (·.id ≠ ·.id)
  ords : outline.Pairwise (·.ord < ·.ord)
  starts : ∃ seqs : List ℕ, List.Forall₂ (fun o n => StartedAt journal o.turnId n) outline seqs ∧ seqs.Pairwise (· ≤ ·) ∧
    ∀ n ∈ seqs, n ≤ upto

namespace Spans

variable {journal journal' : List Row} {upto upto' : ℕ} {outline : List Stand}

theorem nil (journal : List Row) (upto : ℕ) : Spans journal upto [] :=
  ⟨List.Pairwise.nil, List.Pairwise.nil, [], .nil, List.Pairwise.nil, fun _ h => absurd h List.not_mem_nil⟩

theorem weaken (h : Spans journal upto outline) (hle : upto ≤ upto') : Spans journal upto' outline := by
  obtain ⟨hids, hords, seqs, hstarts, hpair, hupto⟩ := h
  exact ⟨hids, hords, seqs, hstarts, hpair, fun n hn => (hupto n hn).trans hle⟩

/-- A journal loses no start row. -/
theorem grow (h : Spans journal upto outline) (hgrow : ∀ row ∈ journal, row.turnStart?.isSome → row ∈ journal') :
    Spans journal' upto outline := by
  obtain ⟨hids, hords, seqs, hstarts, hpair, hupto⟩ := h
  exact ⟨hids, hords, seqs, hstarts.imp fun o n hn => hn.grow hgrow, hpair, hupto⟩

/-- No turn of the journal starts later than `upto'`, so none of a message's does. -/
theorem within (h : Spans journal upto outline) (hall : ∀ row ∈ journal, row.turnStart?.isSome → row.seq ≤ upto') :
    Spans journal upto' outline := by
  obtain ⟨hids, hords, seqs, hstarts, hpair, -⟩ := h
  refine ⟨hids, hords, seqs, hstarts, hpair, fun n hn => ?_⟩
  obtain ⟨i, hi, rfl⟩ := List.mem_iff_getElem.mp hn
  have hlength := hstarts.length_eq
  rcases (hstarts.get (i := i) (by omega) hi).cases with hzero | ⟨row, hrow, hseq, hsome⟩
  · simp only [List.get_eq_getElem] at hzero
    rw [hzero]
    exact Nat.zero_le _
  · rw [List.get_eq_getElem] at hseq
    exact hseq ▸ hall row hrow hsome

theorem snoc (h : Spans journal upto outline) {id : String} {ord n : ℕ} {turnId : Option String}
    (hord : ∀ o ∈ outline, o.ord < ord ∧ o.id ≠ id) (hstart : StartedAt journal turnId n) (hn : n ≤ upto)
        (hnewest : ∀ m ≤ upto, (∃ turnId, StartedAt journal turnId m) → m ≤ n) :
    Spans journal upto (outline ++ [⟨id, ord, turnId⟩]) := by
  obtain ⟨hids, hords, seqs, hstarts, hpair, hupto⟩ := h
  refine ⟨?_, ?_, seqs ++ [n], ?_, ?_, fun m hm => ?_⟩
  · rw [List.pairwise_append]
    refine ⟨hids, List.pairwise_singleton _ _, fun o ho o' ho' => ?_⟩
    rw [List.mem_singleton.mp ho']
    exact (hord o ho).2
  · rw [List.pairwise_append]
    refine ⟨hords, List.pairwise_singleton _ _, fun o ho o' ho' => ?_⟩
    rw [List.mem_singleton.mp ho']
    exact (hord o ho).1
  · exact List.rel_append hstarts (.cons hstart .nil)
  · rw [List.pairwise_append]
    refine ⟨hpair, List.pairwise_singleton _ _, fun m hm m' hm' => ?_⟩
    rw [List.mem_singleton.mp hm']
    obtain ⟨i, hi, rfl⟩ := List.mem_iff_getElem.mp hm
    have hlength := hstarts.length_eq
    exact hnewest _ (hupto _ hm) ⟨_, hstarts.get (i := i) (by omega) hi⟩
  · rcases List.mem_append.mp hm with hm | hm
    · exact hupto m hm
    · rw [List.mem_singleton.mp hm]
      exact hn

theorem newest_start {rows : List Row} (hascending : rows.Pairwise (·.seq < ·.seq)) :
    ∃ n, StartedAt rows ((rows.filterMap (·.turnStart?)).getLast?.map (·.assistantMessageId)) n ∧
      (∀ row ∈ rows, row.turnStart?.isSome → row.seq ≤ n) ∧ ∀ m, (∀ row ∈ rows, row.seq ≤ m) → n ≤ m := by
  induction rows using List.reverseRecOn with
  | nil => exact ⟨0, rfl, fun _ h => absurd h List.not_mem_nil, fun m _ => Nat.zero_le m⟩
  | append_singleton rows row ih =>
    obtain ⟨hrows, -, hlast⟩ := List.pairwise_append.mp hascending
    obtain ⟨n, hstart, hnewest, hle⟩ := ih hrows
    rw [List.filterMap_append]
    rcases hturn : row.turnStart? with _ | turn
    · refine ⟨n, ?_, fun r hr hsome => ?_, fun m hm => hle m fun r hr => hm r (List.mem_append_left _ hr)⟩
      · rw [List.filterMap_cons, hturn, List.filterMap_nil, List.append_nil]
        exact hstart.grow fun r hr _ => List.mem_append_left _ hr
      · rcases List.mem_append.mp hr with hr | hr
        · exact hnewest r hr hsome
        · rw [List.mem_singleton.mp hr, hturn] at hsome
          cases hsome
    · refine ⟨row.seq, ?_, fun r hr _ => ?_, fun m hm => hm row (by simp)⟩
      · rw [List.filterMap_cons, hturn, List.filterMap_nil, List.getLast?_concat]
        exact ⟨row, by simp, rfl, turn, hturn, rfl⟩
      · rcases List.mem_append.mp hr with hr | hr
        · exact (hlast r hr row List.mem_cons_self).le
        · rw [List.mem_singleton.mp hr]

theorem readJournaledTurn_spec {db : Database} {s : String} (hascending : (db.journalOf s).Pairwise (·.seq < ·.seq)) (seq : ℕ) :
    ∃ n ≤ seq, StartedAt (db.journalOf s) (readJournaledTurn db s seq) n ∧
      ∀ m ≤ seq, (∃ turnId, StartedAt (db.journalOf s) turnId m) → m ≤ n := by
  obtain ⟨n, hstart, hnewest, hle⟩ := newest_start
    (hascending.sublist (List.filter_sublist (p := fun row => row.seq ≤ seq)))
  refine ⟨n, hle seq fun row hrow => of_decide_eq_true (List.mem_filter.mp hrow).2, ?_, fun m hm hstarted => ?_⟩
  · exact hstart.grow fun row hrow _ => List.mem_of_mem_filter hrow
  · obtain ⟨turnId, hstarted⟩ := hstarted
    rcases hstarted.cases with rfl | ⟨row, hrow, rfl, hsome⟩
    · exact Nat.zero_le n
    · exact hnewest row (List.mem_filter.mpr ⟨hrow, by simpa using hm⟩) hsome

end Spans

/-- A row takes the messages as far as itself. -/
theorem Database.spans_apply {db : Database} {s : String} (hdb : db.Tidy home) {row : Row}
    (hrow : row.content.AtHome home row.sessionId) (hs : row.sessionId = s)
    (hascending : (db.journalOf s).Pairwise (·.seq < ·.seq)) {upto : ℕ} (hupto : upto ≤ row.seq)
    (h : Spans (db.journalOf s) upto (db.outline s)) : Spans (db.journalOf s) row.seq ((db.apply row).outline s) := by
  subst hs
  let P : Database → Prop := fun db' => db'.ledger = db.ledger ∧ (∀ r ∈ db'.message, home.message r.id = r.sessionId) ∧
    Spans (db.journalOf row.sessionId) row.seq (db'.outline row.sessionId)
  have hP : P (db.apply row) := by
    refine apply_induction hrow ?_ ?_ ?_ hdb ⟨rfl, fun r hr => hdb.message_home hr, h.weaken hupto⟩
    · intro db₁ db₂ hledger hmessage ⟨hsame, hhome, hspans⟩
      refine ⟨hledger.trans hsame, hmessage ▸ hhome, ?_⟩
      rw [outline_of_message hmessage]
      exact hspans
    · intro db₁ info ⟨hsame, hhome, hspans⟩ hsession hid
      refine ⟨(ledger_upsertMessage ..).trans hsame, fun r hr => ?_, ?_⟩
      · unfold upsertMessage at hr
        split_ifs at hr
        · exact hhome r hr
        · rcases Table.mem_put hr with rfl | hr
          · exact hid.trans hsession.symm
          · exact hhome r hr
      · rcases outline_upsertMessage hhome hsession hid row with hkept | ⟨ord, hsnoc, hlast⟩
        · rw [hkept]
          exact hspans
        · have hjournal := journalOf_of_ledger hsame row.sessionId
          have hturn : readJournaledTurn db₁ row.sessionId row.seq = readJournaledTurn db row.sessionId row.seq := by
            rw [readJournaledTurn, hjournal, readJournaledTurn]
          obtain ⟨n, hn, hstart, hnewest⟩ := Spans.readJournaledTurn_spec hascending row.seq
          rw [hsnoc, hturn]
          exact hspans.snoc hlast hstart hn hnewest
    · intro db₁ ⟨hsame, hhome, hspans⟩
      refine ⟨hsame, fun r hr => hhome r (List.mem_of_mem_filter hr), ?_⟩
      have hnil : (db₁.deleteSessionProjection row.sessionId).outline row.sessionId = [] := by
        simp [outline, deleteSessionProjection, List.filter_filter]
      rw [hnil]
      exact Spans.nil _ _
  exact hP.2.2

/-- What a session's messages keep from move to move. -/
structure Placed (σ : RuntimeStore) (s : String) : Prop where
  ascending : (σ.db.journalOf s).Pairwise (·.seq < ·.seq)
  checkpoint : σ.db.journalCheckpoint s ≤ σ.db.getSessionMaxSeq s
  pending : ∀ item ∈ σ.pendingOf s, item.seq ≤ σ.db.getSessionMaxSeq s ∧
    ∀ row ∈ σ.db.journalOf s, row.turnStart?.isSome → row.seq < item.seq
  spans : Spans (σ.db.journalOf s) (σ.db.journalCheckpoint s) (σ.db.outline s)

namespace Placed

variable {σ σ' : RuntimeStore} {s : String}

/-- It is about what the database holds, and about no more than waits. -/
theorem of_db (h : Placed σ s) (hdb : σ'.db = σ.db) (hpending : ∀ item ∈ σ'.pendingOf s, item ∈ σ.pendingOf s) : Placed σ' s :=
  ⟨hdb ▸ h.ascending, hdb ▸ h.checkpoint, fun item hitem => hdb ▸ h.pending item (hpending item hitem), hdb ▸ h.spans⟩

theorem settle (h : Placed σ s) : Placed (σ.settleDeltas (some s)) s := by
  have hnone : ∀ item ∈ (σ.settleDeltas (some s)).pendingOf s, item ∈ σ.pendingOf s := by
    rw [RuntimeStore.pendingOf_settled]
    exact fun _ hitem => absurd hitem List.not_mem_nil
  by_cases hnil : σ.pendingOf s = []
  · refine h.of_db ?_ hnone
    rw [RuntimeStore.settleDeltas_some, if_pos hnil]
  rcases hfailed : σ.failedProjections s with _ | failure
  swap
  · refine h.of_db ?_ hnone
    rw [RuntimeStore.settleDeltas_some, if_neg hnil, RuntimeStore.settleSession, hfailed]
    rfl
  have hjournal := Database.journalOf_of_ledger (RuntimeStore.ledger_settleDeltas σ (some s)) s
  have hcheckpoint := Kept.checkpoint_settleDeltas hfailed hnil
  have hmessage : (σ.settleDeltas (some s)).db.message = σ.db.message := by
    rw [RuntimeStore.settleDeltas_some, if_neg hnil, RuntimeStore.settleSession, hfailed]
    exact Database.message_fold ..
  obtain ⟨hle, hex⟩ := lastSeq_spec (σ.pendingOf s)
  obtain ⟨item, hitem, hlast⟩ := hex hnil
  obtain ⟨hmax, hstarts⟩ := h.pending item hitem
  refine ⟨hjournal ▸ h.ascending, ?_, ?_, ?_⟩
  · rw [hcheckpoint, Database.getSessionMaxSeq, hjournal]
    exact hlast.trans hmax
  · rw [RuntimeStore.pendingOf_settled]
    exact fun _ hitem => absurd hitem List.not_mem_nil
  · rw [hjournal, hcheckpoint, Database.outline_of_message hmessage]
    exact h.spans.within fun row hrow hsome => (hstarts row hrow hsome).le.trans (hle item hitem)

theorem project (hσ : σ.Tidy home) (h : Placed σ s) {row : Row} (hrow : row ∈ σ.db.journalOf s)
    (hpast : σ.db.journalCheckpoint s ≤ row.seq) : Placed { σ with db := σ.db.project row } s := by
  obtain ⟨hmem, hs⟩ := List.mem_filter.mp hrow
  have hs : row.sessionId = s := of_decide_eq_true hs
  have hjournal := Database.journalOf_of_ledger (Database.ledger_project σ.db row) s
  have hcheckpoint : (σ.db.project row).journalCheckpoint s = row.seq := by
    rw [← hs]
    exact Function.update_self ..
  refine ⟨hjournal ▸ h.ascending, ?_, fun item hitem => ?_, ?_⟩
  · dsimp only
    rw [hcheckpoint, Database.getSessionMaxSeq, hjournal]
    exact Database.le_maxSeq hrow
  · dsimp only
    rw [Database.getSessionMaxSeq, hjournal]
    exact h.pending item hitem
  · dsimp only
    rw [hjournal, hcheckpoint]
    exact Database.spans_apply hσ.db (hσ.db.journal row hmem) hs h.ascending hpast h.spans

theorem replayRows (hσ : σ.Tidy home) (h : Placed σ s) {rows : List Row} (hrows : ∀ row ∈ rows, row ∈ σ.db.journalOf s)
    (hascending : rows.Pairwise (·.seq < ·.seq)) (hpast : ∀ row ∈ rows, σ.db.journalCheckpoint s ≤ row.seq) (stops : Option ℕ) :
    Placed (σ.replayRows rows stops).1 s := by
  induction rows generalizing σ stops with
  | nil => exact h
  | cons row rows ih =>
    obtain ⟨hrow, hrest⟩ := List.forall_mem_cons.mp hrows
    obtain ⟨hfirst, hascending⟩ := List.pairwise_cons.mp hascending
    have hmem := (List.mem_filter.mp hrow).1
    have hs : row.sessionId = s := of_decide_eq_true (List.mem_filter.mp hrow).2
    have hnext : ∀ stops', Placed (RuntimeStore.replayRows { σ with db := σ.db.project row } rows stops').1 s := fun stops' => by
      refine ih (hσ.of_db (hσ.db.project (hσ.db.journal row hmem))) (h.project hσ hrow (hpast row List.mem_cons_self))
        (fun r hr => ?_) hascending (fun r hr => ?_) stops'
      · rw [Database.journalOf_of_ledger (Database.ledger_project σ.db row)]
        exact hrest r hr
      · have hcheckpoint : (σ.db.project row).journalCheckpoint s = row.seq := by
          rw [← hs]
          exact Function.update_self ..
        rw [hcheckpoint]
        exact (hfirst r hr).le
    rcases stops with _ | _ | k
    · exact hnext _
    · exact h.of_db rfl fun _ hitem => hitem
    · exact hnext _

theorem replay (hσ : σ.Tidy home) (h : Placed σ s) (stops : Option ℕ) : Placed (σ.replay s stops).1 s := by
  unfold RuntimeStore.replay RuntimeStore.replaySession
  split_ifs
  · have hretry : Placed { σ with failedProjections := Function.update σ.failedProjections s none } s :=
      h.of_db rfl fun _ hitem => hitem
    have htidy : RuntimeStore.Tidy home { σ with failedProjections := Function.update σ.failedProjections s none } :=
      ⟨hσ.db, hσ.pending⟩
    refine replayRows htidy hretry (fun row hrow => List.mem_of_mem_filter hrow) (h.ascending.sublist List.filter_sublist)
      (fun row hrow => ?_) stops
    exact (of_decide_eq_true (List.mem_filter.mp hrow).2).1.le
  · exact h

/-- The next row is journaled; no delta waits for a turn before it. -/
theorem insert (h : Placed σ s) {row : Row} (hs : row.sessionId = s) (hseq : row.seq = σ.db.next s)
    (hstart : row.turnStart?.isSome → σ.pendingOf s = []) : Placed { σ with db := σ.db.insertRuntimeJournal row } s := by
  obtain ⟨hascending, hmax, -⟩ := Database.journaled h.ascending hs hseq
  have hgrown : σ.db.getSessionMaxSeq s ≤ (σ.db.insertRuntimeJournal row).getSessionMaxSeq s := by
    refine le_trans ?_ hmax
    rw [hseq]
    exact Nat.le_succ _
  have hself : (σ.db.insertRuntimeJournal row).journalOf s = σ.db.kept row ++ [row] := by
    subst hs
    exact Database.journalOf_insert_self σ.db row
  refine ⟨hascending, h.checkpoint.trans hgrown, fun item hitem => ?_, h.spans.grow fun r hr hsome => ?_⟩
  · obtain ⟨hle, hstarts⟩ := h.pending item hitem
    refine ⟨hle.trans hgrown, fun r hr hsome => ?_⟩
    rw [hself] at hr
    rcases List.mem_append.mp hr with hr | hr
    · subst hs
      exact hstarts r ((Database.kept_sublist σ.db row).subset hr) hsome
    · rw [List.mem_singleton.mp hr] at hsome
      change item ∈ σ.pendingOf s at hitem
      rw [hstart hsome] at hitem
      cases hitem
  · rw [hself]
    refine List.mem_append_left _ (List.mem_filter.mpr ⟨by rw [hs]; exact hr, ?_⟩)
    have hpart : r.partId = none := by
      unfold Row.turnStart? at hsome
      unfold Row.partId
      split at hsome
      · rename_i hcontent
        rw [hcontent]
      · cases hsome
    simp only [hpart, decide_eq_true_eq, not_and]
    intro hsome' hnone
    rw [← hnone] at hsome'
    cases hsome'

theorem await (h : Placed σ s) {item : PendingDelta} (hmax : item.seq ≤ σ.db.getSessionMaxSeq s)
    (hstarts : ∀ row ∈ σ.db.journalOf s, row.turnStart?.isSome → row.seq < item.seq) : Placed (σ.await item) s := by
  refine ⟨h.ascending, h.checkpoint, fun r hr => ?_, h.spans⟩
  obtain ⟨hr, hs⟩ := List.mem_filter.mp hr
  rcases Table.mem_put hr with rfl | hr
  · exact ⟨hmax, hstarts⟩
  · exact h.pending r (List.mem_filter.mpr ⟨hr, hs⟩)

theorem defer (h : Placed σ s) {row : Row} (hs : row.sessionId = s) (hseq : row.seq = σ.db.next s) (hdelta : row.isDelta) :
    Placed (RuntimeStore.deferDelta { σ with db := σ.db.insertRuntimeJournal row } row) s := by
  obtain ⟨item, hitem⟩ := Option.isSome_iff_exists.mp ((Row.isSome_delta? row).trans hdelta)
  have hnostart : row.turnStart? = none := by
    unfold Row.isDelta at hdelta
    unfold Row.turnStart?
    split at hdelta
    · rename_i hcontent
      rw [hcontent]
    · cases hdelta
  have hinserted := h.insert hs hseq fun hsome => by
    rw [hnostart] at hsome
    cases hsome
  obtain ⟨-, hmax, hle⟩ := Database.journaled h.ascending hs hseq
  have hstarts : ∀ r ∈ (σ.db.insertRuntimeJournal row).journalOf s, r.turnStart?.isSome → r.seq < row.seq := by
    intro r hr hsome
    refine lt_of_le_of_ne (hle r hr) fun heq => ?_
    have hself : (σ.db.insertRuntimeJournal row).journalOf s = σ.db.kept row ++ [row] := by
      subst hs
      exact Database.journalOf_insert_self σ.db row
    rw [hself] at hr
    rcases List.mem_append.mp hr with hr | hr
    · subst hs
      have := Database.lt_next ((Database.kept_sublist σ.db row).subset hr)
      omega
    · rw [List.mem_singleton.mp hr, hnostart] at hsome
      cases hsome
  have hseqItem := (Row.seq_delta? hitem).1
  rw [Kept.deferDelta_eq hitem]
  dsimp only
  rcases Table.get PendingDelta.partId item.partId σ.pendingDeltas with _ | prev
  · exact hinserted.await (hseqItem ▸ hmax) (hseqItem ▸ hstarts)
  · dsimp only
    split_ifs
    · exact hinserted.await (hseqItem ▸ hmax) (hseqItem ▸ hstarts)
    · have hledger := RuntimeStore.ledger_settleDeltas { σ with db := σ.db.insertRuntimeJournal row } (some s)
      have hjournal := Database.journalOf_of_ledger hledger s
      rw [hs]
      refine hinserted.settle.await ?_ ?_
      · rw [Database.getSessionMaxSeq, hjournal]
        exact hseqItem ▸ hmax
      · rw [hjournal]
        exact hseqItem ▸ hstarts

theorem reopen (hσ : σ.Tidy home) (h : Placed σ s) (hown : σ.db.only s = σ.db) : Placed (RuntimeStore.reopen σ.db) s := by
  have hopen : Placed { db := σ.db } s := h.of_db rfl fun _ hitem => absurd hitem List.not_mem_nil
  have htidy : RuntimeStore.Tidy home { db := σ.db } := ⟨hσ.db, fun _ hitem => absurd hitem List.not_mem_nil⟩
  rw [← hown, RuntimeStore.reopen_own, hown]
  exact hopen.replay htidy none

theorem move {quiet : Prop} (hown : σ.db.only s = σ.db) (hσ : σ.Tidy home) (h : Placed σ s) {m m' : Move}
    (hon : m.on s = some m') (hm : Allowed home quiet σ m') : Placed (σ.move m') s := by
  obtain ⟨hlegal, hhome, -⟩ := hm
  rcases Move.at_of_on hon with rfl | hat
  · exact h.reopen hσ hown
  cases m' with
  | settle sessionId =>
    obtain rfl : sessionId = some s := hat
    exact h.settle
  | replay sessionId stops =>
    obtain rfl := Option.some.inj hat
    exact h.replay hσ stops
  | defer row =>
    obtain rfl := Option.some.inj hat
    exact h.defer rfl hlegal.1 hlegal.2.2.1
  | project row =>
    obtain rfl := Option.some.inj hat
    have hself := Database.journalOf_insert_self σ.db row
    refine (h.insert rfl hlegal.1 hlegal.2.2).project (hσ.of_db (hσ.db.insertRuntimeJournal (hhome row rfl))) (by rw [hself]; simp) ?_
    refine h.checkpoint.trans ?_
    rw [hlegal.1]
    exact Nat.le_succ _
  | fail row =>
    obtain rfl := Option.some.inj hat
    exact (h.insert rfl hlegal.1 hlegal.2.2).of_db rfl fun _ hitem => hitem
  | lease | reopen => cases hat

theorem empty (s : String) : Placed (RuntimeStore.only {} s) s :=
  ⟨List.Pairwise.nil, by simp, fun _ hitem => absurd hitem List.not_mem_nil, Spans.nil _ _⟩

end Placed

open RuntimeStore in
/-- In every run, a session's messages stand in the order of the turns they were projected in. -/
theorem placed_of_run {calls : List StoreCall} (h : Meets RuntimeStore.step (fun _ call => call.AtHome home) {} calls)
    (s : String) :
    (Lib.run RuntimeStore.step {} calls).Tidy home ∧ Placed (Lib.run RuntimeStore.step {} calls) s := by
  have hmoves : MovesTo home False {} (Lib.run RuntimeStore.step {} calls) :=
    run_moves (tidy_empty home) (meets_mono (fun σ call hcall => ⟨hcall, fun hq => hq.elim⟩) h)
  have htidy := hmoves.tidy (tidy_empty home)
  obtain ⟨moves, hrun, hallowed⟩ := hmoves
  have hplaced : Placed ((Lib.run RuntimeStore.step {} calls).only s) s := by
    rw [hrun]
    exact invariant_only (Placed · s) s (fun σ m m' hown hσ hplaced hon hm => hplaced.move (congrArg db hown) hσ hon hm)
      (tidy_empty home) (Placed.empty s) hallowed
  refine ⟨htidy, ?_⟩
  obtain ⟨hascending, hcheckpoint, hpending, hspans⟩ := hplaced
  have houtline : ((Lib.run RuntimeStore.step {} calls).db.only s).outline s = (Lib.run RuntimeStore.step {} calls).db.outline s := by
    rw [Database.outline, Database.message_only_filter, Database.outline]
  simp only [db_only, Database.journalOf_only, Database.journalCheckpoint_only, Database.getSessionMaxSeq_only, pendingOf_only,
    houtline] at hascending hcheckpoint hpending hspans
  exact ⟨hascending, hcheckpoint, hpending, hspans⟩

/-- How a session's messages and the deltas held back stand to the turns of its journal. -/
structure TurnOrder (σ : RuntimeStore) (s : String) : Prop where
  messages : Spans (σ.db.journalOf s) (σ.db.journalCheckpoint s) (σ.db.outline s)
  pending : ∀ item ∈ σ.pendingOf s, ∀ row ∈ σ.db.journalOf s, row.turnStart?.isSome → row.seq < item.seq

/-- In every run, the messages stand in the order of their turns' starts, none past the checkpoint, and a delta held back is newer
than every turn's start. -/
theorem turnOrder_of_run {calls : List StoreCall} (h : Meets RuntimeStore.step (fun _ call => call.AtHome home) {} calls)
    (s : String) : TurnOrder (Lib.run RuntimeStore.step {} calls) s :=
  have hplaced := (placed_of_run h s).2
  ⟨hplaced.spans, fun item hitem => (hplaced.pending item hitem).2⟩

def twoStarts : List StoreCall := [.startTurn "s" none { assistantMessageId := "a1" } 2 none false,
  .startTurn "s" none { assistantMessageId := "a2" } 3 none false]

theorem turnOrder_twoStarts : TurnOrder (run RuntimeStore.step {} twoStarts) "s" := by
  have hmeets : Meets RuntimeStore.step (fun _ call => call.AtHome ⟨fun _ => "s", fun _ => "s"⟩) {} twoStarts :=
    ⟨⟨rfl, fun id hid => by cases hid⟩, ⟨rfl, fun id hid => by cases hid⟩, trivial⟩
  exact turnOrder_of_run hmeets "s"

end Claxedo.Store
