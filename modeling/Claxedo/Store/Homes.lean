import Claxedo.Store.Journal

/-! The few moves every call is made of: settling, replaying, and journaling one row that is then
deferred, projected or left behind. A call is a list of moves, and each is made where the call's
own checks allow it. -/

namespace Claxedo.Store

open Lib

inductive Move where
  | settle (sessionId : Option String)
  | replay (sessionId : String) (stops : Option ℕ)
  | defer (row : Row)
  | project (row : Row)
  /-- The row is journaled, and its projection throws. -/
  | fail (row : Row)
  | lease (leases : String → Option String)
  | reopen

namespace RuntimeStore

def move (σ : RuntimeStore) : Move → RuntimeStore
  | .settle sessionId => σ.settleDeltas sessionId
  | .replay sessionId stops => (σ.replay sessionId stops).1
  | .defer row => { σ with db := σ.db.insertRuntimeJournal row }.deferDelta row
  | .project row => { σ with db := (σ.db.insertRuntimeJournal row).project row }
  | .fail row => { σ with db := σ.db.insertRuntimeJournal row }.fail row
  | .lease leases => { σ with db := { σ.db with sessionTurnLease := leases } }
  | .reopen => reopen σ.db

/-- The session's deltas that are in memory alone. -/
def pendingOf (σ : RuntimeStore) (sessionId : String) : List PendingDelta :=
  σ.pendingDeltas.filter fun item => item.sessionId = sessionId

/-- A row takes the next sequence, on a session that is not behind its journal; a turn starts, and a
replay that is no retry runs, with no delta of the session still pending. -/
def Legal (σ : RuntimeStore) : Move → Prop
  | .replay sessionId _ => (σ.failedProjections sessionId).isSome ∨ σ.pendingOf sessionId = []
  | .defer row => row.seq = σ.db.next row.sessionId ∧ σ.failedProjections row.sessionId = none ∧ row.isDelta ∧
      σ.db.deletedSession row.sessionId = false
  | .project row | .fail row => row.seq = σ.db.next row.sessionId ∧ σ.failedProjections row.sessionId = none ∧
      (row.turnStart?.isSome → σ.pendingOf row.sessionId = [])
  | _ => True

/-- A row that is projected at once finds no delta of its session still pending. -/
def Quiet (σ : RuntimeStore) : Move → Prop
  | .project row | .fail row => σ.pendingOf row.sessionId = []
  | _ => True

theorem pendingOf_eq_nil_iff {σ : RuntimeStore} {sessionId : String} :
    σ.pendingOf sessionId = [] ↔ ∀ item ∈ σ.pendingDeltas, item.sessionId ≠ sessionId := by
  simp [pendingOf, List.filter_eq_nil_iff]

theorem pendingDeltas_settleSession (σ : RuntimeStore) (sessionId : String) (items : List PendingDelta) :
    (σ.settleSession sessionId items).pendingDeltas = σ.pendingDeltas := by
  unfold settleSession
  split_ifs <;> rfl

theorem failedProjections_settleSession (σ : RuntimeStore) (sessionId : String) (items : List PendingDelta) :
    (σ.settleSession sessionId items).failedProjections = σ.failedProjections := by
  unfold settleSession
  split_ifs <;> rfl

theorem pendingDeltas_settleDeltas (σ : RuntimeStore) (sessionId : Option String) :
    (σ.settleDeltas sessionId).pendingDeltas =
      σ.pendingDeltas.filter fun item => ¬ sessionId.all (· = item.sessionId) :=
  settle_foldl (fun σ' => σ'.pendingDeltas = σ.pendingDeltas.filter fun item => ¬ sessionId.all (· = item.sessionId)) _ _
    (fun σ' session h => (pendingDeltas_settleSession σ' session _).trans h) rfl

@[simp] theorem failedProjections_settleDeltas (σ : RuntimeStore) (sessionId : Option String) :
    (σ.settleDeltas sessionId).failedProjections = σ.failedProjections :=
  settle_foldl (fun σ' => σ'.failedProjections = σ.failedProjections) _ _
    (fun σ' session h => (failedProjections_settleSession σ' session _).trans h) rfl

theorem pendingOf_settled (σ : RuntimeStore) (sessionId : String) :
    (σ.settleDeltas (some sessionId)).pendingOf sessionId = [] := by
  rw [pendingOf_eq_nil_iff, pendingDeltas_settleDeltas]
  intro item hitem heq
  have := (List.mem_filter.mp hitem).2
  simp [heq] at this

@[simp] theorem deletedSession_delta (db : Database) (sessionId messageId partId field text : String) (ts : ℕ) :
    (db.delta sessionId messageId partId field text ts).deletedSession = db.deletedSession := by
  unfold Database.delta Database.upsertPart
  dsimp only
  split <;> rfl

@[simp] theorem deletedSession_settleDeltas (σ : RuntimeStore) (sessionId : Option String) :
    (σ.settleDeltas sessionId).db.deletedSession = σ.db.deletedSession := by
  refine settle_foldl (fun σ' => σ'.db.deletedSession = σ.db.deletedSession) _ _ (fun σ' session h => ?_) rfl
  unfold settleSession
  split_ifs
  · exact h
  · rw [← h]
    have hfold : ∀ (items : List PendingDelta) (db : Database),
        (items.foldl (fun db item =>
          db.delta item.sessionId item.messageId item.partId item.field item.text item.ts) db).deletedSession =
          db.deletedSession := by
      intro items
      induction items with
      | nil => exact fun _ => rfl
      | cons item items ih =>
        intro db
        rw [List.foldl_cons, ih, deletedSession_delta]
    exact hfold _ _

theorem level_cases (σ : RuntimeStore) (sessionId : String) (stops : Option ℕ) :
    σ.level sessionId stops = σ ∨
      ((σ.failedProjections sessionId).isSome ∧ σ.level sessionId stops = σ.move (.replay sessionId stops)) := by
  unfold level assertProjectionCurrent
  rcases hfailed : σ.failedProjections sessionId with _ | failure
  · exact .inl rfl
  · dsimp only
    cases failure.repairable with
    | false => exact .inl rfl
    | true =>
      refine .inr ⟨rfl, ?_⟩
      simp only [if_true]
      split_ifs <;> rfl

end RuntimeStore

/-! Whose a row is. The tables are keyed by message and part ids alone, so sessions stay apart as
far as the ids they use do: a home names the session of each id, and a store where every row is
at home keeps its rows' columns and their JSON in step. -/

structure Homes where
  message : String → String
  part : String → String

variable (home : Homes)

/-- The fields that name a part: a delta never writes them. -/
def nameFields : List String := ["id", "sessionID", "messageID"]

/-- The ids a row of session `s` names are the session's own, and its part ids are written out. -/
def Content.AtHome (s : String) : Content → Prop
  | .control (.turnStart turn) => home.message turn.assistantMessageId = s ∧
      ∀ id, turn.userMessageId = some id → home.message id = s ∧
        ∀ i < turn.parts.length, home.part (promptPartId id i) = s
  | .event (.messageUpdated info) => info.sessionID = s ∧ home.message info.id = s
  | .event (.messagePartUpdated part) => asString (part.field "sessionID") = some s ∧
      ∀ id, asString (part.field "id") = some id → home.part id = s
  | .event (.messagePartRetracted sessionID _ _) => sessionID = s
  | .event (.messagePartDelta sessionID messageID partID field _) => sessionID = s ∧ home.part partID = s ∧
      sessionID ≠ "" ∧ messageID ≠ "" ∧ partID ≠ "" ∧ field ∉ nameFields
  | .event (.messageCompleted _ messageID _) => home.message messageID = s
  | .event (.sessionStatus sessionID _) | .event (.sessionIdle sessionID _) => sessionID = s
  | .event (.sessionError sessionID _ _) => ∀ id, sessionID = some id → id = s
  | _ => True

/-- The session, the message and the part a part's record names. -/
def partNames (part : Record) : Option String × Option String × Option String :=
  (asString (part.field "sessionID"), asString (part.field "messageID"), asString (part.field "id"))

variable {part : Record}

theorem partNames_set {k : String} (hk : k ∉ nameFields) (v : Json) :
    partNames (part.set k v) = partNames part := by
  simp only [nameFields, List.mem_cons, List.not_mem_nil, or_false, not_or] at hk
  unfold partNames
  rw [Record.field_set_ne _ hk.2.1, Record.field_set_ne _ hk.2.2, Record.field_set_ne _ hk.1]

theorem partNames_closeTool {closed : Record} {ts : ℕ} (h : closeTool part ts = some closed) :
    partNames closed = partNames part := by
  unfold closeTool at h
  dsimp only at h
  split_ifs at h
  rw [← Option.some.inj h]
  exact partNames_set (by decide) _

theorem partNames_retract {retracted : Record} {reason : String} (h : retract part reason = some retracted) :
    partNames retracted = partNames part := by
  unfold retract at h
  split_ifs at h
  rw [← Option.some.inj h]
  exact partNames_set (by decide) _

theorem partNames_appendField {field : String} (hfield : field ∉ nameFields) (text : String) :
    partNames (appendField part field text) = partNames part := partNames_set hfield _

theorem partNames_freshPart (sessionId messageId partId : String) :
    partNames (freshPart sessionId messageId partId) = (some sessionId, some messageId, some partId) := rfl

/-- A message row's columns are what its info says, and it is in its id's session. -/
structure MessageRow.AtHome (r : MessageRow) : Prop where
  home : home.message r.id = r.sessionId
  id : r.info.id = r.id
  session : r.info.sessionID = r.sessionId
  role : r.info.role = r.role
  written : ¬ (r.sessionId = "" ∨ r.id = "" ∨ r.role = .other "")

structure PartRow.AtHome (r : PartRow) : Prop where
  home : home.part r.id = r.sessionId
  names : partNames r.data = (some r.sessionId, some r.messageId, some r.id)
  written : ¬ (r.sessionId = "" ∨ r.messageId = "" ∨ r.id = "")

structure PendingDelta.AtHome (item : PendingDelta) : Prop where
  home : home.part item.partId = item.sessionId
  written : ¬ (item.sessionId = "" ∨ item.messageId = "" ∨ item.partId = "")
  field : item.field ∉ nameFields

/-- Every row of the database is at home. -/
structure Database.Tidy (db : Database) : Prop where
  journal : ∀ row ∈ db.runtimeJournal, row.content.AtHome home row.sessionId
  message : ∀ r ∈ db.message, r.AtHome home
  part : ∀ r ∈ db.part, r.AtHome home

/-- Merging touches the author and the tokens alone. -/
theorem Database.mergeMessage_eq (db : Database) (info : MessageInfo) :
    ∃ author tokens, db.mergeMessage info = { info with author, tokens } := by
  have hauthor : ∃ author, preserveClaxedoAuthor ((Table.get MessageRow.id info.id db.message).map (·.info)) info =
      { info with author } := by
    unfold preserveClaxedoAuthor
    split_ifs
    · exact ⟨_, rfl⟩
    · exact ⟨info.author, rfl⟩
  obtain ⟨author, hauthor⟩ := hauthor
  unfold Database.mergeMessage
  dsimp only
  rw [hauthor]
  split_ifs
  · exact ⟨author, info.tokens, rfl⟩
  · exact ⟨author, _, rfl⟩
  · exact ⟨author, info.tokens, rfl⟩
  · exact ⟨author, _, rfl⟩

namespace Database.Tidy

variable {home} {db : Database}

theorem upsertMessage (h : db.Tidy home) {info : MessageInfo} (hinfo : home.message info.id = info.sessionID) (row : Row) :
    (db.upsertMessage info row).Tidy home := by
  unfold Database.upsertMessage
  split_ifs with hwritten
  · exact h
  · refine ⟨h.journal, fun r hr => ?_, h.part⟩
    rcases Table.mem_put hr with rfl | hr
    · obtain ⟨author, tokens, hmerged⟩ := db.mergeMessage_eq info
      exact ⟨hinfo, by rw [hmerged], by rw [hmerged], by rw [hmerged], hwritten⟩
    · exact h.message r hr

variable {part : Record} {row : Row}

theorem upsertPart (h : db.Tidy home) (hpart : ∀ s m id, partNames part = (some s, some m, some id) → home.part id = s) (ts : ℕ) :
    (db.upsertPart part ts).Tidy home := by
  unfold Database.upsertPart
  split
  · rename_i s m id hs hm hid
    refine ⟨h.journal, h.message, fun r hr => ?_⟩
    rcases Table.mem_put hr with rfl | hr
    · obtain ⟨hs, hs'⟩ := Option.filter_eq_some_iff.mp hs
      obtain ⟨hm, hm'⟩ := Option.filter_eq_some_iff.mp hm
      obtain ⟨hid, hid'⟩ := Option.filter_eq_some_iff.mp hid
      have hnames : partNames part = (some s, some m, some id) := by rw [partNames, hs, hm, hid]
      exact ⟨hpart s m id hnames, hnames, by simp_all⟩
    · exact h.part r hr
  · exact h

/-- A part written back under the names it was read with. -/
theorem upsertPart_of_row (h : db.Tidy home) {r : PartRow} (hr : r.AtHome home) (hnames : partNames part = partNames r.data)
    (ts : ℕ) : (db.upsertPart part ts).Tidy home := by
  refine h.upsertPart (fun s m id hpart => ?_) ts
  rw [hnames, hr.names] at hpart
  simp only [Prod.mk.injEq, Option.some.injEq] at hpart
  rw [← hpart.1, ← hpart.2.2]
  exact hr.home

theorem delta (h : db.Tidy home) {s partId : String} (hhome : home.part partId = s) (messageId : String) {field : String}
    (hfield : field ∉ nameFields) (text : String) (ts : ℕ) : (db.delta s messageId partId field text ts).Tidy home := by
  unfold Database.delta
  rcases hget : Table.get PartRow.id partId db.part with _ | r
  · refine h.upsertPart (fun s' m id hpart => ?_) ts
    rw [Option.map_none, Option.getD_none, partNames_appendField hfield, partNames_freshPart] at hpart
    simp only [Prod.mk.injEq, Option.some.injEq] at hpart
    rw [← hpart.1, ← hpart.2.2]
    exact hhome
  · exact h.upsertPart_of_row (h.part r (Table.mem_of_get hget).1) (partNames_appendField hfield text) ts

theorem foldl {α : Type*} {f : Database → α → Database} {as : List α} (h : db.Tidy home)
    (hf : ∀ a ∈ as, ∀ db : Database, db.Tidy home → (f db a).Tidy home) : (as.foldl f db).Tidy home := by
  induction as generalizing db with
  | nil => exact h
  | cons a as ih =>
    obtain ⟨ha, has⟩ := List.forall_mem_cons.mp hf
    exact ih (ha db h) has

theorem finishTools (h : db.Tidy home) (sessionId : String) (ts : ℕ) : (db.finishTools sessionId ts).Tidy home := by
  refine h.foldl fun r hr db' h' => ?_
  rcases hclose : closeTool r.data ts with _ | part
  · exact h'
  · exact h'.upsertPart_of_row (h.part r (List.mem_of_mem_filter hr)) (partNames_closeTool hclose) ts

theorem retractStoredParts (h : db.Tidy home) (sessionID : String) (parts : List PartRef) (reason : String) (ts : ℕ) :
    (db.retractStoredParts sessionID parts reason ts).Tidy home := by
  refine h.foldl fun ref _ db' h' => ?_
  dsimp only
  cases hpart : Option.bind _ _ with
  | none => exact h'
  | some part =>
    obtain ⟨r, hr, hretract⟩ := Option.bind_eq_some_iff.mp hpart
    have hmem := (Table.mem_of_get (Option.filter_eq_some_iff.mp hr).1).1
    exact h'.upsertPart_of_row (h'.part r hmem) (partNames_retract hretract) ts

theorem of_tables {db' : Database} (h : db.Tidy home) (hjournal : db'.runtimeJournal = db.runtimeJournal)
    (hmessage : db'.message = db.message) (hpart : db'.part = db.part) : db'.Tidy home :=
  ⟨hjournal ▸ h.journal, hmessage ▸ h.message, hpart ▸ h.part⟩

theorem upsertSession (h : db.Tidy home) (id directory : String) (status : Option String) (owner : Bool) :
    (db.upsertSession id directory status owner).Tidy home := by
  unfold Database.upsertSession
  split
  · split_ifs
    · exact h.of_tables rfl rfl rfl
    · exact h
  · exact h.of_tables rfl rfl rfl

theorem applyConfigUpdate (h : db.Tidy home) (id : String) (patch : ConfigPatch) :
    (db.applyConfigUpdate id patch).Tidy home := by
  unfold Database.applyConfigUpdate
  split
  · exact h
  · dsimp only
    split_ifs
    · exact h
    · exact h.of_tables rfl rfl rfl
    · exact h.of_tables rfl rfl rfl

theorem applySessionControl (h : db.Tidy home) (row : Row) (control : SessionControl) :
    (db.applySessionControl row control).Tidy home := by
  cases control with
  | bind directory =>
    have hbound : ({ db with deletedSession := Function.update db.deletedSession row.sessionId false } : Database).Tidy home :=
      h.of_tables rfl rfl rfl
    exact hbound.upsertSession _ _ _ _
  | interrupted message => exact (h.finishTools _ _).upsertSession _ _ _ _
  | delete =>
    exact ⟨h.journal, fun r hr => h.message r (List.mem_of_mem_filter hr), fun r hr => h.part r (List.mem_of_mem_filter hr)⟩
  | noticeCreated message => exact h.upsertSession _ _ _ _
  | configUpdate patch => exact h.applyConfigUpdate _ _
  | update | permissionStaled | questionStaled | noticeAcknowledged | projectionResetRequested | goalUpdate => exact h

theorem partNames_prompt {sessionID messageID : String} {parts : List Record}
    (h : part ∈ buildUserPromptParts sessionID messageID parts) :
    ∃ i < parts.length, partNames part = (some sessionID, some messageID, some (promptPartId messageID i)) := by
  obtain ⟨⟨p, i⟩, hp, rfl⟩ := List.mem_map.mp h
  refine ⟨i, by simpa using (List.mem_zipIdx hp).2.1, ?_⟩
  unfold partNames
  rw [Record.field_set_ne _ (by decide), Record.field_set_self, Record.field_set_self, Record.field_set_ne _ (by decide),
    Record.field_set_ne _ (by decide), Record.field_set_self]
  rfl

theorem applyTurnStart (h : db.Tidy home) (row : Row) {turn : Turn}
    (hturn : (Content.control (.turnStart turn)).AtHome home row.sessionId) : (db.applyTurnStart row turn).Tidy home := by
  obtain ⟨hassistant, huser⟩ := hturn
  unfold Database.applyTurnStart turnStartMessages
  refine Database.Tidy.upsertSession (Database.Tidy.upsertMessage ?_ hassistant row) _ _ _ _
  rcases hid : nonEmpty turn.userMessageId with _ | id
  · exact h
  · obtain ⟨hsome, -⟩ := Option.filter_eq_some_iff.mp hid
    obtain ⟨hmessage, hparts⟩ := huser id hsome
    refine Database.Tidy.foldl (Database.Tidy.upsertMessage h hmessage row) fun part hpart db' h' => ?_
    obtain ⟨i, hi, hnames⟩ := partNames_prompt hpart
    refine h'.upsertPart (fun s m id' hpart' => ?_) _
    rw [hnames] at hpart'
    simp only [Prod.mk.injEq, Option.some.injEq] at hpart'
    rw [← hpart'.1, ← hpart'.2.2]
    exact hparts i hi

theorem setStatus (h : db.Tidy home) (sessionId status : String) : (db.setStatus sessionId status).Tidy home :=
  h.upsertSession _ _ _ _

theorem applyEvent (h : db.Tidy home) (row : Row) {event : AgentPresentationEvent}
    (hevent : (Content.event event).AtHome home row.sessionId) : (db.applyEvent row event).Tidy home := by
  unfold Database.applyEvent
  split_ifs with hdeleted
  · exact h
  cases event with
  | messageUpdated info => exact h.upsertMessage (hevent.2.trans hevent.1.symm) row
  | messagePartUpdated part =>
    refine h.upsertPart (fun s m id hnames => ?_) _
    unfold partNames at hnames
    simp only [Prod.mk.injEq] at hnames
    rw [hevent.2 id hnames.2.2]
    exact Option.some.inj (hevent.1.symm.trans hnames.1)
  | messagePartRetracted sessionID parts reason => exact h.retractStoredParts _ _ _ _
  | messagePartDelta sessionID messageID partID field text =>
    obtain ⟨hs, hpart, -, -, -, hfield⟩ := hevent
    exact h.delta (hpart.trans hs.symm) _ hfield _ _
  | messageCompleted sessionID messageID cancelled =>
    dsimp only
    split
    · rename_i stored hget
      have hstored := h.message stored (Table.mem_of_get hget).1
      exact h.upsertMessage (by rw [hstored.id, hstored.session]; exact hstored.home) row
    · exact h
  | sessionUsage messageID observation =>
    dsimp only
    rcases hinfo : (nonEmpty messageID).bind (db.storedAssistantMessage row.sessionId) with _ | info
    · exact h
    · obtain ⟨id, -, hstored⟩ := Option.bind_eq_some_iff.mp hinfo
      obtain ⟨stored, hfound, rfl⟩ := Option.map_eq_some_iff.mp hstored
      have hrow := h.message stored (Table.mem_of_get (Option.filter_eq_some_iff.mp hfound).1).1
      cases observation with
      | none => exact h
      | some _ => exact h.upsertMessage (by rw [hrow.id, hrow.session]; exact hrow.home) row
  | sessionStatus | sessionIdle | sessionError => exact h.setStatus _ _
  | elsewhere => exact h

theorem apply (h : db.Tidy home) (hrow : row.content.AtHome home row.sessionId) : (db.apply row).Tidy home := by
  unfold Database.apply
  rcases hcontent : row.content with control | event
  · rw [hcontent] at hrow
    cases control with
    | turnStart turn => exact h.applyTurnStart row hrow
    | turnFinish => exact h
    | session control => exact h.applySessionControl row control
  · rw [hcontent] at hrow
    exact h.applyEvent row hrow

theorem project (h : db.Tidy home) (hrow : row.content.AtHome home row.sessionId) : (db.project row).Tidy home :=
  (h.apply hrow).of_tables rfl rfl rfl

theorem insertRuntimeJournal (h : db.Tidy home) (hrow : row.content.AtHome home row.sessionId) :
    (db.insertRuntimeJournal row).Tidy home := by
  refine ⟨fun r hr => ?_, h.message, h.part⟩
  rcases List.mem_append.mp hr with hr | hr
  · refine h.journal r ?_
    split at hr
    · exact List.mem_of_mem_filter hr
    · exact hr
  · rw [List.mem_singleton.mp hr]
    exact hrow

end Database.Tidy

/-- The database's rows and the deltas in memory are at home. -/
structure RuntimeStore.Tidy (σ : RuntimeStore) : Prop where
  db : σ.db.Tidy home
  pending : ∀ item ∈ σ.pendingDeltas, item.AtHome home

namespace RuntimeStore.Tidy

variable {home} {σ : RuntimeStore}

theorem settleSession (h : σ.db.Tidy home) (sessionId : String) {items : List PendingDelta}
    (hitems : ∀ item ∈ items, item.AtHome home) : (σ.settleSession sessionId items).db.Tidy home := by
  unfold RuntimeStore.settleSession
  split_ifs
  · exact h
  · refine Database.Tidy.of_tables (h.foldl fun item hitem db' h' => ?_) rfl rfl rfl
    exact h'.delta (hitems item hitem).home _ (hitems item hitem).field _ _

theorem settleDeltas (h : σ.Tidy home) (sessionId : Option String) : (σ.settleDeltas sessionId).Tidy home := by
  refine ⟨?_, fun item hitem => ?_⟩
  · refine settle_foldl (fun σ' => σ'.db.Tidy home) _ _ (fun σ' session h' => settleSession h' session fun item hitem => ?_) h.db
    exact h.pending item (List.mem_of_mem_filter (List.mem_of_mem_filter hitem))
  · rw [pendingDeltas_settleDeltas] at hitem
    exact h.pending item (List.mem_of_mem_filter hitem)

theorem of_db {db : Database} (h : σ.Tidy home) (hdb : db.Tidy home) : RuntimeStore.Tidy home { σ with db } := ⟨hdb, h.pending⟩

theorem replayRows (h : σ.Tidy home) {rows : List Row} (hrows : ∀ row ∈ rows, row.content.AtHome home row.sessionId)
    (stops : Option ℕ) : (σ.replayRows rows stops).1.Tidy home := by
  induction rows generalizing σ stops with
  | nil => exact h
  | cons row rows ih =>
    obtain ⟨hrow, hrest⟩ := List.forall_mem_cons.mp hrows
    have hprojected := h.of_db (h.db.project hrow)
    rcases stops with _ | _ | k
    · exact ih hprojected hrest _
    · exact ⟨h.db, h.pending⟩
    · exact ih hprojected hrest _

theorem replay (h : σ.Tidy home) (sessionId : String) (stops : Option ℕ) : (σ.replay sessionId stops).1.Tidy home := by
  unfold RuntimeStore.replay replaySession
  have hretry : RuntimeStore.Tidy home { σ with failedProjections := Function.update σ.failedProjections sessionId none } :=
    ⟨h.db, h.pending⟩
  split_ifs
  · refine hretry.replayRows (fun row hrow => ?_) stops
    exact h.db.journal row (List.mem_of_mem_filter (List.mem_of_mem_filter hrow))
  · exact h

theorem deferDelta (h : σ.Tidy home) {row : Row} (hrow : row.content.AtHome home row.sessionId) :
    (σ.deferDelta row).Tidy home := by
  unfold RuntimeStore.deferDelta
  split
  · rename_i sessionID messageID partID field text hcontent
    rw [hcontent] at hrow
    obtain ⟨hs, hpart, hwritten, hwritten', hwritten'', hfield⟩ := hrow
    have hitem : PendingDelta.AtHome home
        { sessionId := row.sessionId, messageId := messageID, partId := partID, field, text, seq := row.seq, ts := row.ts } :=
      ⟨hpart, by rw [← hs]; simp [hwritten, hwritten', hwritten''], hfield⟩
    dsimp only
    split
    · rename_i prev hprev
      have hold := h.pending prev (Table.mem_of_get hprev).1
      split_ifs
      · refine ⟨h.db, fun item hmem => ?_⟩
        rcases Table.mem_put hmem with rfl | hmem
        · exact ⟨hold.home, hold.written, hold.field⟩
        · exact h.pending item hmem
      · have hsettled := h.settleDeltas (some row.sessionId)
        refine ⟨hsettled.db, fun item hmem => ?_⟩
        rcases Table.mem_put hmem with rfl | hmem
        · exact hitem
        · exact hsettled.pending item hmem
    · refine ⟨h.db, fun item hmem => ?_⟩
      rcases Table.mem_put hmem with rfl | hmem
      · exact hitem
      · exact h.pending item hmem
  · exact h

theorem reopen {db : Database} (h : db.Tidy home) : (reopen db).Tidy home := by
  have hfold : ∀ (sessions : List String) (σ : RuntimeStore), σ.Tidy home →
      (sessions.foldl (fun σ sessionId => (σ.replay sessionId none).1) σ).Tidy home := by
    intro sessions
    induction sessions with
    | nil => exact fun _ hσ => hσ
    | cons s ss ih => exact fun σ hσ => ih _ (hσ.replay s none)
  exact hfold _ _ ⟨h, fun _ hitem => absurd hitem List.not_mem_nil⟩

end RuntimeStore.Tidy

/-- The row a move journals. -/
def Move.row? : Move → Option Row
  | .defer row | .project row | .fail row => some row
  | _ => none

def Move.AtHome (m : Move) : Prop := ∀ row, m.row? = some row → row.content.AtHome home row.sessionId

theorem RuntimeStore.Tidy.move {home : Homes} {σ : RuntimeStore} (h : σ.Tidy home) {m : Move} (hm : m.AtHome home) :
    (σ.move m).Tidy home := by
  cases m with
  | settle sessionId => exact h.settleDeltas sessionId
  | replay sessionId stops => exact h.replay sessionId stops
  | defer row =>
    exact (h.of_db (h.db.insertRuntimeJournal (hm row rfl))).deferDelta (hm row rfl)
  | project row => exact h.of_db ((h.db.insertRuntimeJournal (hm row rfl)).project (hm row rfl))
  | fail row => exact ⟨h.db.insertRuntimeJournal (hm row rfl), h.pending⟩
  | lease leases => exact ⟨h.db.of_tables rfl rfl rfl, h.pending⟩
  | reopen => exact RuntimeStore.Tidy.reopen h.db

end Claxedo.Store
