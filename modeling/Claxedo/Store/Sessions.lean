import Claxedo.Lib.Lists
import Claxedo.Store.Calls

/-! Sessions are apart. What a store holds of one session changes with that session's rows alone, and
changes as it would in a store that holds nothing else. -/

namespace Claxedo.Store

open Lib

/-- One waiting delta folded into its part. -/
def Database.take (db : Database) (item : PendingDelta) : Database :=
  db.delta item.sessionId item.messageId item.partId item.field item.text item.ts

/-- The deltas folded into their parts, in turn. -/
def Database.fold (db : Database) (items : List PendingDelta) : Database := items.foldl take db

/-- The newest sequence among the deltas. -/
def lastSeq (items : List PendingDelta) : ℕ := items.foldl (fun last item => if last < item.seq then item.seq else last) 0

/-- What the database holds of one session, the lease aside. -/
def Database.only (db : Database) (s : String) : Database where
  runtimeJournal := db.journalOf s
  session := fun id => if id = s then db.session id else none
  message := db.message.filter fun r => r.sessionId = s
  part := db.part.filter fun r => r.sessionId = s
  deletedSession := fun id => if id = s then db.deletedSession id else false
  journalCheckpoint := fun id => if id = s then db.journalCheckpoint id else 0

def RuntimeStore.only (σ : RuntimeStore) (s : String) : RuntimeStore where
  db := σ.db.only s
  pendingDeltas := σ.pendingOf s
  failedProjections := fun id => if id = s then σ.failedProjections id else none

variable {home : Homes}

namespace Database

section Reads

variable (db : Database) (s : String)

@[simp] theorem journalOf_only : (db.only s).journalOf s = db.journalOf s := by
  simp [journalOf, only, List.filter_filter]

@[simp] theorem session_only : (db.only s).session s = db.session s := if_pos rfl

@[simp] theorem deletedSession_only : (db.only s).deletedSession s = db.deletedSession s := if_pos rfl

@[simp] theorem journalCheckpoint_only : (db.only s).journalCheckpoint s = db.journalCheckpoint s := if_pos rfl

@[simp] theorem sessionDirectory_only : (db.only s).sessionDirectory s = db.sessionDirectory s := by
  rw [sessionDirectory, session_only, sessionDirectory]

@[simp] theorem readJournaledTurn_only (seq : ℕ) : readJournaledTurn (db.only s) s seq = readJournaledTurn db s seq := by
  rw [readJournaledTurn, journalOf_only, readJournaledTurn]

@[simp] theorem getSessionMaxSeq_only : (db.only s).getSessionMaxSeq s = db.getSessionMaxSeq s := by
  rw [getSessionMaxSeq, journalOf_only, getSessionMaxSeq]

@[simp] theorem next_only : (db.only s).next s = db.next s := by
  rw [next, getSessionMaxSeq_only, next]

@[simp] theorem messageUsageObservations_only (messageId : String) :
    (db.only s).messageUsageObservations s messageId = db.messageUsageObservations s messageId := by
  rw [messageUsageObservations, journalOf_only, messageUsageObservations]

@[simp] theorem message_only_filter :
    ((db.only s).message.filter fun r => r.sessionId = s) = db.message.filter fun r => r.sessionId = s := by
  simp [only, List.filter_filter]

@[simp] theorem part_only_filter :
    ((db.only s).part.filter fun r => r.sessionId = s) = db.part.filter fun r => r.sessionId = s := by
  simp [only, List.filter_filter]

theorem only_only : (db.only s).only s = db.only s := by
  unfold only journalOf
  simp only [List.filter_filter, Bool.and_self, Database.mk.injEq, and_true, true_and]
  refine ⟨?_, ?_, ?_⟩ <;> (funext id; split_ifs <;> rfl)

end Reads

variable {db : Database} {s t : String}

theorem Tidy.only (h : db.Tidy home) (s : String) : (db.only s).Tidy home :=
  ⟨fun row hrow => h.journal row (List.mem_of_mem_filter hrow), fun r hr => h.message r (List.mem_of_mem_filter hr),
    fun r hr => h.part r (List.mem_of_mem_filter hr)⟩

theorem Tidy.message_home (h : db.Tidy home) {r : MessageRow} (hr : r ∈ db.message) : home.message r.id = r.sessionId :=
  (h.message r hr).home

theorem Tidy.part_home (h : db.Tidy home) {r : PartRow} (hr : r ∈ db.part) : home.part r.id = r.sessionId := (h.part r hr).home

variable {id : String}

theorem get_message_only (h : db.Tidy home) (hid : home.message id = s) :
    Table.get MessageRow.id id (db.only s).message = Table.get MessageRow.id id db.message :=
  Table.get_filter fun r hr hk => by simp [← h.message_home hr, hk, hid]

theorem get_part_only (h : db.Tidy home) (hid : home.part id = s) :
    Table.get PartRow.id id (db.only s).part = Table.get PartRow.id id db.part :=
  Table.get_filter fun r hr hk => by simp [← h.part_home hr, hk, hid]

theorem get_part_filter (h : db.Tidy home) (id messageId : String) :
    ((Table.get PartRow.id id (db.only s).part).filter fun r => r.sessionId = s ∧ r.messageId = messageId) =
      (Table.get PartRow.id id db.part).filter fun r => r.sessionId = s ∧ r.messageId = messageId :=
  Table.filter_get_filter (fun r hr r' hr' hk hk' => by simp [← h.part_home hr, ← h.part_home hr', hk, hk']) fun r hr => by
    simp only [decide_eq_true_eq] at hr ⊢
    exact hr.1

theorem storedAssistantMessage_only (h : db.Tidy home) (id : String) :
    (db.only s).storedAssistantMessage s id = db.storedAssistantMessage s id :=
  congrArg _ (Table.filter_get_filter
    (fun r hr r' hr' hk hk' => by simp [← h.message_home hr, ← h.message_home hr', hk, hk']) fun r hr => by
      simp only [decide_eq_true_eq] at hr ⊢
      exact hr.1)

theorem messageOrd_only (h : db.Tidy home) (hid : home.message id = s) :
    (db.only s).messageOrd s id = db.messageOrd s id := by
  unfold messageOrd
  rw [get_message_only h hid, message_only_filter]

theorem partOrd_only (h : db.Tidy home) (messageId : String) (hid : home.part id = s) :
    (db.only s).partOrd s messageId id = db.partOrd s messageId id := by
  unfold partOrd
  rw [get_part_only h hid]
  simp only [only, List.filter_filter]
  split
  · rfl
  · congr 2
    refine List.filter_congr fun r _ => ?_
    by_cases hr : r.sessionId = s <;> simp [hr]

theorem mergeMessage_only (h : db.Tidy home) {info : MessageInfo} (hs : info.sessionID = s) (hid : home.message info.id = s) :
    (db.only s).mergeMessage info = db.mergeMessage info := by
  unfold mergeMessage
  rw [get_message_only h hid, hs, messageUsageObservations_only]

/-- A database by session. -/
def slices (home : Homes) : Slices Database String := ⟨Database.only, Database.Tidy home⟩

/-- `f` reads and writes session `t` alone. -/
abbrev Local (home : Homes) (t : String) (f : Database → Database) : Prop := (slices home).Local t f

namespace Local

open Slices.Local

theorem of {f : Database → Database} (htidy : ∀ db : Database, db.Tidy home → (f db).Tidy home)
    (hown : ∀ db : Database, db.Tidy home → (f db).only t = f (db.only t))
    (hother : ∀ db : Database, db.Tidy home → ∀ s, s ≠ t → (f db).only s = db.only s) : Local home t f :=
  ⟨htidy, hown, hother⟩

variable {row : Row}

theorem upsertMessage {info : MessageInfo} (hs : info.sessionID = t) (hid : home.message info.id = t) (hrow : row.sessionId = t) :
    Local home t (·.upsertMessage info row) := by
  have hkey : ∀ db : Database, db.Tidy home → ∀ r ∈ db.message, r.id = info.id → r.sessionId = t := fun db h r hr hk => by
    rw [← h.message_home hr, hk, hid]
  refine of (fun db h => h.upsertMessage (hid.trans hs.symm) row) (fun db h => ?_) fun db h s hne => ?_
  · unfold Database.upsertMessage
    rw [hs, get_message_only h hid, messageOrd_only h hid, mergeMessage_only h hs hid, hrow, readJournaledTurn_only]
    split_ifs
    · rfl
    · unfold only journalOf
      dsimp only
      rw [Table.filter_put fun r hr hk => by simp [hkey db h r hr hk]]
      simp
  · unfold Database.upsertMessage
    split_ifs
    · rfl
    · unfold only journalOf
      dsimp only
      rw [Table.filter_put fun r hr hk => by simp [hkey db h r hr hk, hs]]
      simp [hs, hne.symm]

theorem upsertPart {part : Record} (hpart : ∀ s m id, partNames part = (some s, some m, some id) → s = t ∧ home.part id = t)
    (ts : ℕ) : Local home t (·.upsertPart part ts) := by
  refine of
    (fun db h => h.upsertPart (fun s m id hnames => (hpart s m id hnames).2.trans (hpart s m id hnames).1.symm) ts)
    (fun db h => ?_) fun db h s hne => ?_
  all_goals
    unfold Database.upsertPart
    split
    · rename_i s' m id hs' hm hid
      have hnames : partNames part = (some s', some m, some id) := by
        rw [partNames, (Option.filter_eq_some_iff.mp hs').1, (Option.filter_eq_some_iff.mp hm).1,
          (Option.filter_eq_some_iff.mp hid).1]
      obtain ⟨rfl, hhome⟩ := hpart s' m id hnames
      have hkey : ∀ r ∈ db.part, r.id = id → r.sessionId = s' := fun r hr hk => by rw [← h.part_home hr, hk, hhome]
      unfold only journalOf
      dsimp only
      rw [Table.filter_put fun r hr hk => by simp [hkey r hr hk]]
      first
      | rw [if_pos (by simp), ← partOrd_only h m hhome]
        rfl
      | rw [if_neg (by simp [hne.symm])]
    · rfl

/-- A part of the session written back under its names. -/
theorem upsertPart_of_row {r : PartRow} (hr : r.AtHome home) (hs : r.sessionId = t) {part : Record}
    (hnames : partNames part = partNames r.data) (ts : ℕ) : Local home t (·.upsertPart part ts) := by
  refine upsertPart (fun s m id hpart => ?_) ts
  rw [hnames, hr.names] at hpart
  simp only [Prod.mk.injEq, Option.some.injEq] at hpart
  rw [← hpart.1, ← hpart.2.2, hr.home]
  exact ⟨hs, hs⟩

theorem delta {partId : String} (hhome : home.part partId = t) (messageId : String) {field : String}
    (hfield : field ∉ nameFields) (text : String) (ts : ℕ) : Local home t (·.delta t messageId partId field text ts) := by
  refine reading (fun db => Table.get PartRow.id partId db.part)
    (fun (r : Option PartRow) (db : Database) => db.upsertPart
      (appendField ((r.map (·.data)).getD (freshPart t messageId partId)) field text) ts)
    (fun db => by rw [Database.delta]) (fun db h => get_part_only h hhome) fun db h => ?_
  rcases hget : Table.get PartRow.id partId db.part with _ | r
  · refine upsertPart (fun s m id hpart => ?_) ts
    rw [Option.map_none, Option.getD_none, partNames_appendField hfield, partNames_freshPart] at hpart
    simp only [Prod.mk.injEq, Option.some.injEq] at hpart
    rw [← hpart.1, ← hpart.2.2]
    exact ⟨rfl, hhome⟩
  · obtain ⟨hr, hk⟩ := Table.mem_of_get hget
    exact upsertPart_of_row (h.part r hr) (by rw [← h.part_home hr, hk, hhome]) (partNames_appendField hfield text) ts

theorem take {item : PendingDelta} (hitem : item.AtHome home) : Local home item.sessionId (·.take item) :=
  delta hitem.home _ hitem.field _ _

theorem finishTools (ts : ℕ) : Local home t (·.finishTools t ts) := by
  refine reading (fun db => db.part.filter (·.sessionId = t))
    (fun (rows : List PartRow) (db : Database) => rows.foldl
      (fun db row => ((closeTool row.data ts).map (db.upsertPart · ts)).getD db) db)
    (fun _ => rfl) (fun db _ => part_only_filter db t) fun db h => foldl fun r hr => ?_
  rcases hclose : closeTool r.data ts with _ | part
  · exact Slices.Local.id t
  · obtain ⟨hr, hs⟩ := List.mem_filter.mp hr
    exact upsertPart_of_row (h.part r hr) (of_decide_eq_true hs) (partNames_closeTool hclose) ts

theorem retractStoredParts (parts : List PartRef) (reason : String) (ts : ℕ) :
    Local home t (·.retractStoredParts t parts reason ts) := by
  refine foldl fun ref _ => reading
    (fun db => (Table.get PartRow.id ref.partID db.part).filter fun row => row.sessionId = t ∧ row.messageId = ref.messageID)
    (fun (r : Option PartRow) (db : Database) => ((r.bind fun row => retract row.data reason).map (db.upsertPart · ts)).getD db)
    (fun _ => rfl) (fun db h => get_part_filter h ref.partID ref.messageID) fun db h => ?_
  rcases hpart : Option.bind _ _ with _ | part
  · exact Slices.Local.id t
  · obtain ⟨r, hr, hretract⟩ := Option.bind_eq_some_iff.mp hpart
    obtain ⟨hget, hs⟩ := Option.filter_eq_some_iff.mp hr
    exact upsertPart_of_row (h.part r (Table.mem_of_get hget).1) (of_decide_eq_true hs).1 (partNames_retract hretract) ts

theorem putSession (row : Option SessionRow) :
    Local home t fun db => { db with session := Function.update db.session t row } := by
  refine of (fun db h => h.of_tables rfl rfl rfl) (fun db _ => ?_) fun db _ s hne => ?_
  · unfold only journalOf
    simp only [Database.mk.injEq, true_and, and_true]
    funext id
    by_cases hid : id = t <;> simp [hid]
  · unfold only journalOf
    simp only [Database.mk.injEq, true_and, and_true]
    funext id
    by_cases hid : id = s <;> simp [hid, hne]

theorem putDeleted (deleted : Bool) :
    Local home t fun db => { db with deletedSession := Function.update db.deletedSession t deleted } := by
  refine of (fun db h => h.of_tables rfl rfl rfl) (fun db _ => ?_) fun db _ s hne => ?_
  · unfold only journalOf
    simp only [Database.mk.injEq, true_and, and_true]
    funext id
    by_cases hid : id = t <;> simp [hid]
  · unfold only journalOf
    simp only [Database.mk.injEq, true_and, and_true]
    funext id
    by_cases hid : id = s <;> simp [hid, hne]

theorem setCheckpoint (seq : ℕ) : Local home t (·.setCheckpoint t seq) := by
  refine of (fun db h => h.of_tables rfl rfl rfl) (fun db _ => ?_) fun db _ s hne => ?_
  · unfold only journalOf Database.setCheckpoint
    simp only [Database.mk.injEq, true_and, and_true]
    funext id
    by_cases hid : id = t <;> simp [hid]
  · unfold only journalOf Database.setCheckpoint
    simp only [Database.mk.injEq, true_and, and_true]
    funext id
    by_cases hid : id = s <;> simp [hid, hne]

theorem upsertSession (directory : String) (status : Option String) (owner : Bool) :
    Local home t (·.upsertSession t directory status owner) := by
  refine reading (fun db => db.session t)
    (fun (prev : Option SessionRow) (db : Database) => prev.elim
      (if owner then { db with session := Function.update db.session t (some { directory, status }) } else db)
      fun prev => { db with session := Function.update db.session t (some
          { prev with
            directory := directory
            status := status.or prev.status
            permissionState := if prev.harness.isSome then prev.permissionState else none }) })
    (fun db => ?_) (fun db _ => session_only db t) fun db _ => ?_
  · unfold Database.upsertSession
    cases db.session t <;> rfl
  · cases db.session t with
    | none =>
      cases owner
      · exact Slices.Local.id t
      · exact putSession _
    | some prev => exact putSession _

theorem setStatus (status : String) : Local home t (·.setStatus t status) :=
  reading (fun db => db.sessionDirectory t) (fun directory db => db.upsertSession t directory (some status) false)
    (fun _ => rfl) (fun db _ => sessionDirectory_only db t) fun _ _ => upsertSession _ _ _

theorem applyConfigUpdate (patch : ConfigPatch) : Local home t (·.applyConfigUpdate t patch) := by
  refine reading (fun db => db.session t)
    (fun (prev : Option SessionRow) (db : Database) => prev.elim db fun prev =>
        if prev.harness.isNone ∧ patch.harness.isNone then db
        else
          let harness := patch.harness.or prev.harness
          let permissionState := patch.permissionState.getD (if harness = prev.harness then prev.permissionState else none)
          { db with session := Function.update db.session t (some { prev with harness, permissionState }) })
    (fun db => ?_) (fun db _ => session_only db t) fun db _ => ?_
  · unfold Database.applyConfigUpdate
    cases db.session t <;> rfl
  · cases db.session t with
    | none => exact Slices.Local.id t
    | some prev =>
      by_cases hnone : prev.harness.isNone ∧ patch.harness.isNone
      · simp only [Option.elim_some, if_pos hnone]
        exact Slices.Local.id t
      · simp only [Option.elim_some, if_neg hnone]
        exact putSession _

theorem deleteSessionProjection : Local home t (·.deleteSessionProjection t) := by
  refine of (fun db h => ⟨h.journal, fun r hr => h.message r (List.mem_of_mem_filter hr),
    fun r hr => h.part r (List.mem_of_mem_filter hr)⟩) (fun db _ => ?_) fun db _ s hne => ?_
  · unfold only journalOf Database.deleteSessionProjection
    simp only [Database.mk.injEq, true_and, and_true, List.filter_filter, Bool.and_comm]
    refine ⟨?_, ?_⟩ <;> (funext id; by_cases hid : id = t <;> simp [hid])
  · unfold only journalOf Database.deleteSessionProjection
    simp only [Database.mk.injEq, true_and, and_true, List.filter_filter]
    refine ⟨?_, ?_, ?_, ?_⟩
    · funext id
      by_cases hid : id = s <;> simp [hid, hne]
    · exact List.filter_congr fun r _ => by by_cases hr : r.sessionId = s <;> simp [hr, hne]
    · exact List.filter_congr fun r _ => by by_cases hr : r.sessionId = s <;> simp [hr, hne]
    · funext id
      by_cases hid : id = s <;> simp [hid, hne]

theorem applySessionControl (hrow : row.sessionId = t) (control : SessionControl) :
    Local home t (·.applySessionControl row control) := by
  subst hrow
  cases control with
  | bind directory => exact (upsertSession directory none true).comp (putDeleted false)
  | interrupted message =>
    exact reading (fun db => db.sessionDirectory row.sessionId)
      (fun directory db => (db.finishTools row.sessionId row.ts).upsertSession row.sessionId directory (some "interrupted") false)
      (fun _ => rfl) (fun db _ => sessionDirectory_only db _) fun _ _ => (upsertSession _ _ _).comp (finishTools row.ts)
  | delete => exact (putDeleted true).comp deleteSessionProjection
  | noticeCreated message =>
    exact reading (fun db => db.sessionDirectory row.sessionId)
      (fun directory db => db.upsertSession row.sessionId directory none false)
      (fun _ => rfl) (fun db _ => sessionDirectory_only db _) fun _ _ => upsertSession _ _ _
  | configUpdate patch => exact applyConfigUpdate patch
  | update | permissionStaled | questionStaled | noticeAcknowledged | projectionResetRequested | goalUpdate => exact Slices.Local.id _

theorem applyTurnStart (hrow : row.sessionId = t) {turn : Turn} (hturn : (Content.control (.turnStart turn)).AtHome home t) :
    Local home t (·.applyTurnStart row turn) := by
  subst hrow
  obtain ⟨hassistant, huser⟩ := hturn
  refine reading (fun db => db.sessionDirectory row.sessionId)
    (fun directory db =>
      let messages := turnStartMessages row.sessionId row.ts directory turn
      let prompted := messages.1.elim db fun message =>
        message.2.foldl (fun (db : Database) part => db.upsertPart part row.ts) (db.upsertMessage message.1 row)
      (prompted.upsertMessage messages.2 row).upsertSession row.sessionId directory (some "busy") false)
    (fun db => ?_) (fun db _ => sessionDirectory_only db _) fun db _ => ?_
  · unfold Database.applyTurnStart
    dsimp only
    cases (turnStartMessages row.sessionId row.ts (db.sessionDirectory row.sessionId) turn).1 <;> rfl
  have hreply : Local home row.sessionId
      (·.upsertMessage (turnStartMessages row.sessionId row.ts (db.sessionDirectory row.sessionId) turn).2 row) :=
    upsertMessage rfl hassistant rfl
  refine (upsertSession _ _ _).comp (hreply.comp ?_)
  unfold turnStartMessages
  rcases hid : nonEmpty turn.userMessageId with _ | id
  · exact Slices.Local.id _
  · obtain ⟨hsome, -⟩ := Option.filter_eq_some_iff.mp hid
    obtain ⟨hmessage, hparts⟩ := huser id hsome
    have hprompt : Local home row.sessionId (·.upsertMessage (buildUserMessage row.sessionId row.ts id turn) row) :=
      upsertMessage rfl hmessage rfl
    refine (foldl fun part hpart => ?_).comp hprompt
    obtain ⟨i, hi, hnames⟩ := Tidy.partNames_prompt hpart
    refine upsertPart (fun s m id' hpart' => ?_) _
    rw [hnames] at hpart'
    simp only [Prod.mk.injEq, Option.some.injEq] at hpart'
    rw [← hpart'.1, ← hpart'.2.2]
    exact ⟨rfl, hparts i hi⟩

theorem unlessDeleted {f : Database → Database} (hf : Local home t f) :
    Local home t fun db => if db.deletedSession t then db else f db := by
  refine reading (fun db => db.deletedSession t) (fun deleted db => if deleted then db else f db) (fun _ => rfl)
    (fun db _ => deletedSession_only db t) fun db _ => ?_
  cases db.deletedSession t with
  | true => exact Slices.Local.id t
  | false => simpa using hf

theorem applyEvent (hrow : row.sessionId = t) {event : AgentPresentationEvent} (hevent : (Content.event event).AtHome home t) :
    Local home t (·.applyEvent row event) := by
  subst hrow
  refine unlessDeleted ?_
  cases event with
  | messageUpdated info => exact upsertMessage hevent.1 hevent.2 rfl
  | messagePartUpdated part =>
    refine upsertPart (fun s m id hnames => ?_) _
    unfold partNames at hnames
    simp only [Prod.mk.injEq] at hnames
    exact ⟨Option.some.inj (hnames.1.symm.trans hevent.1), hevent.2 id hnames.2.2⟩
  | messagePartRetracted sessionID parts reason =>
    obtain rfl : sessionID = row.sessionId := hevent
    exact retractStoredParts parts reason row.ts
  | messagePartDelta sessionID messageID partID field text =>
    obtain ⟨hs, hpart, -, -, -, hfield⟩ := hevent
    simp only [hs]
    exact delta hpart messageID hfield text row.ts
  | messageCompleted sessionID messageID cancelled =>
    refine reading (fun db => Table.get MessageRow.id messageID db.message)
      (fun (stored : Option MessageRow) (db : Database) => stored.elim db fun stored =>
        db.upsertMessage { stored.info with completed := some row.ts } row)
      (fun db => ?_) (fun db h => get_message_only h hevent) fun db h => ?_
    · dsimp only
      cases Table.get MessageRow.id messageID db.message <;> rfl
    rcases hget : Table.get MessageRow.id messageID db.message with _ | stored
    · exact Slices.Local.id _
    · obtain ⟨hmem, hk⟩ := Table.mem_of_get hget
      have hstored := h.message stored hmem
      refine upsertMessage ?_ ?_ rfl
      · rw [hstored.session, ← hstored.home, hk]
        exact hevent
      · rw [hstored.id, hk]
        exact hevent
  | sessionUsage messageID observation =>
    clear hevent
    refine reading (fun db => (nonEmpty messageID).bind (db.storedAssistantMessage row.sessionId))
      (fun (stored : Option MessageInfo) (db : Database) => stored.elim db fun info =>
        observation.elim db fun _ => db.upsertMessage info row)
      (fun db => ?_) (fun db h => ?_) fun db h => ?_
    · dsimp only
      cases (nonEmpty messageID).bind (db.storedAssistantMessage row.sessionId) <;> cases observation <;> rfl
    · exact congrArg _ (funext fun id => storedAssistantMessage_only h id)
    rcases hinfo : (nonEmpty messageID).bind (db.storedAssistantMessage row.sessionId) with _ | info
    · exact Slices.Local.id _
    cases observation with
    | none => exact Slices.Local.id _
    | some observation =>
      obtain ⟨id, -, hstored⟩ := Option.bind_eq_some_iff.mp hinfo
      obtain ⟨stored, hfound, rfl⟩ := Option.map_eq_some_iff.mp hstored
      obtain ⟨hget, hs⟩ := Option.filter_eq_some_iff.mp hfound
      have hathome := h.message stored (Table.mem_of_get hget).1
      have hs := (of_decide_eq_true hs).1
      exact upsertMessage (hathome.session.trans hs) (by rw [hathome.id, hathome.home, hs]) rfl
  | sessionStatus sessionID status =>
    obtain rfl : sessionID = row.sessionId := hevent
    exact setStatus status
  | sessionIdle sessionID lastTurn =>
    obtain rfl : sessionID = row.sessionId := hevent
    exact setStatus "idle"
  | sessionError sessionID error lastTurn =>
    obtain hs : sessionID.getD row.sessionId = row.sessionId := by
      cases sessionID with
      | none => rfl
      | some id => exact hevent id rfl
    simp only [hs]
    exact setStatus "error"
  | elsewhere type => exact Slices.Local.id _

theorem apply (hrow : row.content.AtHome home row.sessionId) : Local home row.sessionId (·.apply row) := by
  unfold Database.apply
  rcases hcontent : row.content with control | event
  · rw [hcontent] at hrow
    cases control with
    | turnStart turn => exact applyTurnStart rfl hrow
    | turnFinish => exact Slices.Local.id _
    | session control => exact applySessionControl rfl control
  · rw [hcontent] at hrow
    exact applyEvent rfl hrow

theorem project (hrow : row.content.AtHome home row.sessionId) : Local home row.sessionId (·.project row) :=
  (setCheckpoint row.seq).comp (apply hrow)

theorem insertRuntimeJournal (hrow : row.content.AtHome home row.sessionId) :
    Local home row.sessionId (·.insertRuntimeJournal row) := by
  refine of (fun db h => h.insertRuntimeJournal hrow) (fun db _ => ?_) fun db _ s hne => ?_
  · unfold Database.insertRuntimeJournal only journalOf
    rcases nonEmpty row.partId with _ | partId
    · simp
    · simp only [List.filter_append, List.filter_filter, Bool.and_comm, Database.mk.injEq, and_true]
      simp
  · have hjournal : (db.insertRuntimeJournal row).journalOf s = db.journalOf s := db.journalOf_insert_of_ne hne.symm
    unfold only
    rw [hjournal]
    rfl

end Local

end Database

namespace RuntimeStore

open Database (Tidy.only)

variable {σ : RuntimeStore} {s t : String}

@[simp] theorem db_only (σ : RuntimeStore) (s : String) : (σ.only s).db = σ.db.only s := rfl

@[simp] theorem pendingDeltas_only (σ : RuntimeStore) (s : String) : (σ.only s).pendingDeltas = σ.pendingOf s := rfl

@[simp] theorem pendingOf_only (σ : RuntimeStore) (s : String) : (σ.only s).pendingOf s = σ.pendingOf s := by
  simp [pendingOf, only, List.filter_filter]

@[simp] theorem failedProjections_only (σ : RuntimeStore) (s : String) :
    (σ.only s).failedProjections s = σ.failedProjections s := if_pos rfl

theorem only_only (σ : RuntimeStore) (s : String) : (σ.only s).only s = σ.only s := by
  unfold only
  simp only [Database.only_only, RuntimeStore.mk.injEq, true_and]
  refine ⟨pendingOf_only σ s, ?_⟩
  funext id
  split_ifs <;> rfl

theorem Tidy.only (h : σ.Tidy home) (s : String) : (σ.only s).Tidy home :=
  ⟨h.db.only s, fun item hitem => h.pending item (List.mem_of_mem_filter hitem)⟩

/-- A store by session. -/
def slices (home : Homes) : Slices RuntimeStore String := ⟨RuntimeStore.only, RuntimeStore.Tidy home⟩

@[simp] theorem slices_slice (σ : RuntimeStore) (s : String) : (slices home).slice σ s = σ.only s := rfl

abbrev Local (home : Homes) (t : String) (f : RuntimeStore → RuntimeStore) : Prop := (slices home).Local t f

namespace Local

open Slices.Local

theorem of {f : RuntimeStore → RuntimeStore} (htidy : ∀ σ : RuntimeStore, σ.Tidy home → (f σ).Tidy home)
    (hown : ∀ σ : RuntimeStore, σ.Tidy home → (f σ).only t = f (σ.only t))
    (hother : ∀ σ : RuntimeStore, σ.Tidy home → ∀ s, s ≠ t → (f σ).only s = σ.only s) : Local home t f :=
  ⟨htidy, hown, hother⟩

theorem of_db {f : Database → Database} (hf : Database.Local home t f) : Local home t fun σ => { σ with db := f σ.db } := by
  refine of (fun σ h => h.of_db (hf.sound σ.db h.db)) (fun σ h => ?_) fun σ h s hne => ?_
  · have hdb : (f σ.db).only t = f (σ.db.only t) := hf.own σ.db h.db
    unfold only pendingOf
    dsimp only
    rw [hdb]
  · have hdb : (f σ.db).only s = σ.db.only s := hf.other σ.db h.db s hne
    unfold only pendingOf
    dsimp only
    rw [hdb]

theorem putFailed (failure : Option ProjectionFailure) :
    Local home t fun σ => { σ with failedProjections := Function.update σ.failedProjections t failure } := by
  refine of (fun σ h => ⟨h.db, h.pending⟩) (fun σ _ => ?_) fun σ _ s hne => ?_
  · unfold only pendingOf
    simp only [RuntimeStore.mk.injEq, true_and]
    funext id
    by_cases hid : id = t <;> simp [hid]
  · unfold only pendingOf
    simp only [RuntimeStore.mk.injEq, true_and]
    funext id
    by_cases hid : id = s <;> simp [hid, hne]

theorem putPending {item : PendingDelta} (hitem : item.AtHome home) :
    Local home item.sessionId fun σ => { σ with pendingDeltas := Table.put PendingDelta.partId item σ.pendingDeltas } := by
  have hkey : ∀ σ : RuntimeStore, σ.Tidy home → ∀ r ∈ σ.pendingDeltas, r.partId = item.partId → r.sessionId = item.sessionId :=
    fun σ h r hr hk => by rw [← (h.pending r hr).home, hk, hitem.home]
  refine of (fun σ h => ⟨h.db, fun r hr => ?_⟩) (fun σ h => ?_) fun σ h s hne => ?_
  · rcases Table.mem_put hr with rfl | hr
    · exact hitem
    · exact h.pending r hr
  · unfold only pendingOf
    simp only [RuntimeStore.mk.injEq, true_and, and_true]
    rw [Table.filter_put fun r hr hk => by simp [hkey σ h r hr hk]]
    simp
  · unfold only pendingOf
    simp only [RuntimeStore.mk.injEq, true_and, and_true]
    rw [Table.filter_put fun r hr hk => by simp [hkey σ h r hr hk]]
    simp [hne.symm]

theorem dropPending : Local home t fun σ => { σ with pendingDeltas := σ.pendingDeltas.filter (·.sessionId ≠ t) } := by
  refine of (fun σ h => ⟨h.db, fun r hr => h.pending r (List.mem_of_mem_filter hr)⟩) (fun σ h => ?_) fun σ h s hne => ?_
  · unfold only pendingOf
    simp only [List.filter_filter, Bool.and_comm]
  · unfold only pendingOf
    simp only [RuntimeStore.mk.injEq, true_and, and_true, List.filter_filter]
    exact List.filter_congr fun r _ => by by_cases hr : r.sessionId = s <;> simp [hr, hne]

theorem settleSession {items : List PendingDelta} (hitems : ∀ item ∈ items, item.AtHome home ∧ item.sessionId = t) :
    Local home t (·.settleSession t items) := by
  refine reading (fun σ => (σ.failedProjections t).isSome)
    (fun (failed : Bool) (σ : RuntimeStore) => if failed then σ else
      { σ with db := (σ.db.fold items).setCheckpoint t (lastSeq items) })
    (fun _ => rfl) (fun σ _ => by simp) fun σ _ => ?_
  cases (σ.failedProjections t).isSome with
  | true => exact Slices.Local.id t
  | false =>
    refine of_db ((Database.Local.setCheckpoint _).comp (foldl fun item hitem => ?_))
    obtain ⟨hhome, hs⟩ := hitems item hitem
    rw [← hs]
    exact Database.Local.take hhome

theorem settleDeltas : Local home t (·.settleDeltas (some t)) := by
  refine reading (fun σ => σ.pendingOf t)
    (fun (items : List PendingDelta) (σ : RuntimeStore) =>
      (firsts (items.map (·.sessionId))).foldl (fun σ session => σ.settleSession session (items.filter (·.sessionId = session)))
        { σ with pendingDeltas := σ.pendingDeltas.filter (·.sessionId ≠ t) })
    (fun σ => ?_) (fun σ _ => pendingOf_only σ t) fun σ h => ?_
  · unfold RuntimeStore.settleDeltas pendingOf
    simp only [Option.all_some, eq_comm (a := t), decide_not, ne_eq]
    simp
  · refine (foldl fun session hsession => ?_).comp dropPending
    obtain ⟨item, hitem, rfl⟩ := List.mem_map.mp (mem_firsts.mp hsession)
    obtain ⟨-, hs⟩ := List.mem_filter.mp hitem
    obtain rfl := of_decide_eq_true hs
    refine settleSession fun r hr => ?_
    obtain ⟨hr, hrs⟩ := List.mem_filter.mp hr
    exact ⟨h.pending r (List.mem_of_mem_filter hr), of_decide_eq_true hrs⟩

theorem project {row : Row} (hrow : row.content.AtHome home row.sessionId) :
    Local home row.sessionId fun σ => { σ with db := σ.db.project row } := of_db (Database.Local.project hrow)

theorem replayRows {rows : List Row} (hrows : ∀ row ∈ rows, row.content.AtHome home row.sessionId ∧ row.sessionId = t)
    (stops : Option ℕ) : Local home t fun σ => (σ.replayRows rows stops).1 := by
  induction rows generalizing stops with
  | nil => exact Slices.Local.id t
  | cons row rows ih =>
    obtain ⟨⟨hrow, hs⟩, hrest⟩ := List.forall_mem_cons.mp hrows
    subst hs
    rcases stops with _ | _ | k
    · exact (ih hrest _).comp (project hrow)
    · exact putFailed _
    · exact (ih hrest _).comp (project hrow)

theorem replay (stops : Option ℕ) : Local home t fun σ => (σ.replay t stops).1 := by
  refine reading (fun σ => (σ.db.journalCheckpoint t, σ.db.getSessionMaxSeq t, σ.db.journalOf t))
    (fun (journal : ℕ × ℕ × List Row) (σ : RuntimeStore) =>
      if journal.1 < journal.2.1 then
        (RuntimeStore.replayRows { σ with failedProjections := Function.update σ.failedProjections t none }
          (journal.2.2.filter fun row => journal.1 < row.seq ∧ row.seq ≤ journal.2.1) stops).1
      else σ)
    (fun σ => ?_) (fun σ _ => by simp) fun σ h => ?_
  · unfold RuntimeStore.replay replaySession
    split_ifs <;> rfl
  · split_ifs
    · refine (replayRows (fun row hrow => ?_) stops).comp (putFailed none)
      obtain ⟨hrow, hs⟩ := List.mem_filter.mp (List.mem_of_mem_filter hrow)
      exact ⟨h.db.journal row hrow, of_decide_eq_true hs⟩
    · exact Slices.Local.id t

theorem deferDelta {row : Row} (hrow : row.content.AtHome home row.sessionId) : Local home row.sessionId (·.deferDelta row) := by
  unfold RuntimeStore.deferDelta
  split
  swap
  · exact Slices.Local.id _
  rename_i sessionID messageID partID field text hcontent
  rw [hcontent] at hrow
  obtain ⟨hs, hpart, hwritten, hwritten', hwritten'', hfield⟩ := hrow
  let item : PendingDelta :=
    { sessionId := row.sessionId, messageId := messageID, partId := partID, field, text, seq := row.seq, ts := row.ts }
  have hitem : item.AtHome home := ⟨hpart, by simp [item, ← hs, hwritten, hwritten', hwritten''], hfield⟩
  refine reading (fun σ => Table.get PendingDelta.partId partID σ.pendingDeltas)
    (fun (prev : Option PendingDelta) (σ : RuntimeStore) => prev.elim
      { σ with pendingDeltas := Table.put PendingDelta.partId item σ.pendingDeltas } fun prev =>
        if prev.field = field then
          { σ with pendingDeltas :=
              Table.put PendingDelta.partId { prev with text := prev.text ++ text, seq := row.seq, ts := row.ts } σ.pendingDeltas }
        else
          let σ := σ.settleDeltas (some row.sessionId)
          { σ with pendingDeltas := Table.put PendingDelta.partId item σ.pendingDeltas })
    (fun σ => ?_) (fun σ h => Table.get_filter fun r hr hk => ?_) fun σ h => ?_
  · dsimp only
    cases Table.get PendingDelta.partId partID σ.pendingDeltas <;> rfl
  · simp [← (h.pending r hr).home, hk, hpart]
  rcases hprev : Table.get PendingDelta.partId partID σ.pendingDeltas with _ | prev
  · exact putPending hitem
  · obtain ⟨hmem, hk⟩ := Table.mem_of_get hprev
    have hold := h.pending prev hmem
    dsimp only [Option.elim_some]
    split_ifs
    · have hs' : prev.sessionId = row.sessionId := by rw [← hold.home, hk, hpart]
      rw [← hs']
      have hgrown : PendingDelta.AtHome home { prev with text := prev.text ++ text, seq := row.seq, ts := row.ts } :=
        ⟨hold.home, hold.written, hold.field⟩
      exact putPending hgrown
    · exact (putPending hitem).comp settleDeltas

end Local

theorem settleDeltas_some (σ : RuntimeStore) (s : String) :
    σ.settleDeltas (some s) =
      if σ.pendingOf s = [] then { σ with pendingDeltas := σ.pendingDeltas.filter (·.sessionId ≠ s) }
      else settleSession { σ with pendingDeltas := σ.pendingDeltas.filter (·.sessionId ≠ s) } s (σ.pendingOf s) := by
  have hfirsts : firsts ((σ.pendingOf s).map (·.sessionId)) = if σ.pendingOf s = [] then [] else [s] := by
    rw [firsts_of_forall_eq (a := s) fun id hid => ?_]
    · simp
    · obtain ⟨item, hitem, rfl⟩ := List.mem_map.mp hid
      exact of_decide_eq_true (List.mem_filter.mp hitem).2
  have hown : (σ.pendingOf s).filter (·.sessionId = s) = σ.pendingOf s := by simp [pendingOf, List.filter_filter]
  have hselected : σ.pendingDeltas.filter (fun item => (some s).all (· = item.sessionId)) = σ.pendingOf s := by
    simp [pendingOf, eq_comm]
  have hkept : σ.pendingDeltas.filter (fun item => ¬ (some s).all (· = item.sessionId)) =
      σ.pendingDeltas.filter (·.sessionId ≠ s) := by
    simp [eq_comm]
  unfold settleDeltas
  rw [hselected, hkept]
  dsimp only
  rw [hfirsts]
  split_ifs with hnil
  · rfl
  · rw [List.foldl_cons, List.foldl_nil, hown]

theorem settleDeltas_none (hσ : σ.Tidy home) (s : String) :
    (σ.settleDeltas none).Tidy home ∧ (σ.settleDeltas none).only s = (σ.only s).settleDeltas (some s) := by
  have hcleared : RuntimeStore.Tidy home { σ with pendingDeltas := [] } := ⟨hσ.db, fun _ hitem => absurd hitem List.not_mem_nil⟩
  have hlocal : ∀ t ∈ firsts (σ.pendingDeltas.map (·.sessionId)),
      Local home t (·.settleSession t (σ.pendingDeltas.filter (·.sessionId = t))) := fun t _ =>
    Local.settleSession fun item hitem => by
      obtain ⟨hitem, hs⟩ := List.mem_filter.mp hitem
      exact ⟨hσ.pending item hitem, of_decide_eq_true hs⟩
  have hnone : σ.settleDeltas none = (firsts (σ.pendingDeltas.map (·.sessionId))).foldl
      (fun σ' session => σ'.settleSession session (σ.pendingDeltas.filter (·.sessionId = session)))
      { σ with pendingDeltas := [] } := by
    unfold settleDeltas
    simp
  obtain ⟨htidy, honly⟩ := Slices.slice_foldl (nodup_firsts _) hlocal hcleared s
  rw [hnone]
  refine ⟨htidy, honly.trans ?_⟩
  have hmem : s ∈ firsts (σ.pendingDeltas.map (·.sessionId)) ↔ ¬ σ.pendingOf s = [] := by
    rw [mem_firsts, pendingOf_eq_nil_iff]
    simp
  have hcleared : { σ.only s with pendingDeltas := (σ.only s).pendingDeltas.filter (·.sessionId ≠ s) } =
      ({ σ with pendingDeltas := [] } : RuntimeStore).only s := by
    simp [only, pendingOf, List.filter_filter]
  rw [settleDeltas_some, pendingOf_only, hcleared]
  by_cases hnil : σ.pendingOf s = []
  · rw [if_pos hnil, if_neg (by simp [hmem, hnil])]
    rfl
  · rw [if_neg hnil, if_pos (hmem.mpr hnil)]
    rfl

theorem replay_empty {s : String} (h : σ.db.journalOf s = []) (stops : Option ℕ) : (σ.replay s stops).1 = σ := by
  have hmax : σ.db.getSessionMaxSeq s = 0 := by
    rw [Database.getSessionMaxSeq, h]
    rfl
  unfold replay
  rw [hmax, if_neg (Nat.not_lt_zero _)]

/-- A database of one session is opened by one replay. -/
theorem reopen_own (db : Database) (s : String) : reopen (db.only s) = (replay { db := db.only s } s none).1 := by
  have hfirsts : firsts ((db.only s).runtimeJournal.map (·.sessionId)) = if db.journalOf s = [] then [] else [s] := by
    rw [firsts_of_forall_eq (a := s) fun id hid => ?_]
    · simp [Database.only]
    · obtain ⟨row, hrow, rfl⟩ := List.mem_map.mp hid
      exact of_decide_eq_true (List.mem_filter.mp hrow).2
  unfold reopen
  rw [hfirsts]
  by_cases hnil : db.journalOf s = []
  · rw [if_pos hnil, replay_empty (by rw [Database.journalOf_only, hnil])]
    rfl
  · rw [if_neg hnil]
    rfl

/-- Opening a database replays each session by itself. -/
theorem reopen_only {db : Database} (hdb : db.Tidy home) (s : String) :
    (reopen db).only s = (replay { db := db.only s } s none).1 := by
  have hlocal : ∀ t ∈ (firsts (db.runtimeJournal.map (·.sessionId))).insertionSort (· ≤ ·),
      Local home t fun σ => (σ.replay t none).1 := fun t _ => Local.replay none
  have hopen : RuntimeStore.Tidy home { db := db } := ⟨hdb, fun _ hitem => absurd hitem List.not_mem_nil⟩
  have hnodup : ((firsts (db.runtimeJournal.map (·.sessionId))).insertionSort (· ≤ ·)).Nodup :=
    (List.perm_insertionSort _ _).nodup_iff.mpr (nodup_firsts _)
  have honly : ({ db := db } : RuntimeStore).only s = { db := db.only s } := by
    simp [only, pendingOf]
  refine (Slices.slice_foldl hnodup hlocal hopen s).2.trans ?_
  simp only [slices_slice, honly, List.mem_insertionSort, mem_firsts]
  split_ifs with hmem
  · rfl
  · rw [replay_empty]
    rw [Database.journalOf_only, Database.journalOf, List.filter_eq_nil_iff]
    exact fun row hrow hs => hmem (List.mem_map.mpr ⟨row, hrow, of_decide_eq_true hs⟩)

end RuntimeStore

/-- The session a move is about, where it is about one. -/
def Move.at? : Move → Option String
  | .settle sessionId => sessionId
  | .replay sessionId _ => some sessionId
  | .defer row | .project row | .fail row => some row.sessionId
  | .lease _ | .reopen => none

/-- The move as a session sees it. -/
def Move.on (s : String) : Move → Option Move
  | .settle none => some (.settle (some s))
  | .lease _ => none
  | .reopen => some .reopen
  | m => if m.at? = some s then some m else none

theorem Move.on_of_at {m : Move} {t : String} (hat : m.at? = some t) (s : String) : m.on s = if t = s then some m else none := by
  cases m with
  | settle sessionId =>
    obtain rfl : sessionId = some t := hat
    simp [Move.on, Move.at?]
  | replay | defer | project | fail =>
    obtain rfl := Option.some.inj hat
    simp [Move.on, Move.at?]
  | lease | reopen => cases hat

/-- What a session sees is about it, or opens the store. -/
theorem Move.at_of_on {m m' : Move} {s : String} (h : m.on s = some m') : m' = .reopen ∨ m'.at? = some s := by
  rcases hat : m.at? with _ | t
  · cases m with
    | settle sessionId =>
      obtain rfl : sessionId = none := hat
      exact .inr (Option.some.inj h ▸ rfl)
    | lease leases => cases h
    | reopen => exact .inl (Option.some.inj h).symm
    | replay | defer | project | fail => cases hat
  · rw [Move.on_of_at hat] at h
    split_ifs at h with hts
    obtain rfl := Option.some.inj h
    exact .inr (hts ▸ hat)

namespace RuntimeStore

variable {σ : RuntimeStore}

variable {m : Move}

theorem local_move (hm : m.AtHome home) {t : String} (hat : m.at? = some t) : Local home t (·.move m) := by
  cases m with
  | settle sessionId =>
    obtain rfl : sessionId = some t := hat
    exact Local.settleDeltas
  | replay sessionId stops =>
    obtain rfl := Option.some.inj hat
    exact Local.replay stops
  | defer row =>
    obtain rfl := Option.some.inj hat
    exact Slices.Local.comp (Local.deferDelta (hm row rfl)) (Local.of_db (Database.Local.insertRuntimeJournal (hm row rfl)))
  | project row =>
    obtain rfl := Option.some.inj hat
    exact Local.of_db (Slices.Local.comp (Database.Local.project (hm row rfl)) (Database.Local.insertRuntimeJournal (hm row rfl)))
  | fail row =>
    obtain rfl := Option.some.inj hat
    exact Slices.Local.comp (Local.putFailed _) (Local.of_db (Database.Local.insertRuntimeJournal (hm row rfl)))
  | lease | reopen => cases hat

theorem move_only (hσ : σ.Tidy home) (hm : m.AtHome home) (s : String) :
    (σ.move m).only s = ((m.on s).map (σ.only s).move).getD (σ.only s) := by
  rcases hat : m.at? with _ | t
  · cases m with
    | settle sessionId =>
      obtain rfl : sessionId = none := hat
      exact (settleDeltas_none hσ s).2
    | lease leases => rfl
    | reopen => exact (reopen_only hσ.db s).trans (reopen_own σ.db s).symm
    | replay | defer | project | fail => cases hat
  · rw [Move.on_of_at hat]
    have hlocal := local_move hm hat
    by_cases hts : t = s
    · subst hts
      rw [if_pos rfl]
      exact hlocal.own σ hσ
    · rw [if_neg hts]
      exact hlocal.other σ hσ s (Ne.symm hts)

theorem allowed_only {quiet : Prop} {m' : Move} (hm : Allowed home quiet σ m) {s : String} (hon : m.on s = some m') :
    Allowed home quiet (σ.only s) m' := by
  obtain ⟨hlegal, hhome, hquiet⟩ := hm
  rcases hat : m.at? with _ | t
  · cases m with
    | settle sessionId =>
      obtain rfl : sessionId = none := hat
      obtain rfl := Option.some.inj hon
      exact ⟨trivial, fun row hrow => absurd hrow (by simp [Move.row?]), fun _ => trivial⟩
    | lease leases => cases hon
    | reopen =>
      obtain rfl := Option.some.inj hon
      exact ⟨trivial, fun row hrow => absurd hrow (by simp [Move.row?]), fun _ => trivial⟩
    | replay | defer | project | fail => cases hat
  · rw [Move.on_of_at hat] at hon
    split_ifs at hon with hts
    subst hts
    obtain rfl := Option.some.inj hon
    refine ⟨?_, hhome, fun hq => ?_⟩
    · cases m with
      | settle | lease | reopen => trivial
      | replay | defer | project | fail =>
        obtain rfl := Option.some.inj hat
        simpa [Legal] using hlegal
    · have hquiet := hquiet hq
      cases m with
      | settle | replay | defer | lease | reopen => trivial
      | project | fail =>
        obtain rfl := Option.some.inj hat
        simpa [Quiet] using hquiet

/-- What each allowed move of a session keeps, every store reached by allowed moves has. -/
theorem invariant_only {quiet : Prop} (inv : RuntimeStore → Prop) (s : String)
    (hstep : ∀ (σ : RuntimeStore) (m m' : Move), σ.only s = σ → σ.Tidy home → inv σ → m.on s = some m' →
      Allowed home quiet σ m' → inv (σ.move m'))
    {moves : List Move} (hσ : σ.Tidy home) (hinv : inv (σ.only s)) (hmoves : Meets RuntimeStore.move (Allowed home quiet) σ moves) :
    inv ((Lib.run RuntimeStore.move σ moves).only s) := by
  induction moves generalizing σ with
  | nil => exact hinv
  | cons m moves ih =>
    obtain ⟨hm, hrest⟩ := hmoves
    refine ih (hσ.move hm.home) ?_ hrest
    rw [move_only hσ hm.home]
    rcases hon : m.on s with _ | m'
    · exact hinv
    · exact hstep (σ.only s) m m' (only_only σ s) (hσ.only s) hinv hon (allowed_only hm hon)

end RuntimeStore

end Claxedo.Store
