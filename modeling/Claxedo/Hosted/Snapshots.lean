import Claxedo.Hosted.Input
import Claxedo.Lib.Table
import Mathlib.Data.List.Sort

/-! A session's transcript as the control plane stores it: `canonicalMessages`, and the one batch by
which `syncSessionMessages` lands a snapshot on the session's row and its messages. -/

namespace Claxedo.Hosted

open Claxedo.Lib

/-- A message as it is handed in: what its row and its `info` hold, and its JSON text, if it has one. -/
structure MessageInput where
  id : Field := .absent
  role : Field := .absent
  infoId : Field := .absent
  infoRole : Field := .absent
  turnId : Field := .absent
  json : Option String := some "\x7b\x7d"
  deriving DecidableEq

structure CanonicalMessage where
  id : String
  role : String
  ordinal : ℕ
  dataJson : String
  turnId : Option String := none
  deriving DecidableEq

def MAX_SNAPSHOT_MESSAGES : ℕ := 500
def MAX_MESSAGE_BYTES : ℕ := 256 * 1024
def MAX_SNAPSHOT_BYTES : ℕ := 8 * 1024 * 1024

/-- The first of the two that is a string. -/
def eitherText (row info : Field) : Field :=
  match row, info with
  | .text value, _ => .text value
  | _, .text value => .text value
  | _, _ => .absent

def canonicalMessage (ids : List String) (ordinal : ℕ) (message : MessageInput) : Except Refusal CanonicalMessage :=
  match optionalText "message.id" 512 (eitherText message.id message.infoId) with
  | .error refusal => .error refusal
  | .ok id =>
    match optionalText "message.role" 100 (eitherText message.role message.infoRole) with
    | .error refusal => .error refusal
    | .ok role =>
      match id, role with
      | some id, some role =>
        if id ∈ ids then .error (.invalidInput "Session snapshots contain duplicate message identifiers")
        else
          match message.json with
          | none => .error (.invalidInput "Session message must be JSON serializable")
          | some dataJson =>
            if MAX_MESSAGE_BYTES < dataJson.utf8ByteSize then
              .error (.invalidInput ("Session message exceeds " ++ toString MAX_MESSAGE_BYTES ++ " bytes"))
            else
              match optionalText "message.turnId" 512 message.turnId with
              | .error refusal => .error refusal
              | .ok turnId => .ok { id, role, ordinal, dataJson, turnId }
      | _, _ => .error (.invalidInput "Every session message requires a canonical id and role")

/-- The walk over the messages, with the ids met so far. -/
def canonicalFrom (ids : List String) (ordinal : ℕ) : List MessageInput → Except Refusal (List CanonicalMessage)
  | [] => .ok []
  | message :: rest =>
    match canonicalMessage ids ordinal message with
    | .error refusal => .error refusal
    | .ok canonical =>
      match canonicalFrom (canonical.id :: ids) (ordinal + 1) rest with
      | .error refusal => .error refusal
      | .ok messages => .ok (canonical :: messages)

def canonicalMessages (input : List MessageInput) : Except Refusal (List CanonicalMessage) :=
  if MAX_SNAPSHOT_MESSAGES < input.length then
    .error (.invalidInput ("Session snapshots accept at most " ++ toString MAX_SNAPSHOT_MESSAGES ++ " messages"))
  else canonicalFrom [] 0 input

structure SessionRow where
  workspaceId : String
  deleted : Bool := false
  snapshotGeneration : ℕ := 0
  snapshotHash : Option String := none
  snapshotToken : Option ℕ := none
  maxEventOrdinal : ℕ := 0
  updatedAt : ℕ := 0
  deriving DecidableEq

structure MessageRow where
  messageId : String
  authorActorId : Option String
  role : String
  ordinal : ℕ
  turnId : Option String
  dataJson : String
  snapshotGeneration : ℕ
  createdAt : ℕ
  updatedAt : ℕ

structure TurnLeaseRow where
  workspaceId : String
  turnId : String
  fencingToken : ℕ
  actorId : String

structure ProducerRow where
  turnId : String
  fencingToken : ℕ
  actorId : String

/-- One session's rows, and the actors who may send in it. -/
structure Tables where
  session : SessionRow
  messages : List MessageRow := []
  lease : Option TurnLeaseRow := none
  producers : List ProducerRow := []
  senders : List String := []

/-- What a call has come to by the time it reads the session. -/
structure Snapshot where
  actorId : String
  workspaceId : String
  messages : List CanonicalMessage
  hash : String
  maxEventOrdinal : Option ℕ
  fencingToken : Option ℕ
  updatedAt : ℕ
  deriving DecidableEq

def fenceGuard (fencingToken : Option ℕ) (t : Tables) : Bool :=
  match fencingToken with
  | none => true
  | some fence => t.lease.any fun lease => lease.workspaceId = t.session.workspaceId ∧ lease.fencingToken = fence

def eventGuard (maxEventOrdinal : Option ℕ) (session : SessionRow) : Bool :=
  match maxEventOrdinal with
  | none => true
  | some ordinal =>
    session.maxEventOrdinal < ordinal ∨ (session.maxEventOrdinal = ordinal ∧ session.snapshotHash.isNone)

def updateSession (token : ℕ) (s : Snapshot) (t : Tables) : Tables :=
  if t.session.workspaceId = s.workspaceId ∧ ¬ t.session.deleted ∧ eventGuard s.maxEventOrdinal t.session ∧
      fenceGuard s.fencingToken t ∧ s.actorId ∈ t.senders then
    { t with session :=
      { t.session with
        snapshotGeneration := t.session.snapshotGeneration + 1
        snapshotHash := some s.hash
        snapshotToken := some token
        maxEventOrdinal := s.maxEventOrdinal.getD t.session.maxEventOrdinal
        updatedAt := max t.session.updatedAt s.updatedAt } }
  else t

/-- Who produced the turn a user message opened. -/
def producerOf (producers : List ProducerRow) (messageId : String) : Option String :=
  (Table.get ProducerRow.turnId messageId producers).map (·.actorId)

/-- The row a message comes in as, and what `on conflict` makes of it where its id is stored already. -/
def messageRow (now : ℕ) (t : Tables) (message : CanonicalMessage) : MessageRow :=
  let author := if message.role = "user" then producerOf t.producers message.id else none
  let excluded : MessageRow :=
    { messageId := message.id, authorActorId := author, role := message.role, ordinal := message.ordinal,
      turnId := message.turnId, dataJson := message.dataJson, snapshotGeneration := t.session.snapshotGeneration,
      createdAt := now, updatedAt := now }
  match Table.get MessageRow.messageId message.id t.messages with
  | none => excluded
  | some stored =>
    { excluded with
      authorActorId := if excluded.role = "user" then stored.authorActorId.or excluded.authorActorId else none
      createdAt := stored.createdAt }

def insertMessage (now : ℕ) (t : Tables) (message : CanonicalMessage) : Tables :=
  { t with messages := Table.put MessageRow.messageId (messageRow now t message) t.messages }

def insertMessages (token now : ℕ) (s : Snapshot) (t : Tables) : Tables :=
  if t.session.snapshotToken = some token then s.messages.foldl (insertMessage now) t else t

def deleteOlder (token : ℕ) (t : Tables) : Tables :=
  if t.session.snapshotToken = some token then
    { t with messages := t.messages.filter fun row => ¬ row.snapshotGeneration < t.session.snapshotGeneration }
  else t

def assertion (token : ℕ) (s : Snapshot) (t : Tables) : Bool :=
  t.session.workspaceId = s.workspaceId ∧ t.session.snapshotToken = some token ∧ t.session.snapshotHash = some s.hash ∧
    ¬ t.session.deleted ∧ fenceGuard s.fencingToken t ∧ s.actorId ∈ t.senders ∧
    ∀ row ∈ t.messages, ¬ (row.snapshotGeneration = t.session.snapshotGeneration ∧ row.role = "user" ∧ row.authorActorId = none)

/-- The batch: all of it, or nothing where its assertion does not hold. -/
def batch (token now : ℕ) (s : Snapshot) (t : Tables) : Option Tables :=
  let t := deleteOlder token (insertMessages token now s (updateSession token s t))
  if assertion token s t then some t else none

/-- The content of a stored message. -/
def MessageRow.content (row : MessageRow) : CanonicalMessage :=
  { id := row.messageId, role := row.role, ordinal := row.ordinal, dataJson := row.dataJson, turnId := row.turnId }

/-- The stored messages in their order. -/
def transcript (t : Tables) : List CanonicalMessage :=
  (t.messages.map MessageRow.content).insertionSort fun a b => a.ordinal ≤ b.ordinal

theorem canonicalMessage_ok {ids : List String} {ordinal : ℕ} {message : MessageInput} {canonical : CanonicalMessage}
    (h : canonicalMessage ids ordinal message = .ok canonical) : canonical.id ∉ ids ∧ canonical.ordinal = ordinal := by
  unfold canonicalMessage at h
  split at h
  · cases h
  split at h
  · cases h
  split at h
  · split_ifs at h with hids
    split at h
    · cases h
    split_ifs at h
    split at h
    · cases h
    · cases h
      exact ⟨hids, rfl⟩
  · cases h

variable {messages : List CanonicalMessage} {now token : ℕ} {t : Tables} {s : Snapshot}

theorem canonicalFrom_ok {ids : List String} {ordinal : ℕ} {input : List MessageInput}
    (h : canonicalFrom ids ordinal input = .ok messages) :
    (messages.map (·.id)).Nodup ∧ (∀ message ∈ messages, message.id ∉ ids) ∧
      messages.map (·.ordinal) = List.range' ordinal input.length := by
  induction input generalizing ids ordinal messages with
  | nil =>
    cases h
    exact ⟨.nil, fun _ hm => absurd hm List.not_mem_nil, rfl⟩
  | cons message input ih =>
    unfold canonicalFrom at h
    split at h
    · cases h
    rename_i canonical hcanonical
    split at h
    · cases h
    rename_i rest hrest
    cases h
    obtain ⟨hid, hordinal⟩ := canonicalMessage_ok hcanonical
    obtain ⟨hnodup, hnew, hordinals⟩ := ih hrest
    refine ⟨?_, ?_, ?_⟩
    · rw [List.map_cons, List.nodup_cons]
      refine ⟨fun hmem => ?_, hnodup⟩
      obtain ⟨m, hm, hsame⟩ := List.mem_map.mp hmem
      exact hnew m hm (hsame ▸ List.mem_cons_self)
    · intro m hm
      rcases List.mem_cons.mp hm with rfl | hm
      · exact hid
      · exact fun hmem => hnew m hm (List.mem_cons_of_mem _ hmem)
    · rw [List.map_cons, hordinals, hordinal, List.length_cons, List.range'_succ]

theorem canonicalMessages_ok {input : List MessageInput} (h : canonicalMessages input = .ok messages) :
    (messages.map (·.id)).Nodup ∧ messages.map (·.ordinal) = List.range input.length := by
  unfold canonicalMessages at h
  split_ifs at h
  obtain ⟨hnodup, -, hordinals⟩ := canonicalFrom_ok h
  exact ⟨hnodup, by rw [hordinals, List.range_eq_range']⟩

/-! What one snapshot batch leaves: the messages it carried and no others, each user message with its
author, and nothing at all where a guard or the assertion failed. -/

theorem content_messageRow (now : ℕ) (t : Tables) (message : CanonicalMessage) :
    (messageRow now t message).content = message := by
  unfold messageRow
  dsimp only
  split <;> rfl

theorem messageRow_messageId (now : ℕ) (t : Tables) (message : CanonicalMessage) :
    (messageRow now t message).messageId = message.id := congrArg CanonicalMessage.id (content_messageRow now t message)

theorem messageRow_role (now : ℕ) (t : Tables) (message : CanonicalMessage) :
    (messageRow now t message).role = message.role := congrArg CanonicalMessage.role (content_messageRow now t message)

theorem messageRow_snapshotGeneration (now : ℕ) (t : Tables) (message : CanonicalMessage) :
    (messageRow now t message).snapshotGeneration = t.session.snapshotGeneration := by
  unfold messageRow
  dsimp only
  split <;> rfl

/-- A user message keeps the author it has, or takes its turn's producer; no other message has one. -/
theorem messageRow_author (now : ℕ) (t : Tables) (message : CanonicalMessage) :
    (messageRow now t message).authorActorId =
      if message.role = "user" then
        ((Table.get MessageRow.messageId message.id t.messages).bind (·.authorActorId)).or (producerOf t.producers message.id)
      else none := by
  unfold messageRow
  dsimp only
  split
  · rename_i hget
    simp [hget]
  · rename_i stored hget
    simp only [hget, Option.bind_some]
    split_ifs <;> rfl

theorem messageRow_congr {t' : Tables} {message : CanonicalMessage} (hsession : t'.session = t.session)
    (hproducers : t'.producers = t.producers)
    (hget : Table.get MessageRow.messageId message.id t'.messages = Table.get MessageRow.messageId message.id t.messages) :
    messageRow now t' message = messageRow now t message := by
  unfold messageRow
  rw [hsession, hproducers, hget]

/-- Everything but the messages. -/
def SameBut (t t' : Tables) : Prop :=
  t'.session = t.session ∧ t'.lease = t.lease ∧ t'.producers = t.producers ∧ t'.senders = t.senders

theorem foldl_insertMessage (now : ℕ) (messages : List CanonicalMessage) (t : Tables)
    (hnodup : (messages.map (·.id)).Nodup) (hkeys : (t.messages.map (·.messageId)).Nodup) :
    SameBut t (messages.foldl (insertMessage now) t) ∧
      ((messages.foldl (insertMessage now) t).messages.map (·.messageId)).Nodup ∧
      (∀ message ∈ messages, Table.get MessageRow.messageId message.id (messages.foldl (insertMessage now) t).messages =
        some (messageRow now t message)) ∧
      (∀ id, id ∉ messages.map (·.id) → Table.get MessageRow.messageId id (messages.foldl (insertMessage now) t).messages =
        Table.get MessageRow.messageId id t.messages) := by
  induction messages generalizing t with
  | nil => exact ⟨⟨rfl, rfl, rfl, rfl⟩, hkeys, fun _ hm => absurd hm List.not_mem_nil, fun _ _ => rfl⟩
  | cons message messages ih =>
    rw [List.map_cons, List.nodup_cons] at hnodup
    obtain ⟨hid, hnodup⟩ := hnodup
    have hkeys' : ((insertMessage now t message).messages.map (·.messageId)).Nodup := Table.nodup_keys_put hkeys
    obtain ⟨⟨hsession, hlease, hproducers, hsenders⟩, hkept, hnew, hold⟩ := ih (insertMessage now t message) hnodup hkeys'
    have hput : ∀ id, id ≠ message.id → Table.get MessageRow.messageId id (insertMessage now t message).messages =
        Table.get MessageRow.messageId id t.messages := by
      intro id hne
      refine Table.get_put_ne (fun hsame => hne ?_) _
      rw [← hsame, messageRow_messageId]
    rw [List.foldl_cons]
    refine ⟨⟨hsession, hlease, hproducers, hsenders⟩, hkept, fun m hm => ?_, fun id hnot => ?_⟩
    · rcases List.mem_cons.mp hm with rfl | hm
      · rw [hold m.id hid]
        have hself : Table.get MessageRow.messageId (messageRow now t m).messageId (insertMessage now t m).messages =
            some (messageRow now t m) := Table.get_put_self (messageRow now t m) t.messages
        rwa [messageRow_messageId] at hself
      · rw [hnew m hm]
        refine congrArg some (messageRow_congr rfl rfl (hput m.id fun hsame => hid ?_))
        rw [← hsame]
        exact List.mem_map_of_mem hm
    · rw [List.map_cons, List.mem_cons, not_or] at hnot
      rw [hold id hnot.2, hput id hnot.1]

/-- What holds of a session's messages between batches. -/
structure Whole (t : Tables) : Prop where
  keys : (t.messages.map (·.messageId)).Nodup
  generation : ∀ row ∈ t.messages, row.snapshotGeneration = t.session.snapshotGeneration
  authored : ∀ row ∈ t.messages, row.authorActorId = if row.role = "user" then producerOf t.producers row.messageId else none
  known : ∀ row ∈ t.messages, row.role = "user" → row.authorActorId ≠ none

/-- The guards of the batch's first statement. -/
structure Admits (s : Snapshot) (t : Tables) : Prop where
  workspace : t.session.workspaceId = s.workspaceId
  live : ¬ t.session.deleted
  event : eventGuard s.maxEventOrdinal t.session
  fence : fenceGuard s.fencingToken t
  sender : s.actorId ∈ t.senders

instance (s : Snapshot) (t : Tables) : Decidable (Admits s t) :=
  decidable_of_iff (t.session.workspaceId = s.workspaceId ∧ ¬ t.session.deleted ∧ eventGuard s.maxEventOrdinal t.session ∧
      fenceGuard s.fencingToken t ∧ s.actorId ∈ t.senders)
    ⟨fun ⟨h1, h2, h3, h4, h5⟩ => ⟨h1, h2, h3, h4, h5⟩, fun ⟨h1, h2, h3, h4, h5⟩ => ⟨h1, h2, h3, h4, h5⟩⟩

/-- The session's row after a snapshot landed. -/
def SessionRow.landed (token : ℕ) (s : Snapshot) (session : SessionRow) : SessionRow :=
  { session with
    snapshotGeneration := session.snapshotGeneration + 1
    snapshotHash := some s.hash
    snapshotToken := some token
    maxEventOrdinal := s.maxEventOrdinal.getD session.maxEventOrdinal
    updatedAt := max session.updatedAt s.updatedAt }

theorem updateSession_of_admits (h : Admits s t) :
    updateSession token s t = { t with session := t.session.landed token s } := by
  unfold updateSession
  rw [if_pos ⟨h.workspace, h.live, h.event, h.fence, h.sender⟩]
  rfl

theorem updateSession_of_not_admits (h : ¬ Admits s t) :
    updateSession token s t = t := by
  unfold updateSession
  rw [if_neg fun ⟨h1, h2, h3, h4, h5⟩ => h ⟨h1, h2, h3, h4, h5⟩]

theorem batch_of_not_admits (h : ¬ Admits s t) (hfresh : t.session.snapshotToken ≠ some token) : batch token now s t = none := by
  have hsame : deleteOlder token (insertMessages token now s (updateSession token s t)) = t := by
    rw [updateSession_of_not_admits h, insertMessages, if_neg hfresh, deleteOlder, if_neg hfresh]
  unfold batch
  dsimp only
  rw [hsame, if_neg]
  simp [assertion, hfresh]

theorem statements_of_admits (token now : ℕ) (hw : Whole t) (h : Admits s t) (hnodup : (s.messages.map (·.id)).Nodup) :
    ∃ t', deleteOlder token (insertMessages token now s (updateSession token s t)) = t' ∧
      t'.session = t.session.landed token s ∧ t'.lease = t.lease ∧ t'.producers = t.producers ∧ t'.senders = t.senders ∧
      (t'.messages.map (·.messageId)).Nodup ∧
      ∀ row, row ∈ t'.messages ↔
        ∃ message ∈ s.messages, row = messageRow now { t with session := t.session.landed token s } message := by
  set landed : Tables := { t with session := t.session.landed token s } with hlanded
  obtain ⟨⟨hsession, hlease, hproducers, hsenders⟩, hkeys, hnew, hold⟩ :=
    foldl_insertMessage now s.messages landed hnodup hw.keys
  have hinsert : insertMessages token now s (updateSession token s t) = s.messages.foldl (insertMessage now) landed := by
    rw [updateSession_of_admits h, insertMessages, if_pos (by rfl)]
  have htoken : (s.messages.foldl (insertMessage now) landed).session.snapshotToken = some token := by
    rw [hsession]
    rfl
  refine ⟨_, rfl, ?_⟩
  rw [hinsert, deleteOlder, if_pos htoken]
  refine ⟨hsession, hlease, hproducers, hsenders, ?_, fun row => ?_⟩
  · exact hkeys.sublist (List.Sublist.map _ List.filter_sublist)
  have hgeneration : (s.messages.foldl (insertMessage now) landed).session.snapshotGeneration =
      t.session.snapshotGeneration + 1 := by
    rw [hsession]
    rfl
  simp only [List.mem_filter, hgeneration]
  constructor
  · rintro ⟨hmem, hrecent⟩
    have hget := Table.get_of_mem hkeys hmem
    by_cases hid : row.messageId ∈ s.messages.map (·.id)
    · obtain ⟨message, hmessage, hsame⟩ := List.mem_map.mp hid
      refine ⟨message, hmessage, ?_⟩
      rw [← hsame, hnew message hmessage] at hget
      exact (Option.some.inj hget).symm
    · -- A row of no message of the snapshot is of an older generation.
      rw [hold _ hid] at hget
      have hwas := hw.generation row (Table.mem_of_get hget).1
      rw [hwas] at hrecent
      simp at hrecent
  · rintro ⟨message, hmessage, rfl⟩
    refine ⟨(Table.mem_of_get (hnew message hmessage)).1, ?_⟩
    rw [messageRow_snapshotGeneration]
    simp [hlanded, SessionRow.landed]

/-- Who wrote a message, as the batch has it: nobody but its turn's producer. -/
theorem author_of_whole (hw : Whole t) (message : CanonicalMessage) :
    (messageRow now { t with session := t.session.landed token s } message).authorActorId =
      if message.role = "user" then producerOf t.producers message.id else none := by
  rw [messageRow_author]
  split_ifs with hrole
  · dsimp only
    rcases hget : Table.get MessageRow.messageId message.id t.messages with _ | stored
    · rfl
    · obtain ⟨hmem, hid⟩ := Table.mem_of_get hget
      have hauthor := hw.authored stored hmem
      rw [hid] at hauthor
      rw [Option.bind_some, hauthor]
      split_ifs
      · cases producerOf t.producers message.id <;> rfl
      · rfl
  · rfl

/-- A batch that landed was admitted, and every user message it carried has a producer. -/
theorem batch_eq_some {t' : Tables} (hw : Whole t) (hfresh : t.session.snapshotToken ≠ some token)
    (hnodup : (s.messages.map (·.id)).Nodup) (h : batch token now s t = some t') :
    Admits s t ∧ (∀ message ∈ s.messages, message.role = "user" → producerOf t.producers message.id ≠ none) ∧
      t'.session = t.session.landed token s ∧ t'.lease = t.lease ∧ t'.producers = t.producers ∧ t'.senders = t.senders ∧
      Whole t' ∧ (t'.messages.map MessageRow.content).Perm s.messages := by
  have hadmits : Admits s t := by
    by_contra hnot
    rw [batch_of_not_admits hnot hfresh] at h
    cases h
  obtain ⟨left, hleft, hsession, hlease, hproducers, hsenders, hkeys, hrows⟩ := statements_of_admits token now hw hadmits hnodup
  unfold batch at h
  dsimp only at h
  rw [hleft] at h
  split_ifs at h with hassert
  cases h
  simp only [assertion, decide_eq_true_eq] at hassert
  obtain ⟨-, -, -, -, -, -, hassert⟩ := hassert
  have hgeneration : ∀ row ∈ t'.messages, row.snapshotGeneration = t'.session.snapshotGeneration := by
    intro row hrow
    obtain ⟨message, -, rfl⟩ := (hrows row).mp hrow
    rw [messageRow_snapshotGeneration, hsession]
  have hknown : ∀ row ∈ t'.messages, row.role = "user" → row.authorActorId ≠ none := fun row hrow huser hnone =>
    hassert row hrow ⟨hgeneration row hrow, huser, hnone⟩
  have hauthored : ∀ row ∈ t'.messages,
      row.authorActorId = if row.role = "user" then producerOf t'.producers row.messageId else none := by
    intro row hrow
    obtain ⟨message, -, rfl⟩ := (hrows row).mp hrow
    rw [author_of_whole hw, messageRow_role, messageRow_messageId, hproducers]
  refine ⟨hadmits, fun message hmessage huser => ?_, hsession, hlease, hproducers, hsenders,
    ⟨hkeys, hgeneration, hauthored, hknown⟩, ?_⟩
  · have hrow := (hrows _).mpr ⟨message, hmessage, rfl⟩
    have := hknown _ hrow (by rw [messageRow_role]; exact huser)
    rwa [author_of_whole hw, if_pos huser] at this
  · refine (List.perm_ext_iff_of_nodup ?_ ?_).mpr fun message => ?_
    · refine List.Nodup.of_map CanonicalMessage.id ?_
      rw [List.map_map]
      exact hkeys
    · exact hnodup.of_map _
    · rw [List.mem_map]
      constructor
      · rintro ⟨row, hrow, rfl⟩
        obtain ⟨m, hm, rfl⟩ := (hrows row).mp hrow
        rwa [content_messageRow]
      · intro hm
        exact ⟨_, (hrows _).mpr ⟨message, hm, rfl⟩, content_messageRow _ _ _⟩

theorem batch_isSome (hw : Whole t) (hnodup : (s.messages.map (·.id)).Nodup) (h : Admits s t)
    (hproducers : ∀ message ∈ s.messages, message.role = "user" → producerOf t.producers message.id ≠ none) :
    (batch token now s t).isSome := by
  obtain ⟨left, hleft, hsession, hlease, -, hsenders, -, hrows⟩ :=
    statements_of_admits token now hw h hnodup
  have hfence : fenceGuard s.fencingToken left := by
    have hfence := h.fence
    unfold fenceGuard at hfence ⊢
    rw [hlease, hsession]
    exact hfence
  unfold batch
  dsimp only
  rw [hleft, if_pos]
  · rfl
  · simp only [assertion, decide_eq_true_eq, hsession]
    refine ⟨h.workspace, rfl, rfl, h.live, hfence, hsenders ▸ h.sender, ?_⟩
    rintro row hrow ⟨-, huser, hnone⟩
    obtain ⟨message, hmessage, rfl⟩ := (hrows row).mp hrow
    rw [messageRow_role] at huser
    rw [author_of_whole hw, if_pos huser] at hnone
    exact hproducers message hmessage huser hnone

/-- In their order, the stored messages are the snapshot's. -/
theorem transcript_eq {n : ℕ} (hperm : (t.messages.map MessageRow.content).Perm messages)
    (hordinals : messages.map (·.ordinal) = List.range n) :
    transcript t = messages := by
  have hnodup : (messages.map (·.ordinal)).Nodup := hordinals ▸ List.nodup_range
  have hsorted : messages.Pairwise fun a b => a.ordinal ≤ b.ordinal := by
    have hsorted : (messages.map (·.ordinal)).Pairwise (· ≤ ·) := hordinals ▸ List.pairwise_le_range
    exact List.pairwise_map.mp hsorted
  have hinsertion := List.perm_insertionSort (fun a b : CanonicalMessage => a.ordinal ≤ b.ordinal) (t.messages.map MessageRow.content)
  have hstored : (transcript t).Pairwise fun a b => a.ordinal ≤ b.ordinal := List.pairwise_insertionSort _ _
  refine List.Perm.eq_of_pairwise (fun a b ha hb hab hba => ?_) hstored hsorted (hinsertion.trans hperm)
  exact List.inj_on_of_nodup_map hnodup ((hinsertion.trans hperm).subset ha) hb (le_antisymm hab hba)

end Claxedo.Hosted
