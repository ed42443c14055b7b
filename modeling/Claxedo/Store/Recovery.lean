import Claxedo.Lib.Coalesce
import Claxedo.Store.Sessions

/-! Recovery: what waits in memory is what the journal holds past the checkpoint, so a process that
dies loses nothing: replaying those rows writes what settling them would have written. A broker's
transaction settles nothing, so this holds of runs in which no broker writes past a waiting delta. -/

namespace Claxedo.Store

open Lib

variable {home : Homes}

variable {s : String} {row : Row}

theorem nonEmpty_some (h : s ≠ "") : nonEmpty (some s) = some s := by
  rw [nonEmpty, Option.filter_some, if_pos (by simpa using h)]

/-- A delta that waits takes in the next of its part. -/
def PendingDelta.grow (prev item : PendingDelta) : PendingDelta :=
  { prev with text := prev.text ++ item.text, seq := item.seq, ts := item.ts }

namespace Database

variable {db : Database} {item : PendingDelta}

theorem Tidy.take (h : db.Tidy home) (hitem : item.AtHome home) : (db.take item).Tidy home :=
  h.delta hitem.home _ hitem.field _ _

theorem upsertPart_of_names (db : Database) {part : Record} {s m id : String} (hnames : partNames part = (some s, some m, some id))
    (hwritten : ¬ (s = "" ∨ m = "" ∨ id = "")) (ts : ℕ) :
    db.upsertPart part ts = { db with part := Table.put PartRow.id ⟨id, s, m, db.partOrd s m id, part, ts⟩ db.part } := by
  unfold partNames at hnames
  simp only [Prod.mk.injEq] at hnames
  simp only [not_or] at hwritten
  unfold upsertPart
  rw [hnames.1, hnames.2.1, hnames.2.2, nonEmpty_some hwritten.1, nonEmpty_some hwritten.2.1, nonEmpty_some hwritten.2.2]

/-- The row a delta leaves: the part it finds, longer, or a fresh one. -/
def grown (db : Database) (item : PendingDelta) : PartRow :=
  match Table.get PartRow.id item.partId db.part with
  | some r => { r with data := appendField r.data item.field item.text, updatedAt := item.ts }
  | none =>
    { id := item.partId
      sessionId := item.sessionId
      messageId := item.messageId
      ord := db.partOrd item.sessionId item.messageId item.partId
      data := appendField (freshPart item.sessionId item.messageId item.partId) item.field item.text
      updatedAt := item.ts }

@[simp] theorem grown_id (db : Database) (item : PendingDelta) : (db.grown item).id = item.partId := by
  unfold grown
  split
  · rename_i r hr
    exact (Table.mem_of_get hr).2
  · rfl

theorem take_eq (hdb : db.Tidy home) (hitem : item.AtHome home) :
    db.take item = { db with part := Table.put PartRow.id (db.grown item) db.part } := by
  unfold take delta grown
  rcases hget : Table.get PartRow.id item.partId db.part with _ | r
  · exact upsertPart_of_names db ((partNames_appendField hitem.field _).trans (partNames_freshPart ..)) hitem.written _
  · obtain ⟨hr, hk⟩ := Table.mem_of_get hget
    have hathome := hdb.part r hr
    have hord : db.partOrd r.sessionId r.messageId r.id = r.ord := by
      unfold partOrd
      rw [hk, hget]
    dsimp only [Option.map_some, Option.getD_some]
    rw [upsertPart_of_names db ((partNames_appendField hitem.field _).trans hathome.names) hathome.written, hord]

theorem get_take (hdb : db.Tidy home) (hitem : item.AtHome home) (k : String) :
    Table.get PartRow.id k (db.take item).part =
      if item.partId = k then some (db.grown item) else Table.get PartRow.id k db.part := by
  rw [take_eq hdb hitem, Table.get_put, grown_id]

/-- A part that grows keeps its place, and so leaves the places of the others. -/
theorem partOrd_take (hdb : db.Tidy home) (hitem : item.AtHome home) {r : PartRow}
    (hget : Table.get PartRow.id item.partId db.part = some r) {s m k : String} (hk : item.partId ≠ k) :
    (db.take item).partOrd s m k = db.partOrd s m k := by
  have hgrown : Table.get PartRow.id (db.grown item).id db.part = some r := by rw [grown_id, hget]
  unfold partOrd
  rw [get_take hdb hitem, if_neg hk, take_eq hdb hitem]
  rcases Table.get PartRow.id k db.part with _ | other
  · dsimp only
    have hords : ∀ rows : List PartRow, (rows.filter fun row => row.sessionId = s ∧ row.messageId = m).map (·.ord + 1) =
        rows.filterMap fun row => if row.sessionId = s ∧ row.messageId = m then some (row.ord + 1) else none := fun rows => by
      rw [← List.filterMap_eq_map, List.filterMap_filter]
      simp
    rw [hords, hords, Table.filterMap_put_of_get hgrown]
    unfold grown
    rw [hget]
  · rfl


theorem appendField_appendField (part : Record) (field text text' : String) :
    appendField (appendField part field text) field text' = appendField part field (text ++ text') := by
  unfold appendField
  rw [Record.field_set_self, Record.set_set, asString_str, Option.getD_some, String.append_assoc]

/-- Deltas may wait, by part: text of one field adds up, and parts are apart. -/
theorem waits (home : Homes) :
    Waits PendingDelta.partId PendingDelta.field PendingDelta.grow take (PendingDelta.AtHome home) (Database.Tidy home)
      fun k db => Table.get PartRow.id k db.part ≠ none where
  key_merge _ _ := rfl
  tag_merge _ _ := rfl
  good_merge p a hp _ := ⟨hp.home, hp.written, hp.field⟩
  inv db a hdb ha := hdb.take ha
  there db a hdb ha := by
    rw [get_take hdb ha, if_pos rfl]
    exact Option.some_ne_none _
  stays db a k hdb ha hk := by
    rw [get_take hdb ha]
    split_ifs
    · exact Option.some_ne_none _
    · exact hk
  act_merge db p a hdb hp ha hkey htag := by
    have hmerged : (p.grow a).AtHome home := ⟨hp.home, hp.written, hp.field⟩
    have hagain : (db.take p).grown a = db.grown (p.grow a) := by
      have hget : Table.get PartRow.id a.partId (db.take p).part = some (db.grown p) := by
        rw [get_take hdb hp, if_pos hkey]
      unfold grown at hget ⊢
      rw [hget]
      dsimp only [PendingDelta.grow]
      rcases Table.get PartRow.id p.partId db.part with _ | r
      all_goals
        dsimp only
        rw [← htag, appendField_appendField]
    rw [take_eq (hdb.take hp) ha, hagain, take_eq hdb hmerged, take_eq hdb hp]
    dsimp only
    rw [Table.put_put]
    rw [grown_id, grown_id]
    rfl
  comm db a b hdb ha hb hne hthere := by
    obtain ⟨r, hr⟩ := Option.ne_none_iff_exists'.mp hthere
    have hfirst : (db.take b).grown a = db.grown a := by
      unfold grown
      rw [get_take hdb hb, if_neg hne.symm, hr]
    have hsecond : (db.take a).grown b = db.grown b := by
      unfold grown
      rw [get_take hdb ha, if_neg hne, partOrd_take hdb ha hr hne]
    rw [take_eq (hdb.take hb) ha, hfirst, take_eq (hdb.take ha) hb, hsecond, take_eq hdb ha, take_eq hdb hb]
    dsimp only
    rw [Table.put_comm (by rwa [grown_id, grown_id]) (by rwa [grown_id])]

end Database

/-- A delta row as it waits. -/
def Row.delta? (row : Row) : Option PendingDelta :=
  match row.content with
  | .event (.messagePartDelta _ messageID partID field text) => some
    { sessionId := row.sessionId, messageId := messageID, partId := partID, field, text, seq := row.seq, ts := row.ts }
  | _ => none

theorem Row.delta?_some (h : row.isDelta) (hrow : row.content.AtHome home row.sessionId) :
    ∃ item, row.delta? = some item ∧ item.AtHome home ∧ item.sessionId = row.sessionId ∧ item.seq = row.seq ∧
      row.partId = none := by
  unfold isDelta at h
  unfold delta? partId
  split at h
  · rename_i sessionID messageID partID field text hcontent
    rw [hcontent] at hrow
    obtain ⟨hs, hpart, hwritten, hwritten', hwritten'', hfield⟩ := hrow
    rw [hcontent]
    exact ⟨_, rfl, ⟨hpart, by simp [← hs, hwritten, hwritten', hwritten''], hfield⟩, rfl, rfl, rfl⟩
  · cases h

namespace Database

/-- The journal's rows past the checkpoint. -/
def owed (db : Database) (s : String) : List Row := (db.journalOf s).filter fun row => db.journalCheckpoint s < row.seq

/-- The deltas among some rows. -/
def deltas (rows : List Row) : List PendingDelta := rows.filterMap (·.delta?)

theorem take_setCheckpoint (db : Database) (item : PendingDelta) (s : String) (seq : ℕ) :
    (db.setCheckpoint s seq).take item = (db.take item).setCheckpoint s seq := by
  unfold take delta upsertPart setCheckpoint
  dsimp only
  split <;> rfl

theorem setCheckpoint_setCheckpoint (db : Database) (s : String) (n m : ℕ) :
    (db.setCheckpoint s n).setCheckpoint s m = db.setCheckpoint s m := by
  simp [setCheckpoint]

theorem apply_delta {db : Database} {row : Row} {item : PendingDelta} (h : row.delta? = some item)
    (hrow : row.content.AtHome home row.sessionId) (hopen : db.deletedSession row.sessionId = false) :
    db.apply row = db.take item := by
  unfold Row.delta? at h
  split at h
  · rename_i sessionID messageID partID field text hcontent
    rw [hcontent] at hrow
    obtain rfl := Option.some.inj h
    unfold apply applyEvent take
    rw [hcontent, hopen]
    simp only [Bool.false_eq_true, if_false]
    rw [hrow.1]
  · cases h

theorem deletedSession_fold (db : Database) (items : List PendingDelta) : (db.fold items).deletedSession = db.deletedSession := by
  induction items generalizing db with
  | nil => rfl
  | cons item items ih => exact (ih _).trans (RuntimeStore.deletedSession_delta ..)

/-- Projecting delta rows takes their deltas in; the checkpoint is the last's. -/
theorem foldl_project_deltas {db : Database} {s : String} {rows : List Row}
    (hrows : ∀ row ∈ rows, row.isDelta ∧ row.sessionId = s ∧ row.content.AtHome home row.sessionId)
    (hopen : db.deletedSession s = false) :
    rows.foldl project db =
      (db.fold (deltas rows)).setCheckpoint s (((rows.getLast?).map (·.seq)).getD (db.journalCheckpoint s)) := by
  induction rows using List.reverseRecOn with
  | nil => simp [deltas, setCheckpoint, fold]
  | append_singleton rows row ih =>
    have hleft := ih fun r hr => hrows r (List.mem_append_left _ hr)
    obtain ⟨hdelta, rfl, hhome⟩ := hrows row (List.mem_append_right _ List.mem_cons_self)
    obtain ⟨item, hitem, -⟩ := Row.delta?_some hdelta hhome
    have hdeltas : deltas (rows ++ [row]) = deltas rows ++ [item] := by
      rw [deltas, List.filterMap_append, List.filterMap_cons, hitem]
      rfl
    have hopen' : ∀ n, ((db.fold (deltas rows)).setCheckpoint row.sessionId n).deletedSession row.sessionId = false := fun n => by
      rw [setCheckpoint, deletedSession_fold]
      exact hopen
    rw [List.foldl_append, hleft, List.foldl_cons, List.foldl_nil, project, apply_delta hitem hhome (hopen' _),
      take_setCheckpoint, setCheckpoint_setCheckpoint, hdeltas, fold, fold, List.foldl_append, List.getLast?_concat]
    rfl

end Database

/-- The newest sequence is one of the deltas', and no other is newer. -/
theorem lastSeq_spec (items : List PendingDelta) :
    (∀ item ∈ items, item.seq ≤ lastSeq items) ∧ (items ≠ [] → ∃ item ∈ items, lastSeq items ≤ item.seq) := by
  induction items using List.reverseRecOn with
  | nil => exact ⟨fun _ h => absurd h List.not_mem_nil, fun h => absurd rfl h⟩
  | append_singleton items item ih =>
    have hlast : lastSeq (items ++ [item]) = if lastSeq items < item.seq then item.seq else lastSeq items := by
      unfold lastSeq
      rw [List.foldl_append]
      rfl
    obtain ⟨hle, hex⟩ := ih
    rw [hlast]
    split_ifs with hlt
    · refine ⟨fun i hi => ?_, fun _ => ⟨item, by simp, le_rfl⟩⟩
      rcases List.mem_append.mp hi with hi | hi
      · have := hle i hi
        omega
      · rw [List.mem_singleton.mp hi]
    · refine ⟨fun i hi => ?_, fun _ => ?_⟩
      · rcases List.mem_append.mp hi with hi | hi
        · exact hle i hi
        · rw [List.mem_singleton.mp hi]
          omega
      · rcases items.eq_nil_or_concat with rfl | ⟨_, _, rfl⟩
        · exact ⟨item, by simp, by simp [lastSeq]⟩
        · obtain ⟨i, hi, hseq⟩ := hex (by simp)
          exact ⟨i, List.mem_append_left _ hi, hseq⟩

/-- The deltas that wait for some rows. -/
def waiting (rows : List Row) : List PendingDelta := coalesce PendingDelta.partId PendingDelta.grow (Database.deltas rows)

/-- What waits is as new as the newest of its rows. -/
theorem seq_coalesce (items : List PendingDelta) :
    (∀ p ∈ coalesce PendingDelta.partId PendingDelta.grow items, ∃ a ∈ items, p.seq = a.seq) ∧
      ∀ a, items.getLast? = some a → ∃ p ∈ coalesce PendingDelta.partId PendingDelta.grow items, p.seq = a.seq := by
  induction items using List.reverseRecOn with
  | nil => exact ⟨fun _ h => absurd h List.not_mem_nil, fun _ h => by cases h⟩
  | append_singleton items item ih =>
    rw [coalesce_snoc]
    refine ⟨fun p hp => ?_, fun a ha => ?_⟩
    · rcases mem_absorb hp with hp | rfl | ⟨q, -, -, rfl⟩
      · obtain ⟨a, ha, hseq⟩ := ih.1 p hp
        exact ⟨a, List.mem_append_left _ ha, hseq⟩
      · exact ⟨p, by simp, rfl⟩
      · exact ⟨item, by simp, rfl⟩
    · rw [List.getLast?_concat] at ha
      obtain rfl := Option.some.inj ha
      rcases absorb_mem PendingDelta.partId PendingDelta.grow (coalesce PendingDelta.partId PendingDelta.grow items) item with
        hmem | ⟨p, -, -, hmem⟩
      · exact ⟨_, hmem, rfl⟩
      · exact ⟨_, hmem, rfl⟩

@[simp] theorem Row.isSome_delta? (row : Row) : row.delta?.isSome = row.isDelta := by
  unfold delta? isDelta
  rcases row.content with control | event
  · rfl
  · cases event <;> rfl

theorem waiting_eq_nil_iff {rows : List Row} (hdelta : ∀ row ∈ rows, row.isDelta) : waiting rows = [] ↔ rows = [] := by
  rw [waiting, coalesce_eq_nil_iff, Database.deltas, List.filterMap_eq_nil_iff]
  refine ⟨fun h => List.eq_nil_iff_forall_not_mem.mpr fun row hrow => ?_, fun h => by simp [h]⟩
  have hsome := (Row.isSome_delta? row).trans (hdelta row hrow)
  rw [h row hrow] at hsome
  cases hsome

theorem Row.seq_delta? {item : PendingDelta} (h : row.delta? = some item) :
    item.seq = row.seq ∧ item.sessionId = row.sessionId := by
  unfold delta? at h
  split at h
  · obtain rfl := Option.some.inj h
    exact ⟨rfl, rfl⟩
  · cases h

/-- As far as the newest of the rows: no further, and no less. -/
theorem lastSeq_waiting {rows : List Row} (hdelta : ∀ row ∈ rows, row.isDelta) (hascending : rows.Pairwise (·.seq < ·.seq))
    (hne : rows ≠ []) : (∀ row ∈ rows, row.seq ≤ lastSeq (waiting rows)) ∧ ∃ row ∈ rows, lastSeq (waiting rows) ≤ row.seq := by
  obtain rfl | ⟨rows, last, rfl⟩ := rows.eq_nil_or_concat'
  · exact absurd rfl hne
  obtain ⟨item, hitem⟩ := Option.isSome_iff_exists.mp ((Row.isSome_delta? last).trans (hdelta last (by simp)))
  have hdeltas : Database.deltas (rows ++ [last]) = Database.deltas rows ++ [item] := by
    rw [Database.deltas, List.filterMap_append, List.filterMap_cons, hitem]
    rfl
  obtain ⟨hseqs, hnewest⟩ := seq_coalesce (Database.deltas (rows ++ [last]))
  obtain ⟨p, hp, hpseq⟩ := hnewest item (by rw [hdeltas, List.getLast?_concat])
  obtain ⟨hle, hex⟩ := lastSeq_spec (waiting (rows ++ [last]))
  obtain ⟨-, -, hlast⟩ := List.pairwise_append.mp hascending
  have hpast : last.seq ≤ lastSeq (waiting (rows ++ [last])) := by
    rw [← (Row.seq_delta? hitem).1, ← hpseq]
    exact hle p hp
  refine ⟨fun row hrow => ?_, ?_⟩
  · rcases List.mem_append.mp hrow with hrow | hrow
    · have := hlast row hrow last List.mem_cons_self
      omega
    · rw [List.mem_singleton.mp hrow]
      exact hpast
  · obtain ⟨q, hq, hqseq⟩ := hex (List.ne_nil_of_mem hp)
    obtain ⟨a, ha, hqa⟩ := hseqs q hq
    obtain ⟨row, hrow, hrowa⟩ := List.mem_filterMap.mp ha
    exact ⟨row, hrow, by rw [← (Row.seq_delta? hrowa).1, ← hqa]; exact hqseq⟩

/-- The journal with one more row, that takes the next sequence. -/
theorem Database.journaled {db : Database} (hascending : (db.journalOf s).Pairwise (·.seq < ·.seq)) (hs : row.sessionId = s)
    (hseq : row.seq = db.next s) :
    ((db.insertRuntimeJournal row).journalOf s).Pairwise (·.seq < ·.seq) ∧
      row.seq ≤ (db.insertRuntimeJournal row).getSessionMaxSeq s ∧
      ∀ earlier ∈ (db.insertRuntimeJournal row).journalOf s, earlier.seq ≤ row.seq := by
  subst hs
  have hself := journalOf_insert_self db row
  have hkept : ∀ earlier ∈ db.kept row, earlier.seq < row.seq := fun earlier hearlier => by
    rw [hseq]
    exact lt_next ((kept_sublist db row).subset hearlier)
  refine ⟨?_, le_maxSeq (by rw [hself]; simp), fun earlier hearlier => ?_⟩
  · rw [hself, List.pairwise_append]
    refine ⟨hascending.sublist (kept_sublist db row), List.pairwise_singleton _ _, fun earlier hearlier r hr => ?_⟩
    rw [List.mem_singleton.mp hr]
    exact hkept earlier hearlier
  · rw [hself] at hearlier
    rcases List.mem_append.mp hearlier with hearlier | hearlier
    · exact (hkept earlier hearlier).le
    · rw [List.mem_singleton.mp hearlier]

/-- The session's deltas wait exactly as its journal holds them past the checkpoint. -/
structure Waiting (σ : RuntimeStore) (s : String) : Prop where
  owed : ∀ row ∈ σ.db.owed s, row.isDelta
  pending : σ.pendingOf s = waiting (σ.db.owed s)
  field : ∀ a ∈ Database.deltas (σ.db.owed s), ∀ b ∈ Database.deltas (σ.db.owed s), a.partId = b.partId → a.field = b.field

theorem Waiting.owed_eq_nil {σ : RuntimeStore} (h : Waiting σ s) (hpending : σ.pendingOf s = []) : σ.db.owed s = [] :=
  (waiting_eq_nil_iff h.owed).mp (h.pending.symm.trans hpending)

/-- One more delta waits, in the place of its part. -/
def RuntimeStore.await (σ : RuntimeStore) (item : PendingDelta) : RuntimeStore :=
  { σ with pendingDeltas := Table.put PendingDelta.partId item σ.pendingDeltas }

/-- What a session keeps from move to move. -/
structure Kept (σ : RuntimeStore) (s : String) : Prop where
  ascending : (σ.db.journalOf s).Pairwise (·.seq < ·.seq)
  checkpoint : σ.db.journalCheckpoint s ≤ σ.db.getSessionMaxSeq s
  idle : (σ.failedProjections s).isSome ∨ σ.db.deletedSession s = true → σ.pendingOf s = []
  waits : σ.failedProjections s = none → Waiting σ s

namespace Kept

variable {σ σ' : RuntimeStore} {s : String}

/-- Nothing waits, and nothing is owed but by a failed session. -/
theorem of_idle (hascending : (σ.db.journalOf s).Pairwise (·.seq < ·.seq))
    (hcheckpoint : σ.db.journalCheckpoint s ≤ σ.db.getSessionMaxSeq s) (hpending : σ.pendingOf s = [])
    (howed : σ.failedProjections s = none → σ.db.owed s = []) : Kept σ s where
  ascending := hascending
  checkpoint := hcheckpoint
  idle _ := hpending
  waits hfailed := by
    refine ⟨?_, ?_, ?_⟩ <;> rw [howed hfailed]
    · exact fun _ h => absurd h List.not_mem_nil
    · exact hpending
    · exact fun _ h => absurd h List.not_mem_nil

theorem owed_eq_nil {db : Database} (h : ∀ row ∈ db.journalOf s, row.seq ≤ db.journalCheckpoint s) : db.owed s = [] :=
  List.filter_eq_nil_iff.mpr fun row hrow => by simpa using h row hrow

theorem owed_of_not_lt {db : Database} (h : ¬ db.journalCheckpoint s < db.getSessionMaxSeq s) : db.owed s = [] :=
  owed_eq_nil fun _ hrow => (Database.le_maxSeq hrow).trans (not_lt.mp h)

theorem checkpoint_settleDeltas (hlevel : σ.failedProjections s = none) (hne : σ.pendingOf s ≠ []) :
    (σ.settleDeltas (some s)).db.journalCheckpoint s = lastSeq (σ.pendingOf s) := by
  rw [RuntimeStore.settleDeltas_some, if_neg hne, RuntimeStore.settleSession, hlevel]
  exact Function.update_self ..

/-- What waits is as new as the newest row owed. -/
theorem lastSeq_pending (h : Kept σ s) (hlevel : σ.failedProjections s = none) (hne : σ.pendingOf s ≠ []) :
    (∀ row ∈ σ.db.journalOf s, row.seq ≤ lastSeq (σ.pendingOf s)) ∧
      ∃ row ∈ σ.db.journalOf s, lastSeq (σ.pendingOf s) ≤ row.seq := by
  have hwaits := h.waits hlevel
  have howed : σ.db.owed s ≠ [] := fun howed => hne (by rw [hwaits.pending, howed]; rfl)
  obtain ⟨hle, row, hrow, hlast⟩ := lastSeq_waiting hwaits.owed (h.ascending.sublist List.filter_sublist) howed
  rw [← hwaits.pending] at hle hlast
  refine ⟨fun earlier hearlier => ?_, row, List.mem_of_mem_filter hrow, hlast⟩
  by_cases hpast : σ.db.journalCheckpoint s < earlier.seq
  · exact hle earlier (List.mem_filter.mpr ⟨hearlier, by simpa using hpast⟩)
  · have := hle row hrow
    have := of_decide_eq_true (List.mem_filter.mp hrow).2
    omega

theorem settle (h : Kept σ s) : Kept (σ.settleDeltas (some s)) s := by
  have hjournal := Database.journalOf_of_ledger (RuntimeStore.ledger_settleDeltas σ (some s)) s
  have hpending := RuntimeStore.pendingOf_settled σ s
  have hfailed := congrFun (RuntimeStore.failedProjections_settleDeltas σ (some s)) s
  have hmax : (σ.settleDeltas (some s)).db.getSessionMaxSeq s = σ.db.getSessionMaxSeq s := by
    rw [Database.getSessionMaxSeq, hjournal, Database.getSessionMaxSeq]
  by_cases hnil : σ.pendingOf s = []
  · have hdb : (σ.settleDeltas (some s)).db = σ.db := by
      rw [RuntimeStore.settleDeltas_some, if_pos hnil]
    refine of_idle (hdb ▸ h.ascending) (hdb ▸ h.checkpoint) hpending fun hlevel => ?_
    rw [hfailed] at hlevel
    rw [hdb]
    exact (h.waits hlevel).owed_eq_nil hnil
  · have hlevel : σ.failedProjections s = none := by
      by_contra hsome
      exact hnil (h.idle (.inl (Option.isSome_iff_ne_none.mpr hsome)))
    obtain ⟨hle, row, hrow, hlast⟩ := h.lastSeq_pending hlevel hnil
    have hcheckpoint := checkpoint_settleDeltas hlevel hnil
    refine of_idle (hjournal ▸ h.ascending) ?_ hpending fun _ => owed_eq_nil fun earlier hearlier => ?_
    · rw [hcheckpoint, hmax]
      exact hlast.trans (Database.le_maxSeq hrow)
    · rw [hcheckpoint]
      exact hle earlier (hjournal ▸ hearlier)

theorem replayRows_spec (σ : RuntimeStore) (rows : List Row) (hrows : ∀ row ∈ rows, row.sessionId = s) (stops : Option ℕ) :
    (σ.replayRows rows stops).1.pendingDeltas = σ.pendingDeltas ∧
      ((σ.replayRows rows stops).1.db.journalCheckpoint s = σ.db.journalCheckpoint s ∨
        ∃ row ∈ rows, (σ.replayRows rows stops).1.db.journalCheckpoint s = row.seq) ∧
      (((σ.replayRows rows stops).1.failedProjections s).isSome ∨
        (σ.replayRows rows stops).1.db.journalCheckpoint s =
          (rows.getLast?.map (·.seq)).getD (σ.db.journalCheckpoint s)) := by
  induction rows generalizing σ stops with
  | nil => exact ⟨rfl, .inl rfl, .inr rfl⟩
  | cons row rows ih =>
    obtain ⟨hrow, hrest⟩ := List.forall_mem_cons.mp hrows
    have hproject : ∀ stops', (σ.replayRows (row :: rows) stops) =
        RuntimeStore.replayRows { σ with db := σ.db.project row } rows stops' →
        (σ.replayRows (row :: rows) stops).1.pendingDeltas = σ.pendingDeltas ∧
        ((σ.replayRows (row :: rows) stops).1.db.journalCheckpoint s = σ.db.journalCheckpoint s ∨
          ∃ r ∈ row :: rows, (σ.replayRows (row :: rows) stops).1.db.journalCheckpoint s = r.seq) ∧
        (((σ.replayRows (row :: rows) stops).1.failedProjections s).isSome ∨
          (σ.replayRows (row :: rows) stops).1.db.journalCheckpoint s =
            ((row :: rows).getLast?.map (·.seq)).getD (σ.db.journalCheckpoint s)) := by
      intro stops' heq
      have hnow : (σ.db.project row).journalCheckpoint s = row.seq := by
        rw [← hrow]
        exact Function.update_self ..
      obtain ⟨hpending, hcheckpoint, hlast⟩ := ih { σ with db := σ.db.project row } hrest stops'
      rw [heq]
      refine ⟨hpending, .inr ?_, hlast.imp_right fun hlast => ?_⟩
      · rcases hcheckpoint with hcheckpoint | ⟨r, hr, hcheckpoint⟩
        · exact ⟨row, List.mem_cons_self, hcheckpoint.trans hnow⟩
        · exact ⟨r, List.mem_cons_of_mem _ hr, hcheckpoint⟩
      · rw [hlast]
        dsimp only
        rw [hnow, List.getLast?_cons]
        cases rows.getLast? <;> rfl
    rcases stops with _ | _ | k
    · exact hproject none rfl
    · refine ⟨rfl, .inl rfl, .inl ?_⟩
      simp [RuntimeStore.replayRows, RuntimeStore.fail, hrow]
    · exact hproject (some k) rfl

theorem getLast?_seq {rows : List Row} (hascending : rows.Pairwise (·.seq < ·.seq)) {n : ℕ} (hn : ∀ row ∈ rows, n < row.seq) :
    n ≤ (rows.getLast?.map (·.seq)).getD n ∧ ∀ row ∈ rows, row.seq ≤ (rows.getLast?.map (·.seq)).getD n := by
  obtain rfl | ⟨rows, last, rfl⟩ := rows.eq_nil_or_concat'
  · exact ⟨le_rfl, fun _ h => absurd h List.not_mem_nil⟩
  · rw [List.getLast?_concat, Option.map_some, Option.getD_some]
    refine ⟨(hn last (by simp)).le, fun row hrow => ?_⟩
    rcases List.mem_append.mp hrow with hrow | hrow
    · exact ((List.pairwise_append.mp hascending).2.2 row hrow last List.mem_cons_self).le
    · rw [List.mem_singleton.mp hrow]

theorem replay (hascending : (σ.db.journalOf s).Pairwise (·.seq < ·.seq))
    (hcheckpoint : σ.db.journalCheckpoint s ≤ σ.db.getSessionMaxSeq s) (hpending : σ.pendingOf s = []) (stops : Option ℕ) :
    Kept (σ.replay s stops).1 s := by
  unfold RuntimeStore.replay
  split_ifs with hlt
  swap
  · exact of_idle hascending hcheckpoint hpending fun _ => owed_of_not_lt hlt
  unfold RuntimeStore.replaySession
  have hjournal := Database.journalOf_of_ledger (RuntimeStore.ledger_replayRows
    { σ with failedProjections := Function.update σ.failedProjections s none } ((σ.db.journalOf s).filter fun row =>
      σ.db.journalCheckpoint s < row.seq ∧ row.seq ≤ σ.db.getSessionMaxSeq s) stops) s
  have hspec := replayRows_spec (s := s) { σ with failedProjections := Function.update σ.failedProjections s none }
    ((σ.db.journalOf s).filter fun row => σ.db.journalCheckpoint s < row.seq ∧ row.seq ≤ σ.db.getSessionMaxSeq s)
    (fun row hrow => of_decide_eq_true (List.mem_filter.mp (List.mem_of_mem_filter hrow)).2) stops
  generalize RuntimeStore.replayRows _ _ stops = result at hjournal hspec ⊢
  obtain ⟨hkept, hat, hend⟩ := hspec
  refine of_idle (hjournal ▸ hascending) ?_ (by rw [RuntimeStore.pendingOf, hkept]; exact hpending) fun hlevel => ?_
  · rw [Database.getSessionMaxSeq, hjournal]
    rcases hat with hat | ⟨row, hrow, hat⟩
    · rw [hat]
      exact hcheckpoint
    · rw [hat]
      exact Database.le_maxSeq (List.mem_of_mem_filter hrow)
  · refine owed_eq_nil fun row hrow => ?_
    rw [hjournal] at hrow
    rcases hend with hfailed | hend
    · rw [hlevel] at hfailed
      cases hfailed
    have hpast : ∀ r ∈ (σ.db.journalOf s).filter (fun row =>
        σ.db.journalCheckpoint s < row.seq ∧ row.seq ≤ σ.db.getSessionMaxSeq s), σ.db.journalCheckpoint s < r.seq :=
      fun r hr => (of_decide_eq_true (List.mem_filter.mp hr).2).1
    have hlast := getLast?_seq (hascending.sublist List.filter_sublist) hpast
    rw [hend]
    by_cases hnew : σ.db.journalCheckpoint s < row.seq
    · exact hlast.2 row (List.mem_filter.mpr ⟨hrow, by simp [hnew, Database.le_maxSeq hrow]⟩)
    · exact (not_lt.mp hnew).trans hlast.1

variable {row : Row} {item : PendingDelta}

theorem project (h : Kept σ s) (hs : row.sessionId = s) (hseq : row.seq = σ.db.next s) (hquiet : σ.pendingOf s = []) :
    Kept { σ with db := (σ.db.insertRuntimeJournal row).project row } s := by
  obtain ⟨hascending, hmax, hle⟩ := Database.journaled h.ascending hs hseq
  have hjournal := Database.journalOf_of_ledger (Database.ledger_project (σ.db.insertRuntimeJournal row) row) s
  have hcheckpoint : ((σ.db.insertRuntimeJournal row).project row).journalCheckpoint s = row.seq := by
    rw [← hs]
    exact Function.update_self ..
  refine of_idle (hjournal ▸ hascending) ?_ hquiet fun _ => owed_eq_nil fun earlier hearlier => ?_
  · dsimp only
    rw [hcheckpoint, Database.getSessionMaxSeq, hjournal]
    exact hmax
  · rw [hjournal] at hearlier
    rw [hcheckpoint]
    exact hle earlier hearlier

theorem fail (h : Kept σ s) (hs : row.sessionId = s) (hseq : row.seq = σ.db.next s) (hquiet : σ.pendingOf s = []) :
    Kept (RuntimeStore.fail { σ with db := σ.db.insertRuntimeJournal row } row) s := by
  obtain ⟨hascending, hmax, -⟩ := Database.journaled h.ascending hs hseq
  refine of_idle hascending ?_ hquiet fun hlevel => ?_
  · have hbefore : σ.db.journalCheckpoint s < row.seq := by
      rw [hseq]
      exact Nat.lt_succ_of_le h.checkpoint
    exact hbefore.le.trans hmax
  · simp [RuntimeStore.fail, hs] at hlevel

theorem deferDelta_eq (h : row.delta? = some item) (σ : RuntimeStore) :
    σ.deferDelta row = match Table.get PendingDelta.partId item.partId σ.pendingDeltas with
      | some prev =>
        if prev.field = item.field then σ.await (prev.grow item) else (σ.settleDeltas (some row.sessionId)).await item
      | none => σ.await item := by
  unfold Row.delta? at h
  split at h
  · rename_i sessionID messageID partID field text hcontent
    obtain rfl := Option.some.inj h
    unfold RuntimeStore.deferDelta
    rw [hcontent]
    rfl
  · cases h

theorem get_pendingOf (hσ : σ.Tidy home) {k : String} (hk : home.part k = s) :
    Table.get PendingDelta.partId k (σ.pendingOf s) = Table.get PendingDelta.partId k σ.pendingDeltas :=
  Table.get_filter fun r hr hrk => by simp [← (hσ.pending r hr).home, hrk, hk]

theorem pendingOf_await (hσ : σ.Tidy home) (hs : item.sessionId = s) (hhome : home.part item.partId = s) :
    (σ.await item).pendingOf s = Table.put PendingDelta.partId item (σ.pendingOf s) := by
  unfold RuntimeStore.pendingOf RuntimeStore.await
  dsimp only
  rw [Table.filter_put fun r hr hrk => by simp [← (hσ.pending r hr).home, hrk, hhome, hs], if_pos (by simpa using hs)]

theorem deltas_atHome (hσ : σ.Tidy home) (howed : ∀ row ∈ σ.db.owed s, row.isDelta) :
    ∀ a ∈ Database.deltas (σ.db.owed s), a.AtHome home := by
  intro a ha
  obtain ⟨row, hrow, hrowa⟩ := List.mem_filterMap.mp ha
  obtain ⟨item, hitem, hathome, -⟩ :=
    Row.delta?_some (howed row hrow) (hσ.db.journal row (List.mem_of_mem_filter (List.mem_of_mem_filter hrow)))
  rw [hitem] at hrowa
  exact Option.some.inj hrowa ▸ hathome

theorem journalOf_defer (hs : row.sessionId = s) (hpartId : row.partId = none) :
    (σ.db.insertRuntimeJournal row).journalOf s = σ.db.journalOf s ++ [row] := by
  subst hs
  rw [Database.journalOf_insert_self, Database.kept, List.filter_eq_self.mpr]
  exact fun earlier _ => by simp [hpartId, nonEmpty]

/-- Where nothing settles, one more row is owed and one more delta waits. -/
theorem awaits (h : Kept σ s) (hs : row.sessionId = s) (hseq : row.seq = σ.db.next s) (hlevel : σ.failedProjections s = none)
    (hitem : row.delta? = some item) (hpartId : row.partId = none) (hopen : σ.db.deletedSession s = false)
    (hfield : ∀ a ∈ Database.deltas (σ.db.owed s), a.partId = item.partId → a.field = item.field)
    (hdb : σ'.db = σ.db.insertRuntimeJournal row) (hlevel' : σ'.failedProjections s = none)
    (hpending : σ'.pendingOf s = absorb PendingDelta.partId PendingDelta.grow (σ.pendingOf s) item) : Kept σ' s := by
  obtain ⟨hascending, hmax, -⟩ := Database.journaled h.ascending hs hseq
  have hwaits := h.waits hlevel
  have hnew : σ.db.journalCheckpoint s < row.seq := by
    rw [hseq]
    exact Nat.lt_succ_of_le h.checkpoint
  have howed : σ'.db.owed s = σ.db.owed s ++ [row] := by
    rw [hdb, Database.owed, journalOf_defer hs hpartId, List.filter_append]
    simp [Database.owed, Database.insertRuntimeJournal, hnew]
  have hdeltas : Database.deltas (σ.db.owed s ++ [row]) = Database.deltas (σ.db.owed s) ++ [item] := by
    rw [Database.deltas, List.filterMap_append, List.filterMap_cons, hitem]
    rfl
  refine ⟨hdb ▸ hascending, hdb ▸ hnew.le.trans hmax, fun hidle => ?_, fun _ => ⟨?_, ?_, ?_⟩⟩
  · rw [hdb, hlevel'] at hidle
    rcases hidle with hidle | hidle
    · cases hidle
    · exact absurd (hopen.symm.trans hidle) Bool.false_ne_true
  · rw [howed]
    intro r hr
    rcases List.mem_append.mp hr with hr | hr
    · exact hwaits.owed r hr
    · rw [List.mem_singleton.mp hr, ← Row.isSome_delta?, hitem]
      rfl
  · rw [hpending, howed, waiting, hdeltas, coalesce_snoc, hwaits.pending]
    rfl
  · rw [howed, hdeltas]
    intro a ha b hb hab
    rcases List.mem_append.mp ha with ha | ha <;> rcases List.mem_append.mp hb with hb | hb
    · exact hwaits.field a ha b hb hab
    · rw [List.mem_singleton.mp hb] at hab ⊢
      exact hfield a ha hab
    · rw [List.mem_singleton.mp ha] at hab ⊢
      exact (hfield b hb hab.symm).symm
    · rw [List.mem_singleton.mp ha, List.mem_singleton.mp hb]

/-- Where another field of the part waits, all that waits is settled, and the new delta waits alone. -/
theorem awaits_alone (h : Kept σ s) (hs : row.sessionId = s) (hseq : row.seq = σ.db.next s)
    (hlevel : σ.failedProjections s = none) (hne : σ.pendingOf s ≠ []) (hitem : row.delta? = some item)
    (hpartId : row.partId = none) (hopen : σ.db.deletedSession s = false)
    (hdb : σ'.db = (RuntimeStore.settleDeltas { σ with db := σ.db.insertRuntimeJournal row } (some s)).db)
    (hlevel' : σ'.failedProjections s = none) (hpending : σ'.pendingOf s = [item]) : Kept σ' s := by
  obtain ⟨hascending, hmax, -⟩ := Database.journaled h.ascending hs hseq
  obtain ⟨hle, newest, hmem, hlast⟩ := h.lastSeq_pending hlevel hne
  have hledger := RuntimeStore.ledger_settleDeltas { σ with db := σ.db.insertRuntimeJournal row } (some s)
  have hjournal : σ'.db.journalOf s = (σ.db.insertRuntimeJournal row).journalOf s := by
    rw [hdb]
    exact Database.journalOf_of_ledger hledger s
  have hcheckpoint : σ'.db.journalCheckpoint s = lastSeq (σ.pendingOf s) := by
    rw [hdb]
    exact @checkpoint_settleDeltas { σ with db := σ.db.insertRuntimeJournal row } s hlevel hne
  have hnew : lastSeq (σ.pendingOf s) < row.seq := by
    rw [hseq]
    exact hlast.trans_lt (Database.lt_next hmem)
  have howed : σ'.db.owed s = [row] := by
    rw [Database.owed, hcheckpoint, hjournal, journalOf_defer hs hpartId, List.filter_append]
    rw [List.filter_eq_nil_iff.mpr fun earlier hearlier => by simpa using hle earlier hearlier]
    simp [hnew]
  have hdeltas : Database.deltas [row] = [item] := by simp [Database.deltas, hitem]
  refine ⟨hjournal ▸ hascending, ?_, fun hidle => ?_, fun _ => ⟨?_, ?_, ?_⟩⟩
  · rw [hcheckpoint, Database.getSessionMaxSeq, hjournal]
    exact hnew.le.trans hmax
  · rw [hlevel', hdb, RuntimeStore.deletedSession_settleDeltas] at hidle
    rcases hidle with hidle | hidle
    · cases hidle
    · exact absurd (hopen.symm.trans hidle) Bool.false_ne_true
  · rw [howed]
    intro r hr
    rw [List.mem_singleton.mp hr, ← Row.isSome_delta?, hitem]
    rfl
  · rw [hpending, howed, waiting, hdeltas]
    rfl
  · rw [howed, hdeltas]
    intro a ha b hb _
    rw [List.mem_singleton.mp ha, List.mem_singleton.mp hb]

theorem defer (hσ : σ.Tidy home) (h : Kept σ s) (hs : row.sessionId = s) (hseq : row.seq = σ.db.next s)
    (hlevel : σ.failedProjections s = none) (hdelta : row.isDelta) (hopen : σ.db.deletedSession s = false)
    (hhome : row.content.AtHome home row.sessionId) :
    Kept (RuntimeStore.deferDelta { σ with db := σ.db.insertRuntimeJournal row } row) s := by
  obtain ⟨item, hitem, hathome, hsession, -, hpartId⟩ := Row.delta?_some hdelta hhome
  have hitems : item.sessionId = s := hsession.trans hs
  have hpart : home.part item.partId = s := hathome.home.trans hitems
  have hwaits := h.waits hlevel
  have hgood := deltas_atHome hσ hwaits.owed
  have htidy : RuntimeStore.Tidy home { σ with db := σ.db.insertRuntimeJournal row } :=
    hσ.of_db (hσ.db.insertRuntimeJournal hhome)
  have hgetOf := get_pendingOf hσ hpart
  rw [deferDelta_eq hitem]
  dsimp only
  rcases hget : Table.get PendingDelta.partId item.partId σ.pendingDeltas with _ | prev
  · rw [hget] at hgetOf
    refine awaits h hs hseq hlevel hitem hpartId hopen (fun a ha hk => ?_) rfl hlevel ?_
    · have hmem := (Database.waits home).mem_keys_coalesce ha
      rw [hk] at hmem
      obtain ⟨p, hp, hpk⟩ := List.mem_map.mp hmem
      rw [hwaits.pending] at hgetOf
      exact absurd hpk (Table.get_eq_none_iff.mp hgetOf p hp)
    · rw [pendingOf_await htidy hitems hpart, absorb, hgetOf]
      rfl
  · rw [hget] at hgetOf
    obtain ⟨hprev, hk⟩ := Table.mem_of_get hgetOf
    dsimp only
    split_ifs with hsame
    · refine awaits h hs hseq hlevel hitem hpartId hopen (fun a ha hka => ?_) rfl hlevel ?_
      · rw [hwaits.pending] at hprev
        obtain ⟨-, b, hb, hkb, hfb⟩ := (Database.waits home).of_mem_coalesce hgood hprev
        rw [hwaits.field a ha b hb (hka.trans (hk.symm.trans hkb.symm)), hfb, hsame]
      · have hgrown : (prev.grow item).sessionId = s := of_decide_eq_true (List.mem_filter.mp hprev).2
        rw [pendingOf_await htidy hgrown (by rw [← hpart, ← hk]; rfl), absorb, hgetOf]
        rfl
    · rw [hs]
      refine awaits_alone h hs hseq hlevel (List.ne_nil_of_mem hprev) hitem hpartId hopen rfl ?_ ?_
      · exact (congrFun (RuntimeStore.failedProjections_settleDeltas _ (some s)) s).trans hlevel
      · rw [pendingOf_await (htidy.settleDeltas (some s)) hitems hpart, RuntimeStore.pendingOf_settled]
        rfl

theorem reopen (h : Kept σ s) (hown : σ.db.only s = σ.db) : Kept (RuntimeStore.reopen σ.db) s := by
  rw [← hown, RuntimeStore.reopen_own, hown]
  exact @replay { db := σ.db } s h.ascending h.checkpoint rfl none

theorem move (hown : σ.db.only s = σ.db) (hσ : σ.Tidy home) (h : Kept σ s) {m m' : Move} (hon : m.on s = some m')
    (hm : Allowed home True σ m') : Kept (σ.move m') s := by
  obtain ⟨hlegal, hhome, hquiet⟩ := hm
  have hquiet := hquiet trivial
  rcases Move.at_of_on hon with rfl | hat
  · exact h.reopen hown
  cases m' with
  | settle sessionId =>
    obtain rfl : sessionId = some s := hat
    exact h.settle
  | replay sessionId stops =>
    obtain rfl := Option.some.inj hat
    exact replay h.ascending h.checkpoint (hlegal.elim (fun hfailed => h.idle (.inl hfailed)) fun hnil => hnil) stops
  | defer row =>
    obtain rfl := Option.some.inj hat
    obtain ⟨hseq, hlevel, hdelta, hopen⟩ := hlegal
    exact h.defer hσ rfl hseq hlevel hdelta hopen (hhome row rfl)
  | project row =>
    obtain rfl := Option.some.inj hat
    exact h.project rfl hlegal.1 hquiet
  | fail row =>
    obtain rfl := Option.some.inj hat
    exact h.fail rfl hlegal.1 hquiet
  | lease | reopen => cases hat

theorem empty (s : String) : Kept (RuntimeStore.only {} s) s :=
  of_idle List.Pairwise.nil (by simp) rfl fun _ => rfl

theorem replay_owed (db : Database) (s : String) :
    (RuntimeStore.replay { db := db } s none).1 = { db := (db.owed s).foldl Database.project db } := by
  have hrows : ∀ (rows : List Row) (σ : RuntimeStore),
      (σ.replayRows rows none).1 = { σ with db := rows.foldl Database.project σ.db } := by
    intro rows
    induction rows with
    | nil => exact fun _ => rfl
    | cons row rows ih => exact fun σ => ih _
  unfold RuntimeStore.replay RuntimeStore.replaySession
  by_cases hlt : db.journalCheckpoint s < db.getSessionMaxSeq s
  · have howed : ((db.journalOf s).filter fun row => db.journalCheckpoint s < row.seq ∧ row.seq ≤ db.getSessionMaxSeq s) =
        db.owed s := List.filter_congr fun row hrow => by simp [Database.le_maxSeq hrow]
    simp only [if_pos hlt, howed, hrows, Function.update_eq_self]
  · simp only [if_neg hlt]
    rw [owed_of_not_lt hlt]
    rfl

/-- Opening a session's database takes in what settling it would. -/
theorem replay_eq_settle (hown : σ.only s = σ) (hσ : σ.Tidy home) (h : Kept σ s) (hlevel : σ.failedProjections s = none) :
    (RuntimeStore.replay { db := σ.db } s none).1 = σ.settleDeltas (some s) := by
  have hwaits := h.waits hlevel
  have hpending : σ.pendingDeltas.filter (·.sessionId ≠ s) = [] := by
    rw [← hown]
    simp [RuntimeStore.only, RuntimeStore.pendingOf, List.filter_filter]
  have hfailed : σ.failedProjections = fun _ => none := by
    funext id
    rw [← hown]
    unfold RuntimeStore.only
    dsimp only
    split_ifs with hid
    · rw [hid]
      exact hlevel
    · rfl
  rw [replay_owed, RuntimeStore.settleDeltas_some, hpending]
  by_cases hnil : σ.pendingOf s = []
  · rw [if_pos hnil, hwaits.owed_eq_nil hnil, hfailed]
    rfl
  have howed : σ.db.owed s ≠ [] := fun howed => hnil (by rw [hwaits.pending, howed]; rfl)
  have hopen : σ.db.deletedSession s = false := by
    by_contra hdeleted
    exact hnil (h.idle (.inr (by simpa using hdeleted)))
  have hrows : ∀ row ∈ σ.db.owed s, row.isDelta ∧ row.sessionId = s ∧ row.content.AtHome home row.sessionId := by
    intro row hrow
    obtain ⟨hrow', hs⟩ := List.mem_filter.mp (List.mem_of_mem_filter hrow)
    exact ⟨hwaits.owed row hrow, of_decide_eq_true hs, hσ.db.journal row hrow'⟩
  -- The queue folds to what its deltas fold to one by one, and ends where they do.
  have hfold : σ.db.fold (σ.pendingOf s) = σ.db.fold (Database.deltas (σ.db.owed s)) := by
    rw [hwaits.pending]
    exact (Database.waits home).foldl_coalesce (deltas_atHome hσ hwaits.owed) hwaits.field hσ.db
  have hlast : (((σ.db.owed s).getLast?).map (·.seq)).getD (σ.db.journalCheckpoint s) = lastSeq (σ.pendingOf s) := by
    have hascending := h.ascending.sublist (List.filter_sublist (p := fun row => σ.db.journalCheckpoint s < row.seq))
    obtain ⟨hle, row, hrow, hge⟩ := lastSeq_waiting hwaits.owed hascending howed
    rw [← hwaits.pending] at hle hge
    obtain ⟨-, hnewest⟩ := getLast?_seq (n := σ.db.journalCheckpoint s) hascending
      fun row hrow => of_decide_eq_true (List.mem_filter.mp hrow).2
    refine le_antisymm ?_ (hge.trans (hnewest row hrow))
    obtain ⟨last, hget⟩ := Option.ne_none_iff_exists'.mp (mt List.getLast?_eq_none_iff.mp howed)
    change ((σ.db.owed s).getLast?.map (·.seq)).getD _ ≤ _
    rw [hget]
    exact hle last (List.mem_of_getLast? hget)
  rw [if_neg hnil, RuntimeStore.settleSession, hlevel, Database.foldl_project_deltas hrows hopen, ← hfold, hlast]
  simp only [Option.isSome_none, Bool.false_eq_true, if_false, hfailed]
  rfl

end Kept

open RuntimeStore

/-- Two deltas of one reply wait. -/
def twoDeltas : List StoreCall :=
  [.sessionControl "s" none (.bind "/w") 1 none false, .startTurn "s" none { assistantMessageId := "a" } 2 none false,
    .appendEvent "s" none (.messagePartDelta "s" "a" "p" "text" "Hi") none 3 none false,
    .appendEvent "s" none (.messagePartDelta "s" "a" "p" "text" ", you") none 4 none false]

/-- A delta waits while a broker's transaction writes a row behind it. -/
def brokerPastDelta : List StoreCall :=
  [.sessionControl "s" none (.bind "/w") 1 none false,
    .startTurn "s" none { userMessageId := some "u", assistantMessageId := "a" } 2 none false,
    .appendEvent "s" none (.messagePartDelta "s" "a" "p" "text" "Hi") none 3 none false,
    .brokerTransaction [.appendInside "s" (.elsewhere "permission.asked") 4] false]

end Claxedo.Store
