import Mathlib.Data.List.ReduceOption
import Claxedo.Events.Fanout

/-! Runs of `attachSseFanout` as its queue sees them: frames arrive, writes resolve or are refused, and
the connection is given up. A `Watched` fan-out counts what arrived and keeps account of where each
frame went; no drop is hidden from the reader. -/

namespace Claxedo.Events

/-- What is handed to `enqueue`: a frame from the subscription or the replay, the notice of a rolled
ring that may open a stream, and the clock's heartbeat. -/
inductive Arrival (T : Type) where
  | event (payload : T) (id : Option ℕ) (terminal : Bool)
  | replayGap (lastEventId throughId : Option ℕ)
  | heartbeat

def Arrival.pending {T : Type} : Arrival T → Pending T
  | event payload id terminal => { frame := .event payload, id, terminal }
  | replayGap lastEventId throughId => { frame := .replayGap lastEventId throughId }
  | heartbeat => { frame := .heartbeat }

/-- `lastId` is the ring's at that moment. -/
inductive Moment (T : Type) where
  | enqueue (lastId : Option ℕ) (arrival : Arrival T)
  | written
  | writeFailed
  | cleanup

def Fanout.step {T : Type} (maxPending : ℕ) (f : Fanout T) : Moment T → Fanout T
  | .enqueue lastId arrival => f.enqueue maxPending lastId arrival.pending
  | .written => f.written
  | .writeFailed => f.writeFailed
  | .cleanup => f.cleanup

/-- A frame that was shed: which arrival it was, how many frames the connection had been handed by
then, and the queue it was taken from. -/
structure Shed (T : Type) where
  arrival : ℕ
  handed : ℕ
  queue : List (Pending T)

/-- A fan-out with its account. `marks` numbers the line, frame by frame, by arrival, and has `none`
for a notice; `unsent` are the arrivals still queued when the connection was given up. -/
structure Watched (T : Type) where
  fanout : Fanout T := {}
  arrived : List (Pending T) := []
  marks : List (Option ℕ) := []
  shed : List (Shed T) := []
  unsent : List ℕ := []

namespace Watched
variable {T : Type}

def makeRoom (lastId : Option ℕ) (w : Watched T) : Watched T :=
  let handed := w.fanout.wire.length
  let index := handed + Fanout.dropIndex w.fanout.pending
  let fanout := w.fanout.shed lastId
  let left := w.marks.eraseIdx index
  { w with
    fanout
    marks := if fanout.gapNotice = w.fanout.gapNotice then left else left.take handed ++ none :: left.drop handed
    shed := w.shed ++ (w.marks[index]?.join).toList.map fun arrival => { arrival, handed, queue := w.fanout.pending } }

def place (entry : Pending T) (w : Watched T) : Watched T :=
  { w with
    fanout := Fanout.flush { w.fanout with pending := w.fanout.pending ++ [entry] }
    arrived := w.arrived ++ [entry]
    marks := w.marks ++ [some w.arrived.length] }

def giveUp (w : Watched T) : Watched T :=
  { w with
    marks := w.marks.take w.fanout.wire.length
    unsent := w.unsent ++ (w.marks.drop w.fanout.wire.length).reduceOption }

def step (maxPending : ℕ) (w : Watched T) : Moment T → Watched T
  | .enqueue lastId arrival =>
    if w.fanout.closed then w
    else (if w.fanout.full maxPending then w.makeRoom lastId else w).place arrival.pending
  | .written => { w with fanout := w.fanout.written }
  | .writeFailed => if w.fanout.writing then { w.giveUp with fanout := w.fanout.writeFailed } else w
  | .cleanup => { w.giveUp with fanout := w.fanout.cleanup }

/-- The account changes nothing of what the fan-out does. -/
theorem fanout_step (maxPending : ℕ) (w : Watched T) (moment : Moment T) :
    (w.step maxPending moment).fanout = w.fanout.step maxPending moment := by
  rcases moment with ⟨lastId, arrival⟩ | _ | _ | _
  · simp only [step, Fanout.step, Fanout.enqueue]
    by_cases hclosed : w.fanout.closed
    · rw [if_pos hclosed, if_pos hclosed]
    · rw [if_neg hclosed, if_neg hclosed]
      by_cases hfull : w.fanout.full maxPending
      · rw [if_pos hfull, if_pos hfull]
        rfl
      · rw [if_neg hfull, if_neg hfull]
        rfl
  · rfl
  · simp only [step, Fanout.step, Fanout.writeFailed]
    by_cases hwriting : w.fanout.writing
    · rw [if_pos hwriting]
    · rw [if_neg hwriting, if_pos hwriting]
  · rfl

theorem fanout_run (maxPending : ℕ) (moments : List (Moment T)) (w : Watched T) :
    (Lib.run (step maxPending) w moments).fanout = Lib.run (Fanout.step maxPending) w.fanout moments := by
  induction moments generalizing w with
  | nil => rfl
  | cons moment moments ih => rw [Lib.run_cons, Lib.run_cons, ih, fanout_step]

/-- A mark and the frame it stands on. -/
def Marks (arrived : List (Pending T)) (entry : Pending T) : Option ℕ → Prop
  | some n => arrived[n]? = some entry
  | none => entry.notice ∧ entry.isGap

/-- Behind a notice a frame of any number may come; before the first one, none past `n`. -/
def Told (n : ℕ) : List (Option ℕ) → Prop
  | [] => True
  | none :: _ => True
  | some m :: rest => m < n ∧ Told n rest

variable {l l' : List (Option ℕ)} {maxPending n : ℕ} {w : Watched T} {entry : Pending T}

theorem Told.erase {k : ℕ} (h : Told n (l ++ some k :: l')) : Told n (l ++ l') := by
  induction l with
  | nil => exact h.2
  | cons mark l ih =>
    rcases mark with _ | m
    · trivial
    · exact ⟨h.1, ih h.2⟩

theorem Told.insert (h : Told n (l ++ l')) : Told n (l ++ none :: l') := by
  induction l with
  | nil => trivial
  | cons mark l ih =>
    rcases mark with _ | m
    · trivial
    · exact ⟨h.1, ih h.2⟩

theorem Told.left (h : Told n (l ++ l')) : Told n l := by
  induction l with
  | nil => trivial
  | cons mark l ih =>
    rcases mark with _ | m
    · trivial
    · exact ⟨h.1, ih h.2⟩

theorem Told.append (h : Told n l) (hnone : none ∈ l) (l' : List (Option ℕ)) :
    Told n (l ++ l') := by
  induction l with
  | nil => cases hnone
  | cons mark l ih =>
    rcases mark with _ | m
    · trivial
    · exact ⟨h.1, ih h.2 (by simpa using hnone)⟩

theorem Told.of_lt (h : ∀ m, some m ∈ l → m < n) : Told n l := by
  induction l with
  | nil => trivial
  | cons mark l ih =>
    rcases mark with _ | m
    · trivial
    · exact ⟨h m List.mem_cons_self, ih fun m hm => h m (List.mem_cons_of_mem _ hm)⟩

theorem Told.exists_none (h : Told n l) {j m : ℕ} (hm : l[j]? = some (some m)) (hlt : n ≤ m) :
    ∃ i < j, l[i]? = some none := by
  induction l generalizing j with
  | nil => cases hm
  | cons mark l ih =>
    rcases j with _ | j
    · obtain rfl : mark = some m := by simpa using hm
      exact absurd h.1 (by omega)
    rcases mark with _ | k
    · exact ⟨0, Nat.succ_pos j, rfl⟩
    · obtain ⟨i, hi, hnone⟩ := ih h.2 (by simpa using hm)
      exact ⟨i + 1, by omega, by simpa using hnone⟩

/-- What is known of a shed frame: nothing that arrived after it was handed over by then, a terminal
one left only terminal frames, and its loss is told before anything that arrived after it. -/
structure Covered (w : Watched T) (d : Shed T) : Prop where
  handed : d.handed ≤ w.fanout.wire.length
  earlier : ∀ m, some m ∈ w.marks.take d.handed → m < d.arrival
  frame : ∃ entry, w.arrived[d.arrival]? = some entry ∧ entry ∈ d.queue ∧
    (entry.terminal → ∀ queued ∈ d.queue, queued.terminal ∧ ¬ queued.isHeartbeat) ∧
    (¬ entry.isHeartbeat → Told d.arrival (w.marks.drop d.handed) ∧
      (¬ w.fanout.closed → none ∈ w.marks.drop d.handed))

/-- Every arrival is on the line, was shed, or went with the connection. -/
structure Kept (w : Watched T) : Prop where
  plain : ∀ entry ∈ w.arrived, ¬ entry.notice ∧ (entry.isHeartbeat → ¬ entry.terminal)
  matched : List.Forall₂ (Marks w.arrived) w.fanout.line w.marks
  sorted : w.marks.reduceOption.Pairwise (· < ·)
  accounted : (w.marks.reduceOption ++ w.shed.map (·.arrival) ++ w.unsent).Perm (List.range w.arrived.length)
  noticed : ¬ w.fanout.closed → Fanout.Noticed w.fanout
  emptied : w.fanout.closed → w.fanout.pending = []
  unlost : ¬ w.fanout.closed → w.unsent = []
  covered : ∀ d ∈ w.shed, Covered w d

theorem Kept.empty : Kept ({} : Watched T) where
  plain _ hentry := absurd hentry List.not_mem_nil
  matched := .nil
  sorted := .nil
  accounted := .refl _
  noticed _ := Fanout.Noticed.empty
  emptied _ := rfl
  unlost _ := rfl
  covered _ hd := absurd hd List.not_mem_nil

theorem forall₂_split {α β : Type} {R : α → β → Prop} {a b : List α} {m : List β} (h : List.Forall₂ R (a ++ b) m) :
    ∃ ma mb, m = ma ++ mb ∧ List.Forall₂ R a ma ∧ List.Forall₂ R b mb := by
  refine ⟨m.take a.length, m.drop a.length, (List.take_append_drop _ _).symm, ?_, ?_⟩
  · have := List.forall₂_take a.length h
    rwa [List.take_left'] at this
    rfl
  · have := List.forall₂_drop a.length h
    rwa [List.drop_left'] at this
    rfl

/-- Where a frame is shed, the marks split at it as the queue does. -/
theorem Kept.shedding (h : Kept w) (hopen : ¬ w.fanout.closed) (hfull : w.fanout.full maxPending) (lastId : Option ℕ) :
    ∃ sent before n after dropped, w.marks = sent ++ (before ++ some n :: after) ∧
      sent.length = w.fanout.wire.length ∧ w.arrived[n]? = some dropped ∧
      w.fanout.pending[Fanout.dropIndex w.fanout.pending]? = some dropped ∧
      (w.makeRoom lastId).shed = w.shed ++ [⟨n, w.fanout.wire.length, w.fanout.pending⟩] ∧
      List.Forall₂ (Marks w.arrived) (w.makeRoom lastId).fanout.line (w.makeRoom lastId).marks ∧
      ((dropped.isHeartbeat ∨ none ∈ before) ∧ (w.makeRoom lastId).marks = sent ++ (before ++ after) ∨
        ¬ dropped.isHeartbeat ∧ (w.makeRoom lastId).marks = sent ++ none :: (before ++ after)) := by
  obtain ⟨front, dropped, back, hsplit, hlen, hnotice, hfront, hshed⟩ :=
    Fanout.shed_eq (h.noticed hopen) hfull lastId
  have hmatched := h.matched
  rw [Fanout.line, hsplit] at hmatched
  obtain ⟨sent, queued, hmarks, hsent, hqueued⟩ := forall₂_split hmatched
  obtain ⟨before, rest, rfl, hbefore, hrest⟩ := forall₂_split hqueued
  obtain ⟨mark, after, hmark, hafter, rfl⟩ := List.forall₂_cons_left_iff.mp hrest
  obtain ⟨n, rfl⟩ : ∃ n, mark = some n := by
    rcases mark with _ | n
    · exact absurd hmark.1 hnotice
    · exact ⟨n, rfl⟩
  have hindex : w.fanout.wire.length + Fanout.dropIndex w.fanout.pending = (sent ++ before).length := by
    rw [List.length_append, hsent.length_eq, ← hbefore.length_eq, hlen]
  have hat : w.marks[w.fanout.wire.length + Fanout.dropIndex w.fanout.pending]? = some (some n) := by
    rw [hindex, hmarks, ← List.append_assoc, List.getElem?_append_right (le_refl _)]
    simp
  have herase : w.marks.eraseIdx (w.fanout.wire.length + Fanout.dropIndex w.fanout.pending) = sent ++ (before ++ after) := by
    rw [hindex, hmarks, ← List.append_assoc, List.eraseIdx_append_of_length_le (le_refl _)]
    simp
  have hget : w.fanout.pending[Fanout.dropIndex w.fanout.pending]? = some dropped := by
    rw [← hlen, hsplit, List.getElem?_append_right (le_refl _)]
    simp
  refine ⟨sent, before, n, after, dropped, hmarks, hsent.length_eq.symm, hmark, hget, ?_, ?_⟩
  · simp [makeRoom, hat]
  rcases hshed with ⟨hwhy, hshed⟩ | ⟨hheartbeat, hgap, hshed⟩
  · have hsame : (w.makeRoom lastId).marks = sent ++ (before ++ after) := by
      simp only [makeRoom, hshed, if_true, herase]
    refine ⟨?_, .inl ⟨?_, hsame⟩⟩
    · rw [hsame]
      simp only [makeRoom, hshed, Fanout.line]
      exact List.rel_append hsent (List.rel_append hbefore hafter)
    · refine hwhy.imp id fun hgap => ?_
      -- The notice at the head of the queue is marked as one.
      obtain ⟨head, others, hcons, hhead, -⟩ := (h.noticed hopen).standing hgap
      obtain ⟨first, middle, rfl⟩ := List.exists_cons_of_ne_nil (hfront hgap)
      rw [hsplit, List.cons_append] at hcons
      obtain ⟨rfl, -⟩ := List.cons.inj hcons
      obtain ⟨mark, marks, hmark', -, rfl⟩ := List.forall₂_cons_left_iff.mp hbefore
      rcases mark with _ | k
      · exact List.mem_cons_self
      · exact absurd hhead (h.plain first (List.mem_of_getElem? hmark')).1
  · have hnew : (w.makeRoom lastId).marks = sent ++ none :: (before ++ after) := by
      have hne : ¬ true = w.fanout.gapNotice := fun h => hgap h.symm
      simp only [makeRoom, hshed, herase, if_neg hne]
      rw [List.take_left' hsent.length_eq.symm, List.drop_left' hsent.length_eq.symm]
    refine ⟨?_, .inr ⟨hheartbeat, hnew⟩⟩
    rw [hnew]
    simp only [makeRoom, hshed, Fanout.line]
    exact List.rel_append hsent (.cons ⟨rfl, rfl⟩ (List.rel_append hbefore hafter))

/-- A terminal frame is what `dropIndex` picks only where nothing else is left to shed. -/
theorem terminal_of_dropIndex {pending : List (Pending T)} {dropped : Pending T}
    (h : pending[Fanout.dropIndex pending]? = some dropped) (hterminal : dropped.terminal) (hplain : ¬ dropped.isHeartbeat) :
    ∀ queued ∈ pending, queued.terminal ∧ ¬ queued.isHeartbeat := by
  unfold Fanout.dropIndex at h
  split at h
  · rename_i index hindex
    obtain ⟨hlt, hheartbeat, -⟩ := List.findIdx?_eq_some_iff_getElem.mp hindex
    rw [List.getElem?_eq_getElem hlt] at h
    cases h
    exact absurd hheartbeat hplain
  rename_i hheartbeats
  split at h
  · rename_i index hindex
    obtain ⟨hlt, hnot, -⟩ := List.findIdx?_eq_some_iff_getElem.mp hindex
    rw [List.getElem?_eq_getElem hlt] at h
    cases h
    simp [hterminal] at hnot
  rename_i hterminals
  intro queued hqueued
  refine ⟨?_, ?_⟩
  · simpa using List.findIdx?_eq_none_iff.mp hterminals queued hqueued
  · simpa using List.findIdx?_eq_none_iff.mp hheartbeats queued hqueued

theorem Kept.makeRoom (h : Kept w) (hopen : ¬ w.fanout.closed) (hfull : w.fanout.full maxPending) (lastId : Option ℕ) :
    Kept (w.makeRoom lastId) := by
  obtain ⟨sent, before, n, after, dropped, hmarks, hsent, harrived, hget, hshed, hmatched, hnew⟩ :=
    h.shedding hopen hfull lastId
  obtain ⟨_, _, _, -, -, hnoticed, hwire, hclosed, -⟩ := Fanout.shed_cases (h.noticed hopen) hfull lastId
  have hsorted := h.sorted
  rw [hmarks, List.reduceOption_append, List.reduceOption_append, List.reduceOption_cons_of_some,
    List.pairwise_append] at hsorted
  obtain ⟨hsentSorted, hqueueSorted, hsentLt⟩ := hsorted
  obtain ⟨-, -, hbeforeLt⟩ := List.pairwise_append.mp hqueueSorted
  have hsentN : ∀ m, some m ∈ sent → m < n := fun m hm =>
    hsentLt m (List.reduceOption_mem_iff.mpr hm) n (by simp)
  have hbeforeN : ∀ m, some m ∈ before → m < n := fun m hm =>
    hbeforeLt m (List.reduceOption_mem_iff.mpr hm) n List.mem_cons_self
  have hkept : (w.makeRoom lastId).marks.reduceOption = sent.reduceOption ++ (before.reduceOption ++ after.reduceOption) := by
    rcases hnew with ⟨-, hnew⟩ | ⟨-, hnew⟩ <;>
      simp only [hnew, List.reduceOption_append, List.reduceOption_cons_of_none]
  refine ⟨h.plain, hmatched, ?_, ?_, fun _ => hnoticed, fun hc => absurd (hclosed.symm.trans hc) hopen, fun _ => h.unlost hopen,
    fun d hd => ?_⟩
  · rw [hkept, List.pairwise_append]
    refine ⟨hsentSorted, ?_, fun m hm k hk => hsentLt m hm k ?_⟩
    · exact hqueueSorted.sublist (List.Sublist.append (.refl _) (List.sublist_cons_self _ _))
    · rcases List.mem_append.mp hk with hk | hk <;> simp [hk]
  · refine List.Perm.trans ?_ h.accounted
    have hwas : w.marks.reduceOption = sent.reduceOption ++ (before.reduceOption ++ n :: after.reduceOption) := by
      simp only [hmarks, List.reduceOption_append, List.reduceOption_cons_of_some]
    rw [hkept, hshed, hwas, List.map_append]
    refine List.Perm.append_right _ ?_
    simp only [List.map_cons, List.map_nil, List.append_assoc]
    refine List.Perm.append_left _ (List.Perm.append_left _ ?_)
    rw [← List.append_assoc]
    exact List.perm_append_singleton _ _
  rw [hshed] at hd
  rcases List.mem_append.mp hd with hd | hd
  · have hc := h.covered d hd
    obtain ⟨entry, hentry, hqueue, hterminal, htold⟩ := hc.frame
    have hle : d.handed ≤ sent.length := hsent ▸ hc.handed
    have htake : (w.makeRoom lastId).marks.take d.handed = w.marks.take d.handed := by
      rcases hnew with ⟨-, hnew⟩ | ⟨-, hnew⟩ <;>
        rw [hnew, hmarks, List.take_append_of_le_length hle, List.take_append_of_le_length hle]
    refine ⟨hwire ▸ hc.handed, fun m hm => hc.earlier m (htake ▸ hm), entry, hentry, hqueue, hterminal, fun hplain => ?_⟩
    obtain ⟨htold, hnone⟩ := htold hplain
    have hnone := hnone hopen
    rw [hmarks, List.drop_append_of_le_length hle] at htold hnone
    rcases hnew with ⟨-, hnew⟩ | ⟨-, hnew⟩
    · rw [hnew, List.drop_append_of_le_length hle]
      rw [← List.append_assoc] at htold ⊢
      exact ⟨htold.erase, fun _ => by simpa using hnone⟩
    · rw [hnew, List.drop_append_of_le_length hle]
      rw [← List.append_assoc] at htold
      have herased := htold.erase
      rw [List.append_assoc] at herased
      exact ⟨herased.insert, fun _ => by simp⟩
  · obtain rfl := List.mem_singleton.mp hd
    have htake : (w.makeRoom lastId).marks.take w.fanout.wire.length = sent := by
      rcases hnew with ⟨-, hnew⟩ | ⟨-, hnew⟩ <;> rw [hnew, List.take_left' hsent]
    refine ⟨hwire ▸ le_refl _, fun m hm => hsentN m (htake ▸ hm), dropped, harrived, List.mem_of_getElem? hget,
      fun hterminal => ?_, fun hplain => ?_⟩
    · refine terminal_of_dropIndex hget hterminal fun hheartbeat => ?_
      exact (h.plain dropped (List.mem_of_getElem? harrived)).2 hheartbeat hterminal
    · rcases hnew with ⟨hwhy, hnew⟩ | ⟨-, hnew⟩
      · have hnone := hwhy.resolve_left hplain
        dsimp only
        rw [hnew, List.drop_left' hsent]
        exact ⟨(Told.of_lt hbeforeN).append hnone _, fun _ => List.mem_append_left _ hnone⟩
      · dsimp only
        rw [hnew, List.drop_left' hsent]
        exact ⟨trivial, fun _ => List.mem_cons_self⟩

theorem arrived_append {arrived : List (Pending T)} (h : arrived[n]? = some entry) (next : Pending T) :
    (arrived ++ [next])[n]? = some entry := by
  rw [List.getElem?_append_left (List.getElem?_eq_some_iff.mp h).1]
  exact h

theorem Marks.append {arrived : List (Pending T)} {mark : Option ℕ} (h : Marks arrived entry mark) (next : Pending T) :
    Marks (arrived ++ [next]) entry mark := by
  rcases mark with _ | n
  · exact h
  · exact arrived_append h next

theorem Covered.moved {w' : Watched T} {d : Shed T} (h : Covered w d) (hwire : w.fanout.wire.length ≤ w'.fanout.wire.length)
    (harrived : w'.arrived = w.arrived) (hmarks : w'.marks = w.marks) (hclosed : w'.fanout.closed = w.fanout.closed) :
    Covered w' d := by
  obtain ⟨entry, hentry, hqueue, hterminal, htold⟩ := h.frame
  refine ⟨h.handed.trans hwire, hmarks ▸ h.earlier, entry, harrived ▸ hentry, hqueue, hterminal, fun hplain => ?_⟩
  rw [hmarks, hclosed]
  exact htold hplain

theorem arrival_plain (arrival : Arrival T) :
    ¬ arrival.pending.notice ∧ (arrival.pending.isHeartbeat → ¬ arrival.pending.terminal) := by
  rcases arrival with ⟨payload, id, terminal⟩ | ⟨lastEventId, throughId⟩ | _
  · exact ⟨Bool.false_ne_true, fun h => absurd h Bool.false_ne_true⟩
  · exact ⟨Bool.false_ne_true, fun h => absurd h Bool.false_ne_true⟩
  · exact ⟨Bool.false_ne_true, fun _ => Bool.false_ne_true⟩

theorem wire_writeNext (f : Fanout T) : f.wire.length ≤ f.writeNext.wire.length := by
  rcases hp : f.pending with _ | ⟨entry, rest⟩ <;> simp [Fanout.writeNext, hp]

theorem wire_flush (f : Fanout T) : f.wire.length ≤ f.flush.wire.length := by
  unfold Fanout.flush
  split_ifs
  · exact le_refl f.wire.length
  · exact wire_writeNext f

theorem wire_written (f : Fanout T) : f.wire.length ≤ f.written.wire.length := by
  unfold Fanout.written
  split_ifs
  · exact le_refl f.wire.length
  · exact wire_writeNext f
  · exact le_refl f.wire.length

theorem Kept.place (h : Kept w) (hopen : ¬ w.fanout.closed) (hentry : ¬ entry.notice ∧ (entry.isHeartbeat → ¬ entry.terminal)) :
    Kept (w.place entry) := by
  have hline : (w.place entry).fanout.line = w.fanout.line ++ [entry] := by
    simp only [Watched.place, Fanout.line_flush]
    simp only [Fanout.line, List.append_assoc]
  have hclosed : (w.place entry).fanout.closed = w.fanout.closed := Fanout.closed_flush _
  have hwire : w.fanout.wire.length ≤ (w.place entry).fanout.wire.length :=
    wire_flush { w.fanout with pending := w.fanout.pending ++ [entry] }
  have hnumbers : (w.place entry).marks.reduceOption = w.marks.reduceOption ++ [w.arrived.length] := by
    simp only [Watched.place, List.reduceOption_append]
    rfl
  have hbound : ∀ n, some n ∈ w.marks → n < w.arrived.length := by
    intro n hn
    have hmem := h.accounted.subset (List.mem_append_left _ (List.mem_append_left _ (List.reduceOption_mem_iff.mpr hn)))
    exact List.mem_range.mp hmem
  refine ⟨?_, ?_, ?_, ?_, fun _ => ?_, fun hc => absurd (hclosed.symm.trans hc) hopen, fun _ => h.unlost hopen,
    fun d hd => ?_⟩
  · intro e he
    rcases List.mem_append.mp he with he | he
    · exact h.plain e he
    · rw [List.mem_singleton.mp he]
      exact hentry
  · rw [hline]
    refine List.rel_append (h.matched.imp fun e mark hmark => hmark.append entry) (.cons ?_ .nil)
    exact List.getElem?_concat_length
  · rw [hnumbers, List.pairwise_append]
    refine ⟨h.sorted, List.pairwise_singleton _ _, fun n hn m hm => ?_⟩
    rw [List.mem_singleton.mp hm]
    exact hbound n (List.reduceOption_mem_iff.mp hn)
  · have harrived : (w.place entry).arrived.length = w.arrived.length + 1 := List.length_append
    rw [hnumbers, harrived, List.range_succ]
    refine List.Perm.trans ?_ (h.accounted.append_right [w.arrived.length])
    simp only [Watched.place, List.append_assoc]
    refine List.Perm.append_left _ ?_
    rw [← List.append_assoc (w.shed.map _)]
    exact List.perm_append_comm
  · exact Fanout.Noticed.flush ((h.noticed hopen).snoc hentry.1)
  · have hc := h.covered d hd
    obtain ⟨e, he, hqueue, hterminal, htold⟩ := hc.frame
    have hle : d.handed ≤ w.marks.length := by
      rw [← h.matched.length_eq, Fanout.line, List.length_append]
      exact hc.handed.trans (Nat.le_add_right _ _)
    have htake : (w.place entry).marks.take d.handed = w.marks.take d.handed := List.take_append_of_le_length hle
    have hdrop : (w.place entry).marks.drop d.handed = w.marks.drop d.handed ++ [some w.arrived.length] :=
      List.drop_append_of_le_length hle
    refine ⟨hc.handed.trans hwire, fun m hm => hc.earlier m (htake ▸ hm), e, arrived_append he entry, hqueue,
      hterminal, fun hplain => ?_⟩
    obtain ⟨htold, hnone⟩ := htold hplain
    rw [hdrop]
    exact ⟨htold.append (hnone hopen) _, fun _ => List.mem_append_left _ (hnone hopen)⟩

theorem Kept.written (h : Kept w) : Kept { w with fanout := w.fanout.written } := by
  have hclosed := Fanout.closed_written w.fanout
  refine ⟨h.plain, ?_, h.sorted, h.accounted, fun hopen => ?_, fun hc => ?_, fun hopen => h.unlost (hclosed ▸ hopen),
    fun d hd => (h.covered d hd).moved (wire_written _) rfl rfl hclosed⟩
  · dsimp only
    rw [Fanout.line_written]
    exact h.matched
  · rw [hclosed] at hopen
    exact (h.noticed hopen).written hopen
  · rw [hclosed] at hc
    have hpending := h.emptied hc
    unfold Fanout.written
    split_ifs
    · exact hpending
    · exact hpending

/-- Given up, the connection keeps what it was handed, and what was queued is gone. -/
theorem Kept.giveUp (h : Kept w) {fanout : Fanout T} (hwire : fanout.wire = w.fanout.wire) (hclosed : fanout.closed)
    (hpending : fanout.pending = []) : Kept { w.giveUp with fanout } := by
  have hline : fanout.line = w.fanout.line.take w.fanout.wire.length := by
    simp only [Fanout.line, hwire, hpending, List.append_nil]
    exact (List.take_left' rfl).symm
  have hsplit : w.marks.reduceOption = (w.marks.take w.fanout.wire.length).reduceOption ++
      (w.marks.drop w.fanout.wire.length).reduceOption := by
    rw [← List.reduceOption_append, List.take_append_drop]
  refine ⟨h.plain, ?_, ?_, ?_, fun hopen => absurd hclosed hopen, fun _ => hpending, fun hopen => absurd hclosed hopen,
    fun d hd => ?_⟩
  · dsimp only
    rw [hline]
    exact List.forall₂_take _ h.matched
  · have hsorted := h.sorted
    rw [hsplit] at hsorted
    exact (List.pairwise_append.mp hsorted).1
  · refine List.Perm.trans ?_ h.accounted
    rw [hsplit]
    simp only [Watched.giveUp, List.append_assoc]
    refine List.Perm.append_left _ ?_
    rw [← List.append_assoc]
    exact List.perm_append_comm
  · have hc := h.covered d hd
    obtain ⟨e, he, hqueue, hterminal, htold⟩ := hc.frame
    refine ⟨hwire ▸ hc.handed, fun m hm => ?_, e, he, hqueue, hterminal, fun hplain => ⟨?_, fun hopen => absurd hclosed hopen⟩⟩
    · have hm' : some m ∈ (w.marks.take w.fanout.wire.length).take d.handed := hm
      rw [List.take_take] at hm'
      exact hc.earlier m (by rwa [min_eq_left hc.handed] at hm')
    · have hdrop : w.marks.drop d.handed =
          (w.marks.take w.fanout.wire.length).drop d.handed ++ w.marks.drop w.fanout.wire.length := by
        conv_lhs => rw [← List.take_append_drop w.fanout.wire.length w.marks]
        refine List.drop_append_of_le_length ?_
        rw [List.length_take, ← h.matched.length_eq, Fanout.line, List.length_append]
        exact le_min hc.handed (hc.handed.trans (Nat.le_add_right _ _))
      have hwhole := (htold hplain).1
      rw [hdrop] at hwhole
      exact hwhole.left

theorem Kept.step (h : Kept w) (moment : Moment T) : Kept (w.step maxPending moment) := by
  rcases moment with ⟨lastId, arrival⟩ | _ | _ | _
  · by_cases hclosed : w.fanout.closed
    · simp only [Watched.step, if_pos hclosed]
      exact h
    simp only [Watched.step, if_neg hclosed]
    by_cases hfull : w.fanout.full maxPending
    · rw [if_pos hfull]
      obtain ⟨_, _, _, -, -, -, -, hsame, -⟩ := Fanout.shed_cases (h.noticed hclosed) hfull lastId
      exact (h.makeRoom hclosed hfull lastId).place (fun hc => hclosed (hsame.symm.trans hc)) (arrival_plain arrival)
    · rw [if_neg hfull]
      exact h.place hclosed (arrival_plain arrival)
  · exact h.written
  · simp only [Watched.step]
    split_ifs with hwriting
    · refine h.giveUp ?_ (w.fanout.closed_writeFailed hwriting) ?_
      · rw [Fanout.writeFailed, if_neg (by simpa using hwriting)]
        exact w.fanout.wire_cleanup
      · rw [Fanout.writeFailed, if_neg (by simpa using hwriting)]
        exact Fanout.pending_cleanup h.emptied
    · exact h
  · exact h.giveUp w.fanout.wire_cleanup w.fanout.closed_cleanup (Fanout.pending_cleanup h.emptied)

theorem Kept.run (maxPending : ℕ) (moments : List (Moment T)) : Kept (Lib.run (Watched.step maxPending) {} moments) :=
  Lib.invariant_of_run Kept (fun _ moment h => h.step moment) Kept.empty moments

end Watched

namespace Fanout
variable {T : Type}

/-- While the connection stands, what is queued beside the notice is within bounds, and nothing is
queued with no write under way. -/
structure Roomy (maxPending : ℕ) (f : Fanout T) : Prop where
  noticed : ¬ f.closed → Noticed f
  room : ¬ f.closed → f.pending.length ≤ max 1 maxPending + if f.gapNotice then 1 else 0
  busy : ¬ f.closed → ¬ f.writing → f.pending = []
  emptied : f.closed → f.pending = []

variable {f : Fanout T} {maxPending : ℕ}

theorem Roomy.writeNext (hn : Noticed f) (hroom : f.pending.length ≤ max 1 maxPending + if f.gapNotice then 1 else 0)
    (hopen : ¬ f.closed) :
    Roomy maxPending f.writeNext := by
  refine ⟨fun _ => hn.writeNext, fun _ => ?_, fun _ hidle => ?_, fun hc => absurd ((closed_writeNext f).symm.trans hc) hopen⟩
  · rcases hp : f.pending with _ | ⟨entry, rest⟩
    · simp only [Fanout.writeNext, hp, List.length_nil, Nat.zero_le]
    · rw [hp, List.length_cons] at hroom
      simp only [Fanout.writeNext, hp]
      split_ifs at hroom ⊢ <;> omega
  · rcases hp : f.pending with _ | ⟨entry, rest⟩
    · simp only [Fanout.writeNext, hp]
    · simp only [Fanout.writeNext, hp, not_true_eq_false] at hidle

theorem Roomy.enqueue (h : Roomy maxPending f) (lastId : Option ℕ) {entry : Pending T} (hentry : ¬ entry.notice) :
    Roomy maxPending (f.enqueue maxPending lastId entry) := by
  by_cases hclosed : f.closed
  · rw [enqueue_closed hclosed]
    exact h
  have hn := h.noticed hclosed
  -- With one frame shed where there was no room, there is room for this one.
  have hmade : ∃ f' : Fanout T, f.enqueue maxPending lastId entry = flush { f' with pending := f'.pending ++ [entry] } ∧
      Noticed f' ∧ ¬ f'.closed ∧ f'.writing = f.writing ∧
      f'.pending.length < max 1 maxPending + if f'.gapNotice then 1 else 0 := by
    by_cases hfull : f.full maxPending
    · obtain ⟨_, _, _, -, -, hnoticed, -, hopen, -⟩ := shed_cases hn hfull lastId
      obtain ⟨front, dropped, back, hsplit, -, -, -, hshed⟩ := shed_eq hn hfull lastId
      refine ⟨f.shed lastId, by simp only [Fanout.enqueue, if_neg hclosed, if_pos hfull], hnoticed,
        fun hc => hclosed (hopen.symm.trans hc), ?_, ?_⟩
      · rcases hshed with ⟨-, hshed⟩ | ⟨-, -, hshed⟩ <;> rw [hshed]
      · have hroom := h.room hclosed
        rw [hsplit, List.length_append, List.length_cons] at hroom
        rcases hshed with ⟨-, hshed⟩ | ⟨-, hgap, hshed⟩
        · rw [hshed]
          dsimp only
          rw [List.length_append]
          split_ifs at hroom ⊢ <;> omega
        · rw [if_neg hgap] at hroom
          simp only [hshed, if_true, List.length_cons, List.length_append]
          omega
    · refine ⟨f, by simp only [Fanout.enqueue, if_neg hclosed, if_neg hfull], hn, hclosed, rfl, ?_⟩
      simp only [full, decide_eq_true_eq, not_le] at hfull
      split_ifs at hfull ⊢ <;> omega
  obtain ⟨f', heq, hn', hopen, hwriting, hroom⟩ := hmade
  rw [heq, Fanout.flush]
  have hlen : (f'.pending ++ [entry]).length ≤ max 1 maxPending + if f'.gapNotice then 1 else 0 := by
    rw [List.length_append, List.length_singleton]
    omega
  split_ifs with hbusy
  · exact ⟨fun _ => hn'.snoc hentry, fun _ => hlen, fun _ hidle => absurd hbusy hidle, fun hc => absurd hc hopen⟩
  · exact Roomy.writeNext (hn'.snoc hentry) hlen hopen

theorem Roomy.given_up (hclosed : f.closed) (hpending : f.pending = []) :
    Roomy maxPending f :=
  ⟨fun hopen => absurd hclosed hopen, fun hopen => absurd hclosed hopen, fun hopen => absurd hclosed hopen,
    fun _ => hpending⟩

theorem Roomy.step (h : Roomy maxPending f) (moment : Moment T) :
    Roomy maxPending (f.step maxPending moment) := by
  rcases moment with ⟨lastId, arrival⟩ | _ | _ | _
  · exact h.enqueue lastId (Watched.arrival_plain arrival).1
  · simp only [Fanout.step, Fanout.written]
    by_cases hwriting : f.writing
    · rw [if_neg (by simpa using hwriting)]
      by_cases hclosed : f.closed
      · rw [if_pos hclosed]
        exact Roomy.given_up hclosed (h.emptied hclosed)
      · rw [if_neg hclosed]
        exact Roomy.writeNext (h.noticed hclosed) (h.room hclosed) hclosed
    · rw [if_pos hwriting]
      exact h
  · by_cases hwriting : f.writing
    · refine Roomy.given_up (f.closed_writeFailed hwriting) ?_
      simp only [Fanout.step, Fanout.writeFailed, if_neg (not_not.mpr hwriting)]
      exact pending_cleanup h.emptied
    · simp only [Fanout.step, Fanout.writeFailed, if_pos hwriting]
      exact h
  · exact Roomy.given_up f.closed_cleanup (pending_cleanup h.emptied)

theorem Roomy.empty (maxPending : ℕ) : Roomy maxPending ({} : Fanout T) :=
  ⟨fun _ => Noticed.empty, fun _ => Nat.zero_le _, fun _ _ => rfl, fun _ => rfl⟩

theorem Roomy.run (maxPending : ℕ) (moments : List (Moment T)) :
    Roomy maxPending (Lib.run (Fanout.step maxPending) ({} : Fanout T) moments) :=
  Lib.invariant_of_run (Roomy maxPending) (fun _ moment h => h.step moment) (Roomy.empty maxPending) moments

end Fanout

/-- What a fan-out owes its reader, over the account of a run. -/
structure HidesNoDrop {T : Type} (maxPending : ℕ) (w : Watched T) : Prop where
  /-- The queue holds no more than its bound and the one notice. -/
  bounded : w.fanout.pending.length ≤ max 1 maxPending + if w.fanout.pending.any (·.notice) then 1 else 0
  /-- Each frame written or queued is a notice, or the arrival its mark names. -/
  matched : List.Forall₂ (Watched.Marks w.arrived) w.fanout.line w.marks
  /-- They stand in the order of their arrival, none twice. -/
  ordered : w.marks.reduceOption.Pairwise (· < ·)
  /-- Each arrival is on the line once, or was shed once, or was still queued when the connection was given up. -/
  accounted : (w.marks.reduceOption ++ w.shed.map (·.arrival) ++ w.unsent).Perm (List.range w.arrived.length)
  unsent : ¬ w.fanout.closed → w.unsent = []
  /-- Writes that go on resolving hand over all that is queued. -/
  progress : ¬ w.fanout.closed →
    (Lib.run (Fanout.step maxPending) w.fanout (List.replicate w.fanout.pending.length .written)).wire = w.fanout.line
  /-- Between a shedding and any later arrival on the line stands a notice that was not yet handed over. -/
  told : ∀ d ∈ w.shed, ∀ entry, w.arrived[d.arrival]? = some entry → ¬ entry.isHeartbeat →
    (∀ j m, w.marks[j]? = some (some m) → d.arrival < m →
      ∃ i, d.handed ≤ i ∧ i < j ∧ ∃ notice, w.fanout.line[i]? = some notice ∧ notice.notice ∧ notice.isGap) ∧
    (¬ w.fanout.closed → ∃ i, d.handed ≤ i ∧ ∃ notice, w.fanout.line[i]? = some notice ∧ notice.notice ∧ notice.isGap)
  /-- A terminal frame is shed from a queue with nothing else in it. -/
  terminal : ∀ d ∈ w.shed, ∀ entry, w.arrived[d.arrival]? = some entry → entry ∈ d.queue ∧
    (entry.terminal → ∀ queued ∈ d.queue, queued.terminal ∧ ¬ queued.isHeartbeat)
  /-- A queued notice is at the head, so there is one at most. -/
  atHead : ∀ i entry, w.fanout.pending[i]? = some entry → entry.notice → i = 0

variable {T : Type} {maxPending : ℕ} {f : Fanout T}

theorem Fanout.progress (h : Roomy maxPending f) (hopen : ¬ f.closed) :
    (Lib.run (step maxPending) f (List.replicate f.pending.length .written)).wire = f.line := by
  induction hp : f.pending generalizing f with
  | nil => simp [line, hp]
  | cons entry rest ih =>
    have hwriting : f.writing := by
      by_contra hidle
      have hnil := h.busy hopen hidle
      rw [hp] at hnil
      cases hnil
    have hstep : f.step maxPending .written = f.writeNext := by
      simp only [step, written, if_neg (not_not.mpr hwriting), if_neg hopen]
    have hnext : f.writeNext.pending = rest := by simp only [writeNext, hp]
    rw [List.length_cons, List.replicate_succ, Lib.run_cons, hstep]
    rw [ih (hstep ▸ h.step .written) (by rwa [closed_writeNext]) hnext, line_writeNext]

theorem Fanout.notice_at_head (h : Roomy maxPending f) :
    ∀ i entry, f.pending[i]? = some entry → entry.notice → i = 0 := by
  intro i entry hentry hnotice
  by_cases hclosed : f.closed
  · rw [h.emptied hclosed] at hentry
    cases hentry
  by_cases hgap : f.gapNotice
  · obtain ⟨head, rest, hcons, -, -, -, -, hrest⟩ := (h.noticed hclosed).standing hgap
    rcases i with _ | i
    · rfl
    · rw [hcons, List.getElem?_cons_succ] at hentry
      exact absurd hnotice (hrest entry (List.mem_of_getElem? hentry))
  · exact absurd hnotice ((h.noticed hclosed).none hgap entry (List.mem_of_getElem? hentry))

theorem Fanout.bounded (h : Roomy maxPending f) :
    f.pending.length ≤ max 1 maxPending + if f.pending.any (·.notice) then 1 else 0 := by
  by_cases hclosed : f.closed
  · rw [h.emptied hclosed]
    exact Nat.zero_le _
  have hroom := h.room hclosed
  by_cases hgap : f.gapNotice
  · obtain ⟨head, rest, hcons, hnotice, -⟩ := (h.noticed hclosed).standing hgap
    have hany : f.pending.any (·.notice) := by simp [hcons, hnotice]
    rw [if_pos hany]
    rwa [if_pos hgap] at hroom
  · rw [if_neg hgap] at hroom
    exact hroom.trans (Nat.le_add_right _ _)

theorem Watched.Kept.notice_at {w : Watched T} (h : w.Kept) {i : ℕ} (hnone : w.marks[i]? = some none) :
    ∃ notice, w.fanout.line[i]? = some notice ∧ notice.notice ∧ notice.isGap := by
  obtain ⟨hlt, hget⟩ := List.getElem?_eq_some_iff.mp hnone
  have hlt' : i < w.fanout.line.length := h.matched.length_eq ▸ hlt
  have hmark := h.matched.get hlt' hlt
  rw [List.get_eq_getElem, List.get_eq_getElem, hget] at hmark
  exact ⟨_, List.getElem?_eq_getElem hlt', hmark⟩

theorem Watched.Kept.told {T : Type} {w : Watched T} (h : w.Kept) {d : Shed T} (hd : d ∈ w.shed) {entry : Pending T}
    (hentry : w.arrived[d.arrival]? = some entry) (hplain : ¬ entry.isHeartbeat) :
    (∀ j m, w.marks[j]? = some (some m) → d.arrival < m →
      ∃ i, d.handed ≤ i ∧ i < j ∧ ∃ notice, w.fanout.line[i]? = some notice ∧ notice.notice ∧ notice.isGap) ∧
    (¬ w.fanout.closed → ∃ i, d.handed ≤ i ∧ ∃ notice, w.fanout.line[i]? = some notice ∧ notice.notice ∧ notice.isGap) := by
  have hc := h.covered d hd
  obtain ⟨e, he, -, -, htold⟩ := hc.frame
  obtain rfl : e = entry := Option.some.inj (he.symm.trans hentry)
  obtain ⟨htold, hstanding⟩ := htold hplain
  refine ⟨fun j m hm hlt => ?_, fun hopen => ?_⟩
  · have hge : d.handed ≤ j := by
      by_contra hlow
      have hmem : some m ∈ w.marks.take d.handed :=
        List.mem_of_getElem? ((List.getElem?_take_of_lt (by omega)).trans hm)
      have := hc.earlier m hmem
      omega
    have hdrop : (w.marks.drop d.handed)[j - d.handed]? = some (some m) := by
      rw [List.getElem?_drop, Nat.add_sub_cancel' hge]
      exact hm
    obtain ⟨i, hi, hnone⟩ := htold.exists_none hdrop hlt.le
    rw [List.getElem?_drop] at hnone
    exact ⟨d.handed + i, Nat.le_add_right _ _, by omega, h.notice_at hnone⟩
  · obtain ⟨i, hi⟩ := List.getElem?_of_mem (hstanding hopen)
    rw [List.getElem?_drop] at hi
    exact ⟨d.handed + i, Nat.le_add_right _ _, h.notice_at hi⟩

/-- Whatever arrives, and however the writes resolve, the account of a fan-out is that of what
`attachSseFanout` did, and it hides no drop. -/
theorem fanout_hides_no_drop {T : Type} (maxPending : ℕ) (moments : List (Moment T)) :
    (Lib.run (Watched.step maxPending) {} moments).fanout = Lib.run (Fanout.step maxPending) {} moments ∧
      HidesNoDrop maxPending (Lib.run (Watched.step maxPending) {} moments) := by
  have hkept := Watched.Kept.run maxPending moments
  have hfanout := Watched.fanout_run maxPending moments {}
  have hroomy := hfanout ▸ Fanout.Roomy.run maxPending moments
  refine ⟨hfanout, ?_⟩
  exact
    { bounded := Fanout.bounded hroomy
      matched := hkept.matched
      ordered := hkept.sorted
      accounted := hkept.accounted
      unsent := hkept.unlost
      progress := Fanout.progress hroomy
      told := fun d hd entry hentry hplain => hkept.told hd hentry hplain
      terminal := fun d hd entry hentry => by
        obtain ⟨e, he, hqueue, hterminal, -⟩ := (hkept.covered d hd).frame
        obtain rfl : e = entry := Option.some.inj (he.symm.trans hentry)
        exact ⟨hqueue, hterminal⟩
      atHead := Fanout.notice_at_head hroomy }

end Claxedo.Events
