import Claxedo.Lib.Run
import Claxedo.Events.ReplayBuffer

/-! `attachSseFanout`: the pending queue between a stream of events and one connection. A write is
under way until the connection has taken the frame; meanwhile frames queue up, and past `maxPending`
one is shed for each that arrives, with a notice of the loss at the head of the queue. -/

namespace Claxedo.Events

inductive SseFrame (T : Type) where
  | heartbeat
  | replayGap (lastEventId throughId : Option ℕ)
  | event (payload : T)

/-- A frame to write; `notice` marks the one that stands for what was shed. -/
structure Pending (T : Type) where
  frame : SseFrame T
  id : Option ℕ := none
  terminal : Bool := false
  notice : Bool := false

/-- `gapNotice` says that a notice stands in the queue; `wire` is what was handed to the connection. -/
structure Fanout (T : Type) where
  pending : List (Pending T) := []
  gapNotice : Bool := false
  writing : Bool := false
  closed : Bool := false
  wire : List (Pending T) := []

section
variable {T : Type}

def Pending.isHeartbeat (entry : Pending T) : Bool :=
  match entry.frame with
  | .heartbeat => true
  | _ => false

def Pending.isGap (entry : Pending T) : Bool :=
  match entry.frame with
  | .replayGap _ _ => true
  | _ => false

theorem Pending.not_isHeartbeat_of_isGap (entry : Pending T) (h : entry.isGap) : ¬ entry.isHeartbeat := by
  rcases entry with ⟨_ | ⟨_, _⟩ | _, _, _, _⟩
  · cases h
  · exact Bool.false_ne_true
  · cases h

namespace Fanout

/-- The frame to shed: a heartbeat, else the first that is not terminal, else the first but the notice. -/
def dropIndex (pending : List (Pending T)) : ℕ :=
  match pending.findIdx? (·.isHeartbeat) with
  | some index => index
  | none =>
    match pending.findIdx? fun entry => ¬ entry.terminal with
    | some index => index
    | none => if pending.head?.any (·.notice) ∧ 1 < pending.length then 1 else 0

/-- One notice stands at the head until it is written, and covers every drop meanwhile. -/
def noteDrop (lastId : Option ℕ) (dropped : Pending T) (f : Fanout T) : Fanout T :=
  if dropped.isHeartbeat ∨ f.gapNotice then f
  else
    { f with
      gapNotice := true
      pending := { frame := .replayGap dropped.id lastId, terminal := true, notice := true } :: f.pending }

def full (maxPending : ℕ) (f : Fanout T) : Bool :=
  max 1 maxPending ≤ f.pending.length - if f.gapNotice then 1 else 0

def shed (lastId : Option ℕ) (f : Fanout T) : Fanout T :=
  match f.pending[dropIndex f.pending]? with
  | some dropped => noteDrop lastId dropped { f with pending := f.pending.eraseIdx (dropIndex f.pending) }
  | none => f

/-- The loop of `flush` up to its next write. -/
def writeNext (f : Fanout T) : Fanout T :=
  match f.pending with
  | [] => { f with writing := false }
  | entry :: rest =>
    { f with
      pending := rest
      gapNotice := if entry.notice then false else f.gapNotice
      writing := true
      wire := f.wire ++ [entry] }

def flush (f : Fanout T) : Fanout T := if f.writing then f else f.writeNext

def enqueue (maxPending : ℕ) (lastId : Option ℕ) (f : Fanout T) (entry : Pending T) : Fanout T :=
  if f.closed then f
  else
    let f := if f.full maxPending then f.shed lastId else f
    flush { f with pending := f.pending ++ [entry] }

/-- The write under way resolved. -/
def written (f : Fanout T) : Fanout T :=
  if ¬ f.writing then f else if f.closed then { f with writing := false } else f.writeNext

def cleanup (f : Fanout T) : Fanout T :=
  if f.closed then f else { f with closed := true, pending := [] }

/-- The write under way was refused: the connection is done with. -/
def writeFailed (f : Fanout T) : Fanout T :=
  if ¬ f.writing then f else { f.cleanup with writing := false }

/-- What an arriving frame would shed hides nothing: a heartbeat, or a frame with no numbered one before it. -/
def ShedsInTheOpen (maxPending : ℕ) (f : Fanout T) : Prop :=
  ¬ f.closed → f.full maxPending →
    (f.pending[dropIndex f.pending]?.any (·.isHeartbeat) ∨
      ∀ entry ∈ f.pending.take (dropIndex f.pending), entry.id = none)

instance (maxPending : ℕ) (f : Fanout T) : Decidable (ShedsInTheOpen maxPending f) :=
  inferInstanceAs (Decidable (_ → _))

end Fanout

/-- What a reader of the frames can tell: the last number it was given, and whether a gap was
announced since. A number that neither follows on nor comes after an announcement is refused. -/
def announce : ℕ × Bool → List (Pending T) → Option (ℕ × Bool)
  | s, [] => some s
  | (last, gap), entry :: rest =>
    match entry.id with
    | some id => if id = last + 1 ∨ gap then announce (id, false) rest else none
    | none => announce (last, gap || entry.isGap) rest

theorem announce_append (s : ℕ × Bool) (l l' : List (Pending T)) :
    announce s (l ++ l') = (announce s l).bind (announce · l') := by
  induction l generalizing s with
  | nil => rfl
  | cons entry l ih =>
    obtain ⟨last, gap⟩ := s
    rcases hid : entry.id with _ | id
    · simp only [List.cons_append, announce, hid, ih]
    · simp only [List.cons_append, announce, hid]
      split_ifs
      · exact ih _
      · rfl

/-- Frames with no number leave the reader where it is. -/
theorem announce_of_unnumbered {last : ℕ} {gap : Bool} {l : List (Pending T)} (h : ∀ entry ∈ l, entry.id = none) :
    announce (last, gap) l = some (last, gap || l.any (·.isGap)) := by
  induction l generalizing gap with
  | nil => simp [announce]
  | cons entry l ih =>
    obtain ⟨hentry, hl⟩ := List.forall_mem_cons.mp h
    simp only [announce, hentry, ih hl, List.any_cons, Bool.or_assoc]

/-- A reader to whom a gap was announced takes whatever another reader takes, and ends where it
does, or with the gap still open. -/
theorem announce_relax {last : ℕ} (last' : ℕ) {gap : Bool} {l : List (Pending T)} {s : ℕ × Bool}
    (h : announce (last, gap) l = some s) :
    ∃ s', announce (last', true) l = some s' ∧ (s' = s ∨ s'.2 = true) := by
  induction l generalizing last gap with
  | nil => exact ⟨(last', true), rfl, .inr rfl⟩
  | cons entry l ih =>
    rcases hid : entry.id with _ | id
    · simp only [announce, hid, Bool.true_or] at h ⊢
      exact ih h
    · simp only [announce, hid] at h ⊢
      split_ifs at h with hok
      exact ⟨s, by simpa using h, .inl rfl⟩

namespace Fanout

theorem dropIndex_lt {pending : List (Pending T)} (h : pending ≠ []) : dropIndex pending < pending.length := by
  unfold dropIndex
  split
  · rename_i index hindex
    exact (List.findIdx?_eq_some_iff_getElem.mp hindex).1
  · split
    · rename_i index hindex
      exact (List.findIdx?_eq_some_iff_getElem.mp hindex).1
    · split_ifs with hnotice
      · exact hnotice.2
      · exact List.length_pos_iff.mpr h

/-- Where a notice stands at the head, it is not what is shed. -/
theorem dropIndex_pos {head : Pending T} {rest : List (Pending T)} (hnotice : head.notice) (hterminal : head.terminal)
    (hheartbeat : ¬ head.isHeartbeat) (hrest : rest ≠ []) : 0 < dropIndex (head :: rest) := by
  unfold dropIndex
  have hlen : 0 < rest.length := List.length_pos_iff.mpr hrest
  split
  · rename_i index hindex
    rw [List.findIdx?_cons, if_neg hheartbeat] at hindex
    obtain ⟨k, -, rfl⟩ := Option.map_eq_some_iff.mp hindex
    omega
  · split
    · rename_i index hindex
      rw [List.findIdx?_cons, if_neg (by simp [hterminal])] at hindex
      obtain ⟨k, -, rfl⟩ := Option.map_eq_some_iff.mp hindex
      omega
    · rw [if_pos (by simp [hnotice, hlen])]
      omega

/-- The notice stands at the head of the queue exactly while `gapNotice` says so. -/
structure Noticed (f : Fanout T) : Prop where
  standing : f.gapNotice → ∃ head rest, f.pending = head :: rest ∧ head.notice ∧ head.terminal ∧ head.isGap ∧
    head.id = none ∧ ∀ entry ∈ rest, ¬ entry.notice
  none : ¬ f.gapNotice → ∀ entry ∈ f.pending, ¬ entry.notice

/-- Everything written and still to write, in order. -/
def line (f : Fanout T) : List (Pending T) := f.wire ++ f.pending

@[simp] theorem line_writeNext (f : Fanout T) : f.writeNext.line = f.line := by
  rcases hp : f.pending with _ | ⟨entry, rest⟩ <;> simp [writeNext, line, hp]

@[simp] theorem line_flush (f : Fanout T) : f.flush.line = f.line := by
  unfold flush
  split_ifs
  · rfl
  · exact line_writeNext f

@[simp] theorem closed_writeNext (f : Fanout T) : f.writeNext.closed = f.closed := by
  rcases hp : f.pending with _ | ⟨entry, rest⟩ <;> simp [writeNext, hp]

@[simp] theorem closed_flush (f : Fanout T) : f.flush.closed = f.closed := by
  unfold flush
  split_ifs
  · rfl
  · exact closed_writeNext f

variable {f : Fanout T} {entry : Pending T} {cursor maxPending seq seq' : ℕ} {lastId : Option ℕ}

theorem Noticed.writeNext (h : Noticed f) : Noticed f.writeNext := by
  rcases hp : f.pending with _ | ⟨entry, rest⟩
  · have hno : ¬ f.gapNotice := by
      intro hgap
      obtain ⟨_, _, hcons, -⟩ := h.standing hgap
      rw [hp] at hcons
      cases hcons
    simp only [Fanout.writeNext, hp]
    exact ⟨fun hgap => absurd hgap hno, fun _ entry hentry => by simp at hentry⟩
  · simp only [Fanout.writeNext, hp]
    by_cases hgap : f.gapNotice
    · obtain ⟨head, rest', hcons, hnotice, -, -, -, hrest⟩ := h.standing hgap
      obtain ⟨rfl, rfl⟩ := List.cons.inj (hp.symm.trans hcons)
      exact ⟨fun hgap' => by simp [hnotice] at hgap', fun _ => hrest⟩
    · have hno := h.none hgap
      rw [hp] at hno
      refine ⟨fun hgap' => ?_, fun _ e he => hno e (List.mem_cons_of_mem _ he)⟩
      simp only at hgap'
      split_ifs at hgap' with hnotice
      exact absurd hgap' hgap

theorem Noticed.flush (h : Noticed f) : Noticed f.flush := by
  unfold Fanout.flush
  split_ifs
  · exact h
  · exact h.writeNext

theorem Noticed.written (h : Noticed f) (hopen : ¬ f.closed) : Noticed f.written := by
  unfold Fanout.written
  by_cases hwriting : f.writing
  · rw [if_neg (by simpa using hwriting), if_neg hopen]
    exact h.writeNext
  · rw [if_pos hwriting]
    exact h

theorem Noticed.snoc (h : Noticed f) (hentry : ¬ entry.notice) :
    Noticed { f with pending := f.pending ++ [entry] } := by
  refine ⟨fun hgap => ?_, fun hgap e he => ?_⟩
  · obtain ⟨head, rest, hcons, hnotice, hterminal, hisGap, hid, hrest⟩ := h.standing hgap
    refine ⟨head, rest ++ [entry], by simp [hcons], hnotice, hterminal, hisGap, hid, fun e he => ?_⟩
    rcases List.mem_append.mp he with he | he
    · exact hrest e he
    · rw [List.mem_singleton.mp he]
      exact hentry
  · rcases List.mem_append.mp he with he | he
    · exact h.none hgap e he
    · rw [List.mem_singleton.mp he]
      exact hentry

theorem pending_ne_nil_of_full (h : f.full maxPending) : f.pending ≠ [] := by
  rintro hnil
  simp only [full, hnil, List.length_nil, decide_eq_true_eq] at h
  omega

/-- The notice that a shed frame raises. -/
def raised (lastId : Option ℕ) (dropped : Pending T) : Pending T :=
  { frame := .replayGap dropped.id lastId, terminal := true, notice := true }

/-- A shedding takes one frame out, never the notice, and puts a notice at the head where none
stands, unless the frame was a heartbeat. -/
theorem shed_eq (hn : Noticed f) (hfull : f.full maxPending) (lastId : Option ℕ) :
    ∃ front dropped back, f.pending = front ++ dropped :: back ∧ front.length = dropIndex f.pending ∧
      ¬ dropped.notice ∧ (f.gapNotice → front ≠ []) ∧
      ((dropped.isHeartbeat ∨ f.gapNotice) ∧ f.shed lastId = { f with pending := front ++ back } ∨
        ¬ dropped.isHeartbeat ∧ ¬ f.gapNotice ∧
          f.shed lastId = { f with gapNotice := true, pending := raised lastId dropped :: (front ++ back) }) := by
  have hlt := dropIndex_lt (pending_ne_nil_of_full hfull)
  set index := dropIndex f.pending with hindex
  have hsplit : f.pending = f.pending.take index ++ f.pending[index] :: f.pending.drop (index + 1) := by
    rw [List.cons_getElem_drop_succ, List.take_append_drop]
  have hdropped : f.pending[index]? = some f.pending[index] := List.getElem?_eq_getElem hlt
  have hshed : f.shed lastId =
      noteDrop lastId f.pending[index] { f with pending := f.pending.take index ++ f.pending.drop (index + 1) } := by
    simp only [shed, ← hindex, hdropped, List.eraseIdx_eq_take_drop_succ]
  have hlen : (f.pending.take index).length = index := by rw [List.length_take]; omega
  refine ⟨f.pending.take index, f.pending[index], f.pending.drop (index + 1), hsplit, hlen, ?_⟩
  by_cases hgap : f.gapNotice
  · -- The notice that stands covers this frame too; it is not the one shed.
    obtain ⟨head, rest, hcons, hnotice, hterminal, hisGap, -, hrest⟩ := hn.standing hgap
    have hrestne : rest ≠ [] := by
      rintro rfl
      simp only [full, hcons, hgap, List.length_singleton, if_true, decide_eq_true_eq] at hfull
      omega
    have hpos : 0 < index := by
      rw [hindex, hcons]
      exact dropIndex_pos hnotice hterminal (head.not_isHeartbeat_of_isGap hisGap) hrestne
    obtain ⟨k, hk⟩ : ∃ k, index = k + 1 := ⟨index - 1, by omega⟩
    have hmem : f.pending[index] ∈ rest := by
      simp only [hcons, hk, List.getElem_cons_succ]
      exact List.getElem_mem _
    refine ⟨hrest _ hmem, fun _ hnil => ?_, .inl ⟨.inr hgap, ?_⟩⟩
    · rw [hnil, List.length_nil] at hlen
      omega
    · rw [hshed]
      simp [noteDrop, hgap]
  · refine ⟨hn.none hgap _ (List.getElem_mem _), fun h => absurd h hgap, ?_⟩
    by_cases hheartbeat : f.pending[index].isHeartbeat
    · refine .inl ⟨.inl hheartbeat, ?_⟩
      rw [hshed]
      simp [noteDrop, hheartbeat]
    · refine .inr ⟨hheartbeat, hgap, ?_⟩
      rw [hshed]
      simp [noteDrop, hgap, hheartbeat, raised]

/-- The queue after a shedding: the frame is gone, and a notice stands at the head unless the frame
was a heartbeat. -/
theorem shed_cases (hn : Noticed f) (hfull : f.full maxPending) (lastId : Option ℕ) :
    ∃ front dropped back, f.pending = front ++ dropped :: back ∧ front.length = dropIndex f.pending ∧
      Noticed (f.shed lastId) ∧ (f.shed lastId).wire = f.wire ∧ (f.shed lastId).closed = f.closed ∧
      ((dropped.isHeartbeat ∧ (f.shed lastId).pending = front ++ back) ∨
        ¬ dropped.isHeartbeat ∧ ∃ notice middle, (f.shed lastId).pending = notice :: middle ++ back ∧ notice.isGap ∧
          notice.id = none ∧ middle.Sublist front) := by
  obtain ⟨front, dropped, back, hsplit, hlen, -, hfront, hshed⟩ := shed_eq hn hfull lastId
  have hrest : ∀ entry, entry ∈ front ++ back → entry ∈ f.pending := by
    intro entry hentry
    rw [hsplit]
    rcases List.mem_append.mp hentry with hentry | hentry <;> simp [hentry]
  refine ⟨front, dropped, back, hsplit, hlen, ?_⟩
  rcases hshed with ⟨hwhy, hshed⟩ | ⟨hheartbeat, hgap, hshed⟩
  · rw [hshed]
    by_cases hgap : f.gapNotice
    · -- What stands at the head of the queue stands there still.
      obtain ⟨head, rest, hcons, hnotice, hterminal, hisGap, hid, hno⟩ := hn.standing hgap
      obtain ⟨first, middle, rfl⟩ := List.exists_cons_of_ne_nil (hfront hgap)
      rw [hsplit, List.cons_append] at hcons
      obtain ⟨rfl, rfl⟩ := List.cons.inj hcons
      refine ⟨⟨fun _ => ⟨first, middle ++ back, rfl, hnotice, hterminal, hisGap, hid, fun entry hentry => ?_⟩,
        fun h => absurd hgap h⟩, rfl, rfl, ?_⟩
      · refine hno entry ?_
        rcases List.mem_append.mp hentry with hentry | hentry <;> simp [hentry]
      · by_cases hheartbeat : dropped.isHeartbeat
        · exact .inl ⟨hheartbeat, rfl⟩
        · exact .inr ⟨hheartbeat, first, middle, rfl, hisGap, hid, List.sublist_cons_self _ _⟩
    · refine ⟨⟨fun h => absurd h hgap, fun _ entry hentry => hn.none hgap entry (hrest entry hentry)⟩, rfl, rfl, ?_⟩
      exact .inl ⟨hwhy.resolve_right hgap, rfl⟩
  · rw [hshed]
    refine ⟨⟨fun _ => ⟨_, _, rfl, rfl, rfl, rfl, rfl, fun entry hentry => hn.none hgap entry (hrest entry hentry)⟩,
      fun h => absurd rfl h⟩, rfl, rfl, ?_⟩
    exact .inr ⟨hheartbeat, _, _, rfl, rfl, rfl, List.Sublist.refl _⟩

/-- The numbers on the line, in order. -/
def numbers (l : List (Pending T)) : List ℕ := l.filterMap (·.id)

/-- The numbers written and to write go up, none past `seq`. -/
structure Ascending (seq : ℕ) (f : Fanout T) : Prop where
  sorted : (numbers f.line).Pairwise (· < ·)
  bound : ∀ n ∈ numbers f.line, n ≤ seq

/-- Every hole on the line is announced, and so is whatever its end has yet to reach of `seq`. -/
structure Honest (cursor seq : ℕ) (f : Fanout T) : Prop where
  told : ∃ s, announce (cursor, false) f.line = some s ∧ (¬ f.closed → s.1 = seq ∨ s.2)
  noticed : ¬ f.closed → Noticed f
  silent : ∀ entry ∈ f.line, entry.isHeartbeat → entry.id = none

theorem enqueue_line (hopen : ¬ f.closed) (entry : Pending T) :
    (f.enqueue maxPending lastId entry).line =
      (if f.full maxPending then f.shed lastId else f).line ++ [entry] := by
  unfold enqueue
  rw [if_neg hopen, line_flush]
  simp only [line, List.append_assoc]

theorem enqueue_closed (hclosed : f.closed) (entry : Pending T) :
    f.enqueue maxPending lastId entry = f := by
  unfold enqueue
  rw [if_pos hclosed]

/-- Shedding takes numbers off the line and puts none on it. -/
theorem numbers_shed (hn : Noticed f) (hfull : f.full maxPending) (lastId : Option ℕ) :
    (numbers (f.shed lastId).line).Sublist (numbers f.line) := by
  obtain ⟨front, dropped, back, hsplit, -, -, hwire, -, hqueue⟩ := shed_cases hn hfull lastId
  have hback : (numbers back).Sublist (numbers (dropped :: back)) := (List.sublist_cons_self _ _).filterMap _
  simp only [line, hwire, hsplit, numbers, List.filterMap_append]
  refine List.Sublist.append (List.Sublist.refl _) ?_
  rcases hqueue with ⟨-, hqueue⟩ | ⟨-, notice, middle, hqueue, -, hid, hmiddle⟩
  · rw [hqueue, List.filterMap_append]
    exact List.Sublist.append (List.Sublist.refl _) hback
  · rw [hqueue, List.cons_append, List.filterMap_cons_none hid, List.filterMap_append]
    exact List.Sublist.append (hmiddle.filterMap _) hback

theorem Ascending.of_sublist {f' : Fanout T} (h : Ascending seq f) (hle : seq ≤ seq')
    (hsub : (numbers f'.line).Sublist (numbers f.line)) : Ascending seq' f' :=
  ⟨h.sorted.sublist hsub, fun n hn => (h.bound n (hsub.subset hn)).trans hle⟩

theorem Ascending.enqueue (h : Ascending seq f) (hn : ¬ f.closed → Noticed f) (hle : seq ≤ seq')
    (hid : ∀ n ∈ entry.id, seq < n ∧ n ≤ seq') : Ascending seq' (f.enqueue maxPending lastId entry) := by
  by_cases hclosed : f.closed
  · rw [enqueue_closed hclosed]
    exact h.of_sublist hle (List.Sublist.refl _)
  have hleft : Ascending seq (if f.full maxPending then f.shed lastId else f) := by
    split_ifs with hfull
    · exact h.of_sublist (le_refl _) (numbers_shed (hn hclosed) hfull lastId)
    · exact h
  have hnumbers : numbers (f.enqueue maxPending lastId entry).line =
      numbers (if f.full maxPending then f.shed lastId else f).line ++ entry.id.toList := by
    rw [enqueue_line hclosed, numbers, List.filterMap_append]
    cases hentry : entry.id <;> simp [numbers, hentry]
  refine ⟨?_, ?_⟩
  · rw [hnumbers, List.pairwise_append]
    refine ⟨hleft.sorted, ?_, fun n hn m hm => ?_⟩
    · cases entry.id <;> simp
    · have hm' := hid m (by simpa using hm)
      have hn' := hleft.bound n hn
      omega
  · rw [hnumbers]
    intro n hmem
    rcases List.mem_append.mp hmem with hmem | hmem
    · exact (hleft.bound n hmem).trans hle
    · exact (hid n (by simpa using hmem)).2

/-- What is left of the line after a shedding in the open is as honest as the line was. -/
theorem told_shed (h : Honest cursor seq f) (hopen : ¬ f.closed) (hfull : f.full maxPending) (hsafe : ShedsInTheOpen maxPending f) :
    ∃ s, announce (cursor, false) (f.shed lastId).line = some s ∧ (s.1 = seq ∨ s.2) := by
  obtain ⟨s, hs, hend⟩ := h.told
  have hend := hend hopen
  obtain ⟨front, dropped, back, hsplit, hlen, -, hwire, -, hqueue⟩ := shed_cases (h.noticed hopen) hfull lastId
  have hget : f.pending[dropIndex f.pending]? = some dropped := by
    rw [← hlen, hsplit, List.getElem?_append_right (le_refl _)]
    simp
  have htake : f.pending.take (dropIndex f.pending) = front := by rw [← hlen, hsplit, List.take_left']; rfl
  rw [line, hsplit, announce_append] at hs
  obtain ⟨⟨last, gap⟩, hw, hs⟩ := Option.bind_eq_some_iff.mp hs
  rw [announce_append] at hs
  obtain ⟨⟨last', gap'⟩, hfront, hs⟩ := Option.bind_eq_some_iff.mp hs
  rcases hqueue with ⟨hheartbeat, hqueue⟩ | ⟨hheartbeat, notice, middle, hqueue, hisGap, hid, hmiddle⟩
  · -- A heartbeat says nothing: the reader is where it was.
    have hsilent : dropped.id = none := h.silent dropped (by simp [line, hsplit]) hheartbeat
    have hnogap : dropped.isGap = false := by
      by_contra hgap
      exact dropped.not_isHeartbeat_of_isGap (by simpa using hgap) hheartbeat
    refine ⟨s, ?_, hend⟩
    rw [line, hwire, hqueue, announce_append, hw, Option.bind_some, announce_append, hfront, Option.bind_some]
    simpa only [announce, hsilent, hnogap, Bool.or_false] using hs
  · -- The notice is the first frame after the hole's near edge, and nothing numbered stands before the hole.
    have hbare : ∀ entry ∈ front, entry.id = none := by
      rcases hsafe hopen hfull with hh | hh
      · rw [hget] at hh
        exact absurd hh hheartbeat
      · rwa [htake] at hh
    obtain ⟨⟨last'', gap''⟩, -, hback⟩ : ∃ s', announce (last', gap') [dropped] = some s' ∧ announce s' back = some s := by
      rw [← List.singleton_append, announce_append] at hs
      exact Option.bind_eq_some_iff.mp hs
    obtain ⟨s', hs', hor⟩ := announce_relax last hback
    refine ⟨s', ?_, ?_⟩
    · rw [line, hwire, hqueue, announce_append, hw, Option.bind_some, List.cons_append]
      simp only [announce, hid, hisGap, Bool.or_true]
      rw [announce_append, announce_of_unnumbered fun entry hentry => hbare entry (hmiddle.subset hentry),
        Option.bind_some, Bool.true_or]
      exact hs'
    · rcases hor with rfl | hor
      · exact hend
      · exact .inr hor

theorem silent_shed (hn : Noticed f) (hfull : f.full maxPending) (lastId : Option ℕ)
    (h : ∀ entry ∈ f.line, entry.isHeartbeat → entry.id = none) :
    ∀ entry ∈ (f.shed lastId).line, entry.isHeartbeat → entry.id = none := by
  obtain ⟨front, dropped, back, hsplit, -, -, hwire, -, hqueue⟩ := shed_cases hn hfull lastId
  intro entry hentry hheartbeat
  rw [line, hwire] at hentry
  have hkept : ∀ e, e ∈ f.wire ∨ e ∈ front ∨ e ∈ back → e ∈ f.line := by
    intro e he
    rw [line, hsplit]
    rcases he with he | he | he <;> simp [he]
  rcases List.mem_append.mp hentry with hentry | hentry
  · exact h entry (hkept _ (.inl hentry)) hheartbeat
  rcases hqueue with ⟨-, hqueue⟩ | ⟨-, notice, middle, hqueue, -, hid, hmiddle⟩
  · rw [hqueue] at hentry
    rcases List.mem_append.mp hentry with hentry | hentry
    · exact h entry (hkept _ (.inr (.inl hentry))) hheartbeat
    · exact h entry (hkept _ (.inr (.inr hentry))) hheartbeat
  · rw [hqueue, List.cons_append] at hentry
    rcases List.mem_cons.mp hentry with rfl | hentry
    · exact hid
    rcases List.mem_append.mp hentry with hentry | hentry
    · exact h entry (hkept _ (.inr (.inl (hmiddle.subset hentry)))) hheartbeat
    · exact h entry (hkept _ (.inr (.inr hentry))) hheartbeat

theorem noticed_enqueue (hn : Noticed f) (hopen : ¬ f.closed) (hentry : ¬ entry.notice) :
    Noticed (f.enqueue maxPending lastId entry) := by
  unfold enqueue
  rw [if_neg hopen]
  refine Noticed.flush (Noticed.snoc ?_ hentry)
  split_ifs with hfull
  · obtain ⟨_, _, _, -, -, hshed, -⟩ := shed_cases hn hfull lastId
    exact hshed
  · exact hn

@[simp] theorem closed_enqueue (f : Fanout T) (entry : Pending T) :
    (f.enqueue maxPending lastId entry).closed = f.closed := by
  unfold enqueue
  have hshed : (f.shed lastId).closed = f.closed := by
    unfold shed noteDrop
    split
    · split_ifs <;> rfl
    · rfl
  split_ifs with hclosed hfull
  · rfl
  · rw [closed_flush]
    exact hshed
  · rw [closed_flush]

/-- While a write is under way nothing more is written. -/
theorem wire_enqueue (h : f.writing) (maxPending : ℕ) (lastId : Option ℕ) (entry : Pending T) :
    (f.enqueue maxPending lastId entry).writing ∧ (f.enqueue maxPending lastId entry).wire = f.wire := by
  unfold enqueue
  by_cases hclosed : f.closed
  · rw [if_pos hclosed]
    exact ⟨h, rfl⟩
  · rw [if_neg hclosed]
    have hshed : (if f.full maxPending then f.shed lastId else f).writing ∧
        (if f.full maxPending then f.shed lastId else f).wire = f.wire := by
      unfold shed noteDrop
      split_ifs
      · split
        · split_ifs <;> exact ⟨h, rfl⟩
        · exact ⟨h, rfl⟩
      · exact ⟨h, rfl⟩
    simp only [flush, hshed.1, if_true, true_and]
    exact hshed.2

/-- An entry that numbers on from where the line ends, or has no number, keeps the line honest. -/
theorem Honest.enqueue (h : Honest cursor seq f) (hsafe : ShedsInTheOpen maxPending f) (hnotice : ¬ entry.notice)
    (hsilent : entry.isHeartbeat → entry.id = none)
    (hid : (entry.id = some (seq + 1) ∧ seq' = seq + 1) ∨ (entry.id = none ∧ seq' = seq)) :
    Honest cursor seq' (f.enqueue maxPending lastId entry) := by
  by_cases hclosed : f.closed
  · rw [enqueue_closed hclosed]
    obtain ⟨s, hs, -⟩ := h.told
    exact ⟨⟨s, hs, fun hopen => absurd hclosed hopen⟩, h.noticed, h.silent⟩
  refine ⟨?_, fun _ => noticed_enqueue (h.noticed hclosed) hclosed hnotice, ?_⟩
  · have hleft : ∃ s, announce (cursor, false) (if f.full maxPending then f.shed lastId else f).line = some s ∧
        (s.1 = seq ∨ s.2) := by
      split_ifs with hfull
      · exact told_shed h hclosed hfull hsafe
      · obtain ⟨s, hs, hend⟩ := h.told
        exact ⟨s, hs, hend hclosed⟩
    obtain ⟨⟨last, gap⟩, hs, hend⟩ := hleft
    rw [enqueue_line hclosed, announce_append, hs, Option.bind_some]
    rcases hid with ⟨hid, rfl⟩ | ⟨hid, rfl⟩
    · refine ⟨(seq + 1, false), ?_, fun _ => .inl rfl⟩
      have hok : seq + 1 = last + 1 ∨ gap = true := by
        rcases hend with rfl | hend
        · exact .inl rfl
        · exact .inr hend
      simp only [announce, hid, if_pos hok]
    · refine ⟨(last, gap || entry.isGap), by simp only [announce, hid], fun _ => ?_⟩
      rcases hend with hend | hend
      · exact .inl hend
      · exact .inr (Bool.or_eq_true_iff.mpr (.inl hend))
  · rw [enqueue_line hclosed]
    intro e he
    rcases List.mem_append.mp he with he | he
    · split_ifs at he with hfull
      · exact silent_shed (h.noticed hclosed) hfull lastId h.silent e he
      · exact h.silent e he
    · rw [List.mem_singleton.mp he]
      exact hsilent

/-- Writing on, or giving the connection up, changes nothing of what was or will be told. -/
theorem Honest.written (h : Honest cursor seq f) : Honest cursor seq f.written := by
  unfold Fanout.written
  by_cases hwriting : f.writing
  · rw [if_neg (by simpa using hwriting)]
    by_cases hclosed : f.closed
    · rw [if_pos hclosed]
      exact ⟨h.told, fun hopen => absurd hclosed hopen, h.silent⟩
    · rw [if_neg hclosed]
      refine ⟨?_, fun _ => (h.noticed hclosed).writeNext, ?_⟩
      · rw [line_writeNext, closed_writeNext]
        exact h.told
      · rw [line_writeNext]
        exact h.silent
  · rw [if_pos hwriting]
    exact h

@[simp] theorem line_written (f : Fanout T) : f.written.line = f.line := by
  unfold written
  split_ifs
  · rfl
  · exact line_writeNext f
  · rfl

@[simp] theorem closed_written (f : Fanout T) : f.written.closed = f.closed := by
  unfold written
  split_ifs
  · rfl
  · exact closed_writeNext f
  · rfl

theorem line_cleanup (f : Fanout T) : f.cleanup.line <+: f.line := by
  unfold cleanup
  split_ifs
  · exact List.prefix_refl _
  · exact ⟨f.pending, by simp [line]⟩

theorem Honest.closed {f' : Fanout T} (h : Honest cursor seq f) (hclosed : f'.closed) (hline : f'.line <+: f.line) :
    Honest cursor seq f' := by
  obtain ⟨rest, hrest⟩ := hline
  obtain ⟨s, hs, -⟩ := h.told
  rw [← hrest, announce_append] at hs
  obtain ⟨s', hs', -⟩ := Option.bind_eq_some_iff.mp hs
  refine ⟨⟨s', hs', fun hopen => absurd hclosed hopen⟩, fun hopen => absurd hclosed hopen, fun e he => h.silent e ?_⟩
  rw [← hrest]
  exact List.mem_append_left _ he

theorem Ascending.run (maxPending top : ℕ) (lastId : Option ℕ) (entries : List (Pending T)) (h : Ascending seq f)
    (hn : ¬ f.closed → Noticed f) (hnotice : ∀ entry ∈ entries, ¬ entry.notice) (hsorted : (numbers entries).Pairwise (· < ·))
    (hlow : ∀ n ∈ numbers entries, seq < n) (hhigh : ∀ n ∈ numbers entries, n ≤ top) (htop : seq ≤ top) :
    Ascending top (Lib.run (Fanout.enqueue maxPending lastId) f entries) ∧
      (¬ (Lib.run (Fanout.enqueue maxPending lastId) f entries).closed →
        Noticed (Lib.run (Fanout.enqueue maxPending lastId) f entries)) := by
  induction entries generalizing f seq with
  | nil => exact ⟨h.of_sublist htop (List.Sublist.refl _), hn⟩
  | cons entry entries ih =>
    obtain ⟨hentry, hrest⟩ := List.forall_mem_cons.mp hnotice
    have hn' : ¬ (f.enqueue maxPending lastId entry).closed → Noticed (f.enqueue maxPending lastId entry) := by
      intro hopen
      rw [closed_enqueue] at hopen
      exact noticed_enqueue (hn hopen) hopen hentry
    rcases hid : entry.id with _ | n
    · have hnumbers : numbers (entry :: entries) = numbers entries := List.filterMap_cons_none hid
      rw [hnumbers] at hsorted hlow hhigh
      exact ih (h.enqueue hn (le_refl seq) (by simp [hid])) hn' hrest hsorted hlow hhigh htop
    · have hnumbers : numbers (entry :: entries) = n :: numbers entries := List.filterMap_cons_some hid
      rw [hnumbers] at hsorted hlow hhigh
      obtain ⟨hhead, htail⟩ := List.pairwise_cons.mp hsorted
      have hseq : seq < n := hlow n List.mem_cons_self
      refine ih (h.enqueue hn hseq.le ?_) hn' hrest htail hhead (fun m hm => hhigh m (List.mem_cons_of_mem _ hm))
        (hhigh n List.mem_cons_self)
      intro m hm
      obtain rfl : n = m := by simpa [hid] using hm
      exact ⟨hseq, le_refl _⟩

/-- A run of entries that number on from `seq`, each queued in the open. -/
theorem Honest.run {entries : List (Pending T)} {k : ℕ} (h : Honest cursor seq f)
    (hsafe : Lib.Meets (Fanout.enqueue maxPending lastId) (fun f _ => ShedsInTheOpen maxPending f) f entries)
    (hplain : ∀ entry ∈ entries, ¬ entry.notice ∧ ¬ entry.isHeartbeat)
    (hids : entries.map (·.id) = (List.range' (seq + 1) k).map some) :
    Honest cursor (seq + k) (Lib.run (Fanout.enqueue maxPending lastId) f entries) := by
  induction entries generalizing f seq k with
  | nil =>
    have hk : k = 0 := by simpa using (congrArg List.length hids).symm
    rw [hk]
    exact h
  | cons entry entries ih =>
    obtain ⟨hentry, hrest⟩ := List.forall_mem_cons.mp hplain
    obtain ⟨k, rfl⟩ : ∃ k', k = k' + 1 := ⟨k - 1, by have := congrArg List.length hids; simp at this; omega⟩
    rw [List.range'_succ, List.map_cons, List.map_cons] at hids
    obtain ⟨hid, hids⟩ := List.cons.inj hids
    rw [show seq + (k + 1) = seq + 1 + k by omega]
    exact ih (h.enqueue hsafe.1 hentry.1 (fun hh => absurd hh hentry.2) (.inl ⟨hid, rfl⟩)) hsafe.2 hrest hids

theorem Noticed.empty : Noticed ({} : Fanout T) :=
  ⟨fun h => absurd h Bool.false_ne_true, fun _ _ he => absurd he List.not_mem_nil⟩

theorem Ascending.empty (seq : ℕ) : Ascending seq ({} : Fanout T) :=
  ⟨.nil, fun _ hn => absurd hn List.not_mem_nil⟩

theorem Honest.empty (cursor : ℕ) : Honest cursor cursor ({} : Fanout T) :=
  ⟨⟨(cursor, false), rfl, fun _ => .inl rfl⟩, fun _ => Noticed.empty, fun _ he => absurd he List.not_mem_nil⟩

/-- A gap frame alone on a fresh connection: whatever number comes next was announced. -/
theorem Honest.gap (maxPending cursor seq : ℕ) (lastEventId throughId lastId : Option ℕ) :
    Honest cursor seq (Lib.run (Fanout.enqueue (T := T) maxPending lastId) {}
      [{ frame := .replayGap lastEventId throughId }]) := by
  have hroom : full maxPending ({} : Fanout T) = false := by simp [full]
  have hrun : Lib.run (Fanout.enqueue (T := T) maxPending lastId) {} [{ frame := .replayGap lastEventId throughId }] =
      { wire := [{ frame := .replayGap lastEventId throughId }], writing := true } := by
    simp [Fanout.enqueue, hroom, flush, writeNext]
  rw [hrun]
  refine ⟨⟨(cursor, true), rfl, fun _ => .inr rfl⟩, fun _ => ⟨fun hn => absurd hn Bool.false_ne_true,
    fun _ _ he => absurd he List.not_mem_nil⟩, fun entry hentry _ => ?_⟩
  rw [List.mem_singleton.mp hentry]

theorem line_writeFailed (f : Fanout T) : f.writeFailed.line <+: f.line := by
  unfold writeFailed
  by_cases hwriting : f.writing
  · rw [if_neg (by simpa using hwriting)]
    exact f.line_cleanup
  · rw [if_pos hwriting]

theorem closed_cleanup (f : Fanout T) : f.cleanup.closed := by
  unfold cleanup
  split_ifs with hclosed
  · exact hclosed
  · rfl

@[simp] theorem wire_cleanup (f : Fanout T) : f.cleanup.wire = f.wire := by
  unfold cleanup
  split_ifs <;> rfl

theorem pending_cleanup (h : f.closed → f.pending = []) : f.cleanup.pending = [] := by
  unfold cleanup
  split_ifs with hclosed
  · exact h hclosed
  · rfl

theorem closed_writeFailed (f : Fanout T) (hwriting : f.writing) : f.writeFailed.closed := by
  rw [writeFailed, if_neg (by simpa using hwriting)]
  exact f.closed_cleanup

end Fanout

end

end Claxedo.Events
