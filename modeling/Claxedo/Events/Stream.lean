import Claxedo.Events.Fanout

/-! `streamWorkspaceEventFrames`: one connection from its presented cursor on. The gap verdict is
taken when the stream opens; the fanout attaches once the bootstrap heartbeat is written, and events
are rung before, in between and after. -/

namespace Claxedo.Events

section
variable {T : Type} (isTerminal : T → Bool)

/-- The ring a stream reads: the default windows, nothing superseded. -/
def streamOptions : ReplayOptions T := { isTerminal := isTerminal }

/-- A replayed event, as the fanout queues it. -/
def replayEntry (e : Rung T) : Pending T :=
  { frame := .event e.payload, id := some e.seq, terminal := isTerminal e.payload }

theorem replayAfter_streamOptions (ring : ReplayBuffer T) (after : ℕ) :
    ring.replayAfter (streamOptions isTerminal) after ring.lastId = ring.held after ring.seq := by
  unfold ReplayBuffer.replayAfter
  rw [through_lastId]
  exact List.filter_eq_self.mpr fun e _ => rfl

theorem numbers_replayEntry (l : List (Rung T)) : Fanout.numbers (l.map (replayEntry isTerminal)) = l.map (·.seq) := by
  induction l with
  | nil => rfl
  | cons e l ih => rw [List.map_cons, List.map_cons, ← ih]; rfl

end

section
variable {T : Type} [DecidableEq T]

/-- A connection. `holeBelow` is the cursor up to which the scope's ring is known to be holed. -/
structure WorkspaceStream (T : Type) where
  ring : ReplayBuffer T
  cursor : ℕ
  gap : Bool
  attached : Bool := false
  fanout : Fanout T := {}

/-- `hasGap` of a scope's ring. -/
def scopeHasGap (ring : ReplayBuffer T) (holeBelow cursor : ℕ) (throughId : Option ℕ) : Bool :=
  (0 < cursor ∧ cursor ≤ holeBelow) ∨ ring.hasGap cursor throughId

/-- The cursor the connection resumes from, and whether the ring still reaches back to it. -/
def openStream (ring : ReplayBuffer T) (holeBelow : ℕ) (resumeFrom : Option ℕ) : WorkspaceStream T :=
  { ring := ring
    cursor := resumeFrom.getD (ring.lastId.getD 0)
    gap := resumeFrom.any fun cursor => scopeHasGap ring holeBelow cursor ring.lastId }

inductive StreamLabel (T : Type) where
  /-- An event is rung, and delivered where the connection is subscribed. -/
  | ring (payload : T)
  /-- The bootstrap heartbeat is written; `during` is rung and delivered while the subscription is made. -/
  | attach (during : List T)
  | heartbeat
  | written
  | writeFailed
  /-- The client is gone, or its authority: the attached connection is given up. -/
  | finish

variable (isTerminal : T → Bool) (maxPending : ℕ)

/-- A stream opened on a ring that numbers from `initialSequence` and has rung `rung`. -/
def opened (initialSequence : ℕ) (rung : List T) (holeBelow : ℕ) (resumeFrom : Option ℕ) : WorkspaceStream T :=
  openStream (rung.foldl (ReplayBuffer.push (streamOptions isTerminal)) (createSseReplayBuffer initialSequence))
    holeBelow resumeFrom

def eventEntry (ring : ReplayBuffer T) (payload : T) : Pending T :=
  { frame := .event payload, id := ring.idFor payload, terminal := isTerminal payload }

/-- The frames `attachSseFanout` queues on its way: the gap, or the replay, and then whatever was
delivered meanwhile that the replay did not already hold. -/
def attachEntries (s : WorkspaceStream T) (ring : ReplayBuffer T) (deferredLive : List (Pending T)) :
    List (Pending T) :=
  (if s.gap then [{ frame := .replayGap (some s.cursor) ring.lastId }]
  else (ring.replayAfter (streamOptions isTerminal) s.cursor ring.lastId).map (replayEntry isTerminal)) ++
  deferredLive.filter fun entry => ¬ (0 < entry.id.getD 0 ∧ entry.id.getD 0 ≤ ring.lastId.getD 0)

/-- The ring after `during`, with the entries delivered as they were rung. -/
def ringDuring (ring : ReplayBuffer T) : List T → ReplayBuffer T × List (Pending T)
  | [] => (ring, [])
  | payload :: rest =>
    let ring := ring.push (streamOptions isTerminal) payload
    let (last, entries) := ringDuring ring rest
    (last, eventEntry isTerminal ring payload :: entries)

def WorkspaceStream.step (s : WorkspaceStream T) : StreamLabel T → WorkspaceStream T
  | .ring payload =>
    let ring := s.ring.push (streamOptions isTerminal) payload
    if s.attached then
      { s with
        ring := ring
        fanout := s.fanout.enqueue maxPending ring.lastId (eventEntry isTerminal ring payload) }
    else { s with ring := ring }
  | .attach during =>
    if s.attached then s
    else
      let (ring, deferredLive) := ringDuring isTerminal s.ring during
      { s with
        ring := ring
        attached := true
        fanout := Lib.run (Fanout.enqueue maxPending ring.lastId) s.fanout (attachEntries isTerminal s ring deferredLive) }
  | .heartbeat =>
    if s.attached then { s with fanout := s.fanout.enqueue maxPending s.ring.lastId { frame := .heartbeat } } else s
  | .written => { s with fanout := s.fanout.written }
  | .writeFailed => { s with fanout := s.fanout.writeFailed }
  | .finish => if s.attached then { s with fanout := s.fanout.cleanup } else s

/-- The numbers written go up, and every two that do not follow on each other, the cursor ahead of
the first included, have a gap announced between them. -/
def Contiguous (s : WorkspaceStream T) : Prop :=
  (Fanout.numbers s.fanout.wire).Pairwise (· < ·) ∧ (announce (s.cursor, false) s.fanout.wire).isSome

instance (s : WorkspaceStream T) : Decidable (Contiguous s) := inferInstanceAs (Decidable (_ ∧ _))

/-- The ring still reaches back to the cursor when the fanout attaches, or the verdict says it does
not; and no frame is shed from behind a numbered one. -/
def Reaches (s : WorkspaceStream T) : StreamLabel T → Prop
  | .ring _ | .heartbeat => s.attached → Fanout.ShedsInTheOpen maxPending s.fanout
  | .attach during => ¬ s.attached →
    (s.gap ∨ (ringDuring isTerminal s.ring during).1.covers s.cursor) ∧
    Lib.Meets (Fanout.enqueue maxPending (ringDuring isTerminal s.ring during).1.lastId)
      (fun f _ => Fanout.ShedsInTheOpen maxPending f) s.fanout
      (attachEntries isTerminal s (ringDuring isTerminal s.ring during).1
        (ringDuring isTerminal s.ring during).2)
  | _ => True

instance (s : WorkspaceStream T) : (label : StreamLabel T) → Decidable (Reaches isTerminal maxPending s label)
  | .ring _ | .heartbeat => inferInstanceAs (Decidable (_ → _))
  | .attach _ => inferInstanceAs (Decidable (¬ s.attached → _ ∧ _))
  | .written | .writeFailed | .finish => inferInstanceAs (Decidable True)

theorem id_eventEntry (ring : ReplayBuffer T) (payload : T) :
    (eventEntry isTerminal (ring.push (streamOptions isTerminal) payload) payload).id = some (ring.seq + 1) :=
  push_idFor ring (streamOptions isTerminal) payload

theorem ringDuring_cons (ring : ReplayBuffer T) (payload : T) (rest : List T) :
    ringDuring isTerminal ring (payload :: rest) =
      ((ringDuring isTerminal (ring.push (streamOptions isTerminal) payload) rest).1,
        eventEntry isTerminal (ring.push (streamOptions isTerminal) payload) payload ::
          (ringDuring isTerminal (ring.push (streamOptions isTerminal) payload) rest).2) := rfl

variable {ring : ReplayBuffer T} {s : WorkspaceStream T}

theorem numbered_ringDuring (h : Numbered ring) (during : List T) :
    Numbered (ringDuring isTerminal ring during).1 ∧ ring.seq ≤ (ringDuring isTerminal ring during).1.seq ∧
      ∀ entry ∈ (ringDuring isTerminal ring during).2,
        0 < entry.id.getD 0 ∧ entry.id.getD 0 ≤ (ringDuring isTerminal ring during).1.seq := by
  induction during generalizing ring with
  | nil => exact ⟨h, le_refl _, fun _ he => absurd he List.not_mem_nil⟩
  | cons payload rest ih =>
    obtain ⟨hnumbered, hle, hids⟩ := ih (h.push (streamOptions isTerminal) payload)
    rw [push_seq] at hle
    rw [ringDuring_cons]
    refine ⟨hnumbered, ?_, fun entry hentry => ?_⟩
    · dsimp only
      omega
    · rcases List.mem_cons.mp hentry with hentry | hentry
      · rw [hentry, id_eventEntry, Option.getD_some]
        exact ⟨Nat.succ_pos _, hle⟩
      · exact hids entry hentry

/-- What was delivered while subscribing is in the replay, or under the gap: none of it is queued again. -/
theorem attachEntries_ringDuring (h : Numbered s.ring) (during : List T) :
    attachEntries isTerminal s (ringDuring isTerminal s.ring during).1 (ringDuring isTerminal s.ring during).2 =
      if s.gap then [{ frame := .replayGap (some s.cursor) (ringDuring isTerminal s.ring during).1.lastId }]
      else ((ringDuring isTerminal s.ring during).1.held s.cursor (ringDuring isTerminal s.ring during).1.seq).map
        (replayEntry isTerminal) := by
  obtain ⟨-, -, hids⟩ := numbered_ringDuring isTerminal h during
  have hnone : (ringDuring isTerminal s.ring during).2.filter (fun entry =>
      ¬ (0 < entry.id.getD 0 ∧ entry.id.getD 0 ≤ (ringDuring isTerminal s.ring during).1.lastId.getD 0)) = [] := by
    rw [List.filter_eq_nil_iff]
    intro entry hentry
    have hid := hids entry hentry
    rw [lastId_getD]
    simpa only [decide_not, Bool.not_eq_true', decide_eq_false_iff_not, not_not] using hid
  rw [attachEntries, hnone, List.append_nil, replayAfter_streamOptions]

/-- Whatever the run, the numbers go up. -/
structure StreamAscends (s : WorkspaceStream T) : Prop where
  ring : Numbered s.ring
  waiting : ¬ s.attached → s.fanout = {}
  noticed : ¬ s.fanout.closed → Fanout.Noticed s.fanout
  ascending : Fanout.Ascending s.ring.seq s.fanout

theorem StreamAscends.step (h : StreamAscends s) (label : StreamLabel T) :
    StreamAscends (s.step isTerminal maxPending label) := by
  cases label with
  | ring payload =>
    have hring := h.ring.push (streamOptions isTerminal) payload
    simp only [WorkspaceStream.step]
    split_ifs with ha
    · refine ⟨hring, fun hn => absurd ha hn, fun hopen => ?_, ?_⟩
      · rw [Fanout.closed_enqueue] at hopen
        exact Fanout.noticed_enqueue (h.noticed hopen) hopen (by simp [eventEntry])
      · refine h.ascending.enqueue h.noticed (Nat.le_succ _) ?_
        simp [eventEntry]
    · exact ⟨hring, h.waiting, h.noticed, h.ascending.of_sublist (Nat.le_succ _) (List.Sublist.refl _)⟩
  | attach during =>
    simp only [WorkspaceStream.step]
    split_ifs with ha
    · exact h
    obtain ⟨hring, hle, -⟩ := numbered_ringDuring isTerminal h.ring during
    set ring := (ringDuring isTerminal s.ring during).1 with hr
    have hentries := attachEntries_ringDuring isTerminal h.ring during
    rw [← hr] at hentries
    rw [h.waiting ha, hentries]
    have hnumbers : Fanout.numbers (if s.gap then [{ frame := .replayGap (some s.cursor) ring.lastId }]
        else (ring.held s.cursor ring.seq).map (replayEntry isTerminal)) =
          if s.gap then [] else (ring.held s.cursor ring.seq).map (·.seq) := by
      split_ifs
      · rfl
      · exact numbers_replayEntry isTerminal _
    obtain ⟨hascending, hnoticed⟩ := Fanout.Ascending.run maxPending ring.seq ring.lastId
      (if s.gap then [{ frame := .replayGap (some s.cursor) ring.lastId }]
        else (ring.held s.cursor ring.seq).map (replayEntry isTerminal)) (Fanout.Ascending.empty 0)
      (fun _ => Fanout.Noticed.empty) (by split_ifs <;> simp [replayEntry])
      (by
        rw [hnumbers]
        split_ifs
        · exact .nil
        · exact held_sorted ring s.cursor ring.seq)
      (fun n hn => by
        rw [hnumbers] at hn
        split_ifs at hn
        · cases hn
        · obtain ⟨e, he, rfl⟩ := List.mem_map.mp hn
          exact Nat.zero_lt_of_lt (mem_held he).2.1)
      (fun n hn => by
        rw [hnumbers] at hn
        split_ifs at hn
        · cases hn
        · obtain ⟨e, he, rfl⟩ := List.mem_map.mp hn
          exact (mem_held he).2.2)
      (Nat.zero_le _)
    exact ⟨hring, fun hn => absurd rfl hn, hnoticed, hascending⟩
  | heartbeat =>
    simp only [WorkspaceStream.step]
    split_ifs with ha
    · refine ⟨h.ring, fun hn => absurd ha hn, fun hopen => ?_, h.ascending.enqueue h.noticed (le_refl _) (by simp)⟩
      rw [Fanout.closed_enqueue] at hopen
      exact Fanout.noticed_enqueue (h.noticed hopen) hopen (by simp)
    · exact h
  | written =>
    refine ⟨h.ring, fun hn => ?_, fun hopen => ?_, ?_⟩
    · simp only [WorkspaceStream.step] at hn ⊢
      rw [h.waiting hn]
      rfl
    · have hopen' : ¬ s.fanout.closed := by
        rwa [← Fanout.closed_written s.fanout]
      exact (h.noticed hopen').written hopen'
    · refine h.ascending.of_sublist (le_refl _) ?_
      rw [WorkspaceStream.step, Fanout.line_written]
  | writeFailed =>
    refine ⟨h.ring, fun hn => ?_, fun hopen => ?_, ?_⟩
    · simp only [WorkspaceStream.step] at hn ⊢
      rw [h.waiting hn]
      rfl
    · by_cases hwriting : s.fanout.writing
      · exact absurd (s.fanout.closed_writeFailed hwriting) hopen
      · have hsame : s.fanout.writeFailed = s.fanout := by rw [Fanout.writeFailed, if_pos hwriting]
        simp only [WorkspaceStream.step, hsame] at hopen ⊢
        exact h.noticed hopen
    · exact h.ascending.of_sublist (le_refl _) (s.fanout.line_writeFailed.sublist.filterMap _)
  | finish =>
    simp only [WorkspaceStream.step]
    split_ifs with ha
    · refine ⟨h.ring, fun hn => absurd ha hn, fun hopen => absurd s.fanout.closed_cleanup hopen, ?_⟩
      exact h.ascending.of_sublist (le_refl _) (s.fanout.line_cleanup.sublist.filterMap _)
    · exact h

omit [DecidableEq T] in
theorem StreamAscends.openStream (h : Numbered ring) (holeBelow : ℕ) (resumeFrom : Option ℕ) :
    StreamAscends (openStream ring holeBelow resumeFrom) :=
  ⟨h, fun _ => rfl, fun _ => Fanout.Noticed.empty, Fanout.Ascending.empty _⟩

/-- Every hole the connection is led over is announced to it. -/
structure StreamHonest (s : WorkspaceStream T) : Prop where
  ring : Numbered s.ring
  waiting : ¬ s.attached → s.fanout = {} ∧ (s.gap ∨ s.cursor ≤ s.ring.seq)
  honest : s.attached → Fanout.Honest s.cursor s.ring.seq s.fanout

theorem StreamHonest.attach (h : StreamHonest s) (ha : ¬ s.attached) (during : List T)
    (hr : Reaches isTerminal maxPending s (.attach during)) :
    StreamHonest (s.step isTerminal maxPending (.attach during)) := by
  obtain ⟨hwaiting, hcursor⟩ := h.waiting ha
  obtain ⟨hcovers, hsafe⟩ := hr ha
  obtain ⟨hring, hle, -⟩ := numbered_ringDuring isTerminal h.ring during
  rw [attachEntries_ringDuring isTerminal h.ring during] at hsafe
  have hstep : s.step isTerminal maxPending (.attach during) =
      { s with
        ring := (ringDuring isTerminal s.ring during).1
        attached := true
        fanout := Lib.run (Fanout.enqueue maxPending (ringDuring isTerminal s.ring during).1.lastId) {}
          (if s.gap then
            [{ frame := .replayGap (some s.cursor) (ringDuring isTerminal s.ring during).1.lastId }]
          else ((ringDuring isTerminal s.ring during).1.held s.cursor
            (ringDuring isTerminal s.ring during).1.seq).map (replayEntry isTerminal)) } := by
    simp only [WorkspaceStream.step, if_neg ha, hwaiting, attachEntries_ringDuring isTerminal h.ring during]
  rw [hstep]
  refine ⟨hring, fun hn => absurd rfl hn, fun _ => ?_⟩
  simp only
  rw [hwaiting] at hsafe
  by_cases hgap : s.gap
  · -- The gap frame goes out at once, and whatever follows comes after it.
    rw [if_pos hgap]
    exact Fanout.Honest.gap maxPending s.cursor _ _ _ _
  · rw [if_neg hgap] at hsafe ⊢
    have hcursor := (hcursor.resolve_left hgap).trans hle
    have hids := hcovers.resolve_left hgap
    have hrun := (Fanout.Honest.empty s.cursor).run hsafe
      (fun entry hentry => by
        obtain ⟨e, -, rfl⟩ := List.mem_map.mp hentry
        exact ⟨Bool.false_ne_true, Bool.false_ne_true⟩)
      (k := (ringDuring isTerminal s.ring during).1.seq - s.cursor)
      (by
        rw [← hids, List.map_map, List.map_map]
        rfl)
    rwa [Nat.add_sub_cancel' hcursor] at hrun

theorem StreamHonest.step (h : StreamHonest s) (label : StreamLabel T) (hr : Reaches isTerminal maxPending s label) :
    StreamHonest (s.step isTerminal maxPending label) := by
  cases label with
  | ring payload =>
    have hring := h.ring.push (streamOptions isTerminal) payload
    simp only [WorkspaceStream.step]
    split_ifs with ha
    · refine ⟨hring, fun hn => absurd ha hn, fun _ => ?_⟩
      exact (h.honest ha).enqueue (hr ha) (by simp [eventEntry]) (fun hh => by cases hh)
        (.inl ⟨id_eventEntry isTerminal s.ring payload, rfl⟩)
    · obtain ⟨hwaiting, hcursor⟩ := h.waiting ha
      exact ⟨hring, fun _ => ⟨hwaiting, hcursor.imp_right fun hle => hle.trans (Nat.le_succ _)⟩, fun hn => absurd hn ha⟩
  | attach during =>
    by_cases ha : s.attached
    · rw [WorkspaceStream.step, if_pos ha]
      exact h
    · exact h.attach isTerminal maxPending ha during hr
  | heartbeat =>
    simp only [WorkspaceStream.step]
    split_ifs with ha
    · exact ⟨h.ring, fun hn => absurd ha hn, fun _ =>
        (h.honest ha).enqueue (hr ha) Bool.false_ne_true (fun _ => rfl) (.inr ⟨rfl, rfl⟩)⟩
    · exact h
  | written =>
    refine ⟨h.ring, fun hn => ?_, fun ha => (h.honest ha).written⟩
    obtain ⟨hwaiting, hcursor⟩ := h.waiting hn
    refine ⟨?_, hcursor⟩
    simp only [WorkspaceStream.step, hwaiting]
    rfl
  | writeFailed =>
    refine ⟨h.ring, fun hn => ?_, fun ha => ?_⟩
    · obtain ⟨hwaiting, hcursor⟩ := h.waiting hn
      refine ⟨?_, hcursor⟩
      simp only [WorkspaceStream.step, hwaiting]
      rfl
    · by_cases hwriting : s.fanout.writing
      · exact (h.honest ha).closed (s.fanout.closed_writeFailed hwriting) s.fanout.line_writeFailed
      · rw [WorkspaceStream.step, Fanout.writeFailed, if_pos hwriting]
        exact h.honest ha
  | finish =>
    simp only [WorkspaceStream.step]
    split_ifs with ha
    · exact ⟨h.ring, fun hn => absurd ha hn, fun _ => (h.honest ha).closed s.fanout.closed_cleanup s.fanout.line_cleanup⟩
    · exact h

omit [DecidableEq T] in
theorem StreamHonest.openStream (h : Numbered ring) (holeBelow : ℕ) (resumeFrom : Option ℕ) :
    StreamHonest (openStream ring holeBelow resumeFrom) := by
  refine ⟨h, fun _ => ⟨rfl, ?_⟩, fun hn => absurd hn Bool.false_ne_true⟩
  rcases resumeFrom with _ | cursor
  · right
    exact (lastId_getD ring).le
  · by_cases hle : cursor ≤ ring.seq
    · exact .inr hle
    · left
      have hpast : ring.hasGap cursor ring.lastId := by
        rw [ReplayBuffer.hasGap, if_neg (by omega), if_pos (by omega)]
      simp [Events.openStream, scopeHasGap, hpast]

omit [DecidableEq T] in
theorem numbered_rung (h : Numbered ring) (rung : List T) :
    Numbered (rung.foldl (ReplayBuffer.push (streamOptions isTerminal)) ring) := by
  induction rung generalizing ring with
  | nil => exact h
  | cons payload rung ih =>
    rw [List.foldl_cons]
    exact ih (h.push (streamOptions isTerminal) payload)

/-- The ring's state and the connection's, after a ring of `rung` is opened and the run `labels` taken. -/
def streamed (initialSequence : ℕ) (rung : List T) (holeBelow : ℕ) (resumeFrom : Option ℕ)
    (labels : List (StreamLabel T)) : WorkspaceStream T :=
  Lib.run (WorkspaceStream.step isTerminal maxPending) (opened isTerminal initialSequence rung holeBelow resumeFrom) labels

theorem streamed_ascends (initialSequence : ℕ) (rung : List T) (holeBelow : ℕ) (resumeFrom : Option ℕ)
    (labels : List (StreamLabel T)) :
    StreamAscends (streamed isTerminal maxPending initialSequence rung holeBelow resumeFrom labels) :=
  Lib.invariant_of_run StreamAscends (fun _ label h => h.step isTerminal maxPending label)
    (StreamAscends.openStream (numbered_rung isTerminal (numbered_create initialSequence) rung) holeBelow resumeFrom)
    labels

/-- Over every run in which the ring reaches back to the cursor when the fanout attaches, or the
verdict was a gap, and every frame is shed in the open, what the connection is written is contiguous
or says it is not. -/
theorem stream_contiguous_of_reaches (initialSequence : ℕ) (rung : List T) (holeBelow : ℕ) (resumeFrom : Option ℕ)
    (labels : List (StreamLabel T))
    (h : Lib.Meets (WorkspaceStream.step isTerminal maxPending) (Reaches isTerminal maxPending)
      (opened isTerminal initialSequence rung holeBelow resumeFrom) labels) :
    Contiguous (streamed isTerminal maxPending initialSequence rung holeBelow resumeFrom labels) := by
  have hascends := streamed_ascends isTerminal maxPending initialSequence rung holeBelow resumeFrom labels
  have hhonest : StreamHonest (streamed isTerminal maxPending initialSequence rung holeBelow resumeFrom labels) :=
    Lib.invariant_of_meets StreamHonest (fun _ label hs hr => hs.step isTerminal maxPending label hr)
      (StreamHonest.openStream (numbered_rung isTerminal (numbered_create initialSequence) rung) holeBelow resumeFrom) h
  set s := streamed isTerminal maxPending initialSequence rung holeBelow resumeFrom labels
  refine ⟨?_, ?_⟩
  · -- The wire is the front of the line.
    have hsorted := hascends.ascending.sorted
    rw [Fanout.line, Fanout.numbers, List.filterMap_append] at hsorted
    exact (List.pairwise_append.mp hsorted).1
  · by_cases ha : s.attached
    · obtain ⟨told, htold, -⟩ := (hhonest.honest ha).told
      rw [Fanout.line, announce_append] at htold
      obtain ⟨_, hwire, -⟩ := Option.bind_eq_some_iff.mp htold
      rw [hwire]
      rfl
    · rw [(hhonest.waiting ha).1]
      rfl

/-- The payloads under the numbers a ring at `seq` gives them. -/
def numberFrom (seq : ℕ) : List T → List (Rung T)
  | [] => []
  | payload :: payloads => ⟨seq + 1, payload⟩ :: numberFrom (seq + 1) payloads

omit [DecidableEq T] in
theorem events_foldl_push (payloads : List T) {ring : ReplayBuffer T} {items : List (Rung T)}
    (h : ring.events = trim items 256) :
    (payloads.foldl (ReplayBuffer.push (streamOptions isTerminal)) ring).events =
      trim (items ++ numberFrom ring.seq payloads) 256 := by
  induction payloads generalizing ring items with
  | nil => rw [numberFrom, List.append_nil]; exact h
  | cons payload payloads ih =>
    have hpush : (ring.push (streamOptions isTerminal) payload).events = trim (items ++ [⟨ring.seq + 1, payload⟩]) 256 := by
      rw [← trim_trim_snoc, ← h]
      simp [ReplayBuffer.push, streamOptions]
    rw [List.foldl_cons, ih hpush, push_seq, numberFrom, List.append_assoc, List.singleton_append]

theorem step_ring (h : ¬ s.attached) (payload : T) :
    s.step isTerminal maxPending (.ring payload) = { s with ring := s.ring.push (streamOptions isTerminal) payload } := by
  rw [WorkspaceStream.step, if_neg h]

theorem run_ring (payloads : List T) (h : ¬ s.attached) :
    Lib.run (WorkspaceStream.step isTerminal maxPending) s (payloads.map .ring) =
      { s with ring := payloads.foldl (ReplayBuffer.push (streamOptions isTerminal)) s.ring } := by
  induction payloads generalizing s with
  | nil => rfl
  | cons payload payloads ih =>
    rw [List.map_cons, Lib.run_cons, step_ring isTerminal maxPending h, ih (by exact h), List.foldl_cons]

/-- A verdict of no gap, over a ring that no longer holds the next number: what is written says nothing of the hole. -/
theorem not_contiguous_of_hole {s : WorkspaceStream T} (h : ¬ s.attached) (hidle : s.fanout = {}) (hgap : s.gap = false)
    {e : Rung T} {rest : List (Rung T)} (hheld : s.ring.held s.cursor s.ring.seq = e :: rest) (hhole : e.seq ≠ s.cursor + 1) :
    ¬ Contiguous (s.step isTerminal maxPending (.attach [])) := by
  intro hcontiguous
  have hentries : attachEntries isTerminal s s.ring [] = replayEntry isTerminal e :: rest.map (replayEntry isTerminal) := by
    rw [attachEntries, if_neg (by rw [hgap]; exact Bool.false_ne_true), replayAfter_streamOptions, hheld]
    simp
  have hwire : ∀ entries : List (Pending T), (Lib.run (Fanout.enqueue maxPending s.ring.lastId)
      (Fanout.enqueue maxPending s.ring.lastId {} (replayEntry isTerminal e)) entries).wire = [replayEntry isTerminal e] := by
    intro entries
    refine (Lib.invariant_of_run (fun f : Fanout T => f.writing ∧ f.wire = [replayEntry isTerminal e])
      (fun f entry hf => ?_) ?_ entries).2
    · obtain ⟨hwriting, hsame⟩ := Fanout.wire_enqueue hf.1 maxPending s.ring.lastId entry
      exact ⟨hwriting, hsame.trans hf.2⟩
    · simp [Fanout.enqueue, Fanout.full, Fanout.flush, Fanout.writeNext]
  have hstep : (s.step isTerminal maxPending (.attach [])).fanout.wire = [replayEntry isTerminal e] := by
    rw [WorkspaceStream.step, if_neg h]
    simp only [ringDuring, hidle, hentries, Lib.run_cons]
    exact hwire _
  have htold := hcontiguous.2
  have hcursor : (s.step isTerminal maxPending (.attach [])).cursor = s.cursor := by
    rw [WorkspaceStream.step, if_neg h]
  rw [hstep, hcursor] at htold
  simp [announce, replayEntry, hhole] at htold

end

namespace Example

/-- Event 1 was applied; then 257 more are rung while the bootstrap heartbeat is being written. -/
def rolled : List (StreamLabel ℕ) := (List.range 257).map (fun n => .ring (n + 2)) ++ [.attach []]

/-- Event 1 was applied, 2 and 3 are replayed, and of 4 to 6, queued behind a slow write, 4 is shed. -/
def slow : List (StreamLabel ℕ) :=
  [.ring 3, .attach [], .written, .written, .ring 4, .ring 5, .ring 6, .ring 7, .written, .written, .written, .heartbeat]

end Example

theorem slow_stream_contiguous :
    Contiguous (streamed (fun _ => false) 2 0 [1, 2] 0 (some 1) Example.slow) ∧
      ((streamed (fun _ => false) 2 0 [1, 2] 0 (some 1) Example.slow).fanout.wire.map (·.id)) =
        [some 2, some 3, some 4, none, some 6, some 7] :=
  ⟨stream_contiguous_of_reaches (fun _ => false) 2 0 [1, 2] 0 (some 1) Example.slow (by decide +kernel),
    by decide +kernel⟩

/-- The ring after the 257 events. -/
def Example.rolledRing : ReplayBuffer ℕ :=
  ((List.range 257).map (· + 2)).foldl (ReplayBuffer.push (streamOptions fun _ => false))
    (opened (fun _ => false) 0 [1] 0 (some 1)).ring

theorem rolledRing_held : (Example.rolledRing.held 1 Example.rolledRing.seq).head? = some ⟨3, 3⟩ := by
  have hseq : Example.rolledRing.seq = 258 := by decide +kernel
  rw [hseq, ReplayBuffer.held, Example.rolledRing, @events_foldl_push ℕ (fun _ => false) _ _ [⟨1, 1⟩] (by decide)]
  decide +kernel

theorem rolled_ring_not_contiguous :
    ¬ Contiguous (streamed (fun _ => false) 256 0 [1] 0 (some 1) Example.rolled) := by
  obtain ⟨rest, hheld⟩ := List.head?_eq_some_iff.mp rolledRing_held
  have hattached : ¬ (opened (fun _ => false) 0 [1] 0 (some 1)).attached := by decide
  have hcursor : (opened (fun _ => false) 0 [1] 0 (some 1)).cursor = 1 := by decide
  have hrings : (List.range 257).map (fun n => StreamLabel.ring (n + 2)) = ((List.range 257).map (· + 2)).map .ring := by
    rw [List.map_map]
    rfl
  rw [streamed, Example.rolled, Lib.run_append, hrings, run_ring _ _ _ hattached, ← Example.rolledRing, Lib.run_cons,
    Lib.run_nil]
  refine @not_contiguous_of_hole _ _ _ _ _ hattached rfl (by decide) ⟨3, 3⟩ rest ?_ ?_
  · dsimp only
    rw [hcursor, hheld]
  · dsimp only
    rw [hcursor]
    decide

end Claxedo.Events
