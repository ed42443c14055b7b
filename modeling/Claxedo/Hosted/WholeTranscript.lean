import Claxedo.Hosted.SnapshotRuns

/-! What readers and writers of a hosted transcript may count on, over every run of its calls. -/

namespace Claxedo.Hosted

open Claxedo.Lib

/-- What holds of a session's transcript and of its calls in a state. -/
structure WholeTranscript (hashing : Hashing) (w : World) : Prop where
  /-- The stored messages are those of the snapshot that landed last, in their order. -/
  last : transcript w.tables = lastMessages w.applied
  once : (w.tables.messages.map (·.messageId)).Nodup
  author : ∀ row ∈ w.tables.messages, row.role = "user" → row.authorActorId ≠ none
  /-- A batch landed for a call that was answered so, with the messages the call was given. -/
  landed : ∀ a ∈ w.applied, ∃ call, w.calls[a.call]? = some call ∧ prepare hashing call.args = .ok a.snapshot ∧
    ∃ ordinal, call.phase = .answered true ordinal
  /-- It landed under the lease's token, and no producer has a newer one. -/
  fence : ∀ a ∈ w.applied, ∀ fence, a.snapshot.fencingToken = some fence → a.newest = some fence
  newest : ∀ producer ∈ w.tables.producers, ∃ lease, w.tables.lease = some lease ∧ producer.fencingToken ≤ lease.fencingToken
  /-- Two calls sent one ordinal and answered with it carried the same messages, unless a snapshot with
  no ordinal landed there. -/
  same : ∀ (i j : ℕ) (c d : Call), w.calls[i]? = some c → w.calls[j]? = some d →
    ∀ s t, prepare hashing c.args = .ok s → prepare hashing d.args = .ok t →
    ∀ ordinal, s.maxEventOrdinal = some ordinal → t.maxEventOrdinal = some ordinal →
    ∀ a b, c.phase = .answered a ordinal → d.phase = .answered b ordinal → ¬ Mixed w.applied ordinal →
    s.messages = t.messages
  /-- A call that repeats a snapshot which had landed when it read the session is refused as a conflict
  only where its token was not the newest or its actor might not send, or a snapshot with no ordinal
  landed at its ordinal. -/
  redelivered : ∀ (i : ℕ) (call : Call), w.calls[i]? = some call → ∀ s, prepare hashing call.args = .ok s →
    Repeats w.applied call s → ∀ message, call.phase = .refused (.resourceConflict message) →
    call.barred ∨ ∃ ordinal, s.maxEventOrdinal = some ordinal ∧ Mixed w.applied ordinal

/-- What one step leaves of a transcript. -/
structure GoesForward (w w' : World) : Prop where
  ordinal : w.tables.session.maxEventOrdinal ≤ w'.tables.session.maxEventOrdinal
  author : ∀ row ∈ w.tables.messages, ∀ row' ∈ w'.tables.messages, row'.messageId = row.messageId →
    row.role = "user" → row'.role = "user" → row'.authorActorId = row.authorActorId
  /-- Where no batch landed, the session and its messages are as they were. -/
  unchanged : w'.applied = w.applied → w'.tables.session = w.tables.session ∧ w'.tables.messages = w.tables.messages
  grows : ∃ more, w'.applied = w.applied ++ more

section
variable {hashing : Hashing} {sent : List SyncArgs}

/-- Two batches sent one ordinal are one batch. -/
theorem Ordered.unique {applied : List Application} (h : Ordered applied) {a b : Application} (ha : a ∈ applied)
    (hb : b ∈ applied) (hsame : a.ordinal = b.ordinal) (hasent : a.snapshot.maxEventOrdinal ≠ none)
    (hbsent : b.snapshot.maxEventOrdinal ≠ none) : a = b := by
  obtain ⟨i, hi, rfl⟩ := List.getElem_of_mem ha
  obtain ⟨j, hj, rfl⟩ := List.getElem_of_mem hb
  rcases lt_trichotomy i j with hlt | rfl | hlt
  · have := (List.pairwise_iff_getElem.mp h i j hi hj hlt).2 hbsent
    omega
  · rfl
  · have := (List.pairwise_iff_getElem.mp h j i hj hi hlt).2 hasent
    omega

theorem Kept.whole_transcript {w : World} (hk : Kept hashing sent w) : WholeTranscript hashing w where
  last := by
    rcases List.eq_nil_or_concat w.applied with hnil | ⟨front, a, happlied⟩
    · have hstored := hk.stored
      rw [hnil] at hstored ⊢
      rw [transcript, List.Perm.eq_nil hstored]
      rfl
    · rw [List.concat_eq_append] at happlied
      have hlast : lastMessages w.applied = a.snapshot.messages := by
        simp only [happlied, lastMessages, List.getLast?_append, List.getLast?_singleton, Option.some_or, Option.map_some,
          Option.getD_some]
      obtain ⟨call, -, hprepare, -⟩ := (hk.landed a (happlied ▸ by simp)).answered
      have hstored := hk.stored
      rw [hlast] at hstored ⊢
      exact transcript_eq hstored (canonicalMessages_ok (prepare_ok hprepare).1).2
  once := hk.whole.keys
  author := hk.whole.known
  landed a ha := (hk.landed a ha).answered
  fence a ha := (hk.landed a ha).fence
  newest := hk.newest
  same i j c d hc hd s t hs ht ordinal hsOrdinal htOrdinal _ _ hcPhase hdPhase hunmixed := by
    have hcKnown := hk.known i c hc
    have hdKnown := hk.known j d hd
    rw [hcPhase] at hcKnown
    rw [hdPhase] at hdKnown
    obtain ⟨a, ha, haOrdinal, haMessages⟩ := hcKnown s hs hsOrdinal
    obtain ⟨b, hb, hbOrdinal, hbMessages⟩ := hdKnown t ht htOrdinal
    have hsent : ∀ e ∈ w.applied, e.ordinal = ordinal → e.snapshot.maxEventOrdinal ≠ none :=
      fun e he heOrdinal hnone => hunmixed ⟨e, he, heOrdinal, hnone⟩
    have hab := hk.ordered.unique ha hb (haOrdinal.trans hbOrdinal.symm) (hsent a ha haOrdinal) (hsent b hb hbOrdinal)
    rw [← haMessages, ← hbMessages, hab]
  redelivered i call hcall s hs hrepeats message hphase := by
    have hknown := hk.known i call hcall
    rw [hphase] at hknown
    exact hknown s hs hrepeats

/-- Messages whose authors were known before and after are of the same author. -/
theorem author_eq {t t' : Tables} (hw : Whole t) (hw' : Whole t') (hproducers : ∃ more, t'.producers = t.producers ++ more) :
    ∀ row ∈ t.messages, ∀ row' ∈ t'.messages, row'.messageId = row.messageId →
      row.role = "user" → row'.role = "user" → row'.authorActorId = row.authorActorId := by
  intro row hrow row' hrow' hid huser huser'
  obtain ⟨more, hproducers⟩ := hproducers
  have hauthor := hw.authored row hrow
  have hauthor' := hw'.authored row' hrow'
  have hknown := hw.known row hrow huser
  rw [if_pos huser] at hauthor
  rw [if_pos huser', hid, hproducers] at hauthor'
  rw [hauthor] at hknown
  rw [hauthor', hauthor, producerOf_append hknown]

theorem GoesForward.refl {w w' : World} (hk : Kept hashing sent w) (htables : w'.tables = w.tables)
    (happlied : w'.applied = w.applied) :
    GoesForward w w' where
  ordinal := by rw [htables]
  author := by
    rw [htables]
    exact author_eq hk.whole hk.whole ⟨[], by simp⟩
  unchanged _ := by rw [htables]; exact ⟨rfl, rfl⟩
  grows := ⟨[], by rw [happlied, List.append_nil]⟩

theorem Kept.goes_forward {w : World} (hk : Kept hashing sent w) (moment : Moment) :
    GoesForward w (w.step hashing moment) := by
  rcases moment with args | i | i | i | ⟨i, now⟩ | i | ⟨turnId, actorId⟩ | senders
  · exact .refl hk rfl rfl
  · exact .refl hk rfl rfl
  · exact .refl hk rfl rfl
  · exact .refl hk rfl rfl
  · simp only [World.step, World.write]
    split
    case h_2 => exact .refl hk rfl rfl
    rename_i call hget
    split
    case h_2 => exact .refl hk rfl rfl
    rename_i s current hphase
    split
    case h_2 => exact .refl hk rfl rfl
    rename_i t hbatch
    have hknown := hk.known i call hget
    rw [hphase] at hknown
    have hnodup := (canonicalMessages_ok (prepare_ok hknown.1).1).1
    have hfresh : w.tables.session.snapshotToken ≠ some w.tokens := fun h => absurd (hk.fresh _ h) (lt_irrefl _)
    obtain ⟨hadmits, -, hsession, -, hproducers, -, hwhole, -⟩ := batch_eq_some hk.whole hfresh hnodup hbatch
    refine ⟨?_, author_eq hk.whole hwhole ⟨[], by simpa using hproducers⟩, fun h => ?_, _, rfl⟩
    · dsimp only
      rw [hsession]
      have hevent := hadmits.event
      rcases hsent : s.maxEventOrdinal with _ | ordinal
      · simp only [SessionRow.landed, hsent, Option.getD_none, le_refl]
      · rw [hsent] at hevent
        simp only [eventGuard, decide_eq_true_eq] at hevent
        simp only [SessionRow.landed, hsent, Option.getD_some]
        omega
    · exact absurd (congrArg List.length h) (by simp)
  · exact .refl hk rfl rfl
  · have hkept := hk.takeOver turnId actorId
    have hsame : (w.tables.takeOver turnId actorId).session = w.tables.session ∧
        (w.tables.takeOver turnId actorId).messages = w.tables.messages ∧
        ∃ more, (w.tables.takeOver turnId actorId).producers = w.tables.producers ++ more := by
      unfold Tables.takeOver
      split
      · exact ⟨rfl, rfl, [], by simp⟩
      · exact ⟨rfl, rfl, _, rfl⟩
    obtain ⟨hsession, hmessages, hproducers⟩ := hsame
    exact ⟨by simp only [World.step, hsession, le_refl], author_eq hk.whole hkept.whole hproducers,
      fun _ => ⟨hsession, hmessages⟩, [], by simp [World.step]⟩
  · exact ⟨le_refl _, author_eq hk.whole (hk.setSenders senders).whole ⟨[], by simp [World.step]⟩, fun _ => ⟨rfl, rfl⟩,
      [], by simp [World.step]⟩

end

/-- Over every run of calls, takeovers and changes of rights, a transcript is one whole snapshot and
does not go back. -/
theorem hosted_transcript_whole (hashing : Hashing) (session : SessionRow) (senders : List String) (moments : List Moment)
    (hfree : CollisionFree hashing (moments.filterMap Moment.args?)) :
    WholeTranscript hashing (Lib.run (World.step hashing) (World.fresh session senders) moments) ∧
      ∀ moment, GoesForward (Lib.run (World.step hashing) (World.fresh session senders) moments)
        ((Lib.run (World.step hashing) (World.fresh session senders) moments).step hashing moment) := by
  have hk := Kept.run hfree session senders
  exact ⟨hk.whole_transcript, hk.goes_forward⟩

/-- One call from its start to its batch. -/
def oneCall (i : ℕ) (args : SyncArgs) : List Moment :=
  [.sync args, .access i, .readSession i, .readLease i, .write i 0]

def plainHashing : Hashing := { snapshotJson := fun messages => String.join (messages.map (·.id)), sha256Hex := id }

def answerArgs : SyncArgs :=
  { actorId := "alice", workspaceId := "ws", messages := [{ id := .text "m1", role := .text "assistant" }],
    maxEventOrdinal := some 7, fencingToken := some 1 }

/-- A snapshot lands, another turn takes the lease over, and the snapshot is delivered again. -/
def deliveredAgain : List Moment :=
  .takeOver "u1" "alice" :: oneCall 0 answerArgs ++ .takeOver "u2" "alice" :: oneCall 1 answerArgs

theorem hosted_transcript_whole_again :
    WholeTranscript plainHashing (Lib.run (World.step plainHashing) (World.fresh { workspaceId := "ws" } ["alice"]) deliveredAgain) ∧
      ∀ moment, GoesForward (Lib.run (World.step plainHashing) (World.fresh { workspaceId := "ws" } ["alice"]) deliveredAgain)
        ((Lib.run (World.step plainHashing) (World.fresh { workspaceId := "ws" } ["alice"]) deliveredAgain).step plainHashing
          moment) := by
  refine hosted_transcript_whole plainHashing { workspaceId := "ws" } ["alice"] deliveredAgain fun a ha b hb s t hs ht _ => ?_
  have hsent : deliveredAgain.filterMap Moment.args? = [answerArgs, answerArgs] := rfl
  rw [hsent] at ha hb
  obtain rfl : a = answerArgs := by simpa using ha
  obtain rfl : b = answerArgs := by simpa using hb
  rw [Except.ok.inj (hs.symm.trans ht)]

/-- No call that repeats a snapshot which landed is refused as a conflict. -/
def NeverConflicts (hashing : Hashing) (w : World) : Prop :=
  ∀ (i : ℕ) (call : Call), w.calls[i]? = some call → ∀ s, prepare hashing call.args = .ok s → Repeats w.applied call s →
    ∀ message, call.phase ≠ .refused (.resourceConflict message)

/-- Any two calls that were answered with one ordinal carried the same messages. -/
def AnswersAgree (hashing : Hashing) (w : World) : Prop :=
  ∀ (i j : ℕ) (c d : Call), w.calls[i]? = some c → w.calls[j]? = some d →
    ∀ s t, prepare hashing c.args = .ok s → prepare hashing d.args = .ok t →
    ∀ a b ordinal, c.phase = .answered a ordinal → d.phase = .answered b ordinal → s.messages = t.messages

def lateArgs : SyncArgs :=
  { answerArgs with messages := [{ id := .text "m0", role := .text "assistant" }], maxEventOrdinal := some 5 }

/-- A snapshot lands, and one of an ordinal the session is past comes in. -/
def deliveredLate : List Moment := .takeOver "u1" "alice" :: oneCall 0 answerArgs ++ oneCall 1 lateArgs

/-- A redelivery under a token that was taken over is a conflict, and a late snapshot is answered with
the ordinal the session stands at. -/
theorem not_never_conflicts :
    ¬ NeverConflicts plainHashing
        (Lib.run (World.step plainHashing) (World.fresh { workspaceId := "ws" } ["alice"]) deliveredAgain) ∧
      ¬ AnswersAgree plainHashing
        (Lib.run (World.step plainHashing) (World.fresh { workspaceId := "ws" } ["alice"]) deliveredLate) := by
  refine ⟨fun h => ?_, fun h => ?_⟩
  · have hcall : (Lib.run (World.step plainHashing) (World.fresh { workspaceId := "ws" } ["alice"]) deliveredAgain).calls[1]? =
        some ⟨answerArgs, .refused (.resourceConflict "Session snapshot fencing token is stale"), 1, true⟩ := by decide
    refine h 1 _ hcall ⟨"alice", "ws", [⟨"m1", "assistant", 0, "\x7b\x7d", none⟩], "m1", some 7, some 1, 0⟩ (by decide) ?_ _ rfl
    unfold Repeats
    decide
  · have hfirst : (Lib.run (World.step plainHashing) (World.fresh { workspaceId := "ws" } ["alice"]) deliveredLate).calls[0]? =
        some ⟨answerArgs, .answered true 7, 0, false⟩ := by decide
    have hsecond : (Lib.run (World.step plainHashing) (World.fresh { workspaceId := "ws" } ["alice"]) deliveredLate).calls[1]? =
        some ⟨lateArgs, .answered false 7, 1, false⟩ := by decide
    have hsame := h 0 1 _ _ hfirst hsecond ⟨"alice", "ws", [⟨"m1", "assistant", 0, "\x7b\x7d", none⟩], "m1", some 7, some 1, 0⟩
      ⟨"alice", "ws", [⟨"m0", "assistant", 0, "\x7b\x7d", none⟩], "m0", some 5, some 1, 0⟩ (by decide) (by decide) _ _ 7 rfl rfl
    exact absurd hsame (by decide)

end Claxedo.Hosted
