import Claxedo.Pty.HistoryDisk

/-! The transcript on disk at its close against what followed the last clear of the output. It is the tail of it as long
as both carries see each clear that completes, and no flush lands beside a removal. -/

namespace Claxedo.Pty

open Claxedo.Lib

/-- A tail of `whole`, and all of it within the limit. -/
def KeepsTail (limit : ℕ) (kept whole : Text) : Prop := kept <:+ whole ∧ (whole.length ≤ limit → kept = whole)

/-- What followed the last clear, or all there ever was. -/
def Transcript.followed (t : Transcript) : Text := (afterLast CLEAR_SCROLLBACK t.stream).getD (t.seed ++ t.stream)

def TranscriptWhole (limit : ℕ) (t : Transcript) : Prop :=
  t.closed = true → KeepsTail limit (t.history.file.getD []) t.followed

namespace Flush

/-- What is still to be appended. -/
def pending (f : Flush) : Text :=
  match f.stage with
  | .append => f.chunk
  | .examine => []
  | .rewrite _ => []

/-- What its next file operation writes. -/
def writes (f : Flush) : Text :=
  match f.stage with
  | .append => f.chunk
  | .examine => []
  | .rewrite kept => kept

end Flush

/-- The output that completes a clear shows it to both carries; a file operation completes with no removal pending, and
writes no half of a surrogate pair, or while some removal waits for its flush; the close ends with no removal pending. -/
def Orderly (t : Transcript) : TranscriptEvent → Prop
  | .output data => CLEAR_SCROLLBACK <:+: t.stream.rtake (CLEAR_SCROLLBACK.length - 1) ++ data →
      CLEAR_SCROLLBACK <:+: t.scannerCarry ++ data ∧ CLEAR_SCROLLBACK <:+: t.clearScrollbackCarry ++ data
  | .proceed => ∀ flush ∈ t.history.queue.head?,
      (t.history.clears = [] ∧ toWellFormed flush.writes = flush.writes) ∨ ∃ n ∈ t.history.clears, 0 < n
  | .closed => t.closing = true → t.history.queue = [] → t.history.clears = []
  | _ => True

instance (t : Transcript) (event : TranscriptEvent) : Decidable (Orderly t event) := by
  unfold Orderly
  split <;> infer_instance

namespace KeepsTail

variable {limit : ℕ} {kept whole more shorter : Text}

theorem refl (limit : ℕ) (whole : Text) : KeepsTail limit whole whole := ⟨List.suffix_refl _, fun _ => rfl⟩

theorem append (h : KeepsTail limit kept whole) (more : Text) : KeepsTail limit (kept ++ more) (whole ++ more) := by
  obtain ⟨⟨before, rfl⟩, hall⟩ := h
  refine ⟨⟨before, by rw [List.append_assoc]⟩, fun hle => ?_⟩
  rw [← hall]
  rw [List.length_append] at hle
  omega

theorem shorten (h : KeepsTail limit (kept ++ more) whole) (hshorter : shorter <:+ kept) (hpast : limit < kept.length) :
    KeepsTail limit (shorter ++ more) whole := by
  obtain ⟨hsuffix, -⟩ := h
  have hlen := hsuffix.length_le
  rw [List.length_append] at hlen
  obtain ⟨before, rfl⟩ := hshorter
  refine ⟨List.IsSuffix.trans ⟨before, by rw [List.append_assoc]⟩ hsuffix, fun hle => ?_⟩
  omega

end KeepsTail

namespace DiskHistory

variable {limit : ℕ} {h : DiskHistory} {whole : Text}

def content (h : DiskHistory) : Text := h.file.getD []

def pending (h : DiskHistory) : Text := h.queue.flatMap Flush.pending

/-- With no removal pending: the file, the flushes and what is staged make up the tail. -/
structure Settled (limit : ℕ) (h : DiskHistory) (whole : Text) : Prop where
  clears : h.clears = []
  queued : ∀ f ∈ h.queue.tail, f.stage = .append
  rewriting : ∀ f ∈ h.queue, ∀ kept, f.stage = .rewrite kept → kept <:+ h.content ∧ limit < h.content.length
  kept : KeepsTail limit (h.content ++ (h.pending ++ h.staged)) whole

/-- With removals pending, the last of which waits for `n` flushes: what is flushed after it makes up the whole. -/
structure Clearing (h : DiskHistory) (whole : Text) (n : ℕ) : Prop where
  last : n ∈ h.clears
  most : ∀ m ∈ h.clears, m ≤ n
  within : n ≤ h.queue.length
  waiting : ∀ f ∈ h.queue.drop n, f.stage = .append
  kept : (h.queue.drop n).flatMap Flush.chunk ++ h.staged = whole

inductive Accounts (limit : ℕ) (h : DiskHistory) (whole : Text) : Prop
  | settled (hsettled : Settled limit h whole)
  | clearing (n : ℕ) (hclearing : Clearing h whole n)

theorem Accounts.within (ha : Accounts limit h whole) : ∀ m ∈ h.clears, m ≤ h.queue.length := by
  intro m hm
  rcases ha with hs | ⟨n, hc⟩
  · rw [hs.clears] at hm
    cases hm
  · exact Nat.le_trans (hc.most m hm) hc.within

theorem Accounts.timer (ha : Accounts limit h whole) (timer : Bool) : Accounts limit { h with timer := timer } whole := by
  rcases ha with hs | ⟨n, hc⟩
  · exact .settled ⟨hs.clears, hs.queued, hs.rewriting, hs.kept⟩
  · exact .clearing n ⟨hc.last, hc.most, hc.within, hc.waiting, hc.kept⟩

theorem Accounts.append (ha : Accounts limit h whole) (data : Text) : Accounts limit (h.append data) (whole ++ data) := by
  unfold DiskHistory.append
  split
  · rename_i hdata
    rw [hdata, List.append_nil]
    exact ha
  · rcases ha with hs | ⟨n, hc⟩
    · refine .settled ⟨hs.clears, hs.queued, hs.rewriting, ?_⟩
      have happ := hs.kept.append data
      rw [List.append_assoc, List.append_assoc] at happ
      exact happ
    · refine .clearing n ⟨hc.last, hc.most, hc.within, hc.waiting, ?_⟩
      rw [← hc.kept, List.append_assoc]

theorem Accounts.flush (ha : Accounts limit h whole) : Accounts limit h.flush whole := by
  unfold DiskHistory.flush
  split
  · exact ha
  · rcases ha with hs | ⟨n, hc⟩
    · refine .settled ⟨hs.clears, ?_, ?_, ?_⟩
      · intro f hf
        rcases hq : h.queue with _ | ⟨first, rest⟩
        · rw [hq] at hf
          cases hf
        · have hqueued := hs.queued
          rw [hq] at hf hqueued
          rcases List.mem_append.mp hf with hf | hf
          · exact hqueued f hf
          · rw [List.mem_singleton.mp hf]
      · intro f hf kept hkept
        rcases List.mem_append.mp hf with hf | hf
        · exact hs.rewriting f hf kept hkept
        · rw [List.mem_singleton.mp hf] at hkept
          cases hkept
      · have hkept := hs.kept
        simp only [content, pending, List.flatMap_append, List.flatMap_singleton, Flush.pending, List.append_nil] at hkept ⊢
        exact hkept
    · have hdrop : (h.queue ++ [{ chunk := h.staged : Flush }]).drop n = h.queue.drop n ++ [{ chunk := h.staged }] :=
        List.drop_append_of_le_length hc.within
      refine .clearing n ⟨hc.last, hc.most, ?_, ?_, ?_⟩
      · have hle := hc.within
        rw [List.length_append]
        omega
      · intro f hf
        rw [hdrop] at hf
        rcases List.mem_append.mp hf with hf | hf
        · exact hc.waiting f hf
        · rw [List.mem_singleton.mp hf]
      · rw [hdrop, List.flatMap_append, List.flatMap_singleton, List.append_nil]
        exact hc.kept

theorem Accounts.clear (ha : Accounts limit h whole) : Accounts limit h.clear [] := by
  refine .clearing h.queue.length ⟨?_, ?_, Nat.le_refl _, ?_, ?_⟩
  · exact List.mem_append_right _ (List.mem_singleton_self _)
  · intro m hm
    rcases List.mem_append.mp hm with hm | hm
    · exact ha.within m hm
    · exact Nat.le_of_eq (List.mem_singleton.mp hm)
  · intro f hf
    simp [DiskHistory.clear] at hf
  · simp [DiskHistory.clear]

theorem flatMap_pending {flushes : List Flush} (h : ∀ f ∈ flushes, f.stage = .append) :
    flushes.flatMap Flush.pending = flushes.flatMap Flush.chunk := by
  refine List.flatMap_congr fun f hf => ?_
  rw [Flush.pending, h f hf]

theorem Accounts.removed (ha : Accounts limit h whole) (i : ℕ) : Accounts limit (h.removed i) whole := by
  unfold DiskHistory.removed
  split
  · rename_i hi
    obtain ⟨hlt, hzero⟩ := List.getElem?_eq_some_iff.mp hi
    rcases ha with hs | ⟨n, hc⟩
    · rw [hs.clears] at hlt
      cases hlt
    · by_cases hnone : h.clears.eraseIdx i = []
      · have hn : n = 0 := by
          have hone : h.clears.length = 1 := by
            have hlen := List.length_eraseIdx_of_lt hlt
            rw [hnone, List.length_nil] at hlen
            omega
          obtain ⟨m, hm⟩ := List.length_eq_one_iff.mp hone
          have hlast := hc.last
          rw [hm, List.length_singleton, Nat.lt_one_iff] at hlt
          simp only [hm, hlt, List.getElem_cons_zero] at hzero
          rw [hm, hzero, List.mem_singleton] at hlast
          exact hlast
        subst hn
        have hwaiting := hc.waiting
        have hkept := hc.kept
        rw [List.drop_zero] at hwaiting hkept
        refine .settled ⟨hnone, fun f hf => hwaiting f (List.mem_of_mem_tail hf), fun f hf kept hstage => ?_, ?_⟩
        · rw [hwaiting f hf] at hstage
          cases hstage
        · rw [content, pending, flatMap_pending hwaiting, Option.getD_none, List.nil_append, hkept]
          exact KeepsTail.refl limit whole
      · -- the last clear may be the one removed, and then none of the others waits any more either
        have hmem : ∃ m ∈ h.clears.eraseIdx i, m = n := by
          by_cases hn : n = 0
          · obtain ⟨m, hm⟩ := List.exists_mem_of_ne_nil _ hnone
            have hle := hc.most m (List.mem_of_mem_eraseIdx hm)
            exact ⟨m, hm, by omega⟩
          · obtain ⟨j, hj, hjn⟩ := List.getElem_of_mem hc.last
            refine ⟨n, List.mem_eraseIdx_iff_getElem.mpr ⟨j, hj, ?_, hjn⟩, rfl⟩
            rintro rfl
            omega
        obtain ⟨m, hm, rfl⟩ := hmem
        exact .clearing m ⟨hm, fun k hk => hc.most k (List.mem_of_mem_eraseIdx hk), hc.within, hc.waiting, hc.kept⟩
  · exact ha

theorem Clearing.flushed {n : ℕ} (hc : Clearing h whole n) (hn : 0 < n) : Clearing h.flushed whole (n - 1) := by
  have hdrop : h.queue.tail.drop (n - 1) = h.queue.drop n := by
    rw [List.drop_tail]
    congr 1
    omega
  refine ⟨List.mem_map_of_mem hc.last, ?_, ?_, ?_, ?_⟩
  · intro m hm
    obtain ⟨k, hk, rfl⟩ := List.mem_map.mp hm
    have hle := hc.most k hk
    omega
  · have hle := hc.within
    rw [DiskHistory.flushed, List.length_tail]
    omega
  · intro f hf
    rw [DiskHistory.flushed, hdrop] at hf
    exact hc.waiting f hf
  · rw [DiskHistory.flushed, hdrop]
    exact hc.kept

/-- Only the flushes after the last clear matter to it. -/
theorem Clearing.of_same {h' : DiskHistory} {n : ℕ} (hc : Clearing h whole n) (hclears : h'.clears = h.clears)
    (hstaged : h'.staged = h.staged) (hlength : h'.queue.length = h.queue.length)
    (hdrop : h'.queue.drop n = h.queue.drop n) : Clearing h' whole n := by
  refine ⟨?_, ?_, ?_, ?_, ?_⟩
  · rw [hclears]
    exact hc.last
  · rw [hclears]
    exact hc.most
  · rw [hlength]
    exact hc.within
  · rw [hdrop]
    exact hc.waiting
  · rw [hdrop, hstaged]
    exact hc.kept

theorem Clearing.proceed {n : ℕ} (hc : Clearing h whole n) (hn : 0 < n) : Accounts limit (h.proceed limit) whole := by
  have hflushed : ∀ {h' : DiskHistory}, Clearing h' whole n → Accounts limit h'.flushed whole :=
    fun hc' => .clearing (n - 1) (hc'.flushed hn)
  have hrestaged : ∀ (next : Flush) {first : Flush} {rest : List Flush}, h.queue = first :: rest →
      (next :: rest).length = h.queue.length ∧ (next :: rest).drop n = h.queue.drop n := by
    intro next first rest hqueue
    obtain ⟨k, rfl⟩ : ∃ k, n = k + 1 := ⟨n - 1, by omega⟩
    rw [hqueue]
    exact ⟨rfl, rfl⟩
  unfold DiskHistory.proceed
  rcases hqueue : h.queue with _ | ⟨first, rest⟩ <;> dsimp only
  · exact .clearing n hc
  · rcases hstage : first.stage with _ | _ | kept <;> dsimp only
    · split
      · obtain ⟨hlength, hdrop⟩ := hrestaged { first with stage := .examine } hqueue
        exact .clearing n (hc.of_same rfl rfl hlength hdrop)
      · exact hflushed (hc.of_same rfl rfl (by rw [hqueue]) (by rw [hqueue]))
    · rcases h.file with _ | existing <;> dsimp only
      · exact hflushed hc
      · rcases compaction limit existing with _ | kept <;> dsimp only
        · exact hflushed (hc.of_same rfl rfl (by rw [hqueue]) (by rw [hqueue]))
        · obtain ⟨hlength, hdrop⟩ := hrestaged { first with stage := .rewrite kept } hqueue
          exact .clearing n (hc.of_same rfl rfl hlength hdrop)
    · exact hflushed (hc.of_same rfl rfl (by rw [hqueue]) (by rw [hqueue]))

theorem Settled.flushed (hclears : h.clears = []) (hqueued : ∀ f ∈ h.queue.tail, f.stage = .append)
    (hkept : KeepsTail limit (h.content ++ (h.queue.tail.flatMap Flush.chunk ++ h.staged)) whole) :
    Settled limit h.flushed whole := by
  refine ⟨?_, fun f hf => hqueued f (List.mem_of_mem_tail hf), fun f hf kept hstage => ?_, ?_⟩
  · rw [DiskHistory.flushed, hclears, List.map_nil]
  · rw [hqueued f hf] at hstage
    cases hstage
  · rw [pending, DiskHistory.flushed, flatMap_pending hqueued]
    exact hkept

theorem compaction_some {existing kept : Text} (h : compaction limit existing = some kept) :
    kept <:+ existing ∧ limit < existing.length := by
  unfold compaction at h
  split at h
  · cases h
  · obtain rfl := Option.some.inj h
    exact ⟨safeTrimStart_suffix _ _, by omega⟩

theorem Settled.proceed (hs : Settled limit h whole)
    (htext : ∀ flush ∈ h.queue.head?, toWellFormed flush.writes = flush.writes) : Accounts limit (h.proceed limit) whole := by
  unfold DiskHistory.proceed
  rcases hqueue : h.queue with _ | ⟨first, rest⟩ <;> dsimp only
  · exact .settled hs
  · have hrest := hs.queued
    have hwrites := htext first (by rw [hqueue]; rfl)
    have hkept := hs.kept
    rw [hqueue, List.tail_cons] at hrest
    rw [pending, hqueue, List.flatMap_cons, flatMap_pending hrest, List.append_assoc] at hkept
    rcases hstage : first.stage with _ | _ | kept <;> dsimp only
    · simp only [Flush.writes, Flush.pending, hstage] at hwrites hkept
      have happ : KeepsTail limit ((h.content ++ toWellFormed first.chunk) ++ (rest.flatMap Flush.chunk ++ h.staged)) whole := by
        rw [hwrites, List.append_assoc]
        exact hkept
      split
      · refine .settled ⟨hs.clears, hrest, fun f hf kept hf' => ?_, ?_⟩
        · rcases List.mem_cons.mp hf with rfl | hf
          · cases hf'
          · rw [hrest f hf] at hf'
            cases hf'
        · rw [pending, List.flatMap_cons, flatMap_pending hrest]
          exact happ
      · exact .settled (Settled.flushed hs.clears hrest happ)
    · simp only [Flush.pending, hstage, List.nil_append] at hkept
      rcases hfile : h.file with _ | existing <;> dsimp only
      · refine .settled (Settled.flushed hs.clears hs.queued ?_)
        rw [hqueue, List.tail_cons]
        exact hkept
      · rcases hcompact : compaction limit existing with _ | kept <;> dsimp only
        · refine .settled (Settled.flushed hs.clears hrest ?_)
          rw [content, hfile] at hkept
          exact hkept
        · refine .settled ⟨hs.clears, hrest, fun f hf kept' hf' => ?_, ?_⟩
          · rcases List.mem_cons.mp hf with rfl | hf
            · obtain rfl := FlushStage.rewrite.inj hf'
              exact compaction_some hcompact
            · rw [hrest f hf] at hf'
              cases hf'
          · rw [content, hfile] at hkept
            rw [pending, List.flatMap_cons, flatMap_pending hrest]
            exact hkept
    · simp only [Flush.writes, Flush.pending, hstage, List.nil_append] at hwrites hkept
      obtain ⟨hsuffix, hpast⟩ := hs.rewriting first (by rw [hqueue]; exact List.mem_cons_self) kept hstage
      refine .settled (Settled.flushed hs.clears hrest ?_)
      change KeepsTail limit (toWellFormed kept ++ _) whole
      rw [hwrites]
      exact hkept.shorten hsuffix hpast

theorem Accounts.proceed (ha : Accounts limit h whole) (horder : ∀ flush ∈ h.queue.head?,
    (h.clears = [] ∧ toWellFormed flush.writes = flush.writes) ∨ ∃ n ∈ h.clears, 0 < n) :
    Accounts limit (h.proceed limit) whole := by
  rcases hqueue : h.queue with _ | ⟨first, rest⟩
  · have hidle : h.proceed limit = h := by
      unfold DiskHistory.proceed
      rw [hqueue]
    rw [hidle]
    exact ha
  · have hfirst := horder first (by rw [hqueue]; rfl)
    rcases ha with hs | ⟨n, hc⟩
    · refine hs.proceed fun flush hflush => ?_
      rcases horder flush hflush with ⟨-, htext⟩ | ⟨n, hn, -⟩
      · exact htext
      · rw [hs.clears] at hn
        cases hn
    · rcases hfirst with ⟨hclears, -⟩ | ⟨m, hm, hpos⟩
      · have hlast := hc.last
        rw [hclears] at hlast
        cases hlast
      · exact hc.proceed (Nat.lt_of_lt_of_le hpos (hc.most m hm))

end DiskHistory

theorem scan_fst {needle carry chunk : Text} : (scan needle carry chunk).1 = true ↔ chunk ≠ [] ∧ needle <:+: carry ++ chunk := by
  unfold scan
  split <;> simp_all

/-- A scanner only ever keeps an end of what it was shown. -/
theorem scan_snd_suffix {needle carry chunk stream : Text} (h : carry <:+ stream.rtake (needle.length - 1)) :
    (scan needle carry chunk).2 <:+ (stream ++ chunk).rtake (needle.length - 1) := by
  unfold scan
  split
  · rename_i hchunk
    rw [hchunk, List.append_nil]
    exact h
  · dsimp only
    split
    · exact List.nil_suffix
    · obtain ⟨before, hbefore⟩ := h.trans (rtake_suffix _ _)
      rw [← hbefore, List.append_assoc]
      exact rtake_suffix_rtake (List.suffix_append _ _)

theorem ne_nil_of_completes {stream data : Text}
    (h : CLEAR_SCROLLBACK <:+: stream.rtake (CLEAR_SCROLLBACK.length - 1) ++ data) : data ≠ [] := by
  rintro rfl
  have hle := h.length_le
  have hlen : CLEAR_SCROLLBACK.length = 4 := rfl
  rw [List.append_nil, List.rtake, List.length_drop, hlen] at hle
  omega

namespace Transcript

variable {limit : ℕ} {t : Transcript} {data : Text}

/-- Both carries are ends of the output so far. -/
structure Carries (t : Transcript) : Prop where
  scanner : t.scannerCarry <:+ t.stream.rtake (CLEAR_SCROLLBACK.length - 1)
  clearScrollback : t.clearScrollbackCarry <:+ t.stream.rtake (CLEAR_SCROLLBACK.length - 1)

theorem Carries.recordOutput (hc : Carries t) (data : Text) : Carries (recordOutput data t) := by
  have hscanner : (scan CLEAR_SCROLLBACK t.scannerCarry data).2 <:+
      (t.stream ++ data).rtake (CLEAR_SCROLLBACK.length - 1) := scan_snd_suffix hc.scanner
  have hclear := rtake_suffix_rtake (n := CLEAR_SCROLLBACK.length - 1) (List.suffix_append t.stream data)
  unfold Pty.recordOutput filterOutput
  dsimp only
  split <;> exact ⟨hscanner, hclear⟩

theorem recordOutput_stream (data : Text) (t : Transcript) : (recordOutput data t).stream = t.stream ++ data := rfl

theorem recordOutput_seed (data : Text) (t : Transcript) : (recordOutput data t).seed = t.seed := by
  unfold recordOutput filterOutput
  dsimp only
  split <;> rfl

theorem recordOutput_of_not_completes (hc : Carries t)
    (h : ¬ CLEAR_SCROLLBACK <:+: t.stream.rtake (CLEAR_SCROLLBACK.length - 1) ++ data) :
    (recordOutput data t).history = t.history.append data ∧ (recordOutput data t).followed = t.followed ++ data := by
  have hmiss : ¬ (scan CLEAR_SCROLLBACK t.scannerCarry data).1 = true := by
    rw [scan_fst]
    rintro ⟨-, hin⟩
    exact h (infix_append_of_suffix hc.scanner hin)
  refine ⟨?_, ?_⟩
  · simp only [recordOutput, filterOutput, if_neg hmiss]
  · rw [followed, followed, recordOutput_stream, recordOutput_seed, afterLast_append h]
    rcases afterLast CLEAR_SCROLLBACK t.stream with _ | rest
    · rw [Option.map_none, Option.getD_none, Option.getD_none, List.append_assoc]
    · rw [Option.map_some, Option.getD_some, Option.getD_some]

theorem recordOutput_of_completes (hc : Carries t)
    (h : CLEAR_SCROLLBACK <:+: t.stream.rtake (CLEAR_SCROLLBACK.length - 1) ++ data)
    (hscanner : CLEAR_SCROLLBACK <:+: t.scannerCarry ++ data)
    (hclear : CLEAR_SCROLLBACK <:+: t.clearScrollbackCarry ++ data) :
    (recordOutput data t).history = t.history.clear.append (recordOutput data t).followed := by
  have hhit : (scan CLEAR_SCROLLBACK t.scannerCarry data).1 = true := scan_fst.mpr ⟨ne_nil_of_completes h, hscanner⟩
  obtain ⟨rest, hrest⟩ := exists_afterLast hclear
  have hseen : t.clearScrollbackCarry ++ data <:+ t.stream ++ data := by
    obtain ⟨before, hbefore⟩ := hc.clearScrollback.trans (rtake_suffix _ _)
    rw [← hbefore, List.append_assoc]
    exact List.suffix_append _ _
  have hfollowed : (recordOutput data t).followed = rest := by
    rw [followed, recordOutput_stream, afterLast_of_suffix hseen hclear, hrest, Option.getD_some]
  rw [hfollowed]
  simp only [recordOutput, filterOutput, if_pos hhit, extractContentAfterClear, hrest, Option.getD_some]

/-- What every orderly step keeps. -/
structure Faithful (limit : ℕ) (t : Transcript) : Prop where
  carries : Carries t
  accounts : t.history.Accounts limit t.followed
  closing : t.closing = true → t.history.staged = []
  closed : t.closed = true → t.closing = true ∧ t.history.queue = [] ∧ t.history.clears = []

theorem Faithful.output (hf : Faithful limit t) (horder : Orderly t (.output data)) (hopen : ¬ t.closing = true) :
    Faithful limit (recordOutput data t) := by
  have hclosing : (recordOutput data t).closing = t.closing := by
    unfold recordOutput filterOutput
    dsimp only
    split <;> rfl
  have hclosed : (recordOutput data t).closed = t.closed := by
    unfold recordOutput filterOutput
    dsimp only
    split <;> rfl
  refine ⟨hf.carries.recordOutput data, ?_, ?_, ?_⟩
  · by_cases hcompletes : CLEAR_SCROLLBACK <:+: t.stream.rtake (CLEAR_SCROLLBACK.length - 1) ++ data
    · obtain ⟨hscanner, hclear⟩ := horder hcompletes
      rw [recordOutput_of_completes hf.carries hcompletes hscanner hclear]
      exact hf.accounts.clear.append _
    · obtain ⟨hhistory, hfollowed⟩ := recordOutput_of_not_completes hf.carries hcompletes
      rw [hhistory, hfollowed]
      exact hf.accounts.append data
  · rw [hclosing]
    exact fun h => absurd h hopen
  · rw [hclosed]
    exact fun h => absurd (hf.closed h).1 hopen

/-- Steps that leave the output alone keep what followed the last clear. -/
theorem Faithful.of_history (hf : Faithful limit t) {h : DiskHistory} (haccounts : h.Accounts limit t.followed)
    (hstaged : t.history.staged = [] → h.staged = [])
    (hover : t.history.staged = [] → t.history.queue = [] → t.history.clears = [] → h.queue = [] ∧ h.clears = []) :
    Faithful limit { t with history := h } := by
  refine ⟨⟨hf.carries.scanner, hf.carries.clearScrollback⟩, haccounts, fun hclosing => ?_, fun hclosed => ?_⟩
  · exact hstaged (hf.closing hclosing)
  · obtain ⟨hclosing, hqueue, hclears⟩ := hf.closed hclosed
    exact ⟨hclosing, hover (hf.closing hclosing) hqueue hclears⟩

theorem Faithful.close (hf : Faithful limit t) : Faithful limit { t with history := t.history.close, closing := true } := by
  have hstaged : t.history.close.staged = [] := by
    unfold DiskHistory.close DiskHistory.flush
    dsimp only
    split
    · assumption
    · rfl
  refine ⟨⟨hf.carries.scanner, hf.carries.clearScrollback⟩, (hf.accounts.timer false).flush, fun _ => hstaged, fun hclosed => ?_⟩
  obtain ⟨hclosing, hqueue, hclears⟩ := hf.closed hclosed
  refine ⟨rfl, ?_⟩
  have hempty := hf.closing hclosing
  simp only [DiskHistory.close, DiskHistory.flush, hempty, if_pos, hqueue, hclears, and_self]

theorem Faithful.step (hf : Faithful limit t) (event : TranscriptEvent) (horder : Orderly t event) :
    Faithful limit (transcriptStep limit t event) := by
  cases event with
  | output data =>
    simp only [transcriptStep]
    split
    · exact hf
    · rename_i hopen
      exact hf.output horder hopen
  | flushTimer =>
    simp only [transcriptStep, DiskHistory.flushTimer]
    split
    · refine hf.of_history (hf.accounts.timer false).flush (fun hstaged => ?_) fun hstaged hqueue hclears => ?_
      · simp only [DiskHistory.flush, hstaged, if_pos]
      · simp only [DiskHistory.flush, hstaged, if_pos]
        exact ⟨hqueue, hclears⟩
    · exact hf
  | proceed =>
    refine hf.of_history (hf.accounts.proceed horder) (fun hstaged => ?_) fun _ hqueue hclears => ?_
    · unfold DiskHistory.proceed
      split
      · exact hstaged
      · split
        · dsimp only
          split <;> exact hstaged
        · split
          · exact hstaged
          · split <;> exact hstaged
        · exact hstaged
    · simp only [DiskHistory.proceed, hqueue, hclears, and_self]
  | removed i =>
    refine hf.of_history (hf.accounts.removed i) (fun hstaged => ?_) fun _ hqueue hclears => ?_
    · unfold DiskHistory.removed
      split <;> exact hstaged
    · simp only [DiskHistory.removed, hclears, List.getElem?_nil, reduceCtorEq, if_false, hqueue, and_self]
  | close => exact hf.close
  | closed =>
    simp only [transcriptStep]
    split
    · rename_i hdone
      rw [Bool.and_eq_true, List.isEmpty_iff] at hdone
      refine ⟨⟨hf.carries.scanner, hf.carries.clearScrollback⟩, hf.accounts, hf.closing, fun _ => ?_⟩
      exact ⟨hdone.1, hdone.2, horder hdone.1 hdone.2⟩
    · exact hf

theorem Faithful.whole (hf : Faithful limit t) : TranscriptWhole limit t := by
  intro hclosed
  obtain ⟨hclosing, hqueue, hclears⟩ := hf.closed hclosed
  rcases hf.accounts with hs | ⟨n, hc⟩
  · have hkept := hs.kept
    rw [DiskHistory.pending, hqueue, hf.closing hclosing, List.flatMap_nil, List.append_nil, List.append_nil] at hkept
    exact hkept
  · have hlast := hc.last
    rw [hclears] at hlast
    cases hlast

end Transcript

theorem createDiskHistory_idle (limit : ℕ) (existing : Option Text) :
    (createDiskHistory limit existing).staged = [] ∧ (createDiskHistory limit existing).queue = [] ∧
      (createDiskHistory limit existing).clears = [] := by
  unfold createDiskHistory
  rcases existing with _ | existing <;> dsimp only
  · exact ⟨rfl, rfl, rfl⟩
  · split
    · rcases compaction limit existing with _ | kept <;> exact ⟨rfl, rfl, rfl⟩
    · exact ⟨rfl, rfl, rfl⟩

theorem faithful_start (limit : ℕ) (previousPtyId : Bool) (existing : Option Text) :
    (startTranscript limit previousPtyId existing).Faithful limit := by
  obtain ⟨hstaged, hqueue, hclears⟩ := createDiskHistory_idle limit existing
  have hsettled : (createDiskHistory limit existing).Settled limit (createDiskHistory limit existing).content := by
    refine ⟨hclears, fun f hf => ?_, fun f hf => ?_, ?_⟩
    · rw [hqueue] at hf
      cases hf
    · rw [hqueue] at hf
      cases hf
    · rw [DiskHistory.pending, hqueue, hstaged, List.flatMap_nil, List.append_nil, List.append_nil]
      exact KeepsTail.refl _ _
  refine ⟨⟨List.nil_suffix, List.nil_suffix⟩, ?_, (fun h => by cases h), fun h => by cases h⟩
  rw [Transcript.followed]
  change DiskHistory.Accounts limit _ (_ ++ [])
  rw [List.append_nil]
  exact (DiskHistory.Accounts.settled hsettled).append _

theorem transcriptWhole_of_orderly (limit : ℕ) (previousPtyId : Bool) (existing : Option Text) (events : List TranscriptEvent)
    (h : Meets (transcriptStep limit) Orderly (startTranscript limit previousPtyId existing) events) :
    TranscriptWhole limit (run (transcriptStep limit) (startTranscript limit previousPtyId existing) events) :=
  (invariant_of_meets (Transcript.Faithful limit) (fun _ event hf => hf.step event) (faithful_start _ _ _) h).whole

/-- Output, a clear and what follows it; the removal is over before the flush that the timer starts. -/
theorem transcriptWhole_cleared : TranscriptWhole 8 (run (transcriptStep 8) (startTranscript 8 false none)
    [.output (utf16 "ab"), .flushTimer, .proceed, .output (ESC :: utf16 "[3"), .output (utf16 "Jc"), .removed 0, .flushTimer,
      .proceed, .close, .closed]) :=
  transcriptWhole_of_orderly 8 false none _ (by decide)

/-- A clear that comes one unit at a time leaves its last unit behind. -/
theorem not_transcriptWhole : ¬ TranscriptWhole 8 (run (transcriptStep 8) (startTranscript 8 false none)
    [.output [ESC], .output [CSI_INTRODUCER], .output (utf16 "3"), .output (utf16 "J"), .removed 0, .close, .proceed, .closed]) := by
  intro h
  have hkept := (h (by decide)).1.length_le
  revert hkept
  decide

end Claxedo.Pty
