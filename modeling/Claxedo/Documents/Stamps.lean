import Claxedo.Documents.HostedHistory
import Claxedo.Lib.Lists

/-! The stamps of a hosted document's snapshots. A new stamp is past the clock and past what the head object says, so it is past
every earlier one just where the clock is, or the head has not fallen behind them. -/

namespace Claxedo.Documents

open Claxedo.Lib

variable {ε : Type} {etags : Etags ε DocumentObject} {store store' : DocumentStore etags} {body : DocumentObject}
  {id : String} {state : SnapshotState} {stored : List Stamp} {limit : ℕ}

theorem parseSnapshotState_spec (h : parseSnapshotState body id = .ok state) : body = .snapshot state ∧ state.id = id := by
  unfold parseSnapshotState at h
  split at h
  · next found =>
    split_ifs at h with hid
    obtain rfl := Except.ok.inj h
    exact ⟨rfl, hid⟩
  · cases h

/-- Every snapshot that can be read was given its stamp. -/
def Stamped (stored : List Stamp) (store : DocumentStore etags) : Prop :=
  ∀ id object state, store.objects (.metadata id) = some object → parseSnapshotState object.body id = .ok state →
    state.stamp ∈ stored

theorem Stamped.mono {more : List Stamp} (h : Stamped stored store) : Stamped (stored ++ more) store :=
  fun id object state hobject hstate => List.mem_append_left _ (h id object state hobject hstate)

theorem Stamped.upload {now : ℤ} {key : ObjectKey} (h : Stamped stored store)
    (hbody : ∀ id state, key = .metadata id → body = .snapshot state → state.stamp ∈ stored) :
    Stamped stored (store.upload body now key) := by
  intro id object state hobject hstate
  by_cases hkey : key = .metadata id
  · subst hkey
    rw [ObjectStore.upload_objects] at hobject
    obtain rfl := Option.some.inj hobject
    exact hbody id state rfl (parseSnapshotState_spec hstate).1
  · rw [ObjectStore.upload_objects_of_ne (Ne.symm hkey)] at hobject
    exact h id object state hobject hstate

theorem Stamped.delete {key : ObjectKey} (h : Stamped stored store) : Stamped stored (store.delete key) := by
  intro id object state hobject hstate
  change Function.update store.objects key none (.metadata id) = some object at hobject
  rw [Function.update_apply] at hobject
  split_ifs at hobject
  exact h id object state hobject hstate

/-! ### Reading history -/

theorem nodup_listHistory (store : DocumentStore etags) (limit : ℕ) :
    ((listHistory store limit).filterMap ObjectKey.snapshotId).Nodup := by
  have hkeys : (listHistory store limit).Nodup :=
    (((List.perm_insertionSort _ _).nodup_iff).mpr ((List.nodup_dedup _).filter _)).sublist (List.take_sublist _ _)
  refine hkeys.filterMap fun a b found ha hb => ?_
  cases a <;> cases b <;> cases ha <;> cases hb
  rfl

theorem readHistory_spec {history : List SnapshotState} (h : readHistory store limit = .ok history) :
    (history.map SnapshotState.id).Nodup ∧
      ∀ state ∈ history, ∃ object, store.objects (.metadata state.id) = some object ∧
        parseSnapshotState object.body state.id = .ok state := by
  have hread : List.Forall₂ (fun id state => ∃ object, store.objects (.metadata id) = some object ∧
      parseSnapshotState object.body id = .ok state) ((listHistory store limit).filterMap ObjectKey.snapshotId) history := by
    refine (forall₂_of_mapM h).imp fun id state hone => ?_
    split at hone
    · cases hone
    · next object hobject => exact ⟨object, hobject, hone⟩
  have hids : ∀ {ids : List String} {states : List SnapshotState},
      List.Forall₂ (fun id state => ∃ object, store.objects (.metadata id) = some object ∧
        parseSnapshotState object.body id = .ok state) ids states → states.map SnapshotState.id = ids := by
    intro ids states hall
    induction hall with
    | nil => rfl
    | cons hone _ ih =>
      obtain ⟨object, -, hstate⟩ := hone
      rw [List.map_cons, ih, (parseSnapshotState_spec hstate).2]
  constructor
  · rw [hids hread]
    exact nodup_listHistory store limit
  · intro state hmem
    obtain ⟨id, -, object, hobject, hstate⟩ := forall₂_mem_right hread hmem
    obtain rfl := (parseSnapshotState_spec hstate).2
    exact ⟨object, hobject, hstate⟩

/-! ### The latest stamp -/

variable {hash : String → String} {size : String → ℕ} {c : Capture} {σ : History etags} {event : HistoryEvent}

/-- Every snapshot that can be read was given its stamp, and no stamp is the start of time. -/
structure History.Sound (σ : History etags) : Prop where
  stamped : Stamped σ.stored σ.store
  positive : ∀ earlier ∈ σ.stored, 0 < earlier.createdAt

theorem History.sound_start : (History.start : History etags).Sound where
  stamped := fun _ _ _ hobject => by cases hobject
  positive := fun _ h => absurd h List.not_mem_nil

theorem latest_of_head {stamp : ℕ} (h : σ.headStamp = some stamp) : ∃ etag, latestStamp σ.store limit = .ok (stamp, etag) := by
  unfold History.headStamp at h
  refine ⟨(σ.store.objects .head).map StoredObject.etag, ?_⟩
  unfold latestStamp
  simp only [h]

theorem latest_of_history (h : σ.headStamp = none) :
    latestStamp σ.store limit = (readHistory σ.store limit).map fun history =>
      (history.foldl (fun highest state => max highest state.createdAt) 0, (σ.store.objects .head).map StoredObject.etag) := by
  unfold History.headStamp at h
  unfold latestStamp
  simp only [h]
  rfl

theorem le_highest {history : List SnapshotState} {n : ℕ} (hn : 0 < n) :
    n ≤ history.foldl (fun highest state => max highest state.createdAt) 0 ↔ ∃ kept ∈ history, n ≤ kept.createdAt := by
  have hfold : ∀ (history : List SnapshotState) (start : ℕ),
      n ≤ history.foldl (fun highest state => max highest state.createdAt) start ↔
        n ≤ start ∨ ∃ kept ∈ history, n ≤ kept.createdAt := by
    intro history
    induction history with
    | nil => simp
    | cons state history ih =>
      intro start
      rw [List.foldl_cons, ih, le_max_iff, or_assoc]
      simp
  rw [hfold]
  exact or_iff_right (by omega)

/-- The base of a new stamp is not behind the earlier ones just where the head, or the history it stands for, is not. -/
theorem base_kept {stamp : ℕ} {etag : Option ε} (hsound : σ.Sound) (hlatest : latestStamp σ.store c.limit = .ok (stamp, etag)) :
    (∀ earlier ∈ σ.stored, earlier.createdAt ≤ stamp) ↔
      match σ.headStamp with
      | some stamp => ∀ earlier ∈ σ.stored, earlier.createdAt ≤ stamp
      | none => ∀ history, readHistory σ.store c.limit = .ok history →
        ∀ earlier ∈ σ.stored, ∃ kept ∈ history, earlier.createdAt ≤ kept.createdAt := by
  rcases hhead : σ.headStamp with _ | found
  · rw [latest_of_history hhead] at hlatest
    rcases hread : readHistory σ.store c.limit with text | history
    · rw [hread] at hlatest; cases hlatest
    rw [hread] at hlatest
    obtain ⟨rfl, -⟩ := Prod.mk.inj (Except.ok.inj hlatest)
    constructor
    · rintro h history ⟨⟩ earlier hmem
      exact (le_highest (hsound.positive earlier hmem)).mp (h earlier hmem)
    · intro h earlier hmem
      exact (le_highest (hsound.positive earlier hmem)).mpr (h history rfl earlier hmem)
  · obtain ⟨other, hother⟩ := @latest_of_head _ _ c.limit _ _ hhead
    obtain ⟨rfl, -⟩ := Prod.mk.inj (Except.ok.inj (hother.symm.trans hlatest))
    exact Iff.rfl

/-! ### The listing -/

abbrev Increasing (stored : List Stamp) : Prop := stored.Pairwise fun earlier later => earlier.createdAt < later.createdAt

instance : Std.Total newestFirst := ⟨fun a b => by
  rcases lt_trichotomy a.createdAt b.createdAt with h | h | h
  · exact .inr (.inl h)
  · rcases String.le_total a.id b.id with hid | hid
    · exact .inr (.inr ⟨h, hid⟩)
    · exact .inl (.inr ⟨h.symm, hid⟩)
  · exact .inl (.inl h)⟩

instance : IsTrans SnapshotState newestFirst := ⟨fun a b c hab hbc => by
  rcases hab with hab | ⟨hab, hid⟩ <;> rcases hbc with hbc | ⟨hbc, hid'⟩
  · exact .inl (hbc.trans hab)
  · exact .inl (hbc ▸ hab)
  · exact .inl (hab ▸ hbc)
  · exact .inr ⟨hbc.trans hab, String.le_trans hid' hid⟩⟩

theorem eq_of_createdAt (h : Increasing stored) {a b : Stamp} (ha : a ∈ stored) (hb : b ∈ stored)
    (hsame : a.createdAt = b.createdAt) : a = b := by
  have hnodup : (stored.map Stamp.createdAt).Nodup := by
    rw [List.Nodup, List.pairwise_map]
    exact h.imp fun hlt => hlt.ne
  exact List.inj_on_of_nodup_map hnodup ha hb hsame

/-- Where the stamps increase, the listing has the snapshots it keeps by their creation, newest first. -/
theorem listed_of_increasing (hsound : σ.Sound) (h : Increasing σ.stored) {listed : List SnapshotState}
    (hlist : listSnapshots σ.store limit = .ok listed) : (listed.map SnapshotState.stamp).Sublist σ.stored.reverse := by
  unfold listSnapshots at hlist
  rcases hread : readHistory σ.store limit with text | history
  · rw [hread] at hlist; cases hlist
  rw [hread] at hlist
  obtain rfl := Except.ok.inj hlist
  obtain ⟨hids, hfound⟩ := readHistory_spec hread
  set active := (history.filter fun snapshot => snapshot.state = .active) with hactive
  have hperm : (active.insertionSort newestFirst).Perm active := List.perm_insertionSort _ _
  have hstored : ∀ snapshot ∈ active.insertionSort newestFirst, snapshot.stamp ∈ σ.stored := by
    intro snapshot hmem
    have hkept : snapshot ∈ history := List.mem_of_mem_filter (hactive ▸ hperm.mem_iff.mp hmem)
    obtain ⟨object, hobject, hstate⟩ := hfound snapshot hkept
    exact hsound.stamped snapshot.id object snapshot hobject hstate
  have hnodup : ((active.insertionSort newestFirst).map SnapshotState.id).Nodup :=
    ((hperm.map _).nodup_iff).mpr (hids.sublist (List.filter_sublist.map _))
  have hdescending : ((active.insertionSort newestFirst).map SnapshotState.stamp).Pairwise
      fun later earlier => earlier.createdAt < later.createdAt := by
    rw [List.pairwise_map]
    refine ((List.pairwise_insertionSort newestFirst active).and (List.pairwise_map.mp hnodup)).imp_of_mem ?_
    rintro a b ha hb ⟨hnewer, hne⟩
    rcases hnewer with hlt | ⟨hsame, -⟩
    · exact hlt
    · exact absurd (congrArg Stamp.id (eq_of_createdAt h (hstored a ha) (hstored b hb) hsame.symm)) hne
  have hsubperm : ((active.insertionSort newestFirst).map SnapshotState.stamp).Subperm σ.stored.reverse := by
    refine List.subperm_of_subset (hdescending.imp fun hlt hsame => (hsame ▸ hlt).false) fun stamp hmem => ?_
    obtain ⟨snapshot, hsnapshot, rfl⟩ := List.mem_map.mp hmem
    exact List.mem_reverse.mpr (hstored snapshot hsnapshot)
  have : Std.Antisymm fun later earlier : Stamp => earlier.createdAt < later.createdAt := ⟨fun _ _ h h' => (h.asymm h').elim⟩
  exact List.sublist_of_subperm_of_pairwise hsubperm hdescending (List.pairwise_reverse.mpr h)

/-! ### Steps -/

variable [DecidableEq ε]

theorem Stamped.put {now : ℤ} {key : ObjectKey} {condition : Option ε} (h : Stamped stored store)
    (hbody : ∀ id state, key = .metadata id → body = .snapshot state → state.stamp ∈ stored) :
    Stamped stored (store.put body now key condition).2 := by
  rcases store.put_spec body now key condition with hput | ⟨-, hput⟩
  · rw [hput]; exact h
  · rw [hput]; exact h.upload hbody

theorem Stamped.recordStamp {stamp now : ℕ} {etag : Option ε} {update : HeadUpdate} (h : Stamped stored store) :
    Stamped stored (recordStamp store stamp etag now update) := by
  cases update with
  | lands => exact h.put (by rintro _ _ ⟨⟩)
  | fails => exact h
  | loses other => exact (h.upload (by rintro _ _ ⟨⟩)).put (by rintro _ _ ⟨⟩)

theorem Stamped.finalizeSnapshot {now : ℕ} (h : Stamped stored store) (hfinal : finalizeSnapshot store id now = .ok store') :
    Stamped stored store' := by
  unfold Documents.finalizeSnapshot at hfinal
  rcases hobject : store.objects (.metadata id) with _ | object
  · simp only [hobject] at hfinal; cases hfinal
  simp only [hobject] at hfinal
  rcases hstate : parseSnapshotState object.body id with text | snapshot
  · rw [hstate] at hfinal; cases hfinal
  rw [hstate] at hfinal
  change (if snapshot.state = .active then _ else _) = _ at hfinal
  split_ifs at hfinal with hactive hpending
  · obtain rfl := Except.ok.inj hfinal
    exact h
  · have hstamp : snapshot.stamp ∈ stored := h id object snapshot hobject hstate
    have hput := @Stamped.put _ _ _ (.snapshot { snapshot with state := .active, leaseUntil := none }) _ _ (now : ℤ)
      (.metadata id) (some object.etag) h fun _ state _ hbody => by
        obtain rfl := DocumentObject.snapshot.inj hbody
        exact hstamp
    split at hfinal
    · next hfound =>
      obtain rfl := Except.ok.inj hfinal
      rw [hfound] at hput
      exact hput
    · cases hfinal

theorem Stamped.rewrite {change : SnapshotState → SnapshotState} (hchange : ∀ snapshot, (change snapshot).stamp = snapshot.stamp)
    (h : Stamped stored store) : Stamped stored (History.rewrite store id change) := by
  unfold History.rewrite
  split
  · exact h
  · next object hobject =>
    split
    · next snapshot hstate =>
      refine h.put fun _ state _ hbody => ?_
      obtain rfl := DocumentObject.snapshot.inj hbody
      rw [hchange]
      exact h id object snapshot hobject hstate
    · exact h

/-- A capture of a text whose snapshot is there stores no snapshot. -/
theorem captureMarkdown_existing {object : StoredObject ε DocumentObject} {captured : Captured}
    (hobject : store.objects (.metadata (hash c.markdown)) = some object)
    (h : captureMarkdown hash size store c = .ok (captured, store')) :
    (∃ snapshot, captured = .existing snapshot) ∧ (Stamped stored store → Stamped stored store') := by
  unfold captureMarkdown at h
  simp only [hobject] at h
  rcases hvalue : parseSnapshotState object.body (hash c.markdown) with text | value
  · rw [hvalue] at h; cases h
  rw [hvalue] at h
  change (if c.state = .active ∧ value.state = .pending then _ else _) = _ at h
  split_ifs at h
  · rcases hfinal : finalizeSnapshot store (hash c.markdown) c.now with text | final
    · rw [hfinal] at h; cases h
    · rw [hfinal] at h
      obtain ⟨rfl, rfl⟩ := Prod.mk.inj (Except.ok.inj h)
      exact ⟨⟨value, rfl⟩, fun hstamped => hstamped.finalizeSnapshot hfinal⟩
  · obtain ⟨rfl, rfl⟩ := Prod.mk.inj (Except.ok.inj h)
    exact ⟨⟨value, rfl⟩, id⟩

/-- A capture of a new text stores a snapshot unless the history behind an unreadable head cannot be read. -/
theorem captureMarkdown_new (hobject : store.objects (.metadata (hash c.markdown)) = none) :
    (∃ text, latestStamp store c.limit = .error text ∧ captureMarkdown hash size store c = .error text) ∨
      ∃ stamp etag after, latestStamp store c.limit = .ok (stamp, etag) ∧
        captureMarkdown hash size store c = .ok (.created (newSnapshot hash size c (max c.now (stamp + 1))), after) ∧
          (Stamped stored store → Stamped (stored ++ [⟨hash c.markdown, max c.now (stamp + 1)⟩]) after) := by
  unfold captureMarkdown
  simp only [hobject]
  rcases hlatest : latestStamp store c.limit with text | ⟨stamp, etag⟩
  · exact .inl ⟨text, rfl, rfl⟩
  right
  generalize hkept : (store.put (.text c.markdown) c.now (.content (hash c.markdown)) none).2 = kept
  have hfree : kept.objects (.metadata (hash c.markdown)) = none := by
    subst hkept
    rcases store.put_spec (.text c.markdown) c.now (.content (hash c.markdown)) none with hput | ⟨-, hput⟩
    · rw [hput]; exact hobject
    · rw [hput]
      exact (ObjectStore.upload_objects_of_ne (by rintro ⟨⟩)).trans hobject
  have hlands : ∀ body, kept.put body c.now (.metadata (hash c.markdown)) none =
      (some (kept.next body c.now), kept.upload body c.now (.metadata (hash c.markdown))) := by
    intro body
    unfold ObjectStore.put
    rw [hfree]
    rfl
  let createdAt := max c.now (stamp + 1)
  let snapshot := newSnapshot hash size c createdAt
  refine ⟨stamp, etag, recordStamp (kept.upload (.snapshot snapshot) c.now (.metadata (hash c.markdown))) createdAt etag
    c.now c.update, rfl, ?_, fun hstamped => ?_⟩
  · dsimp only [bind, Except.bind, pure, Except.pure]
    rw [hlands]
  · have hkeeps : Stamped stored kept := hkept ▸ hstamped.put (by rintro _ _ ⟨⟩)
    refine Stamped.recordStamp (Stamped.upload hkeeps.mono ?_)
    intro id state _ hbody
    obtain rfl := DocumentObject.snapshot.inj hbody
    exact List.mem_append_right _ List.mem_cons_self

/-- A step stores no snapshot, or a new one stamped past the clock and the latest stamp. -/
theorem History.step_spec (hash : String → String) (size : String → ℕ) (σ : History etags) (event : HistoryEvent) :
    (σ.step hash size event).stored = σ.stored ∧ (Stamped σ.stored σ.store → Stamped σ.stored (σ.step hash size event).store) ∧
        (∀ c, event = .capture c → σ.store.objects (.metadata (hash c.markdown)) = none →
          ∃ text, latestStamp σ.store c.limit = .error text) ∨
      ∃ c stamp etag, event = .capture c ∧ σ.store.objects (.metadata (hash c.markdown)) = none ∧
        latestStamp σ.store c.limit = .ok (stamp, etag) ∧
        (σ.step hash size event).stored = σ.stored ++ [⟨hash c.markdown, max c.now (stamp + 1)⟩] ∧
        (Stamped σ.stored σ.store → Stamped (σ.step hash size event).stored (σ.step hash size event).store) := by
  cases event with
  | capture c =>
    rcases hobject : σ.store.objects (.metadata (hash c.markdown)) with _ | object
    · rcases @captureMarkdown_new _ _ _ σ.stored hash size _ _ hobject with
        ⟨text, hlatest, hcapture⟩ | ⟨stamp, etag, after, hlatest, hcapture, hstamped⟩
      · left
        simp only [History.step, hcapture]
        refine ⟨trivial, id, ?_⟩
        rintro _ ⟨⟩ -
        exact ⟨text, hlatest⟩
      · right
        refine ⟨c, stamp, etag, rfl, hobject, hlatest, ?_⟩
        simp only [History.step, hcapture]
        exact ⟨rfl, hstamped⟩
    · left
      rcases hcapture : captureMarkdown hash size σ.store c with text | ⟨captured, after⟩
      · simp only [History.step, hcapture]
        refine ⟨trivial, id, ?_⟩
        rintro _ ⟨⟩ hnone
        cases hobject.symm.trans hnone
      · obtain ⟨⟨snapshot, rfl⟩, hstamped⟩ := @captureMarkdown_existing _ _ _ _ σ.stored _ _ _ _ _ _ hobject hcapture
        simp only [History.step, hcapture]
        refine ⟨trivial, hstamped, ?_⟩
        rintro _ ⟨⟩ hnone
        cases hobject.symm.trans hnone
  | removed id => exact .inl ⟨rfl, fun h => h.delete.delete, fun _ h => by cases h⟩
  | rewritten id state pins leaseUntil deleteAfter =>
    exact .inl ⟨rfl, fun h => h.rewrite fun _ => rfl, fun _ h => by cases h⟩
  | headChanged body =>
    cases body with
    | none => exact .inl ⟨rfl, fun h => h.delete, fun _ h => by cases h⟩
    | some body => exact .inl ⟨rfl, fun h => h.upload (by rintro _ _ ⟨⟩), fun _ h => by cases h⟩

/-! ### The order of stamps -/

theorem History.Sound.step (h : σ.Sound) (event : HistoryEvent) : (σ.step hash size event).Sound := by
  rcases History.step_spec hash size σ event with ⟨hstored, hstamped, -⟩ | ⟨c, stamp, etag, -, -, -, hstored, hstamped⟩
  · exact ⟨hstored ▸ hstamped h.stamped, hstored ▸ h.positive⟩
  · refine ⟨hstamped h.stamped, fun earlier hmem => ?_⟩
    rw [hstored] at hmem
    rcases List.mem_append.mp hmem with hmem | hmem
    · exact h.positive earlier hmem
    · obtain rfl := List.mem_singleton.mp hmem
      exact lt_of_lt_of_le (Nat.succ_pos stamp) (le_max_right _ _)

theorem increasing_step (hsound : σ.Sound) (h : Increasing σ.stored) :
    Increasing (σ.step hash size event).stored ↔ σ.HeadKept hash event := by
  rcases History.step_spec hash size σ event with ⟨hstored, -, hnew⟩ | ⟨c, stamp, etag, rfl, hobject, hlatest, hstored, -⟩
  · rw [hstored]
    refine iff_of_true h ?_
    cases event with
    | capture c =>
      intro hobject
      obtain ⟨text, hlatest⟩ := hnew c rfl hobject
      right
      rcases hhead : σ.headStamp with _ | stamp
      · intro history hread
        rw [latest_of_history hhead, hread] at hlatest
        cases hlatest
      · obtain ⟨etag, hfound⟩ := @latest_of_head _ _ c.limit _ _ hhead
        cases hfound.symm.trans hlatest
    | removed => trivial
    | rewritten => trivial
    | headChanged => trivial
  · have hcond : σ.HeadKept hash (.capture c) ↔
        (∀ earlier ∈ σ.stored, earlier.createdAt < c.now) ∨ ∀ earlier ∈ σ.stored, earlier.createdAt ≤ stamp := by
      rw [base_kept hsound hlatest]
      exact ⟨fun hkept => hkept hobject, fun hkept _ => hkept⟩
    rw [hstored, hcond, Increasing, List.pairwise_append]
    constructor
    · rintro ⟨-, -, hlater⟩
      have hlt : ∀ earlier ∈ σ.stored, earlier.createdAt < max c.now (stamp + 1) :=
        fun earlier hmem => hlater earlier hmem _ List.mem_cons_self
      rcases le_total c.now (stamp + 1) with hle | hle
      · right
        intro earlier hmem
        have := hlt earlier hmem
        omega
      · left
        intro earlier hmem
        have := hlt earlier hmem
        omega
    · intro hbase
      refine ⟨h, List.pairwise_singleton _ _, fun earlier hmem later hlater => ?_⟩
      obtain rfl := List.mem_singleton.mp hlater
      change earlier.createdAt < max c.now (stamp + 1)
      rcases hbase with hnow | hstamp
      · have := hnow earlier hmem
        omega
      · have := hstamp earlier hmem
        omega

theorem stored_step (σ : History etags) (event : HistoryEvent) : σ.stored <+: (σ.step hash size event).stored := by
  rcases History.step_spec hash size σ event with ⟨hstored, -, -⟩ | ⟨c, stamp, etag, -, -, -, hstored, -⟩
  · rw [hstored]
  · rw [hstored]; exact List.prefix_append _ _

theorem stored_run (σ : History etags) (events : List HistoryEvent) :
    σ.stored <+: (run (History.step hash size) σ events).stored := by
  induction events generalizing σ with
  | nil => exact List.prefix_refl _
  | cons event events ih => exact (stored_step σ event).trans (ih _)

theorem increasing_run (hsound : σ.Sound) (h : Increasing σ.stored) (events : List HistoryEvent) :
    Increasing (run (History.step hash size) σ events).stored ↔ Meets (History.step hash size) (History.HeadKept hash) σ events := by
  induction events generalizing σ with
  | nil => exact iff_of_true h trivial
  | cons event events ih =>
    rw [run_cons, Meets, ← @increasing_step _ _ _ size _ _ _ hsound h]
    constructor
    · intro hrun
      have hstep : Increasing (σ.step hash size event).stored := hrun.sublist (stored_run _ events).sublist
      exact ⟨hstep, (ih (hsound.step event) hstep).mp hrun⟩
    · rintro ⟨hstep, hmeets⟩
      exact (ih (hsound.step event) hstep).mpr hmeets

/-! ### Every run -/

variable (hash size) in
/-- The stamps of a document's snapshots increase, and the listing follows them, just where each new snapshot found the clock or
the head ahead of the stamps given before it. -/
theorem stampsIncrease_historyOf (events : List HistoryEvent) :
    (historyOf hash size events : History etags).StampsIncrease ↔
      Meets (History.step hash size) (History.HeadKept hash) (History.start : History etags) events := by
  have hsound : (historyOf hash size events : History etags).Sound :=
    invariant_of_run History.Sound (fun _ event h => h.step event) History.sound_start events
  rw [← @increasing_run _ _ _ size _ _ History.sound_start List.Pairwise.nil]
  exact ⟨fun h => h.stamps, fun h => ⟨h, fun _ _ => listed_of_increasing hsound h⟩⟩

/-- Three captures: the update of the head fails at the second, and the clock has stepped back at the third. -/
def steppedBack : List HistoryEvent :=
  let captureOf (markdown : String) (now : ℕ) (update : HeadUpdate) : HistoryEvent :=
    .capture ⟨markdown, ⟨"agent_turn", "agent", none⟩, .active, now, now, 1000, update⟩
  [captureOf "a" 1000 .lands, captureOf "b" 2000 .fails, captureOf "c" 500 .lands]

/-- The head still tells of the first capture, and the third is stamped before the second. -/
theorem failed_update_sets_stamps_back :
    ¬ (historyOf (fun markdown => markdown) String.length steppedBack :
      History (Etags.digest : Etags DocumentObject DocumentObject)).StampsIncrease := by
  intro h
  have hstored : (historyOf (fun markdown => markdown) String.length steppedBack :
      History (Etags.digest : Etags DocumentObject DocumentObject)).stored = [⟨"a", 1000⟩, ⟨"b", 2000⟩, ⟨"c", 1001⟩] := by
    decide +kernel
  have := h.stamps
  rw [hstored] at this
  simp at this

end Claxedo.Documents
