import Claxedo.Subagents.Index

/-! The index rebuilt from the stored rows is the live one, while no admission's parent goes on from another's at the
character that cuts a parent from a key. -/

namespace Claxedo.Subagents

open Claxedo.Lib

/-- What the rows come to: the machine rebuilt from them holds each as it is stored, and answers as the live one does. -/
structure RebuildHolds (s : SubagentStore) : Prop where
  rebuilt : ∃ m, hydrateSubagentAdmission s.rows = .ok m ∧
    (∀ row ∈ s.rows, row.event.revision = row.revision ∧ row.event.subagentKey = row.subagentKey ∧
      Assoc.lookup (scopedKey row.parentSessionId ("observation:" ++ row.observationId)) m.observations =
        some ⟨row.parentSessionId, row.observationId, row.event, row.published⟩) ∧
    ∀ inputs, answers m inputs = answers s.live inputs
  refused : ∀ input goesThrough e, s.live.admitInput input = .error e → s.step (.admitObservation input goesThrough) = s

/-- An admission's parent is cut apart from those of the rows. -/
def ParentsApart (s : SubagentStore) : SubagentLabel → Prop
  | .admitObservation input _ => ∀ row ∈ s.rows, row.parentSessionId ≠ input.parentSessionId →
    Cut '\x00' row.parentSessionId.toList input.parentSessionId.toList
  | .markPublished _ _ => True

instance (s : SubagentStore) : (label : SubagentLabel) → Decidable (ParentsApart s label)
  | .admitObservation input _ => inferInstanceAs (Decidable (∀ row ∈ s.rows, row.parentSessionId ≠ input.parentSessionId →
      Cut '\x00' row.parentSessionId.toList input.parentSessionId.toList))
  | .markPublished _ _ => isTrue trivial

def ObservationRow.entry (row : ObservationRow) : Entry :=
  ⟨⟨row.parentSessionId, row.observationId, row.event, row.published⟩, correlationKeys row.observation,
    row.observation.providerId, row.observation.providerKind⟩

def ObservationRow.child (row : ObservationRow) : Option String := row.event.input.childSessionId

/-- Rows of one subagent. -/
def Sibling (a b : ObservationRow) : Prop := a.parentSessionId = b.parentSessionId ∧ a.subagentKey = b.subagentKey

instance (a b : ObservationRow) : Decidable (Sibling a b) := by
  unfold Sibling
  infer_instance

/-- What the rows say of how they came, in whatever order they are read. -/
structure Story (rows : List ObservationRow) : Prop where
  cut : ∀ a ∈ rows, ∀ b ∈ rows, a.parentSessionId ≠ b.parentSessionId →
    Cut '\x00' a.parentSessionId.toList b.parentSessionId.toList
  unique : rows.Pairwise fun a b => a.entry.observationKey ≠ b.entry.observationKey
  distinct : rows.Pairwise fun a b => Sibling a b → a.revision ≠ b.revision
  numbered : ∀ row ∈ rows, rows.countP (fun other => Sibling other row ∧ other.revision < row.revision) + 1 = row.revision
  told : ∀ row ∈ rows, row.event = ⟨row.subagentKey, row.revision, observationEventInput row.observation⟩ ∧
    row.observation.observationId = row.observationId
  roles : ∀ row ∈ rows, row.observation.toolCallRole ≠ none → present row.observation.toolCallId ≠ none
  hosted : ∀ row ∈ rows, row.observation.providerKind = some "claxedo" → present row.observation.toolCallId ≠ none →
    row.subagentKey ≠ "" ∧ ∃ other ∈ rows, Sibling other row ∧ other.revision < row.revision ∧ other.child ≠ none
  compatible : ∀ a ∈ rows, ∀ b ∈ rows, Sibling a b →
    (∀ value value', a.observation.providerId = some value → b.observation.providerId = some value' → value = value') ∧
    ∀ value value', a.observation.providerKind = some value → b.observation.providerKind = some value' → value = value'
  heirs : ∀ a ∈ rows, ∀ b ∈ rows, Sibling a b → a.revision < b.revision → ∀ session, a.child = some session →
    b.child = some session
  owned : ∀ a ∈ rows, ∀ b ∈ rows, a.parentSessionId = b.parentSessionId → ∀ session, a.child = some session →
    b.child = some session → a.subagentKey ≠ "" → b.subagentKey ≠ "" → a.subagentKey = b.subagentKey

section
variable {rows : List ObservationRow} {m m' : AdmissionMachine}

variable {a b other row : ObservationRow}

theorem Story.entry_key (h : Story rows) (hrow : row ∈ rows) : row.entry.key = row.subagentKey := by
  unfold Entry.key ObservationRow.entry
  rw [(h.told row hrow).1]

theorem Story.child_eq (h : Story rows) (hrow : row ∈ rows) :
    row.child = present row.observation.childSessionId := by
  unfold ObservationRow.child
  rw [(h.told row hrow).1]
  rfl

/-- Rows of one binding key, or one revision key, are of one subagent. -/
theorem Story.sibling_of (h : Story rows) (ha : a ∈ rows) (hb : b ∈ rows)
    (hkey : a.entry.bindingKey = b.entry.bindingKey ∨ a.entry.revisionKey = b.entry.revisionKey) : Sibling a b := by
  unfold Entry.bindingKey Entry.revisionKey at hkey
  rw [h.entry_key ha, h.entry_key hb] at hkey
  rcases hkey with hkey | hkey
  · exact scopedKey_inj (h.cut a ha b hb) hkey
  · obtain ⟨hparent, hsame⟩ := scopedKey_inj (h.cut a ha b hb) hkey
    exact ⟨hparent, string_append_left hsame⟩

theorem Story.keys_of (h : Story rows) (ha : a ∈ rows) (hb : b ∈ rows) (hsibling : Sibling a b) :
    a.entry.bindingKey = b.entry.bindingKey ∧ a.entry.revisionKey = b.entry.revisionKey := by
  unfold Entry.bindingKey Entry.revisionKey
  rw [h.entry_key ha, h.entry_key hb, hsibling.2]
  exact ⟨congrArg (scopedKey · _) hsibling.1, congrArg (scopedKey · _) hsibling.1⟩

/-- A story does not depend on the order it is told in. -/
theorem Story.perm {rows' : List ObservationRow} (h : Story rows) (hperm : rows.Perm rows') : Story rows' := by
  have hmem : ∀ {row}, row ∈ rows' → row ∈ rows := fun hrow => hperm.mem_iff.mpr hrow
  refine ⟨fun a ha b hb => h.cut a (hmem ha) b (hmem hb), hperm.pairwise h.unique fun hne => Ne.symm hne,
    hperm.pairwise h.distinct fun hne hsibling => (hne ⟨hsibling.1.symm, hsibling.2.symm⟩).symm, fun row hrow => ?_,
    fun row hrow => h.told row (hmem hrow), fun row hrow => h.roles row (hmem hrow), fun row hrow hkind htool => ?_,
    fun a ha b hb => h.compatible a (hmem ha) b (hmem hb), fun a ha b hb => h.heirs a (hmem ha) b (hmem hb),
    fun a ha b hb => h.owned a (hmem ha) b (hmem hb)⟩
  · rw [← hperm.countP_eq]
    exact h.numbered row (hmem hrow)
  · obtain ⟨hne, other, hother, hrest⟩ := h.hosted row (hmem hrow) hkind htool
    exact ⟨hne, other, hperm.mem_iff.mp hother, hrest⟩

theorem rowLe.revision_le (h : rowLe a b) (hsibling : Sibling a b) : a.revision ≤ b.revision := by
  rcases h with hparent | ⟨-, hkey | ⟨-, hle⟩⟩
  · exact absurd (hsibling.1 ▸ hparent) (lt_irrefl _)
  · exact absurd (hsibling.2 ▸ hkey) (lt_irrefl _)
  · exact hle

/-- Of a subagent's rows, those before one in the order of replay are its earlier revisions. -/
theorem mem_before {before after : List ObservationRow} (hsorted : (before ++ row :: after).Pairwise rowLe)
    (hother : other ∈ before ++ row :: after) (hsibling : Sibling other row) (hlt : other.revision < row.revision) :
    other ∈ before := by
  rcases List.mem_append.mp hother with hother | hother
  · exact hother
  · rcases List.mem_cons.mp hother with rfl | hother
    · exact absurd hlt (lt_irrefl _)
    · have hle := (List.pairwise_cons.mp (List.pairwise_append.mp hsorted).2.1).1 other hother
      exact absurd hlt (not_lt.mpr (hle.revision_le ⟨hsibling.1.symm, hsibling.2.symm⟩))

theorem lt_of_before {before after : List ObservationRow} (hsorted : (before ++ row :: after).Pairwise rowLe)
    (hdistinct : (before ++ row :: after).Pairwise fun a b => Sibling a b → a.revision ≠ b.revision) (hother : other ∈ before)
    (hsibling : Sibling other row) : other.revision < row.revision := by
  have hle := (List.pairwise_append.mp hsorted).2.2 other hother row List.mem_cons_self
  have hne := (List.pairwise_append.mp hdistinct).2.2 other hother row List.mem_cons_self hsibling
  exact lt_of_le_of_ne (hle.revision_le hsibling) hne

section
variable {before after : List ObservationRow} {row : ObservationRow}

theorem Story.before_of_binding (h : Story (before ++ row :: after)) {e : Entry} (he : e ∈ before.map ObservationRow.entry)
    (hkey : e.bindingKey = scopedKey row.parentSessionId row.subagentKey) :
    ∃ other ∈ before, other.entry = e ∧ Sibling other row := by
  obtain ⟨other, hother, rfl⟩ := List.mem_map.mp he
  have hrow : row ∈ before ++ row :: after := List.mem_append_right _ List.mem_cons_self
  refine ⟨other, hother, rfl, h.sibling_of (List.mem_append_left _ hother) hrow (.inl (hkey.trans ?_))⟩
  unfold Entry.bindingKey
  rw [h.entry_key hrow]
  rfl

theorem Story.fresh (h : Story (before ++ row :: after)) (hindex : Index (before.map ObservationRow.entry) m) :
    Assoc.lookup (scopedKey row.parentSessionId ("observation:" ++ row.observationId)) m.observations = none := by
  rw [Option.eq_none_iff_forall_ne_some]
  intro admitted hadmitted
  obtain ⟨e, he, hkey, -⟩ := (hindex.observations _ _).mp hadmitted
  obtain ⟨other, hother, rfl⟩ := List.mem_map.mp he
  exact (List.pairwise_append.mp h.unique).2.2 other hother row List.mem_cons_self hkey

theorem resolve_replayInput (m : AdmissionMachine) (row : ObservationRow) (keys : List String) :
    m.resolve (replayInput row) keys = row.subagentKey := by
  unfold AdmissionMachine.resolve replayInput
  dsimp only
  rw [Option.some_or, Option.some_or, Option.some_or, Option.getD_some]

theorem present_or (text : Option String) : (present text).or text = text := by
  rcases text with _ | text
  · rfl
  · by_cases hempty : text = ""
    · subst hempty
      rfl
    · rw [present_eq_some_iff.mpr ⟨rfl, hempty⟩, Option.some_or]

section
variable (h : Story (before ++ row :: after)) (hsorted : (before ++ row :: after).Pairwise rowLe)
  (hindex : Index (before.map ObservationRow.entry) m)
include h hsorted hindex

theorem Story.binds :
    Binds (m.bindingOf (scopedKey row.parentSessionId row.subagentKey)) (replayInput row).observation ∧
      boundChild (m.bindingOf (scopedKey row.parentSessionId row.subagentKey)) (replayInput row) = row.child := by
  have hrow : row ∈ before ++ row :: after := List.mem_append_right _ List.mem_cons_self
  have hchild : ∀ session, (m.bindingOf (scopedKey row.parentSessionId row.subagentKey)).childSessionId = some session →
      row.child = some session := by
    intro session hsession
    obtain ⟨e, he, hkey, hechild⟩ := (hindex.childSessionId _ _).mp hsession
    obtain ⟨other, hother, rfl, hsibling⟩ := h.before_of_binding he hkey
    exact h.heirs other (List.mem_append_left _ hother) row hrow hsibling (lt_of_before hsorted h.distinct hother hsibling) session
      hechild
  refine ⟨⟨fun value value' hvalue hvalue' => ?_, fun value value' hvalue hvalue' => ?_, fun value value' hvalue hvalue' => ?_⟩, ?_⟩
  · obtain ⟨e, he, hkey, hprovider⟩ := (hindex.providerId _ _).mp hvalue
    obtain ⟨other, hother, rfl, hsibling⟩ := h.before_of_binding he hkey
    exact (h.compatible other (List.mem_append_left _ hother) row hrow hsibling).1 value value' hprovider hvalue'
  · obtain ⟨e, he, hkey, hkind⟩ := (hindex.providerKind _ _).mp hvalue
    obtain ⟨other, hother, rfl, hsibling⟩ := h.before_of_binding he hkey
    exact (h.compatible other (List.mem_append_left _ hother) row hrow hsibling).2 value value' hkind hvalue'
  · have hsame := hchild value hvalue
    rw [h.child_eq hrow] at hsame
    exact Option.some.inj ((present_eq_some_iff.mp hsame).1.symm.trans hvalue')
  · rcases hbound : (m.bindingOf (scopedKey row.parentSessionId row.subagentKey)).childSessionId with _ | session
    · rw [h.child_eq hrow]
      unfold boundChild
      rw [hbound, Option.none_or]
      exact congrArg present (Option.or_none ..)
    · rw [hindex.boundChild_of hbound, hchild session hbound]

/-- Whoever owns the child of a replayed row is its subagent. -/
theorem Story.owner_of {session owner : String} (hchild : row.child = some session)
    (howner : present (Assoc.lookup (scopedKey row.parentSessionId ("child:" ++ session)) m.childOwners) = some owner) :
    owner = row.subagentKey := by
  have hrow : row ∈ before ++ row :: after := List.mem_append_right _ List.mem_cons_self
  obtain ⟨hlookup, hne⟩ := present_eq_some_iff.mp howner
  obtain ⟨⟨e, he, ⟨session', hsession', howns⟩, rfl⟩, -⟩ := (hindex.childOwners _ _).mp hlookup
  obtain ⟨other, hother, rfl⟩ := List.mem_map.mp he
  have hmem : other ∈ before ++ row :: after := List.mem_append_left _ hother
  obtain ⟨hparent, hsame⟩ := scopedKey_inj (h.cut other hmem row hrow) howns
  obtain rfl := string_append_left hsame
  rw [h.entry_key hmem] at hne ⊢
  by_cases hempty : row.subagentKey = ""
  · rcases (List.pairwise_append.mp hsorted).2.2 other hother row List.mem_cons_self with hlt | ⟨-, hlt | ⟨hkey, -⟩⟩
    · exact absurd (hparent ▸ hlt) (lt_irrefl _)
    · rw [hempty, String.lt_iff_toList_lt] at hlt
      exact absurd hlt (List.not_lt_nil _)
    · exact hkey
  · exact h.owned other hmem row hrow hparent session' hsession' hchild hne hempty

theorem Story.validate : m.validate (replayInput row) = .ok () := by
  have hrow : row ∈ before ++ row :: after := List.mem_append_right _ List.mem_cons_self
  unfold AdmissionMachine.validate replayInput
  dsimp only
  rw [if_neg fun hrole => h.roles row hrow hrole.1 hrole.2]
  split_ifs with hhost hbound
  · rfl
  · rw [not_or, not_not] at hhost
    obtain ⟨hne, other, hother, hsibling, hlt, hchild⟩ := h.hosted row hrow hhost.1 hhost.2
    have hbefore := mem_before hsorted hother hsibling hlt
    obtain ⟨session, hsession⟩ := Option.ne_none_iff_exists'.mp hchild
    have hkey : other.entry.bindingKey = scopedKey row.parentSessionId row.subagentKey := by
      rw [(h.keys_of hother hrow hsibling).1]
      unfold Entry.bindingKey
      rw [h.entry_key hrow]
      rfl
    have hfound := (hindex.childSessionId _ session).mpr ⟨other.entry, List.mem_map_of_mem hbefore, hkey, hsession⟩
    have hpresent : present (some row.subagentKey) = some row.subagentKey := present_eq_some_iff.mpr ⟨rfl, hne⟩
    rw [hpresent, Option.bind_some, hindex.present_child, hfound] at hbound
    cases hbound
  · rfl

theorem Story.revisionOf :
    m.revisionOf (scopedKey row.parentSessionId ("revision:" ++ row.subagentKey)) + 1 = row.revision := by
  have hrow : row ∈ before ++ row :: after := List.mem_append_right _ List.mem_cons_self
  rw [← h.numbered row hrow, hindex.revisionOf, List.countP_map, List.countP_append, List.countP_cons]
  have hbefore : before.countP ((fun e => decide (e.revisionKey = scopedKey row.parentSessionId ("revision:" ++ row.subagentKey))) ∘
        ObservationRow.entry) =
      before.countP fun other => Sibling other row ∧ other.revision < row.revision := by
    refine List.countP_congr fun other hother => ?_
    have hmem : other ∈ before ++ row :: after := List.mem_append_left _ hother
    have hkey : row.entry.revisionKey = scopedKey row.parentSessionId ("revision:" ++ row.subagentKey) := by
      unfold Entry.revisionKey
      rw [h.entry_key hrow]
      rfl
    rw [Function.comp_apply, decide_eq_true_eq, decide_eq_true_eq, ← hkey]
    constructor
    · intro hsame
      have hsibling := h.sibling_of hmem hrow (.inr hsame)
      exact ⟨hsibling, lt_of_before hsorted h.distinct hother hsibling⟩
    · exact fun hsame => (h.keys_of hmem hrow hsame.1).2
  have hafter : (after.countP fun other => Sibling other row ∧ other.revision < row.revision) = 0 := by
    rw [List.countP_eq_zero]
    intro other hother
    rw [decide_eq_true_eq]
    rintro ⟨hsibling, hlt⟩
    have hle := (List.pairwise_cons.mp (List.pairwise_append.mp hsorted).2.1).1 other hother
    exact absurd hlt (not_lt.mpr (hle.revision_le ⟨hsibling.1.symm, hsibling.2.symm⟩))
  rw [hbefore, hafter]
  simp

theorem Story.admitReplay :
    ∃ m', m.admitInput (replayInput row) = .ok ({ row.entry.admitted with published := false }, m') := by
  have hrow : row ∈ before ++ row :: after := List.mem_append_right _ List.mem_cons_self
  have hfresh : Assoc.lookup (scopedKey (replayInput row).parentSessionId
      ("observation:" ++ (replayInput row).observation.observationId)) m.observations = none := h.fresh hindex
  obtain ⟨hbinds, hbound⟩ := h.binds hsorted hindex
  obtain ⟨bindings, childOwners, hbind⟩ : ∃ bindings childOwners, m.bind (replayInput row) row.subagentKey =
      .ok (row.child, bindings, childOwners) := by
    rw [← hbound]
    exact bind_ok (replayInput row) row.subagentKey hbinds fun session hsession _ owner howner =>
      h.owner_of hsorted hindex (hbound.symm.trans hsession) howner
  rw [← resolve_replayInput m row (correlationKeys (replayInput row).observation)] at hbind
  obtain ⟨admitted, m', htaken⟩ := admit_ok hfresh (h.validate hsorted hindex) hbind
  obtain ⟨child, _, _, -, hbind', hadmitted, -⟩ := admit_spec hfresh htaken
  obtain ⟨rfl, -⟩ := Prod.mk.inj (Except.ok.inj (hbind.symm.trans hbind'))
  have hinput : observationEventInput { (replayInput row).observation with
      childSessionId := row.child.or (replayInput row).observation.childSessionId } = observationEventInput row.observation := by
    have hown : row.child.or row.observation.childSessionId = row.observation.childSessionId := by
      rw [h.child_eq hrow, present_or]
    unfold replayInput
    dsimp only
    rw [hown]
    rfl
  have hevent : row.event = ⟨row.subagentKey, row.revision, observationEventInput row.observation⟩ := (h.told row hrow).1
  refine ⟨m', ?_⟩
  rw [htaken, hadmitted, resolve_replayInput, hinput]
  unfold ObservationRow.entry
  dsimp only
  rw [hevent, ← h.revisionOf hsorted hindex]
  rfl

theorem Story.replayRow :
    ∃ m', replayRow m row = .ok m' ∧ Index ((before ++ [row]).map ObservationRow.entry) m' := by
  have hrow : row ∈ before ++ row :: after := List.mem_append_right _ List.mem_cons_self
  obtain ⟨m', htaken⟩ := h.admitReplay hsorted hindex
  have hcut : ∀ e ∈ before.map ObservationRow.entry, e.parent ≠ (replayInput row).parentSessionId →
      Cut '\x00' e.parent.toList (replayInput row).parentSessionId.toList := by
    intro e he
    obtain ⟨other, hother, rfl⟩ := List.mem_map.mp he
    exact h.cut other (List.mem_append_left _ hother) row hrow
  have hfresh : Assoc.lookup (scopedKey (replayInput row).parentSessionId
      ("observation:" ++ (replayInput row).observation.observationId)) m.observations = none := h.fresh hindex
  have hnext := hindex.admitInput hcut hfresh htaken
  have hrevision : ({ row.entry.admitted with published := false } : AdmittedSubagentObservation).event.revision = row.revision :=
    congrArg SubagentUpdatedEvent.revision (h.told row hrow).1
  unfold Subagents.replayRow
  rw [htaken]
  dsimp only
  rw [if_neg (not_not.mpr hrevision), List.map_append]
  split_ifs with hpublished
  · have hkey : (entryOf (replayInput row) { row.entry.admitted with published := false }).observationKey =
        scopedKey row.parentSessionId ("observation:" ++ row.observationId) := rfl
    have hlookup := (hnext.observations _ _).mpr ⟨_, List.mem_append_right _ (List.mem_singleton.mpr rfl), hkey, rfl⟩
    obtain ⟨m'', hmark⟩ : ∃ m'', m'.markPublished row.parentSessionId row.observationId = .ok m'' := by
      unfold AdmissionMachine.markPublished
      dsimp only
      rw [hlookup]
      exact ⟨_, rfl⟩
    refine ⟨m'', hmark, ?_⟩
    have hindex' := hnext.publish hmark
    rw [List.map_append, List.map_singleton, Entry.publish, if_pos hkey] at hindex'
    have hbefore : (before.map ObservationRow.entry).map (Entry.publish (scopedKey row.parentSessionId
        ("observation:" ++ row.observationId))) = before.map ObservationRow.entry := by
      refine List.map_congr_left (fun e he => ?_) |>.trans (List.map_id _)
      obtain ⟨other, hother, rfl⟩ := List.mem_map.mp he
      exact if_neg fun hsame => (List.pairwise_append.mp h.unique).2.2 other hother row List.mem_cons_self hsame
    have hsame : ({ entryOf (replayInput row) { row.entry.admitted with published := false } with
        admitted := { row.entry.admitted with published := true } } : Entry) = row.entry := by
      unfold ObservationRow.entry
      simp only [hpublished]
      rfl
    rw [hbefore] at hindex'
    rw [List.map_singleton, ← hsame]
    exact hindex'
  · refine ⟨m', rfl, ?_⟩
    have hsame : entryOf (replayInput row) { row.entry.admitted with published := false } = row.entry := by
      unfold ObservationRow.entry
      simp only [hpublished]
      rfl
    rw [hsame] at hnext
    exact hnext

end

theorem Story.replayRows (h : Story (before ++ after)) (hsorted : (before ++ after).Pairwise rowLe)
    (hindex : Index (before.map ObservationRow.entry) m) :
    ∃ m', replayRows m after = .ok m' ∧ Index ((before ++ after).map ObservationRow.entry) m' := by
  induction after generalizing before m with
  | nil => exact ⟨m, rfl, by rwa [List.append_nil]⟩
  | cons row after ih =>
    obtain ⟨m', hreplay, hindex'⟩ := h.replayRow hsorted hindex
    rw [List.append_cons] at h hsorted ⊢
    obtain ⟨m'', hrest, hindex''⟩ := ih h hsorted hindex'
    unfold Subagents.replayRows
    rw [hreplay]
    exact ⟨m'', hrest, hindex''⟩

end

theorem rowLe_total (a b : ObservationRow) : rowLe a b ∨ rowLe b a := by
  unfold rowLe
  rcases lt_trichotomy a.parentSessionId b.parentSessionId with hparent | hparent | hparent
  · exact .inl (.inl hparent)
  · rcases lt_trichotomy a.subagentKey b.subagentKey with hkey | hkey | hkey
    · exact .inl (.inr ⟨hparent, .inl hkey⟩)
    · rcases le_total a.revision b.revision with hle | hle
      · exact .inl (.inr ⟨hparent, .inr ⟨hkey, hle⟩⟩)
      · exact .inr (.inr ⟨hparent.symm, .inr ⟨hkey.symm, hle⟩⟩)
    · exact .inr (.inr ⟨hparent.symm, .inl hkey⟩)
  · exact .inr (.inl hparent)

theorem rowLe_trans {c : ObservationRow} (hab : rowLe a b) (hbc : rowLe b c) : rowLe a c := by
  rcases hab with hparent | ⟨hparent, hkey⟩
  · rcases hbc with hparent' | ⟨hparent', -⟩
    · exact .inl (hparent.trans hparent')
    · exact .inl (hparent' ▸ hparent)
  · rcases hbc with hparent' | ⟨hparent', hkey'⟩
    · exact .inl (hparent ▸ hparent')
    · refine .inr ⟨hparent.trans hparent', ?_⟩
      rcases hkey with hkey | ⟨hkey, hle⟩ <;> rcases hkey' with hkey' | ⟨hkey', hle'⟩
      · exact .inl (hkey.trans hkey')
      · exact .inl (hkey' ▸ hkey)
      · exact .inl (hkey ▸ hkey')
      · exact .inr ⟨hkey.trans hkey', hle.trans hle'⟩

theorem Story.hydrate (h : Story rows) : ∃ m, hydrateSubagentAdmission rows = .ok m ∧
    Index ((rows.insertionSort rowLe).map ObservationRow.entry) m := by
  have htotal : Std.Total rowLe := ⟨rowLe_total⟩
  have htrans : IsTrans ObservationRow rowLe := ⟨fun _ _ _ => rowLe_trans⟩
  have hsorted : ([] ++ rows.insertionSort rowLe).Pairwise rowLe := List.pairwise_insertionSort rowLe rows
  have hstory : Story ([] ++ rows.insertionSort rowLe) := h.perm (List.perm_insertionSort rowLe rows).symm
  exact hstory.replayRows hsorted index_empty

theorem Story.hydrate_same (h : Story rows) {live : AdmissionMachine} (hlive : Index (rows.map ObservationRow.entry) live) :
    ∃ m, hydrateSubagentAdmission rows = .ok m ∧ Same m live := by
  obtain ⟨m, hhydrate, hindex⟩ := h.hydrate
  exact ⟨m, hhydrate, hindex.same hlive ((List.perm_insertionSort rowLe rows).map _)⟩

theorem Story.revision_le (h : Story rows) (hrow : row ∈ rows) :
    row.revision ≤ rows.countP fun other => Sibling other row := by
  obtain ⟨before, after, rfl⟩ := List.append_of_mem hrow
  rw [← h.numbered row hrow, List.countP_append, List.countP_append, List.countP_cons, List.countP_cons]
  have hmono : ∀ others : List ObservationRow, (others.countP fun other => Sibling other row ∧ other.revision < row.revision) ≤
      others.countP fun other => Sibling other row := fun others =>
    List.countP_mono_left fun other _ hother => decide_eq_true (of_decide_eq_true hother).1
  have hself : Sibling row row := ⟨rfl, rfl⟩
  have hbefore := hmono before
  have hafter := hmono after
  simp only [lt_irrefl, and_false, decide_false, Bool.false_eq_true, if_false, hself, decide_true, if_true]
  omega

/-- A row goes on with the story. -/
structure Continues (rows : List ObservationRow) (row : ObservationRow) : Prop where
  cut : ∀ other ∈ rows, other.parentSessionId ≠ row.parentSessionId →
    Cut '\x00' other.parentSessionId.toList row.parentSessionId.toList
  unique : ∀ other ∈ rows, other.entry.observationKey ≠ row.entry.observationKey
  numbered : (rows.countP fun other => Sibling other row) + 1 = row.revision
  told : row.event = ⟨row.subagentKey, row.revision, observationEventInput row.observation⟩ ∧
    row.observation.observationId = row.observationId
  roles : row.observation.toolCallRole ≠ none → present row.observation.toolCallId ≠ none
  hosted : row.observation.providerKind = some "claxedo" → present row.observation.toolCallId ≠ none →
    row.subagentKey ≠ "" ∧ ∃ other ∈ rows, Sibling other row ∧ other.child ≠ none
  compatible : ∀ other ∈ rows, Sibling other row →
    (∀ value value', other.observation.providerId = some value → row.observation.providerId = some value' → value = value') ∧
    ∀ value value', other.observation.providerKind = some value → row.observation.providerKind = some value' → value = value'
  heirs : ∀ other ∈ rows, Sibling other row → ∀ session, other.child = some session → row.child = some session
  owned : ∀ other ∈ rows, other.parentSessionId = row.parentSessionId → ∀ session, other.child = some session →
    row.child = some session → other.subagentKey ≠ "" → row.subagentKey ≠ "" → other.subagentKey = row.subagentKey

theorem Sibling.symm (h : Sibling a b) : Sibling b a := ⟨h.1.symm, h.2.symm⟩

theorem Sibling.trans {c : ObservationRow} (h : Sibling a b) (h' : Sibling b c) : Sibling a c :=
  ⟨h.1.trans h'.1, h.2.trans h'.2⟩

theorem Story.lt_next (h : Story rows) (hnext : Continues rows row) (hother : other ∈ rows) (hsibling : Sibling other row) :
    other.revision < row.revision := by
  have hle := h.revision_le hother
  have hsame : (rows.countP fun third => Sibling third other) = rows.countP fun third => Sibling third row :=
    List.countP_congr fun third _ => by
      rw [decide_eq_true_eq, decide_eq_true_eq]
      exact ⟨fun hthird => hthird.trans hsibling, fun hthird => hthird.trans hsibling.symm⟩
  rw [← hnext.numbered, ← hsame]
  omega

theorem Story.snoc (h : Story rows) (hnext : Continues rows row) : Story (rows ++ [row]) := by
  have hmem : ∀ {other}, other ∈ rows ++ [row] → other ∈ rows ∨ other = row := fun hother =>
    (List.mem_append.mp hother).imp_right List.mem_singleton.mp
  have hlt : ∀ {other}, other ∈ rows → Sibling other row → other.revision < row.revision := fun hother hsibling =>
    h.lt_next hnext hother hsibling
  refine ⟨fun a ha b hb hne => ?_, ?_, ?_, fun other hother => ?_, fun other hother => ?_, fun other hother => ?_,
    fun other hother hkind htool => ?_, fun a ha b hb hsibling => ?_, fun a ha b hb hsibling hrevision session hchild => ?_,
    fun a ha b hb hparent session hachild hbchild hakey hbkey => ?_⟩
  · rcases hmem ha with hina | rfl <;> rcases hmem hb with hinb | rfl
    · exact h.cut a hina b hinb hne
    · exact hnext.cut a hina hne
    · exact (hnext.cut b hinb (Ne.symm hne)).symm
    · exact absurd rfl hne
  · exact List.pairwise_append.mpr ⟨h.unique, List.pairwise_singleton _ _,
      fun a ha b hb => List.mem_singleton.mp hb ▸ hnext.unique a ha⟩
  · refine List.pairwise_append.mpr ⟨h.distinct, List.pairwise_singleton _ _, fun a ha b hb hsibling => ?_⟩
    obtain rfl := List.mem_singleton.mp hb
    exact (hlt ha hsibling).ne
  · rw [List.countP_append, List.countP_singleton]
    rcases hmem hother with hin | rfl
    · have hnot : ¬ (Sibling row other ∧ row.revision < other.revision) := fun hboth =>
        absurd (hlt hin hboth.1.symm) (not_lt.mpr hboth.2.le)
      rw [if_neg (by simpa using hnot)]
      exact h.numbered other hin
    · rw [← hnext.numbered]
      have hall : (rows.countP fun third => Sibling third other ∧ third.revision < other.revision) =
          rows.countP fun third => Sibling third other := List.countP_congr fun third hthird => by
        rw [decide_eq_true_eq, decide_eq_true_eq]
        exact ⟨And.left, fun hsibling => ⟨hsibling, hlt hthird hsibling⟩⟩
      rw [hnext.numbered, hall, if_neg (by simp)]
      exact hnext.numbered
  · rcases hmem hother with hin | rfl
    · exact h.told other hin
    · exact hnext.told
  · rcases hmem hother with hin | rfl
    · exact h.roles other hin
    · exact hnext.roles
  · rcases hmem hother with hin | rfl
    · obtain ⟨hne, third, hthird, hrest⟩ := h.hosted other hin hkind htool
      exact ⟨hne, third, List.mem_append_left _ hthird, hrest⟩
    · obtain ⟨hne, third, hthird, hsibling, hchild⟩ := hnext.hosted hkind htool
      exact ⟨hne, third, List.mem_append_left _ hthird, hsibling, hlt hthird hsibling, hchild⟩
  · rcases hmem ha with hina | rfl <;> rcases hmem hb with hinb | rfl
    · exact h.compatible a hina b hinb hsibling
    · exact hnext.compatible a hina hsibling
    · obtain ⟨hprovider, hkind⟩ := hnext.compatible b hinb hsibling.symm
      exact ⟨fun v v' hv hv' => (hprovider v' v hv' hv).symm, fun v v' hv hv' => (hkind v' v hv' hv).symm⟩
    · exact ⟨fun v v' hv hv' => Option.some.inj (hv.symm.trans hv'), fun v v' hv hv' => Option.some.inj (hv.symm.trans hv')⟩
  · rcases hmem ha with hina | rfl <;> rcases hmem hb with hinb | rfl
    · exact h.heirs a hina b hinb hsibling hrevision session hchild
    · exact hnext.heirs a hina hsibling session hchild
    · exact absurd (hlt hinb hsibling.symm) (not_lt.mpr hrevision.le)
    · exact absurd hrevision (lt_irrefl _)
  · rcases hmem ha with hina | rfl <;> rcases hmem hb with hinb | rfl
    · exact h.owned a hina b hinb hparent session hachild hbchild hakey hbkey
    · exact hnext.owned a hina hparent session hachild hbchild hakey hbkey
    · exact (hnext.owned b hinb hparent.symm session hbchild hachild hbkey hakey).symm
    · rfl

section
variable {input : AdmissionInput} {admitted : AdmittedSubagentObservation} (h : Story rows)
  (hindex : Index (rows.map ObservationRow.entry) m)
  (hcut : ∀ row ∈ rows, row.parentSessionId ≠ input.parentSessionId →
    Cut '\x00' row.parentSessionId.toList input.parentSessionId.toList)
  (hfresh : Assoc.lookup (scopedKey input.parentSessionId ("observation:" ++ input.observation.observationId)) m.observations = none)
  (htaken : m.admitInput input = .ok (admitted, m'))
include h hindex hcut hfresh htaken

theorem Story.continues : Continues rows (storedRow input admitted.event) := by
  obtain ⟨child, bindings, childOwners, hvalidate, hbind, hadmitted, -⟩ := admit_spec hfresh htaken
  obtain ⟨hbinds, hchild, -, howners⟩ := bind_spec hbind
  set subagentKey := m.resolve input (correlationKeys input.observation) with hkey
  have hevent : admitted.event = ⟨subagentKey, m.revisionOf (scopedKey input.parentSessionId ("revision:" ++ subagentKey)) + 1,
      observationEventInput { input.observation with childSessionId := child.or input.observation.childSessionId }⟩ :=
    congrArg AdmittedSubagentObservation.event hadmitted
  have hpresent : present (child.or input.observation.childSessionId) = child := by
    rw [hchild]
    exact hindex.child_eq _
  have hstored : storedRow input admitted.event =
      { parentSessionId := input.parentSessionId
        observationId := input.observation.observationId
        subagentKey := subagentKey
        revision := m.revisionOf (scopedKey input.parentSessionId ("revision:" ++ subagentKey)) + 1
        observation := { input.observation with childSessionId := child.or input.observation.childSessionId }
        event := admitted.event } := by
    have htold : (present admitted.event.input.childSessionId).or input.observation.childSessionId =
        child.or input.observation.childSessionId := by
      have hinput : admitted.event.input.childSessionId = child :=
        (congrArg (fun event : SubagentUpdatedEvent => event.input.childSessionId) hevent).trans hpresent
      have hchildpresent : present child = child := by
        rcases hnone : child with _ | session
        · rfl
        · exact present_eq_some_iff.mpr ⟨rfl, (present_eq_some_iff.mp (hpresent.trans hnone)).2⟩
      rw [hinput, hchildpresent]
    unfold storedRow
    rw [htold, hevent]
  have hrowchild : (storedRow input admitted.event).child = child :=
    (congrArg (fun event : SubagentUpdatedEvent => event.input.childSessionId) hevent).trans hpresent
  have hsibling : ∀ {other}, other ∈ rows → Sibling other (storedRow input admitted.event) →
      other.entry.bindingKey = scopedKey input.parentSessionId subagentKey := by
    intro other hother hsibling
    unfold Entry.bindingKey
    rw [h.entry_key hother, hsibling.2, hstored]
    exact congrArg (scopedKey · subagentKey) hsibling.1
  have hof : ∀ {other}, other ∈ rows → other.entry.bindingKey = scopedKey input.parentSessionId subagentKey →
      Sibling other (storedRow input admitted.event) := by
    intro other hother hsame
    unfold Entry.bindingKey at hsame
    rw [h.entry_key hother] at hsame
    rw [hstored]
    exact scopedKey_inj (hcut other hother) hsame
  refine ⟨hcut, fun other hother hsame => ?_, ?_, ?_, fun hrole htool => ?_, fun hkind htool => ?_, fun other hother hsame => ?_,
    fun other hother hsame session hsession => ?_, fun other hother hparent session hsession hmine hne hne' => ?_⟩
  · have hlookup := (hindex.observations _ _).mpr ⟨other.entry, List.mem_map_of_mem hother, hsame, rfl⟩
    exact absurd (hlookup.symm.trans hfresh) (by simp)
  · rw [hstored]
    dsimp only
    rw [hindex.revisionOf, List.countP_map]
    refine congrArg (· + 1) (List.countP_congr fun other hother => ?_)
    rw [Function.comp_apply, decide_eq_true_eq, decide_eq_true_eq]
    unfold Entry.revisionKey
    rw [h.entry_key hother]
    constructor
    · rintro ⟨hparent, hsame⟩
      dsimp only at hparent hsame
      rw [hsame]
      exact congrArg (scopedKey · _) hparent
    · intro hsame
      obtain ⟨hparent, hsame⟩ := scopedKey_inj (hcut other hother) hsame
      exact ⟨hparent, string_append_left hsame⟩
  · rw [hstored]
    exact ⟨hevent, rfl⟩
  · rw [hstored] at hrole htool
    unfold AdmissionMachine.validate at hvalidate
    dsimp only at hvalidate hrole htool
    rw [if_pos ⟨hrole, htool⟩] at hvalidate
    cases hvalidate
  · rw [hstored] at hkind htool
    unfold AdmissionMachine.validate at hvalidate
    dsimp only at hvalidate hkind htool
    split_ifs at hvalidate with hrole hother hbound
    · exact absurd hkind (hother.resolve_right htool)
    · obtain ⟨session, hsession⟩ := Option.ne_none_iff_exists'.mp hbound
      obtain ⟨hsession, -⟩ := present_eq_some_iff.mp hsession
      obtain ⟨key, hnamed, hsession⟩ := Option.bind_eq_some_iff.mp hsession
      obtain ⟨hnamed, hne⟩ := present_eq_some_iff.mp hnamed
      have hsame : subagentKey = key := by
        rw [hkey]
        unfold AdmissionMachine.resolve
        dsimp only
        rw [hnamed, Option.some_or, Option.some_or, Option.some_or, Option.getD_some]
      obtain ⟨e, he, hbindingkey, hechild⟩ := (hindex.childSessionId _ session).mp hsession
      obtain ⟨other, hother, rfl⟩ := List.mem_map.mp he
      rw [← hsame] at hne hbindingkey
      refine ⟨by rw [hstored]; exact hne, other, hother, hof hother hbindingkey, ?_⟩
      rw [show other.child = some session from hechild]
      simp
  · have hbinding := hsibling hother hsame
    rw [hstored]
    exact ⟨fun value value' hvalue hvalue' => hbinds.providerId value value'
        ((hindex.providerId _ value).mpr ⟨other.entry, List.mem_map_of_mem hother, hbinding, hvalue⟩) hvalue',
      fun value value' hvalue hvalue' => hbinds.providerKind value value'
        ((hindex.providerKind _ value).mpr ⟨other.entry, List.mem_map_of_mem hother, hbinding, hvalue⟩) hvalue'⟩
  · rw [hrowchild, hchild]
    exact hindex.boundChild_of ((hindex.childSessionId _ session).mpr
      ⟨other.entry, List.mem_map_of_mem hother, hsibling hother hsame, hsession⟩)
  · rw [hrowchild] at hmine
    rw [hstored] at hparent hne' ⊢
    dsimp only at hparent hne' ⊢
    have hownskey : other.entry.Owns (scopedKey input.parentSessionId ("child:" ++ session)) :=
      ⟨session, hsession, congrArg (scopedKey · _) hparent⟩
    rcases howners with ⟨-, hnone | hold⟩ | ⟨session', hsession', -, howner, -⟩
    · rw [hmine] at hnone
      cases hnone
    · obtain ⟨bound, hbound⟩ := Option.ne_none_iff_exists'.mp hold
      rw [hindex.present_child] at hbound
      have hsame : bound = session := by
        have hboundchild : boundChild (m.bindingOf (scopedKey input.parentSessionId subagentKey)) input = some bound :=
          hindex.boundChild_of hbound
        rw [← hchild, hmine] at hboundchild
        exact (Option.some.inj hboundchild).symm
      subst hsame
      obtain ⟨e, he, hbindingkey, hechild⟩ := (hindex.childSessionId _ bound).mp hbound
      obtain ⟨third, hthird, rfl⟩ := List.mem_map.mp he
      obtain ⟨hthirdparent, hthirdkey⟩ := hof hthird hbindingkey
      rw [hstored] at hthirdparent hthirdkey
      dsimp only at hthirdparent hthirdkey
      rw [← hthirdkey] at hne' ⊢
      exact h.owned other hother third hthird (hparent.trans hthirdparent.symm) bound hsession hechild hne hne'
    · obtain rfl := Option.some.inj (hmine.symm.trans hsession')
      obtain ⟨found, hfound, hname⟩ := hindex.owner_of (List.mem_map_of_mem hother) hownskey
      rw [h.entry_key hother] at hname
      obtain rfl := hname hne
      exact howner _ (present_eq_some_iff.mpr ⟨hfound, hne⟩)

theorem Story.store :
    Story (rows ++ [storedRow input admitted.event]) ∧
      Index ((rows ++ [storedRow input admitted.event]).map ObservationRow.entry) m' := by
  have hentry : (storedRow input admitted.event).entry = entryOf input admitted := by
    obtain ⟨_, _, _, -, -, hadmitted, -⟩ := admit_spec hfresh htaken
    rw [hadmitted]
    rfl
  have hindexcut : ∀ e ∈ rows.map ObservationRow.entry, e.parent ≠ input.parentSessionId →
      Cut '\x00' e.parent.toList input.parentSessionId.toList := List.forall_mem_map.mpr hcut
  refine ⟨h.snoc (h.continues hindex hcut hfresh htaken), ?_⟩
  rw [List.map_append, List.map_singleton, hentry]
  exact hindex.admitInput hindexcut hfresh htaken

end

theorem Story.publish (h : Story rows) (published : ObservationRow → Bool) :
    Story (rows.map fun row => { row with published := published row }) := by
  refine ⟨List.forall_mem_map.mpr fun a ha => List.forall_mem_map.mpr fun b hb => h.cut a ha b hb, List.pairwise_map.mpr h.unique,
    List.pairwise_map.mpr h.distinct, List.forall_mem_map.mpr fun row hrow => ?_, List.forall_mem_map.mpr h.told,
    List.forall_mem_map.mpr h.roles, List.forall_mem_map.mpr fun row hrow hkind htool => ?_,
    List.forall_mem_map.mpr fun a ha => List.forall_mem_map.mpr fun b hb => h.compatible a ha b hb,
    List.forall_mem_map.mpr fun a ha => List.forall_mem_map.mpr fun b hb => h.heirs a ha b hb,
    List.forall_mem_map.mpr fun a ha => List.forall_mem_map.mpr fun b hb => h.owned a ha b hb⟩
  · rw [List.countP_map]
    exact h.numbered row hrow
  · obtain ⟨hne, other, hother, hrest⟩ := h.hosted row hrow hkind htool
    exact ⟨hne, _, List.mem_map_of_mem hother, hrest⟩

end

structure Sound (s : SubagentStore) : Prop where
  story : Story s.rows
  live : Index (s.rows.map ObservationRow.entry) s.live

section
variable {s : SubagentStore}

/-- The machine that is rebuilt admits what the live one does, or refuses it as that does. -/
theorem Sound.hydrate (h : Sound s) : ∃ m, hydrateSubagentAdmission s.rows = .ok m ∧ Same m s.live :=
  h.story.hydrate_same h.live

theorem Sound.fresh (h : Sound s) {input : AdmissionInput}
    (hcut : ∀ row ∈ s.rows, row.parentSessionId ≠ input.parentSessionId →
      Cut '\x00' row.parentSessionId.toList input.parentSessionId.toList)
    (hnot : ¬ isStored s.rows input.parentSessionId input.observation.observationId) :
    Assoc.lookup (scopedKey input.parentSessionId ("observation:" ++ input.observation.observationId)) s.live.observations = none := by
  rw [Option.eq_none_iff_forall_ne_some]
  intro admitted hadmitted
  obtain ⟨e, he, hkey, -⟩ := (h.live.observations _ _).mp hadmitted
  obtain ⟨row, hrow, rfl⟩ := List.mem_map.mp he
  obtain ⟨hparent, hsame⟩ := scopedKey_inj (hcut row hrow) hkey
  exact hnot (List.any_eq_true.mpr ⟨row, hrow, decide_eq_true ⟨hparent, string_append_left hsame⟩⟩)

theorem Sound.admitObservation (h : Sound s) (input : AdmissionInput) (goesThrough : Bool)
    (hcut : ∀ row ∈ s.rows, row.parentSessionId ≠ input.parentSessionId →
      Cut '\x00' row.parentSessionId.toList input.parentSessionId.toList) : Sound (s.admitObservation input goesThrough) := by
  obtain ⟨m, hhydrate, hsame⟩ := h.hydrate
  have htaken := hsame.admitInput input
  unfold SubagentStore.admitObservation
  rw [hhydrate]
  dsimp only
  rcases hleft : m.admitInput input with e | ⟨admitted, after⟩ <;> rcases hright : s.live.admitInput input with e' | ⟨admitted', after'⟩ <;>
    rw [hleft, hright] at htaken <;> dsimp only
  · exact h
  · exact h
  · cases htaken
  · obtain ⟨rfl, -⟩ := htaken
    split_ifs with hstay
    · exact h
    · rw [not_or] at hstay
      obtain ⟨hstory, hindex⟩ := h.story.store h.live hcut (h.fresh hcut hstay.1) hright
      exact ⟨hstory, hindex⟩

theorem Sound.markPublished (h : Sound s) (parentSessionId observationId : String) :
    Sound (s.markPublished parentSessionId observationId) := by
  unfold SubagentStore.markPublished
  split_ifs with hstored
  · obtain ⟨marked, hmarked, hparent, hid⟩ : ∃ row ∈ s.rows, row.parentSessionId = parentSessionId ∧ row.observationId =
      observationId := by
      obtain ⟨row, hrow, hrow'⟩ := List.any_eq_true.mp hstored
      exact ⟨row, hrow, of_decide_eq_true hrow'⟩
    have hkey : marked.entry.observationKey = scopedKey parentSessionId ("observation:" ++ observationId) := by
      rw [← hparent, ← hid]
      rfl
    have hrows : (s.rows.map fun row =>
        if row.parentSessionId = parentSessionId ∧ row.observationId = observationId then { row with published := true } else row) =
        s.rows.map fun row => { row with
          published := if row.parentSessionId = parentSessionId ∧ row.observationId = observationId then true else row.published } := by
      refine List.map_congr_left fun row _ => ?_
      split_ifs <;> rfl
    obtain ⟨live, hmark⟩ : ∃ live, s.live.markPublished parentSessionId observationId = .ok live := by
      have hlookup := (h.live.observations _ _).mpr ⟨_, List.mem_map_of_mem hmarked, hkey, rfl⟩
      unfold AdmissionMachine.markPublished
      dsimp only
      rw [hlookup]
      exact ⟨_, rfl⟩
    have hentries : (s.rows.map fun row => { row with
          published := if row.parentSessionId = parentSessionId ∧ row.observationId = observationId then true else row.published }).map
            ObservationRow.entry =
        (s.rows.map ObservationRow.entry).map (Entry.publish (scopedKey parentSessionId ("observation:" ++ observationId))) := by
      rw [List.map_map, List.map_map]
      refine List.map_congr_left fun row hrow => ?_
      rw [Function.comp_apply, Function.comp_apply]
      unfold Entry.publish
      by_cases hrowkey : row.entry.observationKey = scopedKey parentSessionId ("observation:" ++ observationId)
      · have hone : row = marked := by
          by_contra hne
          have hunique : Std.Symm fun a b : ObservationRow => a.entry.observationKey ≠ b.entry.observationKey :=
            ⟨fun _ _ hab => Ne.symm hab⟩
          exact h.story.unique.forall hrow hmarked hne (hrowkey.trans hkey.symm)
        subst hone
        rw [if_pos hrowkey, if_pos ⟨hparent, hid⟩]
        rfl
      · rw [if_neg hrowkey, if_neg fun hboth => hrowkey (by rw [← hboth.1, ← hboth.2]; rfl)]
    rw [hmark, hrows]
    exact ⟨h.story.publish _, hentries ▸ h.live.publish hmark⟩
  · exact h

theorem Sound.step (h : Sound s) (label : SubagentLabel) (hcut : ParentsApart s label) : Sound (s.step label) := by
  cases label with
  | admitObservation input goesThrough => exact h.admitObservation input goesThrough hcut
  | markPublished parentSessionId observationId => exact h.markPublished parentSessionId observationId

theorem sound_empty : Sound {} := by
  refine ⟨⟨fun row hrow => ?_, .nil, .nil, fun row hrow => ?_, fun row hrow => ?_, fun row hrow => ?_, fun row hrow => ?_,
    fun row hrow => ?_, fun row hrow => ?_, fun row hrow => ?_⟩, index_empty⟩
  all_goals cases hrow

theorem Sound.holds (h : Sound s) : RebuildHolds s := by
  obtain ⟨m, hhydrate, hsame⟩ := h.hydrate
  refine ⟨⟨m, hhydrate, fun row hrow => ?_, hsame.answers⟩, fun input goesThrough e hrefused => ?_⟩
  · obtain ⟨hevent, -⟩ := h.story.told row hrow
    refine ⟨by rw [hevent], by rw [hevent], ?_⟩
    rw [hsame.observations]
    exact (h.live.observations _ _).mpr ⟨row.entry, List.mem_map_of_mem hrow, rfl, rfl⟩
  · have htaken := hsame.admitInput input
    unfold SubagentStore.step SubagentStore.admitObservation
    dsimp only
    rw [hhydrate]
    dsimp only
    rcases hleft : m.admitInput input with e' | ⟨admitted, after⟩
    · rfl
    · rw [hleft, hrefused] at htaken
      cases htaken

end

/-- In every run whose parents are apart, the index rebuilt from the rows is the live one. -/
theorem rebuildHolds_of_parentsApart (labels : List SubagentLabel) (h : Meets SubagentStore.step ParentsApart {} labels) :
    RebuildHolds (run SubagentStore.step {} labels) :=
  (invariant_of_meets Sound (fun _ label hs hcut => hs.step label hcut) sound_empty h).holds

/-- An observation of a named subagent. -/
def named (parentSessionId observationId subagentKey : String) : SubagentLabel :=
  .admitObservation ⟨parentSessionId, { observationId := observationId, subagentKey := some subagentKey }, subagentKey, none⟩ true

theorem rebuildHolds_two : RebuildHolds (run SubagentStore.step {} [named "p" "1" "b", named "p" "2" "a", named "q" "1" "a"]) :=
  rebuildHolds_of_parentsApart _ (by decide)

/-- A parent's id goes on from another's as a key would: their subagents share a revision, which the replay gives the other. -/
theorem not_rebuildHolds :
    ¬ RebuildHolds (run SubagentStore.step {} [named "p\x00revision:x" "1" "y", named "p" "2" "x\x00revision:y"]) := by
  intro h
  obtain ⟨m, hhydrate, -⟩ := h.rebuilt
  have hthrows : (hydrateSubagentAdmission (run SubagentStore.step {}
      [named "p\x00revision:x" "1" "y", named "p" "2" "x\x00revision:y"]).rows).toOption = none := by decide
  rw [hhydrate] at hthrows
  cases hthrows

/-- What the rows tell of each subagent: one history, of one provider, that ends up with one child and shares it with nobody. -/
structure OneHistory (rows : List ObservationRow) : Prop where
  once : (rows.map fun row => (row.parentSessionId, row.observationId)).Nodup
  numbered : ∀ row ∈ rows, rows.countP (fun other => Sibling other row ∧ other.revision < row.revision) + 1 = row.revision
  provider : ∀ a ∈ rows, ∀ b ∈ rows, Sibling a b → ∀ id id', a.observation.providerId = some id → b.observation.providerId = some id' →
    id = id'
  heirs : ∀ a ∈ rows, ∀ b ∈ rows, Sibling a b → a.revision < b.revision → ∀ session, a.child = some session → b.child = some session
  owned : ∀ a ∈ rows, ∀ b ∈ rows, a.parentSessionId = b.parentSessionId → ∀ session, a.child = some session → b.child = some session →
    a.subagentKey ≠ "" → b.subagentKey ≠ "" → a.subagentKey = b.subagentKey

theorem Story.oneHistory {rows : List ObservationRow} (h : Story rows) : OneHistory rows := by
  refine ⟨List.pairwise_map.mpr (h.unique.imp fun {a b} hne hsame => hne ?_), h.numbered,
    fun a ha b hb hab => (h.compatible a ha b hb hab).1, h.heirs, h.owned⟩
  change scopedKey a.parentSessionId ("observation:" ++ a.observationId) = scopedKey b.parentSessionId ("observation:" ++ b.observationId)
  rw [(Prod.mk.inj hsame).1, (Prod.mk.inj hsame).2]

/-- In every run whose parents are apart, an observation is stored once, a subagent's revisions count its rows from 1, and the
child its rows come to name stays its own. -/
theorem oneHistory_of_parentsApart (labels : List SubagentLabel) (h : Meets SubagentStore.step ParentsApart {} labels) :
    OneHistory (run SubagentStore.step {} labels).rows :=
  (invariant_of_meets Sound (fun _ label hs hcut => hs.step label hcut) sound_empty h).story.oneHistory

theorem oneHistory_two : OneHistory (run SubagentStore.step {} [named "p" "1" "b", named "p" "2" "b", named "q" "1" "b"]).rows :=
  oneHistory_of_parentsApart _ (by decide)

end Claxedo.Subagents
