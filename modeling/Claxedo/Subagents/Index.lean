import Claxedo.Subagents.ObservationRows

/-! What the machine's maps hold, told by the admissions it has made and not by their order. Two machines that hold the
same answer alike, and go on alike. -/

namespace Claxedo.Subagents

open Claxedo.Lib

theorem sole_eq_some_iff {values : List String} {value : String} :
    sole values = some value ↔ values ≠ [] ∧ ∀ other ∈ values, other = value := by
  constructor
  · intro h
    unfold sole at h
    split at h
    · next found hfirsts =>
      obtain rfl := Option.some.inj h
      refine ⟨?_, fun other hother => ?_⟩
      · rintro rfl
        cases hfirsts
      · have hin := mem_firsts.mpr hother
        rw [hfirsts] at hin
        exact List.mem_singleton.mp hin
    · cases h
  · rintro ⟨hne, hall⟩
    unfold sole
    rw [firsts_of_forall_eq hall, if_neg hne]

/-- Which values there are decides, not how often and in what order. -/
theorem sole_congr {values values' : List String} (h : ∀ value, value ∈ values ↔ value ∈ values') : sole values = sole values' := by
  refine Option.ext fun value => ?_
  rw [sole_eq_some_iff, sole_eq_some_iff]
  have hnil : values = [] ↔ values' = [] := by
    rw [List.eq_nil_iff_forall_not_mem, List.eq_nil_iff_forall_not_mem]
    exact forall_congr' fun value => not_congr (h value)
  rw [Ne, hnil]
  exact and_congr_right fun _ => forall_congr' fun other => by rw [h]

theorem present_eq_some_iff {text : Option String} {value : String} : present text = some value ↔ text = some value ∧ value ≠ "" := by
  unfold present
  rw [Option.filter_eq_some_iff, decide_eq_true_eq]

/-- Two machines whose maps answer alike. -/
structure Same (m m' : AdmissionMachine) : Prop where
  observations : ∀ key, Assoc.lookup key m.observations = Assoc.lookup key m'.observations
  associated : ∀ key value, value ∈ m.associated key ↔ value ∈ m'.associated key
  revisionOf : ∀ key, m.revisionOf key = m'.revisionOf key
  bindingOf : ∀ key, m.bindingOf key = m'.bindingOf key
  childOwners : ∀ key, Assoc.lookup key m.childOwners = Assoc.lookup key m'.childOwners

section
variable {m m' : AdmissionMachine} {input : AdmissionInput}

theorem Same.validate (h : Same m m') : m.validate input = m'.validate input := by
  unfold AdmissionMachine.validate
  simp only [h.bindingOf]

theorem Same.unbound (h : Same m m') (parentSessionId : String) (observation : SubagentObservation) (keys : List String) :
    m.unbound parentSessionId observation keys = m'.unbound parentSessionId observation keys := by
  refine sole_congr fun value => ?_
  rw [List.mem_filter, List.mem_filter, List.mem_flatMap, List.mem_flatMap]
  simp only [h.associated, h.bindingOf]

theorem Same.strongest (h : Same m m') (parentSessionId : String) (observation : SubagentObservation) (keys : List String) :
    m.strongest parentSessionId observation keys = m'.strongest parentSessionId observation keys := by
  induction keys with
  | nil => rfl
  | cons key keys ih =>
    have hsole : sole ((m.associated (scopedKey parentSessionId key)).filter fun candidate =>
          compatibleBinding (m.bindingOf (scopedKey parentSessionId candidate)) observation) =
        sole ((m'.associated (scopedKey parentSessionId key)).filter fun candidate =>
          compatibleBinding (m'.bindingOf (scopedKey parentSessionId candidate)) observation) := by
      refine sole_congr fun value => ?_
      rw [List.mem_filter, List.mem_filter, h.associated, h.bindingOf]
    unfold AdmissionMachine.strongest
    rw [hsole, ih]

theorem Same.resolve (h : Same m m') (keys : List String) : m.resolve input keys = m'.resolve input keys := by
  have hprovider : ∀ provider, sole (m.associated (scopedKey input.parentSessionId provider)) =
      sole (m'.associated (scopedKey input.parentSessionId provider)) := fun provider => sole_congr (h.associated _)
  unfold AdmissionMachine.resolve
  simp only [h.strongest, h.unbound, h.childOwners, hprovider]

theorem mem_associate (parentSessionId : String) (keys : List String) (subagentKey key value : String)
    (associations : List (String × List String)) :
    value ∈ (Assoc.lookup key (AdmissionMachine.associate parentSessionId keys subagentKey associations)).getD [] ↔
      value ∈ (Assoc.lookup key associations).getD [] ∨ key ∈ keys.map (scopedKey parentSessionId) ∧ value = subagentKey := by
  unfold AdmissionMachine.associate
  induction keys generalizing associations with
  | nil => simp
  | cons other keys ih =>
    rw [List.foldl_cons, ih, Assoc.lookup_assign, List.map_cons, List.mem_cons]
    by_cases hkey : scopedKey parentSessionId other = key
    · subst hkey
      simp only [if_true, Option.getD_some, true_or, true_and]
      split_ifs with hin
      · constructor
        · rintro (hold | ⟨-, rfl⟩)
          · exact .inl hold
          · exact .inr rfl
        · rintro (hold | rfl)
          · exact .inl hold
          · exact .inl hin
      · rw [List.mem_append, List.mem_singleton, or_assoc]
        exact or_congr_right (or_iff_left_of_imp And.right)
    · rw [if_neg hkey]
      simp only [Ne.symm hkey, false_or]

/-- The maps of a binding answer alike. -/
def SameBound (bound bound' : Except AdmissionError (Option String × List (String × Binding) × List (String × String))) : Prop :=
  match bound, bound' with
  | .error e, .error e' => e = e'
  | .ok (child, bindings, childOwners), .ok (child', bindings', childOwners') => child = child' ∧
    (∀ key, (Assoc.lookup key bindings).getD {} = (Assoc.lookup key bindings').getD {}) ∧
    ∀ key, Assoc.lookup key childOwners = Assoc.lookup key childOwners'
  | _, _ => False

theorem Same.bind (h : Same m m') (input : AdmissionInput) (key : String) : SameBound (m.bind input key) (m'.bind input key) := by
  have hassign : ∀ {ν : Type} (key key' : String) (value : ν) {map map' : List (String × ν)},
      Assoc.lookup key map = Assoc.lookup key map' →
        Assoc.lookup key (Assoc.assign key' value map) = Assoc.lookup key (Assoc.assign key' value map') := by
    intro ν key key' value map map' hmap
    rw [Assoc.lookup_assign, Assoc.lookup_assign, hmap]
  have hbindings : ∀ (key key' : String) (value : Binding), (Assoc.lookup key (Assoc.assign key' value m.bindings)).getD {} =
      (Assoc.lookup key (Assoc.assign key' value m'.bindings)).getD {} := by
    intro key key' value
    rw [Assoc.lookup_assign, Assoc.lookup_assign]
    split_ifs
    · rfl
    · exact h.bindingOf key
  unfold AdmissionMachine.bind
  dsimp only
  rw [h.bindingOf]
  rcases requireCompatibleBinding "providerId" (m'.bindingOf (scopedKey input.parentSessionId key)).providerId
      input.observation.providerId with e | _ <;>
    rcases requireCompatibleBinding "providerKind" (m'.bindingOf (scopedKey input.parentSessionId key)).providerKind
      input.observation.providerKind with e' | _ <;>
    rcases requireCompatibleBinding "childSessionId" (m'.bindingOf (scopedKey input.parentSessionId key)).childSessionId
      input.observation.childSessionId with e'' | _ <;> dsimp only <;> try exact rfl
  rcases present (((m'.bindingOf (scopedKey input.parentSessionId key)).childSessionId.or input.observation.childSessionId).or
    input.allocatedChildSessionId) with _ | child <;> dsimp only
  · exact ⟨rfl, fun _ => hbindings _ _ _, h.childOwners⟩
  · split_ifs
    · rw [h.childOwners]
      rcases present (Assoc.lookup (scopedKey input.parentSessionId ("child:" ++ child)) m'.childOwners) with _ | owner <;> dsimp only
      · exact ⟨rfl, fun _ => hbindings _ _ _, fun key => hassign _ _ _ (h.childOwners key)⟩
      · split_ifs
        · rfl
        · exact ⟨rfl, fun _ => hbindings _ _ _, fun key => hassign _ _ _ (h.childOwners key)⟩
    · exact ⟨rfl, fun _ => hbindings _ _ _, h.childOwners⟩

/-- What an admission answers, and the machine it leaves. -/
def SameAdmitted (admitted admitted' : Except AdmissionError (AdmittedSubagentObservation × AdmissionMachine)) : Prop :=
  match admitted, admitted' with
  | .error e, .error e' => e = e'
  | .ok (admitted, m), .ok (admitted', m') => admitted = admitted' ∧ Same m m'
  | _, _ => False

theorem Same.admitInput (h : Same m m') (input : AdmissionInput) : SameAdmitted (m.admitInput input) (m'.admitInput input) := by
  unfold AdmissionMachine.admitInput
  dsimp only
  rw [h.observations, h.validate, h.resolve]
  rcases Assoc.lookup (scopedKey input.parentSessionId ("observation:" ++ input.observation.observationId)) m'.observations with
    _ | prior <;> dsimp only
  · rcases m'.validate input with e | _ <;> dsimp only
    · rfl
    have hbound := h.bind input (m'.resolve input (correlationKeys input.observation))
    rcases hleft : m.bind input (m'.resolve input (correlationKeys input.observation)) with e | ⟨child, bindings, childOwners⟩ <;>
      rcases hright : m'.bind input (m'.resolve input (correlationKeys input.observation)) with
        e' | ⟨child', bindings', childOwners'⟩ <;> rw [hleft, hright] at hbound <;> dsimp only
    · exact hbound
    · cases hbound
    · cases hbound
    · obtain ⟨rfl, hbindings, howners⟩ := hbound
      rw [h.revisionOf]
      refine ⟨rfl, ⟨fun key => ?_, fun key value => ?_, fun key => ?_, hbindings, howners⟩⟩
      · rw [Assoc.lookup_assign, Assoc.lookup_assign, h.observations]
      · unfold AdmissionMachine.associated
        rw [mem_associate, mem_associate]
        exact or_congr_left (h.associated key value)
      · unfold AdmissionMachine.revisionOf
        rw [Assoc.lookup_assign, Assoc.lookup_assign]
        split_ifs
        · rfl
        · exact h.revisionOf key
  · rcases AdmissionMachine.replay prior input.observation with e | prior
    · rfl
    · exact ⟨rfl, h⟩

end

/-- What a machine answers a list of observations. -/
def answers : AdmissionMachine → List AdmissionInput → List (Except AdmissionError AdmittedSubagentObservation)
  | _, [] => []
  | m, input :: inputs =>
    match m.admitInput input with
    | .error e => .error e :: answers m inputs
    | .ok (admitted, m) => .ok admitted :: answers m inputs

theorem Same.answers {m m' : AdmissionMachine} (h : Same m m') (inputs : List AdmissionInput) : answers m inputs =
    answers m' inputs := by
  induction inputs generalizing m m' with
  | nil => rfl
  | cons input inputs ih =>
    have htaken := h.admitInput input
    unfold Subagents.answers
    rcases hleft : m.admitInput input with e | ⟨admitted, after⟩ <;> rcases hright : m'.admitInput input with e' | ⟨admitted', after'⟩ <;>
      rw [hleft, hright] at htaken <;> dsimp only
    · rw [ih h, show e = e' from htaken]
    · cases htaken
    · cases htaken
    · rw [ih htaken.2, htaken.1]

/-! The machine's maps as the admissions that were made: an admission adds one, and publishing marks one. -/

/-- An admission as the maps hold it. -/
structure Entry where
  admitted : AdmittedSubagentObservation
  correlations : List String
  providerId : Option String
  providerKind : Option String

namespace Entry

def parent (e : Entry) : String := e.admitted.parentSessionId

def key (e : Entry) : String := e.admitted.event.subagentKey

def child (e : Entry) : Option String := e.admitted.event.input.childSessionId

def observationKey (e : Entry) : String := scopedKey e.parent ("observation:" ++ e.admitted.observationId)

def revisionKey (e : Entry) : String := scopedKey e.parent ("revision:" ++ e.key)

def bindingKey (e : Entry) : String := scopedKey e.parent e.key

def Correlates (e : Entry) (key : String) : Prop := key ∈ e.correlations.map (scopedKey e.parent)

def Owns (e : Entry) (key : String) : Prop := ∃ child, e.child = some child ∧ scopedKey e.parent ("child:" ++ child) = key

end Entry

def entryOf (input : AdmissionInput) (admitted : AdmittedSubagentObservation) : Entry :=
  ⟨admitted, correlationKeys input.observation, input.observation.providerId, input.observation.providerKind⟩

/-- The maps hold the admissions. A child is owned by the subagent of a name, where there is one. -/
structure Index (entries : List Entry) (m : AdmissionMachine) : Prop where
  observations : ∀ key admitted, Assoc.lookup key m.observations = some admitted ↔
    ∃ e ∈ entries, e.observationKey = key ∧ e.admitted = admitted
  associated : ∀ key value, value ∈ m.associated key ↔ ∃ e ∈ entries, e.Correlates key ∧ e.key = value
  revisionOf : ∀ key, m.revisionOf key = entries.countP fun e => e.revisionKey = key
  providerId : ∀ key value, (m.bindingOf key).providerId = some value ↔
    ∃ e ∈ entries, e.bindingKey = key ∧ e.providerId = some value
  providerKind : ∀ key value, (m.bindingOf key).providerKind = some value ↔
    ∃ e ∈ entries, e.bindingKey = key ∧ e.providerKind = some value
  childSessionId : ∀ key value, (m.bindingOf key).childSessionId = some value ↔
    ∃ e ∈ entries, e.bindingKey = key ∧ e.child = some value
  childOwners : ∀ key owner, Assoc.lookup key m.childOwners = some owner ↔
    (∃ e ∈ entries, e.Owns key ∧ e.key = owner) ∧ (owner = "" → ∀ e ∈ entries, e.Owns key → e.key = "")
  named : ∀ e ∈ entries, e.child ≠ some ""

theorem index_empty : Index [] {} := by
  refine ⟨fun key admitted => ?_, fun key value => ?_, fun key => rfl, fun key value => ?_, fun key value => ?_,
    fun key value => ?_, fun key owner => ?_, fun e he => ?_⟩
  · simp
  · simp [AdmissionMachine.associated]
  · simp [AdmissionMachine.bindingOf]
  · simp [AdmissionMachine.bindingOf]
  · simp [AdmissionMachine.bindingOf]
  · simp
  · cases he

/-- The order of the admissions does not show. -/
theorem Index.same {entries entries' : List Entry} {m m' : AdmissionMachine} (h : Index entries m) (h' : Index entries' m')
    (hperm : entries.Perm entries') : Same m m' := by
  have hany : ∀ {p : Entry → Prop}, (∃ e ∈ entries, p e) ↔ ∃ e ∈ entries', p e := by
    intro p
    simp only [hperm.mem_iff]
  have hall : ∀ {p : Entry → Prop}, (∀ e ∈ entries, p e) ↔ ∀ e ∈ entries', p e := by
    intro p
    simp only [hperm.mem_iff]
  refine ⟨fun key => ?_, fun key value => ?_, fun key => ?_, fun key => ?_, fun key => ?_⟩
  · exact Option.ext fun admitted => by rw [h.observations, h'.observations, hany]
  · rw [h.associated, h'.associated, hany]
  · rw [h.revisionOf, h'.revisionOf]
    exact hperm.countP_eq _
  · have hprovider : (m.bindingOf key).providerId = (m'.bindingOf key).providerId :=
      Option.ext fun value => by rw [h.providerId, h'.providerId, hany]
    have hkind : (m.bindingOf key).providerKind = (m'.bindingOf key).providerKind :=
      Option.ext fun value => by rw [h.providerKind, h'.providerKind, hany]
    have hchild : (m.bindingOf key).childSessionId = (m'.bindingOf key).childSessionId :=
      Option.ext fun value => by rw [h.childSessionId, h'.childSessionId, hany]
    rcases hleft : m.bindingOf key with ⟨providerId, providerKind, childSessionId⟩
    rcases hright : m'.bindingOf key with ⟨providerId', providerKind', childSessionId'⟩
    rw [hleft, hright] at hprovider hkind hchild
    dsimp only at hprovider hkind hchild
    rw [hprovider, hkind, hchild]
  · exact Option.ext fun owner => by rw [h.childOwners, h'.childOwners, hany, hall]

theorem string_append_left {a b c : String} (h : a ++ b = a ++ c) : b = c := by
  have hlist := congrArg String.toList h
  rw [String.toList_append, String.toList_append] at hlist
  exact String.toList_inj.mp (List.append_cancel_left hlist)

theorem scopedKey_inj {parent parent' key key' : String} (hcut : parent ≠ parent' → Cut '\x00' parent.toList parent'.toList)
    (h : scopedKey parent key = scopedKey parent' key') : parent = parent' ∧ key = key' := by
  unfold scopedKey at h
  by_cases hparent : parent = parent'
  · subst hparent
    exact ⟨rfl, string_append_left h⟩
  · have hlist := congrArg String.toList h
    have hzero : ("\x00" : String).toList = ['\x00'] := by decide
    rw [String.toList_append, String.toList_append, String.toList_append, String.toList_append, hzero, List.append_assoc,
      List.append_assoc, List.singleton_append, List.singleton_append] at hlist
    exact absurd (String.toList_inj.mp ((hcut hparent).inj hlist).1) hparent

theorem requireCompatibleBinding_ok_iff {field : String} {current next : Option String} :
    requireCompatibleBinding field current next = .ok () ↔ ∀ value value', current = some value → next = some value' →
        value = value' := by
  unfold requireCompatibleBinding
  rcases current with _ | value <;> rcases next with _ | value' <;> simp

section
variable {m m' : AdmissionMachine} {input : AdmissionInput} {entries : List Entry}

/-- What a binding has to agree with, and the child it would have. -/
structure Binds (binding : Binding) (observation : SubagentObservation) : Prop where
  providerId : ∀ value value', binding.providerId = some value → observation.providerId = some value' → value = value'
  providerKind : ∀ value value', binding.providerKind = some value → observation.providerKind = some value' → value = value'
  childSessionId : ∀ value value', binding.childSessionId = some value → observation.childSessionId = some value' → value = value'

def boundChild (binding : Binding) (input : AdmissionInput) : Option String :=
  present ((binding.childSessionId.or input.observation.childSessionId).or input.allocatedChildSessionId)

variable {childOwners : List (String × String)} {key session : String} {e : Entry}

theorem bind_spec {child : Option String} {bindings : List (String × Binding)}
    (h : m.bind input key = .ok (child, bindings, childOwners)) :
    let binding := m.bindingOf (scopedKey input.parentSessionId key)
    Binds binding input.observation ∧ child = boundChild binding input ∧
      bindings = Assoc.assign (scopedKey input.parentSessionId key)
        ⟨binding.providerId.or input.observation.providerId, binding.providerKind.or input.observation.providerKind, child⟩ m.bindings ∧
      ((childOwners = m.childOwners ∧ (child = none ∨ present binding.childSessionId ≠ none)) ∨
        ∃ session, child = some session ∧ present binding.childSessionId = none ∧
          (∀ owner, present (Assoc.lookup (scopedKey input.parentSessionId ("child:" ++ session)) m.childOwners) = some owner →
            owner = key) ∧
          childOwners = Assoc.assign (scopedKey input.parentSessionId ("child:" ++ session)) key m.childOwners) := by
  intro binding
  unfold AdmissionMachine.bind at h
  dsimp only at h
  split at h
  · cases h
  · cases h
  · cases h
  · next hprovider hkind hchild =>
    refine ⟨⟨requireCompatibleBinding_ok_iff.mp hprovider, requireCompatibleBinding_ok_iff.mp hkind,
      requireCompatibleBinding_ok_iff.mp hchild⟩, ?_⟩
    unfold boundChild
    rcases hbound : present ((binding.childSessionId.or input.observation.childSessionId).or input.allocatedChildSessionId) with
      _ | session <;> rw [hbound] at h <;> dsimp only at h
    · obtain ⟨rfl, rfl, rfl⟩ := Prod.mk.inj (Except.ok.inj h) |>.imp_right Prod.mk.inj
      exact ⟨rfl, rfl, .inl ⟨rfl, .inl rfl⟩⟩
    · split_ifs at h with hnew
      · rcases howner : present (Assoc.lookup (scopedKey input.parentSessionId ("child:" ++ session)) m.childOwners) with
          _ | owner <;> rw [howner] at h <;> dsimp only at h
        · obtain ⟨rfl, rfl, rfl⟩ := Prod.mk.inj (Except.ok.inj h) |>.imp_right Prod.mk.inj
          refine ⟨rfl, rfl, .inr ⟨session, rfl, hnew, fun other hother => ?_, rfl⟩⟩
          exact absurd (howner.symm.trans hother) (by simp)
        · split_ifs at h with hsame
          obtain ⟨rfl, rfl, rfl⟩ := Prod.mk.inj (Except.ok.inj h) |>.imp_right Prod.mk.inj
          refine ⟨rfl, rfl, .inr ⟨session, rfl, hnew, fun other hother => ?_, rfl⟩⟩
          rw [← Option.some.inj (howner.symm.trans hother)]
          exact not_not.mp hsame
      · obtain ⟨rfl, rfl, rfl⟩ := Prod.mk.inj (Except.ok.inj h) |>.imp_right Prod.mk.inj
        exact ⟨rfl, rfl, .inl ⟨rfl, .inr hnew⟩⟩

theorem bind_ok (input : AdmissionInput) (key : String)
    (hbinds : Binds (m.bindingOf (scopedKey input.parentSessionId key)) input.observation)
    (howner : ∀ session, boundChild (m.bindingOf (scopedKey input.parentSessionId key)) input = some session →
      present (m.bindingOf (scopedKey input.parentSessionId key)).childSessionId = none →
      ∀ owner, present (Assoc.lookup (scopedKey input.parentSessionId ("child:" ++ session)) m.childOwners) = some owner → owner = key) :
    ∃ bindings childOwners, m.bind input key =
      .ok (boundChild (m.bindingOf (scopedKey input.parentSessionId key)) input, bindings, childOwners) := by
  unfold boundChild at howner ⊢
  unfold AdmissionMachine.bind
  dsimp only
  rw [requireCompatibleBinding_ok_iff.mpr hbinds.providerId, requireCompatibleBinding_ok_iff.mpr hbinds.providerKind,
    requireCompatibleBinding_ok_iff.mpr hbinds.childSessionId]
  dsimp only
  rcases hbound : present (((m.bindingOf (scopedKey input.parentSessionId key)).childSessionId.or
    input.observation.childSessionId).or input.allocatedChildSessionId) with _ | session <;> dsimp only
  · exact ⟨_, _, rfl⟩
  · split_ifs with hnew
    · have hmine := howner session hbound hnew
      rcases hlookup : present (Assoc.lookup (scopedKey input.parentSessionId ("child:" ++ session)) m.childOwners) with
        _ | owner <;> dsimp only
      · exact ⟨_, _, rfl⟩
      · rw [if_neg (not_not.mpr (hmine owner hlookup))]
        exact ⟨_, _, rfl⟩
    · exact ⟨_, _, rfl⟩

theorem admit_spec {admitted : AdmittedSubagentObservation}
    (hfresh : Assoc.lookup (scopedKey input.parentSessionId ("observation:" ++ input.observation.observationId)) m.observations = none)
    (h : m.admitInput input = .ok (admitted, m')) :
    let subagentKey := m.resolve input (correlationKeys input.observation)
    let revisionKey := scopedKey input.parentSessionId ("revision:" ++ subagentKey)
    ∃ child bindings childOwners, m.validate input = .ok () ∧ m.bind input subagentKey = .ok (child, bindings, childOwners) ∧
      admitted = ⟨input.parentSessionId, input.observation.observationId, ⟨subagentKey, m.revisionOf revisionKey + 1,
        observationEventInput { input.observation with childSessionId := child.or input.observation.childSessionId }⟩, false⟩ ∧
      m' =
        { observations := Assoc.assign (scopedKey input.parentSessionId ("observation:" ++ input.observation.observationId)) admitted
            m.observations
          associations := AdmissionMachine.associate input.parentSessionId (correlationKeys input.observation) subagentKey m.associations
          revisions := Assoc.assign revisionKey (m.revisionOf revisionKey + 1) m.revisions
          bindings := bindings
          childOwners := childOwners } := by
  intro subagentKey revisionKey
  unfold AdmissionMachine.admitInput at h
  dsimp only at h
  rw [hfresh] at h
  rcases hvalidate : m.validate input with e | _ <;> rw [hvalidate] at h <;> dsimp only at h
  · cases h
  · rcases hbind : m.bind input subagentKey with e | ⟨child, bindings, childOwners⟩ <;> rw [hbind] at h <;> dsimp only at h
    · cases h
    · obtain ⟨rfl, rfl⟩ := Prod.mk.inj (Except.ok.inj h)
      exact ⟨child, bindings, childOwners, rfl, rfl, rfl, rfl⟩

theorem admit_ok
    (hfresh : Assoc.lookup (scopedKey input.parentSessionId ("observation:" ++ input.observation.observationId)) m.observations = none)
    (hvalidate : m.validate input = .ok ()) {child : Option String} {bindings : List (String × Binding)}
    (hbind : m.bind input (m.resolve input (correlationKeys input.observation)) = .ok (child, bindings, childOwners)) :
    ∃ admitted m', m.admitInput input = .ok (admitted, m') := by
  unfold AdmissionMachine.admitInput
  dsimp only
  rw [hfresh, hvalidate]
  dsimp only
  rw [hbind]
  exact ⟨_, _, rfl⟩

theorem Index.childSessionId_ne (h : Index entries m) (hchild : (m.bindingOf key).childSessionId = some session) :
    session ≠ "" := by
  obtain ⟨e, he, -, hsession⟩ := (h.childSessionId key session).mp hchild
  rintro rfl
  exact h.named e he hsession

theorem Index.present_child (h : Index entries m) (key : String) :
    present (m.bindingOf key).childSessionId = (m.bindingOf key).childSessionId := by
  rcases hchild : (m.bindingOf key).childSessionId with _ | session
  · rfl
  · exact present_eq_some_iff.mpr ⟨rfl, h.childSessionId_ne hchild⟩

theorem Index.child_eq (h : Index entries m) (key : String) :
    present ((boundChild (m.bindingOf key) input).or input.observation.childSessionId) = boundChild (m.bindingOf key) input := by
  rcases hbound : boundChild (m.bindingOf key) input with _ | session
  · unfold boundChild at hbound
    rcases hchild : (m.bindingOf key).childSessionId with _ | session <;> rw [hchild] at hbound
    · rcases hown : input.observation.childSessionId with _ | session <;> rw [hown] at hbound
      · rfl
      · exact hbound
    · have hpresent := h.present_child key
      rw [hchild] at hpresent
      exact absurd (hpresent.symm.trans hbound) (by simp)
  · exact present_eq_some_iff.mpr ⟨rfl, (present_eq_some_iff.mp hbound).2⟩

theorem Index.boundChild_of (h : Index entries m) (hchild : (m.bindingOf key).childSessionId = some session) :
    boundChild (m.bindingOf key) input = some session := by
  unfold boundChild
  rw [hchild]
  exact present_eq_some_iff.mpr ⟨rfl, h.childSessionId_ne hchild⟩

theorem Index.owner_of (h : Index entries m) (he : e ∈ entries) (howns : e.Owns key) :
    ∃ owner, Assoc.lookup key m.childOwners = some owner ∧ (e.key ≠ "" → owner = e.key) := by
  by_cases hempty : e.key = ""
  · by_cases hall : ∀ other ∈ entries, other.Owns key → other.key = ""
    · exact ⟨"", (h.childOwners key "").mpr ⟨⟨e, he, howns, hempty⟩, fun _ => hall⟩, fun hne => absurd hempty hne⟩
    · simp only [not_forall] at hall
      obtain ⟨other, hother, hotherowns, hne⟩ := hall
      exact ⟨other.key, (h.childOwners key other.key).mpr ⟨⟨other, hother, hotherowns, rfl⟩, fun hnil => absurd hnil hne⟩,
        fun hne => absurd hempty hne⟩
  · exact ⟨e.key, (h.childOwners key e.key).mpr ⟨⟨e, he, howns, rfl⟩, fun hnil => absurd hnil hempty⟩, fun _ => rfl⟩

theorem exists_snoc {p : Entry → Prop} : (∃ other ∈ entries ++ [e], p other) ↔ (∃ other ∈ entries, p other) ∨ p e := by
  simp only [List.mem_append, List.mem_singleton, or_and_right, exists_or, exists_eq_left]

theorem forall_snoc {p : Entry → Prop} : (∀ other ∈ entries ++ [e], p other) ↔ (∀ other ∈ entries, p other) ∧ p e := by
  simp only [List.mem_append, List.mem_singleton, or_imp, forall_and, forall_eq]

/-- A binding's value goes on holding what was told of it. -/
theorem or_eq_some_iff {old next : Option String} (hcompatible : ∀ value value', old = some value → next = some value' → value = value')
    (value : String) : old.or next = some value ↔ old = some value ∨ next = some value := by
  rcases old with _ | old
  · simp
  · rcases next with _ | next
    · simp
    · obtain rfl := hcompatible old next rfl rfl
      simp

/-- Who owns a child, by the admissions. -/
def Owner (entries : List Entry) (key owner : String) : Prop :=
  (∃ e ∈ entries, e.Owns key ∧ e.key = owner) ∧ (owner = "" → ∀ e ∈ entries, e.Owns key → e.key = "")

/-- One more of the subagent that owns a child leaves its owner. -/
theorem owner_snoc_of {owner : String} (h : e.Owns key → ∃ other ∈ entries, other.Owns key ∧ other.key = e.key) :
    Owner (entries ++ [e]) key owner ↔ Owner entries key owner := by
  unfold Owner
  rw [exists_snoc, forall_snoc]
  constructor
  · rintro ⟨hany | ⟨howns, hkey⟩, hall⟩
    · exact ⟨hany, fun hnil => (hall hnil).1⟩
    · obtain ⟨other, hother, hotherowns, hsame⟩ := h howns
      exact ⟨⟨other, hother, hotherowns, hsame.trans hkey⟩, fun hnil => (hall hnil).1⟩
  · rintro ⟨hany, hall⟩
    refine ⟨.inl hany, fun hnil => ⟨hall hnil, fun howns => ?_⟩⟩
    obtain ⟨other, hother, hotherowns, hsame⟩ := h howns
    exact hsame ▸ hall hnil other hother hotherowns

/-- One that owns a child which none of another name does is its owner. -/
theorem owner_snoc_self {owner : String} (howns : e.Owns key)
    (hothers : ∀ other ∈ entries, other.Owns key → other.key = "" ∨ other.key = e.key) :
    Owner (entries ++ [e]) key owner ↔ e.key = owner := by
  unfold Owner
  rw [exists_snoc, forall_snoc]
  constructor
  · rintro ⟨⟨other, hother, hotherowns, rfl⟩ | ⟨-, hkey⟩, hall⟩
    · rcases hothers other hother hotherowns with hnil | hsame
      · rw [hnil]
        exact (hall hnil).2 howns
      · exact hsame.symm
    · exact hkey
  · rintro rfl
    refine ⟨.inr ⟨howns, rfl⟩, fun hnil => ⟨fun other hother hotherowns => ?_, fun _ => hnil⟩⟩
    rcases hothers other hother hotherowns with hkey | hkey
    · exact hkey
    · exact hkey.trans hnil

theorem Index.owners_admit (h : Index entries m)
    (hcut : ∀ other ∈ entries, other.parent ≠ e.parent → Cut '\x00' other.parent.toList e.parent.toList)
    (hchild : e.child = some session)
    (howners : (childOwners = m.childOwners ∧ (m.bindingOf e.bindingKey).childSessionId = some session) ∨
      (∀ owner, present (Assoc.lookup (scopedKey e.parent ("child:" ++ session)) m.childOwners) = some owner →
      owner = e.key) ∧ childOwners = Assoc.assign (scopedKey e.parent ("child:" ++ session)) e.key m.childOwners)
    (key owner : String) :
    Assoc.lookup key childOwners = some owner ↔ Owner (entries ++ [e]) key owner := by
  have howns : ∀ {key}, e.Owns key → scopedKey e.parent ("child:" ++ session) = key := by
    rintro key ⟨child, hother, hkey⟩
    obtain rfl := Option.some.inj (hchild.symm.trans hother)
    exact hkey
  rcases howners with ⟨rfl, hbound⟩ | ⟨hmine, rfl⟩
  · refine (h.childOwners key owner).trans (owner_snoc_of fun hkey => ?_).symm
    obtain ⟨other, hother, hbinding, hsession⟩ := (h.childSessionId e.bindingKey session).mp hbound
    obtain ⟨hparent, hsame⟩ := scopedKey_inj (hcut other hother) hbinding
    exact ⟨other, hother, ⟨session, hsession, by rw [hparent, howns hkey]⟩, hsame⟩
  · rw [Assoc.lookup_assign]
    split_ifs with hkey
    · subst hkey
      refine Iff.trans ⟨Option.some.inj, congrArg some⟩
        (owner_snoc_self ⟨session, hchild, rfl⟩ fun other hother hotherowns => ?_).symm
      obtain ⟨found, hfound, hname⟩ := h.owner_of hother hotherowns
      by_cases hnil : other.key = ""
      · exact .inl hnil
      · obtain rfl := hname hnil
        exact .inr (hmine _ (present_eq_some_iff.mpr ⟨hfound, hnil⟩))
    · exact (h.childOwners key owner).trans (owner_snoc_of fun hother => absurd (howns hother) hkey).symm

theorem Index.admitInput (h : Index entries m) {admitted : AdmittedSubagentObservation}
    (hcut : ∀ e ∈ entries, e.parent ≠ input.parentSessionId → Cut '\x00' e.parent.toList input.parentSessionId.toList)
    (hfresh : Assoc.lookup (scopedKey input.parentSessionId ("observation:" ++ input.observation.observationId)) m.observations = none)
    (htaken : m.admitInput input = .ok (admitted, m')) : Index (entries ++ [entryOf input admitted]) m' := by
  obtain ⟨child, bindings, childOwners, -, hbind, hadmitted, rfl⟩ := admit_spec hfresh htaken
  obtain ⟨hbinds, hchild, hbindings, howners⟩ := bind_spec hbind
  have hparent : (entryOf input admitted).parent = input.parentSessionId := congrArg (·.parentSessionId) hadmitted
  have hkey : (entryOf input admitted).key = m.resolve input (correlationKeys input.observation) :=
    congrArg (·.event.subagentKey) hadmitted
  have hentrychild : (entryOf input admitted).child = child := by
    have hinput := congrArg (fun a : AdmittedSubagentObservation => a.event.input.childSessionId) hadmitted
    rw [hchild] at hinput ⊢
    exact hinput.trans (h.child_eq _)
  have hobservation : (entryOf input admitted).observationKey =
      scopedKey input.parentSessionId ("observation:" ++ input.observation.observationId) := by
    unfold Entry.observationKey
    rw [hparent]
    exact congrArg (fun a : AdmittedSubagentObservation => scopedKey _ ("observation:" ++ a.observationId)) hadmitted
  have hrevision : (entryOf input admitted).revisionKey =
      scopedKey input.parentSessionId ("revision:" ++ m.resolve input (correlationKeys input.observation)) := by
    unfold Entry.revisionKey
    rw [hparent, hkey]
  have hbinding : (entryOf input admitted).bindingKey =
      scopedKey input.parentSessionId (m.resolve input (correlationKeys input.observation)) := by
    unfold Entry.bindingKey
    rw [hparent, hkey]
  have hbindingOf : ∀ key, AdmissionMachine.bindingOf { m with bindings := bindings } key =
      if (entryOf input admitted).bindingKey = key then
        ⟨(m.bindingOf key).providerId.or input.observation.providerId, (m.bindingOf key).providerKind.or input.observation.providerKind,
          child⟩
      else m.bindingOf key := by
    intro key
    unfold AdmissionMachine.bindingOf
    dsimp only
    rw [hbindings, Assoc.lookup_assign, hbinding]
    split_ifs with hsame
    · rw [← hsame]
      rfl
    · rfl
  refine ⟨fun key found => ?_, fun key value => ?_, fun key => ?_, fun key value => ?_, fun key value => ?_, fun key value => ?_,
    fun key owner => ?_, forall_snoc.mpr ⟨h.named, ?_⟩⟩
  · rw [exists_snoc, Assoc.lookup_assign, ← hobservation]
    split_ifs with hkey
    · subst hkey
      have hnone : ¬ ∃ e ∈ entries, e.observationKey = (entryOf input admitted).observationKey ∧ e.admitted = found := by
        rw [← h.observations, hobservation, hfresh]
        simp
      simp only [hnone, false_or, true_and]
      exact ⟨Option.some.inj, congrArg some⟩
    · simp only [hkey, false_and, or_false]
      exact h.observations key found
  · unfold AdmissionMachine.associated
    rw [mem_associate, exists_snoc]
    refine or_congr (h.associated key value) ?_
    unfold Entry.Correlates
    rw [hparent, hkey, eq_comm (a := value)]
    exact Iff.rfl
  · rw [List.countP_append, List.countP_singleton]
    unfold AdmissionMachine.revisionOf
    dsimp only
    rw [Assoc.lookup_assign, ← hrevision]
    split_ifs with hsame hother hother
    · subst hsame
      exact congrArg (· + 1) (h.revisionOf _)
    · exact absurd (decide_eq_true hsame) hother
    · exact absurd (of_decide_eq_true hother) hsame
    · rw [← h.revisionOf]
      rfl
  · rw [exists_snoc]
    change (AdmissionMachine.bindingOf { m with bindings := bindings } key).providerId = _ ↔ _
    rw [hbindingOf, ← h.providerId]
    split_ifs with hsame
    · subst hsame
      rw [hbinding]
      simp only [true_and]
      exact or_eq_some_iff hbinds.providerId value
    · simp only [hsame, false_and, or_false]
  · rw [exists_snoc]
    change (AdmissionMachine.bindingOf { m with bindings := bindings } key).providerKind = _ ↔ _
    rw [hbindingOf, ← h.providerKind]
    split_ifs with hsame
    · subst hsame
      rw [hbinding]
      simp only [true_and]
      exact or_eq_some_iff hbinds.providerKind value
    · simp only [hsame, false_and, or_false]
  · rw [exists_snoc]
    change (AdmissionMachine.bindingOf { m with bindings := bindings } key).childSessionId = _ ↔ _
    rw [hbindingOf, ← h.childSessionId]
    split_ifs with hsame
    · subst hsame
      rw [hentrychild]
      simp only [true_and]
      refine (or_iff_right_of_imp fun hold => ?_).symm
      rw [hbinding] at hold
      rw [hchild]
      exact h.boundChild_of hold
    · simp only [hsame, false_and, or_false]
  · change _ ↔ Owner (entries ++ [entryOf input admitted]) key owner
    rw [← hparent, ← hkey] at howners
    have hnew : ∀ other ∈ entries, other.parent ≠ (entryOf input admitted).parent →
        Cut '\x00' other.parent.toList (entryOf input admitted).parent.toList := by
      rw [hparent]
      exact hcut
    rcases howners with ⟨rfl, hnone | hold⟩ | ⟨session, hsession, -, hmine, rfl⟩
    · refine (h.childOwners key owner).trans (owner_snoc_of fun howns => ?_).symm
      obtain ⟨session, hsession, -⟩ := howns
      rw [hentrychild, hnone] at hsession
      cases hsession
    · obtain ⟨session, hsession⟩ := Option.ne_none_iff_exists'.mp hold
      rw [h.present_child] at hsession
      have hbound : child = some session := by
        rw [hchild, ← hkey, ← hparent]
        exact h.boundChild_of hsession
      exact h.owners_admit hnew (hentrychild.trans hbound) (.inl ⟨rfl, hsession⟩) key owner
    · exact h.owners_admit hnew (hentrychild.trans hsession) (.inr ⟨hmine, rfl⟩) key owner
  · rw [hentrychild, hchild]
    intro hnil
    exact (present_eq_some_iff.mp hnil).2 rfl

/-- An admission marked as published, where it is the one of the key. -/
def Entry.publish (key : String) (e : Entry) : Entry :=
  if e.observationKey = key then { e with admitted := { e.admitted with published := true } } else e

theorem Entry.publish_spec (key : String) (e : Entry) :
    (e.publish key).observationKey = e.observationKey ∧ (e.publish key).revisionKey = e.revisionKey ∧
      (e.publish key).bindingKey = e.bindingKey ∧ (e.publish key).key = e.key ∧ (e.publish key).child = e.child ∧
      (e.publish key).providerId = e.providerId ∧ (e.publish key).providerKind = e.providerKind ∧
      (e.publish key).Correlates = e.Correlates ∧ (e.publish key).Owns = e.Owns := by
  unfold Entry.publish
  split_ifs <;> exact ⟨rfl, rfl, rfl, rfl, rfl, rfl, rfl, rfl, rfl⟩

theorem Index.publish (h : Index entries m) {parentSessionId observationId : String}
    (hmark : m.markPublished parentSessionId observationId = .ok m') :
    Index (entries.map (Entry.publish (scopedKey parentSessionId ("observation:" ++ observationId)))) m' := by
  unfold AdmissionMachine.markPublished at hmark
  dsimp only at hmark
  set key := scopedKey parentSessionId ("observation:" ++ observationId)
  rcases hlookup : Assoc.lookup key m.observations with _ | admitted <;> rw [hlookup] at hmark <;> dsimp only at hmark
  · cases hmark
  obtain rfl := Except.ok.inj hmark
  have hany : ∀ {p : Entry → Prop}, (∃ e ∈ entries.map (Entry.publish key), p e) ↔ ∃ e ∈ entries, p (e.publish key) := by
    intro p
    simp only [List.mem_map, exists_exists_and_eq_and]
  refine ⟨fun other found => ?_, fun other value => ?_, fun other => ?_, fun other value => ?_, fun other value => ?_,
    fun other value => ?_, fun other owner => ?_, List.forall_mem_map.mpr fun e he => ?_⟩
  · rw [hany, Assoc.lookup_assign]
    simp only [(Entry.publish_spec key _).1]
    split_ifs with hkey
    · subst hkey
      have hsame : ∀ e ∈ entries, e.observationKey = key → e.admitted = admitted := fun e he hekey =>
        Option.some.inj (((h.observations key e.admitted).mpr ⟨e, he, hekey, rfl⟩).symm.trans hlookup)
      constructor
      · rintro hfound
        obtain ⟨e, he, hekey, hadmitted⟩ := (h.observations key admitted).mp hlookup
        refine ⟨e, he, hekey, ?_⟩
        rw [Entry.publish, if_pos hekey, ← Option.some.inj hfound, ← hadmitted]
      · rintro ⟨e, he, hekey, rfl⟩
        rw [Entry.publish, if_pos hekey, hsame e he hekey]
    · rw [h.observations]
      refine exists_congr fun e => and_congr_right fun _ => and_congr_right fun hekey => ?_
      rw [Entry.publish, if_neg fun hsame => hkey (hsame.symm.trans hekey)]
  · rw [hany]
    simp only [(Entry.publish_spec key _).2.2.2.2.2.2.2.1, (Entry.publish_spec key _).2.2.2.1]
    exact h.associated other value
  · rw [List.countP_map]
    refine (h.revisionOf other).trans (List.countP_congr fun e _ => ?_)
    rw [Function.comp_apply, (Entry.publish_spec key e).2.1]
  · rw [hany]
    simp only [(Entry.publish_spec key _).2.2.1, (Entry.publish_spec key _).2.2.2.2.2.1]
    exact h.providerId other value
  · rw [hany]
    simp only [(Entry.publish_spec key _).2.2.1, (Entry.publish_spec key _).2.2.2.2.2.2.1]
    exact h.providerKind other value
  · rw [hany]
    simp only [(Entry.publish_spec key _).2.2.1, (Entry.publish_spec key _).2.2.2.2.1]
    exact h.childSessionId other value
  · rw [hany, List.forall_mem_map]
    simp only [(Entry.publish_spec key _).2.2.2.2.2.2.2.2, (Entry.publish_spec key _).2.2.2.1]
    exact h.childOwners other owner
  · rw [(Entry.publish_spec key e).2.2.2.2.1]
    exact h.named e he

end

end Claxedo.Subagents
