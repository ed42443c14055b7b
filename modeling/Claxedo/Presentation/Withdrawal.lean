import Claxedo.Presentation.Members

/-! What a retraction publishes: the parts its responses wrote, and the open calls started under them. -/

namespace Claxedo.Presentation

open Claxedo.Lib

theorem toolParts_append (a b : List Payload) : toolParts (a ++ b) = toolParts a ++ toolParts b := by
  simp [toolParts, List.filterMap_append]

theorem retractions_append (a b : List Payload) : retractions (a ++ b) = retractions a ++ retractions b := by
  simp [retractions, List.filterMap_append]

/-- The entries a sweep closes. -/
def closes (withdrawn : Option Withdrawn) (entry : String × ToolStatus) : Bool :=
  isOpen entry.2 && withdrawn.all fun withdrawn => entry.1 ∈ withdrawn.tools

/-- What a sweep of `entries` publishes. -/
structure Closes (error : String) (withdrawn : Option Withdrawn) (entries : List (String × ToolStatus)) (ctx : State)
    (answered : State × List Payload) : Prop where
  responses : answered.1.responses = ctx.responses
  reasoning : answered.1.openReasoning = ctx.openReasoning
  written : written answered.2 = []
  retracted : retractions answered.2 = []
  calls : (toolParts answered.2).map ToolPart.callID = (entries.filter (closes withdrawn)).map Prod.fst
  marked : ∀ part ∈ toolParts answered.2,
    part.state.shown = .error error ∧ part.retracted = withdrawn.map Withdrawn.reason

theorem closes_eq (withdrawn : Option Withdrawn) (c : String) (status : ToolStatus) :
    (!isOpen status || withdrawn.any (fun withdrawn => c ∉ withdrawn.tools)) = !closes withdrawn (c, status) := by
  cases withdrawn <;> cases hopen : isOpen status <;> simp [closes, hopen]

theorem terminalizeTool_spec (error : String) (now : ℕ) (withdrawn : Option Withdrawn) (ctx : State) (c : String) :
    (terminalizeTool error now withdrawn ctx c).1.responses = ctx.responses ∧
    (terminalizeTool error now withdrawn ctx c).1.openReasoning = ctx.openReasoning ∧
    ∃ part, (terminalizeTool error now withdrawn ctx c).2 = .partUpdated (.tool part) now ∧ part.callID = c ∧
      part.state.shown = .error error ∧ part.retracted = withdrawn.map Withdrawn.reason := by
  unfold terminalizeTool
  extract_lets tool metadata input hydrated closed
  obtain ⟨hresponses, hreasoning⟩ := (mints_toolEvent closed
    { toolCallId := c, tool, stateInput := input, status := .error, metadata, now, error := some error
      retracted := withdrawn.map Withdrawn.reason }).responses
  exact ⟨hresponses, hreasoning, _, rfl, rfl, rfl, rfl⟩

theorem terminalizeEach_spec (error : String) (now : ℕ) (withdrawn : Option Withdrawn) (entries : List (String × ToolStatus)) :
    ∀ ctx : State, Closes error withdrawn entries ctx (terminalizeEach error now withdrawn ctx entries) := by
  induction entries with
  | nil => exact fun ctx => ⟨rfl, rfl, rfl, rfl, rfl, fun part h => absurd h List.not_mem_nil⟩
  | cons entry rest ih =>
    obtain ⟨c, status⟩ := entry
    intro ctx
    unfold terminalizeEach
    rw [closes_eq]
    rcases hcloses : closes withdrawn (c, status) with _ | _
    · rw [Bool.not_false, if_pos rfl]
      have h := ih ctx
      have hskipped : ¬ closes withdrawn (c, status) = true := by rw [hcloses]; exact Bool.false_ne_true
      exact ⟨h.responses, h.reasoning, h.written, h.retracted, by rw [h.calls, List.filter_cons_of_neg hskipped], h.marked⟩
    · rw [Bool.not_true, if_neg Bool.false_ne_true]
      obtain ⟨hresponses, hreasoning, part, hpart, hc, hmarked⟩ := terminalizeTool_spec error now withdrawn ctx c
      have h := ih (terminalizeTool error now withdrawn ctx c).1
      have hcons (events : List Payload) : toolParts (.partUpdated (.tool part) now :: events) = part :: toolParts events := rfl
      refine ⟨h.responses.trans hresponses, h.reasoning.trans hreasoning, ?_, ?_, ?_, ?_⟩ <;> dsimp only <;> rw [hpart]
      · exact h.written
      · exact h.retracted
      · rw [hcons, List.map_cons, h.calls, hc, List.filter_cons_of_pos hcloses, List.map_cons]
      · rw [hcons]
        exact List.forall_mem_cons.mpr ⟨hmarked, h.marked⟩

theorem mem_closes {ctx : State} (hnodup : (ctx.toolStatusByCallId.map Prod.fst).Nodup) (withdrawn : Withdrawn) (c : String) :
    c ∈ (ctx.toolStatusByCallId.filter (closes (some withdrawn))).map Prod.fst ↔
      c ∈ withdrawn.tools ∧ (recordOf ctx c).isOpen = true := by
  rw [List.mem_map]
  constructor
  · rintro ⟨entry, hentry, rfl⟩
    obtain ⟨hmem, hcloses⟩ := List.mem_filter.mp hentry
    simp only [closes, Option.all_some, Bool.and_eq_true, decide_eq_true_eq] at hcloses
    exact ⟨hcloses.2, isOpen_of_statusOf (statusOf_entry hnodup hmem) hcloses.1⟩
  · rintro ⟨hc, hopen⟩
    by_cases hmem : c ∈ ctx.toolStatusByCallId.map Prod.fst
    · obtain ⟨entry, hentry, rfl⟩ := List.mem_map.mp hmem
      refine ⟨entry, List.mem_filter.mpr ⟨hentry, ?_⟩, rfl⟩
      rcases hstatus : isOpen entry.2 with _ | _
      · rw [not_isOpen_of_statusOf (statusOf_entry hnodup hentry) hstatus] at hopen
        cases hopen
      · simp [closes, hstatus, hc]
    · have hnone : (recordOf ctx c).status = none := statusOf_of_not_mem hmem
      simp [CallRecord.isOpen, hnone] at hopen

/-! ### A retraction -/

section
variable {s : State} {ids : List String} {reason : String}

theorem flatMap_taken {β : Type*} (g : ResponseMembers → List β) (ids : List String) :
    (ids.filterMap fun id => Assoc.lookup id s.responses.members).flatMap g =
      ids.flatMap fun id => ((Assoc.lookup id s.responses.members).map g).getD [] := by
  induction ids with
  | nil => rfl
  | cons id ids ih =>
    rw [List.filterMap_cons, List.flatMap_cons, ← ih]
    rcases Assoc.lookup id s.responses.members with _ | members
    · rfl
    · exact List.flatMap_cons

theorem map_taken (ids : List String) : ((firsts ids).filterMap fun id => Assoc.lookup id s.responses.members).flatMap
      (fun members => members.parts.map PartRef.partID) = (firsts ids).flatMap (partsOf s) ∧
    ((firsts ids).filterMap fun id => Assoc.lookup id s.responses.members).flatMap ResponseMembers.toolCallIds =
      (firsts ids).flatMap (callsOf s) :=
  ⟨flatMap_taken _ _, flatMap_taken _ _⟩

/-- What a retraction of `ids` makes of the state, and publishes. -/
structure Retracts (s : State) (ids : List String) (reason : String) (answered : State × List Payload) : Prop where
  current : answered.1.responses.current = s.responses.current.filter fun current => current ∉ ids
  parts : ∀ r, partsOf answered.1 r = if r ∈ ids then [] else partsOf s r
  calls : ∀ r, callsOf answered.1 r = if r ∈ ids then [] else callsOf s r
  reasoning : answered.1.openReasoning = s.openReasoning
  kept : ∀ r, r ∉ ids → (Assoc.lookup r s.responses.members).isSome = true →
    (Assoc.lookup r answered.1.responses.members).isSome = true
  keyed : ∀ known : Finset String, Keyed known s.responses.members → Keyed known answered.1.responses.members
  written : written answered.2 = []
  named : ∃ parts : List PartRef, retractions answered.2 = (if parts = [] then [] else [(reason, parts)]) ∧
    parts.map PartRef.partID = (firsts ids).flatMap (partsOf s)
  once : ((toolParts answered.2).map ToolPart.callID).Nodup
  tools : ∀ c, c ∈ (toolParts answered.2).map ToolPart.callID ↔
    (∃ r ∈ ids, c ∈ callsOf s r) ∧ (recordOf s c).isOpen = true
  marked : ∀ part ∈ toolParts answered.2, part.state.shown = .error WITHDRAWN_TOOL ∧ part.retracted = some reason

theorem retracts_retractResponses (now : ℕ) (hnodup : (s.toolStatusByCallId.map Prod.fst).Nodup) :
    Retracts s ids reason (retractResponses s ids reason now) := by
  obtain ⟨hcurrent, hlookup, htaken, hkeyed⟩ := takeOut_spec ids s.responses
  have hparts (r : String) (s' : State) (h : s'.responses = (takeOut s.responses ids).1) :
      partsOf s' r = if r ∈ ids then [] else partsOf s r := by
    simp only [partsOf, h, hlookup]
    split_ifs <;> rfl
  have hcalls (r : String) (s' : State) (h : s'.responses = (takeOut s.responses ids).1) :
      callsOf s' r = if r ∈ ids then [] else callsOf s r := by
    simp only [callsOf, h, hlookup]
    split_ifs <;> rfl
  have hkept (r : String) (hr : r ∉ ids) (h : (Assoc.lookup r s.responses.members).isSome = true) :
      (Assoc.lookup r (takeOut s.responses ids).1.members).isSome = true := by
    rw [hlookup, if_neg hr]
    exact h
  have hnamed : ((takeOut s.responses ids).2.flatMap ResponseMembers.parts).map PartRef.partID =
      (firsts ids).flatMap (partsOf s) := by
    rw [htaken, List.map_flatMap, (map_taken ids).1]
  have htools : (takeOut s.responses ids).2.flatMap ResponseMembers.toolCallIds = (firsts ids).flatMap (callsOf s) := by
    rw [htaken, (map_taken ids).2]
  have hmem (c : String) : c ∈ (firsts ids).flatMap (callsOf s) ↔ ∃ r ∈ ids, c ∈ callsOf s r := by
    rw [List.mem_flatMap]
    exact exists_congr fun r => and_congr_left fun _ => mem_firsts
  unfold retractResponses
  extract_lets taken withdrawn taken' again parts marked tools
  split_ifs with hempty
  · have hnone : (takeOut s.responses ids).2 = [] := List.isEmpty_iff.mp hempty
    rw [hnone] at hnamed htools
    refine ⟨hcurrent, fun r => hparts r taken' rfl, fun r => hcalls r taken' rfl, rfl, hkept, hkeyed, rfl, ⟨[], rfl, hnamed⟩,
      List.nodup_nil, fun c => ?_, fun part h => absurd h List.not_mem_nil⟩
    rw [← hmem, ← htools]
    simp [toolParts]
  · have hcloses : Closes WITHDRAWN_TOOL (some ⟨withdrawn.flatMap ResponseMembers.toolCallIds, reason⟩)
        again.toolStatusByCallId again tools := terminalizeEach_spec WITHDRAWN_TOOL now _ _ again
    have hmarked : Presentation.written marked = [] ∧ toolParts marked = [] ∧
        retractions marked = if parts = [] then [] else [(reason, parts)] := by
      rcases hparts : parts with _ | ⟨part, rest⟩ <;> simp [marked, hparts] <;> exact ⟨rfl, rfl, rfl⟩
    have hswept : toolParts (marked ++ tools.2) = toolParts tools.2 := by
      rw [toolParts_append, hmarked.2.1, List.nil_append]
    refine ⟨?_, fun r => hparts r _ hcloses.responses, fun r => hcalls r _ hcloses.responses, hcloses.reasoning, ?_, ?_, ?_,
      ⟨parts, ?_, hnamed⟩, ?_, fun c => ?_, ?_⟩
    · exact (congrArg ResponseProjectionState.current hcloses.responses).trans hcurrent
    · intro r hr h
      exact (congrArg (fun responses => (Assoc.lookup r responses.members).isSome) hcloses.responses).trans (hkept r hr h)
    · intro known h
      have hsame : tools.1.responses.members = (takeOut s.responses ids).1.members :=
        congrArg ResponseProjectionState.members hcloses.responses
      dsimp only
      rw [hsame]
      exact hkeyed known h
    · rw [written_append, hmarked.1, hcloses.written]
      rfl
    · rw [retractions_append, hmarked.2.2, hcloses.retracted, List.append_nil]
    · rw [hswept, hcloses.calls]
      exact hnodup.sublist (List.filter_sublist.map _)
    · rw [hswept, hcloses.calls, @mem_closes again hnodup, htools, hmem]
      rfl
    · rw [hswept]
      exact hcloses.marked

theorem preface_retraction (s : State) (ids : List String) (reason : String) (now : ℕ) :
    (preface s (.responseRetracted ids reason) now).2 = [] := by
  unfold preface resumeAfterRetry
  cases s.notices.retrying <;> rfl

theorem retracts_projectEvent (options : Options) (now : ℕ) (hnodup : (s.toolStatusByCallId.map Prod.fst).Nodup) :
    Retracts s ids reason (projectEvent options s (.responseRetracted ids reason) now) := by
  obtain ⟨⟨notices, splits, hstate, -⟩, -⟩ := preface_spec s (.responseRetracted ids reason) now
  have h : Retracts (aside s s.proposedPlanText notices s.openReasoning splits) ids reason
      (retractResponses (aside s s.proposedPlanText notices s.openReasoning splits) ids reason now) :=
    retracts_retractResponses now hnodup
  have hentered : (preface s (.responseRetracted ids reason) now).1 =
      aside s s.proposedPlanText notices s.openReasoning splits := hstate
  have hprojected : projectEvent options s (.responseRetracted ids reason) now =
      retractResponses (aside s s.proposedPlanText notices s.openReasoning splits) ids reason now := by
    rw [projectEvent_eq, hentered, preface_retraction]
    rfl
  rw [hprojected]
  exact ⟨h.current, h.parts, h.calls, h.reasoning, h.kept, h.keyed, h.written, h.named, h.once, h.tools, h.marked⟩

theorem retracts_ingest (options : Options) (now : ℕ) (hnodup : (s.toolStatusByCallId.map Prod.fst).Nodup)
    (hkept : ∀ r, s.responses.current = some r → (Assoc.lookup r s.responses.members).isSome = true) :
    Retracts s ids reason (ingest options s (.responseRetracted ids reason) now) := by
  have h := @retracts_projectEvent _ ids reason options now hnodup
  set projected := projectEvent options s (.responseRetracted ids reason) now with hprojected
  have hnone : startedCall (.responseRetracted ids reason) = [] := rfl
  obtain ⟨hparts, hcalls, hcurrent, hopen, hmembers, hkeyed⟩ :=
    @record_spec projected.1 (.responseRetracted ids reason) projected.2 (fun r hr => by
      rw [h.current, Option.filter_eq_some_iff] at hr
      exact h.kept r (of_decide_eq_true hr.2) (hkept r hr.1))
  obtain ⟨hresponses, hreasoning, row, hrow, -, htools, hretracted, hwritten⟩ := run_spec options now
    (recordResponseMembers projected.1 (.responseRetracted ids reason) projected.2) projected.2
  have hingest : ingest options s (.responseRetracted ids reason) now = run options now
      (recordResponseMembers projected.1 (.responseRetracted ids reason) projected.2, projected.2) := rfl
  have hshown : toolParts (row ++ projected.2) = toolParts projected.2 := by rw [toolParts_append, htools, List.nil_append]
  rw [hingest]
  refine ⟨?_, fun r => ?_, fun r => ?_, ?_, fun r hr hsome => ?_, fun known hknown => ?_, ?_, ?_, ?_, fun c => ?_, ?_⟩
  · rw [hresponses, hcurrent, h.current]
  · rw [partsOf_congr hresponses, hparts, h.written, List.foldl_nil, ite_self, h.parts]
  · rw [callsOf_congr hresponses, hcalls, hnone, List.foldl_nil, ite_self, h.calls]
  · rw [hreasoning, hopen, h.reasoning]
  · rw [hresponses]
    exact hmembers r (h.kept r hr hsome)
  · rw [hresponses]
    exact hkeyed known (h.keyed known hknown)
  · rw [hrow, written_append, hwritten, h.written]
    rfl
  · rw [hrow, retractions_append, hretracted, List.nil_append]
    exact h.named
  · rw [hrow, hshown]
    exact h.once
  · rw [hrow, hshown]
    exact h.tools c
  · rw [hrow, hshown]
    exact h.marked

end

end Claxedo.Presentation
