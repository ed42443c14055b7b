import Claxedo.Transcript.Alone

/-! `groupParts` is a partition of the parts, in their order; its groups' keys are distinct where those of the parts that stand alone
are. -/

namespace Claxedo.Transcript

variable (toLowerCase : String → String)

/-- A block of parts and the group made of it. -/
inductive Grouped : List GroupablePart → PartGroup → Prop where
  | part (item : GroupablePart) : Grouped [item] (partGroup toLowerCase item)
  | context (first : GroupablePart) (rest : List GroupablePart) :
    Grouped (first :: rest) (.context ("context:" ++ first.part.id) ((first :: rest).map partRef))
  | work (first : GroupablePart) (rest : List GroupablePart) (two : 2 ≤ ((first :: rest).filter fun item => item.part.isTool).length) :
    Grouped (first :: rest)
      (.work ("work:" ++ first.part.id) (workGroupTool toLowerCase (first :: rest)) ((first :: rest).map partRef))
  | agents (first : GroupablePart) (rest : List GroupablePart) :
    Grouped (first :: rest) (.agents ("agents:" ++ first.part.id) ((first :: rest).map partRef))

/-- Groups of blocks that make up the parts. -/
def Blocks (parts : List GroupablePart) (groups : List PartGroup) : Prop :=
  ∃ blocks : List (List GroupablePart), blocks.flatten = parts ∧ List.Forall₂ (Grouped toLowerCase) blocks groups

section
variable {toLowerCase} {parts parts' rest : List GroupablePart} {groups groups' : List PartGroup} {pass : Pass} {item : GroupablePart}

theorem Blocks.append (h : Blocks toLowerCase parts groups) (h' : Blocks toLowerCase parts' groups') :
    Blocks toLowerCase (parts ++ parts') (groups ++ groups') := by
  obtain ⟨blocks, rfl, hblocks⟩ := h
  obtain ⟨blocks', rfl, hblocks'⟩ := h'
  exact ⟨blocks ++ blocks', List.flatten_append, List.rel_append hblocks hblocks'⟩

theorem blocks_nil : Blocks toLowerCase [] [] := ⟨[], rfl, .nil⟩

theorem blocks_one {block : List GroupablePart} {group : PartGroup} (h : Grouped toLowerCase block group) :
    Blocks toLowerCase block [group] := ⟨[block], List.flatten_singleton, .cons h .nil⟩

theorem blocks_parts (parts : List GroupablePart) : Blocks toLowerCase parts (parts.map (partGroup toLowerCase)) := by
  induction parts with
  | nil => exact blocks_nil
  | cons item parts ih => exact (blocks_one (.part item)).append ih

/-- What the pass holds: the groups of what is done, a run of one kind, and thoughts. -/
structure Pass.Shaped (toLowerCase : String → String) (pass : Pass) : Prop where
  run : match pass.opened with
    | .context => RunOf toLowerCase .context pass.run
    | .work => RunOf toLowerCase .work pass.run
    | .task => pass.run ≠ [] ∧ ∀ item ∈ pass.run, kind toLowerCase item = .task
    | .single => pass.run = []
    | .thought => False
  thoughts : ∀ item ∈ pass.thoughts, kind toLowerCase item = .thought

theorem Pass.Shaped.blocks (h : pass.Shaped toLowerCase) : Blocks toLowerCase pass.run (close toLowerCase pass.opened pass.run) := by
  have hrun := h.run
  rcases pass with ⟨result, opened, run, thoughts⟩
  cases opened with
  | context =>
    rcases run with _ | ⟨first, run⟩
    · exact absurd rfl hrun.ne_nil
    · exact blocks_one (.context first run)
  | work =>
    rcases run with _ | ⟨first, run⟩
    · exact absurd rfl hrun.ne_nil
    · unfold close
      dsimp only
      split_ifs with two
      · exact blocks_one (.work first run two)
      · exact blocks_parts _
  | task =>
    rcases run with _ | ⟨first, run⟩
    · exact absurd rfl hrun.1
    · exact blocks_one (.agents first run)
  | single =>
    obtain rfl : run = [] := hrun
    exact blocks_nil
  | thought => exact hrun.elim

theorem Pass.Shaped.join (h : pass.Shaped toLowerCase) {k : Kind} (hk : k = .context ∨ k = .work) (hitem : kind toLowerCase item = k) :
    (pass.join toLowerCase k item).Shaped toLowerCase := by
  refine ⟨?_, by rw [Pass.join_thoughts]; exact fun _ h => by cases h⟩
  have hrun : RunOf toLowerCase k (pass.join toLowerCase k item).run := by
    unfold Pass.join
    split_ifs with ho
    · have hrun := h.run
      have hrun : RunOf toLowerCase k pass.run := by
        rw [ho] at hrun
        rcases hk with rfl | rfl <;> exact hrun
      refine ⟨fun other hother => ?_, _, item, rfl, hitem⟩
      rcases List.mem_append.mp hother with hother | hother
      · rcases List.mem_append.mp hother with hother | hother
        · exact hrun.kinds other hother
        · exact .inl (h.thoughts other hother)
      · rw [List.mem_singleton.mp hother]
        exact .inr hitem
    · refine ⟨fun other hother => ?_, _, item, rfl, hitem⟩
      rcases List.mem_append.mp hother with hother | hother
      · exact .inl (h.thoughts other hother)
      · rw [List.mem_singleton.mp hother]
        exact .inr hitem
  have hopened : (pass.join toLowerCase k item).opened = k := by
    unfold Pass.join
    split_ifs with ho
    · exact ho
    · rfl
  rw [hopened]
  rcases hk with rfl | rfl <;> exact hrun

theorem Pass.Shaped.step (h : pass.Shaped toLowerCase) (item : GroupablePart) : (pass.step toLowerCase item).Shaped toLowerCase := by
  unfold Pass.step
  cases hkind : kind toLowerCase item with
  | thought =>
    refine ⟨h.run, fun other hother => ?_⟩
    rcases List.mem_append.mp hother with hother | hother
    · exact h.thoughts other hother
    · rw [List.mem_singleton.mp hother]
      exact hkind
  | context => exact h.join (.inl rfl) hkind
  | work => exact h.join (.inr rfl) hkind
  | task =>
    dsimp only
    split_ifs with ho
    · refine ⟨?_, h.thoughts⟩
      have hrun := h.run
      rw [ho.1] at hrun ⊢
      exact ⟨by simp, fun other hother => (List.mem_append.mp hother).elim (hrun.2 other) fun hother => by
        rw [List.mem_singleton.mp hother]
        exact hkind⟩
    · exact ⟨⟨by simp, fun other hother => by rw [List.mem_singleton.mp hother]; exact hkind⟩, fun _ h => by cases h⟩
  | single => exact ⟨rfl, fun _ h => by cases h⟩

/-- How far the pass has come: the groups made are of blocks of what is done, and the parts among them are those that stand alone. -/
structure Pass.Made (toLowerCase : String → String) (parts rest : List GroupablePart) (pass : Pass) : Prop where
  shaped : pass.Shaped toLowerCase
  blocks : ∃ done, parts = done ++ pass.run ++ pass.thoughts ++ rest ∧ Blocks toLowerCase done pass.result
  lone : ∃ lone, alone toLowerCase none parts = lone ++ alone toLowerCase none (pass.run ++ pass.thoughts ++ rest) ∧
    pass.result.filter PartGroup.isPart = lone.map (partGroup toLowerCase)

theorem filter_parts (parts : List GroupablePart) :
    (parts.map (partGroup toLowerCase)).filter PartGroup.isPart = parts.map (partGroup toLowerCase) := by
  rw [List.filter_eq_self]
  intro group hgroup
  obtain ⟨item, _, rfl⟩ := List.mem_map.mp hgroup
  rfl

/-- Where the open run ends, the parts of it that stand alone are those it is grouped as. -/
theorem Pass.Shaped.closes (h : pass.Shaped toLowerCase) (hnext : pass.opened = .work →
    (nextKinds toLowerCase rest).head? ≠ some .work) :
    ∃ lone, alone toLowerCase none (pass.run ++ rest) = lone ++ alone toLowerCase none rest ∧
      (close toLowerCase pass.opened pass.run).filter PartGroup.isPart = lone.map (partGroup toLowerCase) := by
  have hrun := h.run
  rcases pass with ⟨result, opened, run, thoughts⟩
  cases opened with
  | context =>
    refine ⟨[], ?_, ?_⟩
    · exact (alone_skip hrun (.inl rfl)).trans (alone_congr (by simp) rest)
    · rcases run with _ | ⟨first, run⟩ <;> rfl
  | work =>
    have halone := alone_work hrun (hnext rfl)
    refine ⟨_, halone, ?_⟩
    dsimp only
    rcases run with _ | ⟨first, run⟩
    · exact absurd rfl hrun.ne_nil
    · unfold close
      dsimp only
      split_ifs with two
      · rfl
      · exact filter_parts _
  | task =>
    refine ⟨[], ?_, ?_⟩
    · exact (alone_tasks hrun.2 hrun.1).trans (alone_congr (by simp) rest)
    · rcases run with _ | ⟨first, run⟩ <;> rfl
  | single =>
    obtain rfl : run = [] := hrun
    exact ⟨[], rfl, rfl⟩
  | thought => exact hrun.elim

theorem Pass.Made.closed (h : pass.Made toLowerCase parts rest)
    (hnext : pass.opened = .work → (nextKinds toLowerCase (pass.thoughts ++ rest)).head? ≠ some .work) :
    (∃ done, parts = done ++ pass.thoughts ++ rest ∧ Blocks toLowerCase done (pass.closed toLowerCase)) ∧
      ∃ lone, alone toLowerCase none parts = lone ++ alone toLowerCase none (pass.thoughts ++ rest) ∧
        (pass.closed toLowerCase).filter PartGroup.isPart = lone.map (partGroup toLowerCase) := by
  obtain ⟨done, hparts, hblocks⟩ := h.blocks
  obtain ⟨lone, halone, hresult⟩ := h.lone
  obtain ⟨lone', halone', hclose⟩ := h.shaped.closes hnext
  refine ⟨⟨done ++ pass.run, by rw [hparts], hblocks.append h.shaped.blocks⟩, lone ++ lone', ?_, ?_⟩
  · rw [halone, List.append_assoc pass.run, halone', List.append_assoc]
  · unfold Pass.closed
    rw [List.filter_append, hresult, hclose, List.map_append]

/-- Where a part joins no run, the thoughts before it stand alone. -/
theorem Pass.Made.finished (h : pass.Made toLowerCase parts rest)
    (hnext : ∀ next ∈ (nextKinds toLowerCase rest).head?, next = .task ∨ next = .single) :
    (∃ done, parts = done ++ rest ∧ Blocks toLowerCase done (pass.finish toLowerCase)) ∧
      ∃ lone, alone toLowerCase none parts = lone ++ alone toLowerCase none rest ∧
        (pass.finish toLowerCase).filter PartGroup.isPart = lone.map (partGroup toLowerCase) := by
  have hwork : (nextKinds toLowerCase (pass.thoughts ++ rest)).head? ≠ some .work := by
    rw [nextKinds_thoughts h.shaped.thoughts]
    intro hwork
    rcases hnext _ hwork with h | h <;> cases h
  obtain ⟨⟨done, hparts, hblocks⟩, lone, halone, hclosed⟩ := h.closed fun _ => hwork
  refine ⟨⟨done ++ pass.thoughts, hparts, hblocks.append (blocks_parts _)⟩, lone ++ pass.thoughts, ?_, ?_⟩
  · rw [halone, alone_thoughts h.shaped.thoughts hnext, List.append_assoc]
  · unfold Pass.finish
    rw [List.filter_append, hclosed, filter_parts, List.map_append]

theorem Pass.Made.join (h : pass.Made toLowerCase parts (item :: rest)) {k : Kind} (hk : k = .context ∨ k = .work)
    (hitem : kind toLowerCase item = k) : (pass.join toLowerCase k item).Made toLowerCase parts rest := by
  refine ⟨h.shaped.join hk hitem, ?_, ?_⟩
  all_goals
    unfold Pass.join
    split_ifs with ho
  · obtain ⟨done, hparts, hblocks⟩ := h.blocks
    exact ⟨done, by simp [hparts], hblocks⟩
  · obtain ⟨⟨done, hparts, hblocks⟩, _⟩ := h.closed fun hw => by
      rw [nextKinds_thoughts h.shaped.thoughts, nextKinds_cons (by rw [hitem]; rcases hk with rfl | rfl <;> decide), hitem]
      exact fun heq => ho (hw.trans (Option.some.inj heq).symm)
    exact ⟨done, by simp [hparts], hblocks⟩
  · obtain ⟨lone, halone, hresult⟩ := h.lone
    exact ⟨lone, by simpa using halone, hresult⟩
  · obtain ⟨_, lone, halone, hclosed⟩ := h.closed fun hw => by
      rw [nextKinds_thoughts h.shaped.thoughts, nextKinds_cons (by rw [hitem]; rcases hk with rfl | rfl <;> decide), hitem]
      exact fun heq => ho (hw.trans (Option.some.inj heq).symm)
    exact ⟨lone, by simpa using halone, hclosed⟩

theorem Pass.Made.step (h : pass.Made toLowerCase parts (item :: rest)) : (pass.step toLowerCase item).Made toLowerCase parts rest := by
  cases hkind : kind toLowerCase item with
  | thought =>
    obtain ⟨done, hparts, hblocks⟩ := h.blocks
    obtain ⟨lone, halone, hresult⟩ := h.lone
    refine ⟨h.shaped.step item, ?_, ?_⟩
    · simp only [Pass.step, hkind]
      exact ⟨done, by simp [hparts], hblocks⟩
    · simp only [Pass.step, hkind]
      exact ⟨lone, by simpa using halone, hresult⟩
  | context =>
    have hstep : pass.step toLowerCase item = pass.join toLowerCase .context item := by simp [Pass.step, hkind]
    rw [hstep]
    exact h.join (.inl rfl) hkind
  | work =>
    have hstep : pass.step toLowerCase item = pass.join toLowerCase .work item := by simp [Pass.step, hkind]
    rw [hstep]
    exact h.join (.inr rfl) hkind
  | task =>
    refine ⟨h.shaped.step item, ?_, ?_⟩
    all_goals
      simp only [Pass.step, hkind]
      split_ifs with ho
    · obtain ⟨done, hparts, hblocks⟩ := h.blocks
      exact ⟨done, by simp [hparts, ho.2], hblocks⟩
    · obtain ⟨⟨done, hparts, hblocks⟩, _⟩ := h.finished fun next hnext => by
        rw [nextKinds_cons (by rw [hkind]; decide), hkind] at hnext
        exact .inl (Option.some.inj hnext).symm
      exact ⟨done, by simp [hparts], hblocks⟩
    · obtain ⟨lone, halone, hresult⟩ := h.lone
      exact ⟨lone, by simpa [ho.2] using halone, hresult⟩
    · obtain ⟨_, lone, halone, hfinish⟩ := h.finished fun next hnext => by
        rw [nextKinds_cons (by rw [hkind]; decide), hkind] at hnext
        exact .inl (Option.some.inj hnext).symm
      exact ⟨lone, by simpa using halone, hfinish⟩
  | single =>
    have hnext : ∀ next ∈ (nextKinds toLowerCase (item :: rest)).head?, next = .task ∨ next = .single := by
      intro next hnext
      rw [nextKinds_cons (by rw [hkind]; decide), hkind] at hnext
      exact .inr (Option.some.inj hnext).symm
    obtain ⟨⟨done, hparts, hblocks⟩, lone, halone, hfinish⟩ := h.finished hnext
    have hstands : standsAlone toLowerCase none item rest = true := by simp [standsAlone, hkind]
    refine ⟨h.shaped.step item, ?_, ?_⟩
    · simp only [Pass.step, hkind]
      exact ⟨done ++ [item], by simp [hparts], hblocks.append (blocks_one (.part item))⟩
    · simp only [Pass.step, hkind]
      refine ⟨lone ++ [item], ?_, ?_⟩
      · have hrest : alone toLowerCase (some .single) rest = alone toLowerCase none rest := alone_congr (by simp) rest
        rw [halone, alone, hstands, if_pos rfl, if_neg (by rw [hkind]; decide), hkind, hrest]
        simp
      · change (pass.finish toLowerCase ++ [partGroup toLowerCase item]).filter PartGroup.isPart = _
        rw [List.filter_append, hfinish, List.map_append]
        rfl

theorem Pass.Made.foldl (h : pass.Made toLowerCase parts rest) :
    (rest.foldl (Pass.step toLowerCase) pass).Made toLowerCase parts [] := by
  induction rest generalizing pass with
  | nil => exact h
  | cons item rest ih => exact ih h.step

theorem append_inj {tag a b : String} (h : tag ++ a = tag ++ b) : a = b := by
  have h := congrArg String.toList h
  rw [String.toList_append, String.toList_append] at h
  exact String.toList_inj.mp (List.append_cancel_left h)

theorem Grouped.key_cases {block : List GroupablePart} {group : PartGroup} (h : Grouped toLowerCase block group) :
    (group.isPart = true ∧ ∃ item ∈ block, group = partGroup toLowerCase item) ∨
      group.isPart = false ∧ ∃ first ∈ block, ∃ tag ∈ ["context:", "work:", "agents:"], group.key = tag ++ first.part.id := by
  cases h with
  | part item => exact .inl ⟨rfl, item, List.mem_singleton_self item, rfl⟩
  | context first rest => exact .inr ⟨rfl, first, List.mem_cons_self, "context:", by simp, rfl⟩
  | work first rest => exact .inr ⟨rfl, first, List.mem_cons_self, "work:", by simp, rfl⟩
  | agents first rest => exact .inr ⟨rfl, first, List.mem_cons_self, "agents:", by simp, rfl⟩

theorem tag_ne {tag a b : String} (h : tag ∈ ["context:", "work:", "agents:"]) : "part:" ++ a ≠ tag ++ b := by
  intro heq
  have heq := congrArg String.toList heq
  simp only [List.mem_cons, List.not_mem_nil, or_false] at h
  rcases h with rfl | rfl | rfl <;> simp [String.toList_append] at heq

theorem tag_inj {tag tag' a b : String} (h : tag ∈ ["context:", "work:", "agents:"]) (h' : tag' ∈ ["context:", "work:", "agents:"])
    (heq : tag ++ a = tag' ++ b) : a = b := by
  have hlist := congrArg String.toList heq
  simp only [List.mem_cons, List.not_mem_nil, or_false] at h h'
  rcases h with rfl | rfl | rfl <;> rcases h' with rfl | rfl | rfl <;>
    first | exact append_inj heq | simp [String.toList_append] at hlist

/-- Groups of blocks whose ids are distinct can share a key only where both are one part. -/
theorem key_ne {blocks : List (List GroupablePart)} (h : List.Forall₂ (Grouped toLowerCase) blocks groups)
    (hids : (blocks.flatten.map fun item => item.part.id).Nodup) :
    groups.Pairwise fun group group' => ¬ (group.isPart = true ∧ group'.isPart = true) → group.key ≠ group'.key := by
  induction h with
  | nil => exact .nil
  | @cons block group blocks groups hgroup hgroups ih =>
    rw [List.flatten_cons, List.map_append, List.nodup_append] at hids
    obtain ⟨_, hids', hapart⟩ := hids
    refine .cons (fun group' hgroup' hnot heq => ?_) (ih hids')
    obtain ⟨block', hblock', hgrouped⟩ : ∃ block' ∈ blocks, Grouped toLowerCase block' group' := by
      obtain ⟨i, hi, rfl⟩ := List.getElem_of_mem hgroup'
      have hi' : i < blocks.length := hgroups.length_eq ▸ hi
      exact ⟨blocks[i], List.getElem_mem hi', hgroups.get hi' hi⟩
    have hne (item : GroupablePart) (hitem : item ∈ block) (item' : GroupablePart)
        (hitem' : item' ∈ block') : item.part.id ≠ item'.part.id :=
      hapart _ (List.mem_map_of_mem hitem) _ (List.mem_map_of_mem (List.mem_flatten_of_mem hblock' hitem'))
    rcases hgroup.key_cases with ⟨hpart, item, hitem, rfl⟩ | ⟨_, first, hfirst, tag, htag, hkey⟩
    · rcases hgrouped.key_cases with ⟨hpart', _⟩ | ⟨_, first', hfirst', tag', htag', hkey'⟩
      · exact hnot ⟨hpart, hpart'⟩
      · exact tag_ne htag' (heq.trans hkey')
    · rcases hgrouped.key_cases with ⟨_, item', hitem', rfl⟩ | ⟨_, first', hfirst', tag', htag', hkey'⟩
      · exact tag_ne htag (heq.symm.trans hkey)
      · exact hne first hfirst first' hfirst' (tag_inj htag htag' (hkey.symm.trans (heq.trans hkey')))

/-- The keys of the groups are distinct where those of the parts that stand alone are. -/
theorem nodup_keys_iff (hblocks : Blocks toLowerCase parts groups) (hids : (parts.map fun item => item.part.id).Nodup)
    {lone : List GroupablePart} (hlone : groups.filter PartGroup.isPart = lone.map (partGroup toLowerCase)) :
    (groups.map PartGroup.key).Nodup ↔ (lone.map GroupablePart.joined).Nodup := by
  obtain ⟨blocks, rfl, hgrouped⟩ := hblocks
  have hkeys := key_ne hgrouped hids
  have hparts : (groups.map PartGroup.key).Nodup ↔ ((groups.filter PartGroup.isPart).map PartGroup.key).Nodup := by
    unfold List.Nodup
    rw [List.pairwise_map, List.pairwise_map, List.pairwise_filter]
    constructor
    · exact fun h => h.imp fun hne _ _ => hne
    · intro h
      refine (hkeys.and h).imp ?_
      rintro group group' ⟨hother, hboth⟩
      by_cases hp : group.isPart = true ∧ group'.isPart = true
      · exact hboth hp.1 hp.2
      · exact hother hp
  rw [hparts, hlone, List.map_map]
  unfold List.Nodup
  rw [List.pairwise_map, List.pairwise_map]
  refine List.Pairwise.iff fun item item' => not_congr ⟨fun h => append_inj h, fun h => ?_⟩
  exact congrArg (fun name => "part:" ++ name) h

end

/-- A partition of the parts that are not pending questions, into groups of distinct keys where ids are distinct. -/
structure Partitions (input : List GroupablePart) (groups : List PartGroup) : Prop where
  members : groups.flatMap groupMembers = (input.filter fun item => !item.part.isPendingQuestion toLowerCase).map partRef
  run : ∀ group ∈ groups, group.isPart = false →
    ∃ block, block <:+: (input.filter fun item => !item.part.isPendingQuestion toLowerCase) ∧ block ≠ [] ∧
      groupMembers group = block.map partRef
  tools : ∀ key tool refs, .work key tool refs ∈ groups →
    ∃ block, block <:+: (input.filter fun item => !item.part.isPendingQuestion toLowerCase) ∧ refs = block.map partRef ∧
      2 ≤ (block.filter fun item => item.part.isTool).length
  keys : (input.map fun item => item.part.id).Nodup → (groups.map PartGroup.key).Nodup

section
variable {toLowerCase}

theorem Grouped.members {block : List GroupablePart} {group : PartGroup} (h : Grouped toLowerCase block group) :
    groupMembers group = block.map partRef := by
  cases h <;> rfl

theorem Blocks.members {parts : List GroupablePart} {groups : List PartGroup} (h : Blocks toLowerCase parts groups) :
    groups.flatMap groupMembers = parts.map partRef := by
  obtain ⟨blocks, rfl, hgrouped⟩ := h
  induction hgrouped with
  | nil => rfl
  | cons hgroup _ ih => rw [List.flatMap_cons, List.flatten_cons, List.map_append, hgroup.members, ih]

theorem Blocks.block {parts : List GroupablePart} {groups : List PartGroup} (h : Blocks toLowerCase parts groups) {group : PartGroup}
    (hgroup : group ∈ groups) : ∃ block, block <:+: parts ∧ Grouped toLowerCase block group := by
  obtain ⟨blocks, rfl, hgrouped⟩ := h
  obtain ⟨i, hi, rfl⟩ := List.getElem_of_mem hgroup
  have hi' : i < blocks.length := hgrouped.length_eq ▸ hi
  exact ⟨blocks[i], List.infix_of_mem_flatten (List.getElem_mem hi'), hgrouped.get hi' hi⟩

end

/-- `groupParts` partitions the parts just where, of distinct ids, no two parts that stand alone read the same as message and part. -/
theorem groupParts_partitions_iff (input : List GroupablePart) :
    Partitions toLowerCase input (groupParts toLowerCase input) ↔
      ((input.map fun item => item.part.id).Nodup →
        ((alone toLowerCase none (input.filter fun item => !item.part.isPendingQuestion toLowerCase)).map
          GroupablePart.joined).Nodup) := by
  have hmade : Pass.Made toLowerCase (input.filter fun item => !item.part.isPendingQuestion toLowerCase)
      (input.filter fun item => !item.part.isPendingQuestion toLowerCase) {} :=
    ⟨⟨rfl, fun _ h => by cases h⟩, ⟨[], rfl, blocks_nil⟩, ⟨[], rfl, rfl⟩⟩
  obtain ⟨⟨done, hparts, hblocks⟩, lone, halone, hlone⟩ := hmade.foldl.finished (by simp [nextKinds])
  rw [← groupParts_eq] at hblocks hlone
  rw [List.append_nil] at hparts
  subst hparts
  rw [show alone toLowerCase none [] = [] from rfl, List.append_nil] at halone
  rw [halone]
  have hsub (hids : (input.map fun item => item.part.id).Nodup) :
      ((input.filter fun item => !item.part.isPendingQuestion toLowerCase).map fun item => item.part.id).Nodup :=
    hids.sublist (List.filter_sublist.map _)
  constructor
  · exact fun h hids => (nodup_keys_iff hblocks (hsub hids) hlone).mp (h.keys hids)
  · intro h
    refine ⟨hblocks.members, ?_, ?_, fun hids => (nodup_keys_iff hblocks (hsub hids) hlone).mpr (h hids)⟩
    · intro group hgroup _
      obtain ⟨block, hblock, hgrouped⟩ := hblocks.block hgroup
      refine ⟨block, hblock, ?_, hgrouped.members⟩
      cases hgrouped <;> simp
    · intro key tool refs hgroup
      obtain ⟨block, hblock, hgrouped⟩ := hblocks.block hgroup
      refine ⟨block, hblock, hgrouped.members, ?_⟩
      cases hgrouped with
      | work first rest two => exact two

/-- Two texts whose message and part read the same together. -/
def readAlike : List GroupablePart := [⟨"a", ⟨"b:c", .plain "text"⟩⟩, ⟨"a:b", ⟨"c", .plain "text"⟩⟩]

theorem not_groupParts_partitions : ¬ Partitions String.toLower readAlike (groupParts String.toLower readAlike) := by
  intro h
  have hkeys := h.keys (by decide)
  exact absurd hkeys (by decide)

end Claxedo.Transcript
