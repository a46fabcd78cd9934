import IemMixer.TopologyIndex

/-! The tables of a compiled topology fit together: an id leads to its one entity, a group lists
the inputs that say they are in it, and the level slots of a mix are the sources it hears, one
for one. -/
namespace IemMixer.TopologyProofs
open Lib Proto

/-- Input `i` says it is in group `g`. -/
def Joins (inputs : List InputNode) (i g : ℕ) : Prop := inputs[i]?.bind (·.group) = some g

theorem compileInputs_ungrouped (map : UInt16) (site : List SiteInput) (acc result : InputsAcc)
    (ok : compileInputs map site acc = .ok result) (alone : ∀ node ∈ acc.inputs, node.group = none) :
    ∀ node ∈ result.inputs, node.group = none := by
  induction site generalizing acc with
  | nil =>
    cases ok
    exact alone
  | cons input rest ih =>
    simp only [compileInputs, refused_ok_iff, bind_ok_iff] at ok
    obtain ⟨-, used, -, -, later⟩ := ok
    refine ih _ later fun node member => ?_
    rcases List.mem_append.mp member with before | here
    · exact alone node before
    · rw [List.mem_singleton.mp here]

theorem joins_set {inputs : List InputNode} {i : ℕ} {node : InputNode} (held : inputs[i]? = some node) (g j h : ℕ) :
    Joins (inputs.set i { node with group := some g }) j h ↔ (i = j ∧ g = h) ∨ (i ≠ j ∧ Joins inputs j h) := by
  obtain ⟨bound, -⟩ := List.getElem?_eq_some_iff.mp held
  unfold Joins
  by_cases same : i = j
  · subst same
    simp [bound]
  · simp [List.getElem?_set_ne same, same]

/-- The members of one group: the inputs that say so now, each once; what the others say stays. -/
theorem groupMembers_joins (pos : BTreeMap String ℕ) (g : ℕ) (group : SiteGroup) (names : List String)
    (inputs inputs' : List InputNode) (members members' : List ℕ)
    (ok : groupMembers pos g group names inputs members = .ok (inputs', members'))
    (joined : ∀ i, i ∈ members ↔ Joins inputs i g) (once : members.Nodup) :
    (∀ i, i ∈ members' ↔ Joins inputs' i g) ∧ members'.Nodup ∧
      ∀ i h, h ≠ g → (Joins inputs' i h ↔ Joins inputs i h) := by
  induction names generalizing inputs members with
  | nil =>
    cases ok
    exact ⟨joined, once, fun _ _ _ => Iff.rfl⟩
  | cons name rest ih =>
    simp only [groupMembers] at ok
    split at ok
    · cases ok
    · rename_i i known
      split at ok
      · exact ih _ _ ok joined once
      · rename_i node held
        rw [refused_ok_iff] at ok
        obtain ⟨free, later⟩ := ok
        have free : ∀ h, ¬Joins inputs i h := by
          intro h joins
          simp only [Joins, held, Option.bind_some] at joins
          exact free (by simp [joins])
        have apart : i ∉ members := fun member => free g ((joined i).mp member)
        have grown : ∀ j, j ∈ members ++ [i] ↔ Joins (inputs.set i { node with group := some g }) j g := by
          intro j
          rw [List.mem_append, List.mem_singleton, joined j, joins_set held]
          constructor
          · rintro (joins | rfl)
            · by_cases same : i = j
              · exact .inl ⟨same, rfl⟩
              · exact .inr ⟨same, joins⟩
            · exact .inl ⟨rfl, rfl⟩
          · rintro (⟨rfl, -⟩ | ⟨-, joins⟩)
            · exact .inr rfl
            · exact .inl joins
        have distinct : (members ++ [i]).Nodup := by
          simpa only [List.concat_eq_append] using once.concat apart
        obtain ⟨members_iff, distinct, others⟩ := ih _ _ later grown distinct
        refine ⟨members_iff, distinct, fun j h other => (others j h other).trans ?_⟩
        rw [joins_set held]
        constructor
        · rintro (⟨-, same⟩ | ⟨-, joins⟩)
          · exact absurd same.symm other
          · exact joins
        · intro joins
          refine .inr ⟨?_, joins⟩
          rintro rfl
          exact free h joins

/-- The groups so far list the inputs that say so, in order, and no input names another group. -/
structure Grouped (inputs : List InputNode) (groups : List GroupNode) : Prop where
  members : ∀ (g : ℕ) (group : GroupNode), groups[g]? = some group → ∀ i, i ∈ group.inputs ↔ Joins inputs i g
  sorted : ∀ group ∈ groups, group.inputs.Pairwise (· < ·)
  named : ∀ i g, Joins inputs i g → g < groups.length

theorem sorted_members {members : List ℕ} (once : members.Nodup) :
    (members.insertionSort (· ≤ ·)).Pairwise (· < ·) := by
  have ordered := List.pairwise_insertionSort (· ≤ ·) members
  have distinct : (members.insertionSort (· ≤ ·)).Nodup := (List.perm_insertionSort (· ≤ ·) members).nodup_iff.mpr once
  exact (ordered.and distinct).imp fun ⟨le, ne⟩ => Nat.lt_of_le_of_ne le ne

theorem compileGroups_grouped (pos : BTreeMap String ℕ) (site : List SiteGroup) (inputs inputs' : List InputNode)
    (groups groups' : List GroupNode) (ok : compileGroups pos groups.length site inputs groups = .ok (inputs', groups'))
    (grouped : Grouped inputs groups) : Grouped inputs' groups' := by
  induction site generalizing inputs groups with
  | nil =>
    cases ok
    exact grouped
  | cons group rest ih =>
    simp only [compileGroups, refused_ok_iff, bind_ok_iff] at ok
    obtain ⟨-, ⟨middle, members⟩, filled, later⟩ := ok
    have fresh : ∀ i, i ∈ ([] : List ℕ) ↔ Joins inputs i groups.length := by
      intro i
      refine ⟨fun member => absurd member List.not_mem_nil, fun joins => ?_⟩
      exact absurd (grouped.named i _ joins) (Nat.lt_irrefl _)
    obtain ⟨own, once, others⟩ := groupMembers_joins _ _ _ _ _ _ _ _ filled fresh List.nodup_nil
    refine ih middle (groups ++ [⟨group.id, members.insertionSort (· ≤ ·)⟩]) (by simpa using later) ⟨?_, ?_, ?_⟩
    · intro g node held i
      rcases Nat.lt_trichotomy g groups.length with before | rfl | past
      · rw [List.getElem?_append_left before] at held
        rw [grouped.members g node held i, others i g (Nat.ne_of_lt before)]
      · simp only [List.getElem?_concat_length, Option.some.injEq] at held
        subst held
        rw [List.mem_insertionSort, own i]
      · rw [List.getElem?_eq_none (by simp; omega)] at held
        cases held
    · intro node member
      rcases List.mem_append.mp member with before | here
      · exact grouped.sorted node before
      · rw [List.mem_singleton.mp here]
        exact sorted_members once
    · intro i g joins
      rw [List.length_append, List.length_singleton]
      by_cases same : g = groups.length
      · omega
      · have before := grouped.named i g ((others i g same).mp joins)
        omega

theorem compile_grouped (digest : TopologyInfo → String) (c : Compiled digest) :
    Grouped c.topo.inputs c.topo.groups ∧
      c.topo.direct = (c.topo.inputs.zipIdx.filter fun p => p.1.group.isNone).map (·.2) := by
  have ok := c.accepted
  simp only [compile, bind_ok_iff] at ok
  obtain ⟨a, arranged, -, -, done⟩ := ok
  have same : a.topology digest = c.topo := Except.ok.inj done
  simp only [arrange, bind_ok_iff] at arranged
  obtain ⟨-, -, ins, inputsOk, ⟨inputs, groups⟩, groupsOk, outs, -, engineer, -, mixes, -, made⟩ := arranged
  cases made
  rw [← same]
  refine ⟨compileGroups_grouped _ _ _ _ [] _ groupsOk ⟨by simp, by simp, fun i g joins => ?_⟩, rfl⟩
  obtain ⟨node, held, named⟩ := Option.bind_eq_some_iff.mp joins
  have alone := compileInputs_ungrouped _ _ _ _ inputsOk (by simp) node (List.mem_of_getElem? held)
  rw [alone] at named
  cases named

/-- The indices by id lead to the entities of that id, no id is in two of them, and groups,
inputs and the list of inputs in no group agree. -/
structure Tables (t : Topology) : Prop where
  inputs : ∀ id i, t.inputIndex id = some i ↔ t.inputs[i]?.map (·.id) = some id
  groups : ∀ id g, t.groupIndex id = some g ↔ t.groups[g]?.map (·.id) = some id
  mixes : ∀ id m, t.mixIndex id = some m ↔ t.mixes[m]?.map (·.id) = some id
  apart : ∀ id, ((t.inputIndex id).toList ++ (t.groupIndex id).toList ++ (t.mixIndex id).toList).length ≤ 1
  members : ∀ i g, (∃ node : InputNode, t.inputs[i]? = some node ∧ node.group = some g) ↔
    ∃ group : GroupNode, t.groups[g]? = some group ∧ i ∈ group.inputs
  sorted : ∀ group ∈ t.groups, group.inputs.Pairwise (· < ·)
  direct : ∀ i, i ∈ t.direct ↔ ∃ node : InputNode, t.inputs[i]? = some node ∧ node.group = none

theorem index_mem {ids : List String} {found : Option ℕ} {id : String} {α : Type} {xs : List α} {name : α → String}
    (same : xs.map name = ids) (index : ∀ i, found = some i ↔ xs[i]?.map name = some id) :
    found.toList.length ≤ 1 ∧ (found.isSome → id ∈ ids) := by
  refine ⟨by cases found <;> simp, fun some => ?_⟩
  obtain ⟨i, held⟩ := Option.isSome_iff_exists.mp some
  have there := (index i).mp held
  rw [← List.getElem?_map, same] at there
  exact List.mem_of_getElem? there

theorem compile_tables (digest : TopologyInfo → String) (c : Compiled digest) : Tables c.topo := by
  have wf := (compile_spec digest c).1
  obtain ⟨grouped, direct⟩ := compile_grouped digest c
  refine ⟨inputIndex_iff wf, groupIndex_iff wf, mixIndex_iff wf, fun id => ?_, fun i g => ?_, grouped.sorted, fun i => ?_⟩
  · obtain ⟨distinctHere, -, apartMix⟩ := List.nodup_append.mp wf.ids
    obtain ⟨-, -, apart⟩ := List.nodup_append.mp distinctHere
    have input := index_mem rfl (inputIndex_iff wf id)
    have group := index_mem rfl (groupIndex_iff wf id)
    have mix := index_mem rfl (mixIndex_iff wf id)
    cases hi : c.topo.inputIndex id <;> cases hg : c.topo.groupIndex id <;> cases hm : c.topo.mixIndex id <;>
      simp only [hi, hg, hm, Option.isSome_some, forall_const, Option.toList_some, Option.toList_none] at input group mix ⊢
    all_goals first
      | simp; done
      | exact absurd rfl (apart id input.2 id group.2)
      | exact absurd rfl (apartMix id (List.mem_append_left _ input.2) id mix.2)
      | exact absurd rfl (apartMix id (List.mem_append_right _ group.2) id mix.2)
  · have joined : (∃ node, c.topo.inputs[i]? = some node ∧ node.group = some g) ↔ Joins c.topo.inputs i g := by
      unfold Joins
      rw [Option.bind_eq_some_iff]
    rw [joined]
    constructor
    · intro joins
      have bound := grouped.named i g joins
      have held := List.getElem?_eq_getElem bound
      exact ⟨_, held, (grouped.members g _ held i).mpr joins⟩
    · rintro ⟨group, held, member⟩
      exact (grouped.members g group held i).mp member
  · rw [direct]
    simp only [List.mem_map, List.mem_filter, Prod.exists, List.mem_zipIdx_iff_getElem?, Option.isNone_iff_eq_none]
    constructor
    · rintro ⟨node, j, ⟨held, alone⟩, rfl⟩
      exact ⟨node, held, alone⟩
    · rintro ⟨node, held, alone⟩
      exact ⟨node, i, ⟨held, alone⟩, rfl⟩

/-- Whether a mix may hear `source`: any input, the mixes it hears whole and its peers. -/
def MayHear (t : Topology) (node : MixNode) : Source → Prop
  | .input id => ∃ n ∈ t.inputs, n.id = id
  | .mix id => ∃ s ∈ node.mixes ++ node.peers, ∃ n, t.mixes[s]? = some n ∧ n.id = id

section
variable {topo : Topology} (wf : WellFormed topo)
include wf

theorem slot_isSome_iff {m : ℕ} {node : MixNode} (held : topo.mixes[m]? = some node) (source : Source) :
    (topo.slot m source).isSome ↔ MayHear topo node source := by
  have slots : (topo.slot m source).isSome ↔ ∃ k, topo.source m k = some source := by
    rw [Option.isSome_iff_exists]
    exact exists_congr fun k => (source_slot_iff wf held k source).symm
  rw [slots]
  cases source with
  | input id =>
    constructor
    · rintro ⟨k, read⟩
      rw [source_eq held] at read
      split at read
      · obtain ⟨n, there, same⟩ := Option.map_eq_some_iff.mp read
        exact ⟨n, List.mem_of_getElem? there, Source.input.inj same⟩
      · obtain ⟨s, -, read⟩ := Option.bind_eq_some_iff.mp read
        obtain ⟨n, -, same⟩ := Option.map_eq_some_iff.mp read
        cases same
    · rintro ⟨n, member, rfl⟩
      obtain ⟨k, there⟩ := List.mem_iff_getElem?.mp member
      obtain ⟨bound, -⟩ := List.getElem?_eq_some_iff.mp there
      refine ⟨k, ?_⟩
      rw [source_eq held, if_pos bound, there, Option.map_some]
  | mix id =>
    constructor
    · rintro ⟨k, read⟩
      rw [source_eq held] at read
      split at read
      · obtain ⟨n, -, same⟩ := Option.map_eq_some_iff.mp read
        cases same
      · obtain ⟨s, heard, read⟩ := Option.bind_eq_some_iff.mp read
        obtain ⟨n, there, same⟩ := Option.map_eq_some_iff.mp read
        exact ⟨s, List.mem_of_getElem? heard, n, there, Source.mix.inj same⟩
    · rintro ⟨s, member, n, there, rfl⟩
      obtain ⟨j, heard⟩ := List.mem_iff_getElem?.mp member
      refine ⟨topo.inputs.length + j, ?_⟩
      rw [source_eq held, if_neg (by omega), Nat.add_sub_cancel_left, show (hears node)[j]? = some s from heard,
        Option.bind_some, there, Option.map_some]

/-- No mix hears itself. -/
theorem slot_own {m : ℕ} {node : MixNode} (held : topo.mixes[m]? = some node) : topo.slot m (.mix node.id) = none := by
  rw [← Option.not_isSome_iff_eq_none, slot_isSome_iff wf held]
  rintro ⟨s, member, n, there, same⟩
  have found := (mixIndex_iff wf node.id s).mpr (by rw [there, Option.map_some, same])
  have own := (mixIndex_iff wf node.id m).mpr (by rw [held, Option.map_some])
  obtain rfl : s = m := Option.some.inj (found.symm.trans own)
  rcases List.mem_append.mp member with heard | peer
  · exact Nat.lt_irrefl s (wf.heardBefore s node held s heard)
  · exact (wf.peersOther s node held s peer).2.1 rfl

end

/-- The level slots of a mix are the sources it may hear, one for one, in the topology of every
accepted site, and its tables fit together. -/
theorem slots_are_sources (digest : TopologyInfo → String) (c : Compiled digest) :
    Tables c.topo ∧ ∀ (m : ℕ) (node : MixNode), c.topo.mixes[m]? = some node →
      (∀ k, (c.topo.source m k).isSome ↔ k < c.topo.levels m) ∧
      (∀ k source, c.topo.source m k = some source ↔ c.topo.slot m source = some k) ∧
      (∀ source, (c.topo.slot m source).isSome ↔ MayHear c.topo node source) ∧
      (∀ source other, MayHear c.topo node source → c.topo.slot m source = c.topo.slot m other → source = other) ∧
      c.topo.slot m (.mix node.id) = none := by
  have wf := (compile_spec digest c).1
  refine ⟨compile_tables digest c, fun m node held => ⟨fun k => ⟨fun some => ?_, fun bound => ?_⟩,
    source_slot_iff wf held, slot_isSome_iff wf held, fun source other heard same => ?_, slot_own wf held⟩⟩
  · obtain ⟨source, read⟩ := Option.isSome_iff_exists.mp some
    exact slot_bound wf held ((source_slot_iff wf held k source).mp read)
  · exact Option.isSome_iff_exists.mpr (source_isSome wf held bound)
  · obtain ⟨k, slot⟩ := Option.isSome_iff_exists.mp ((slot_isSome_iff wf held source).mpr heard)
    have read := (source_slot_iff wf held k source).mpr slot
    have read' := (source_slot_iff wf held k other).mpr (same.symm.trans slot)
    exact Option.some.inj (read.symm.trans read')

/-- Of `duet` anna hears the voice, then ben. -/
theorem slots_are_sources_anna :
    duetCompiled.topo.source 0 1 = some (.mix "ben") ∧ duetCompiled.topo.slot 0 (.mix "ben") = some 1 := by
  have read : duetCompiled.topo.source 0 1 = some (.mix "ben") := rfl
  exact ⟨read, (((slots_are_sources _ duetCompiled).2 0 _ rfl).2.1 1 (.mix "ben")).mp read⟩

end IemMixer.TopologyProofs
