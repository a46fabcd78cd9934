import IemMixer.Proto.ShapeProofs

/-! Shaping a state by a topology is exact: what the result holds, slot by slot, what is
named as dropped, and nothing left to do a second time. -/
namespace IemMixer.Proto
open Lib

/-- Whether a mix has a level for `source`: for every input, and for each mix it hears,
whole or as a peer. -/
def MixInfo.holds (topo : TopologyInfo) (node : MixInfo) : Source → Bool
  | .input id => topo.inputs.any (·.id == id)
  | .mix id => node.mixes.contains id || node.peers.contains id

/-- A search for an id among nodes. -/
private theorem any_named {α : Type} (nodes : List α) (key : α → String) (id : String) :
    (nodes.any fun n => key n == id) = decide (id ∈ nodes.map key) := by
  rw [Bool.eq_iff_iff, decide_eq_true_iff, List.any_eq_true, List.mem_map]
  exact exists_congr fun n => and_congr_right fun _ => beq_iff_eq

section
variable (topo : TopologyInfo) (state : MixState)

theorem reconcile_input (id : InputId) : (reconcile topo state).1.inputs[id]? =
    if topo.inputs.any (·.id == id) then some ((state.inputs[id]?.map capInput).getD {}) else none := by
  have keyed := BTreeMap.getElem?_collect_keyed (topo.inputs.map InputInfo.id)
    (fun id => (state.inputs[id]?.map capInput).getD {}) id
  rw [List.map_map] at keyed
  simp only [any_named, decide_eq_true_iff]
  exact keyed

/-- Of several mixes of one id the last counts. -/
theorem reconcile_mix (id : MixId) : (reconcile topo state).1.mixes[id]? =
    (topo.mixes.reverse.find? (·.id == id)).map fun node => shapeMix topo node state.mixes[node.id]? :=
  BTreeMap.getElem?_collect_map topo.mixes (·.id) (fun node => shapeMix topo node state.mixes[node.id]?) id

theorem reconcile_mix_at (distinct : (topo.mixes.map (·.id)).Nodup) {node : MixInfo} (member : node ∈ topo.mixes) :
    (reconcile topo state).1.mixes[node.id]? = some (shapeMix topo node state.mixes[node.id]?) := by
  have keys : ((topo.mixes.map fun node =>
      (node.id, shapeMix topo node state.mixes[node.id]?)).map Prod.fst).Nodup := by
    rw [List.map_map]
    exact distinct
  exact (BTreeMap.getElem?_collect_iff _ keys _ _).mpr (List.mem_map_of_mem member)

variable (node : MixInfo) (given : Option Mix)

theorem shapeMix_level (source : Source) : (shapeMix topo node given).level source =
    if node.holds topo source then some (((given.bind (·.level source)).map capLevel).getD {}) else none := by
  cases source with
  | input id =>
    have keyed := BTreeMap.getElem?_collect_keyed (topo.inputs.map InputInfo.id)
      (fun id => ((given.bind fun x => x.inputs[id]?).map capLevel).getD {}) id
    rw [List.map_map] at keyed
    simp only [MixInfo.holds, any_named, decide_eq_true_iff]
    exact keyed
  | mix id =>
    refine (BTreeMap.getElem?_collect_keyed (node.mixes ++ node.peers)
      (fun id => ((given.bind fun x => x.mixes[id]?).map capLevel).getD {}) id).trans ?_
    simp [MixInfo.holds, Mix.level]

theorem shapeMix_group (id : GroupId) : (shapeMix topo node given).groups[id]? =
    if topo.groups.any (·.id == id) then some (((given.bind (·.groups[id]?)).map capGroup).getD {}) else none := by
  have keyed := BTreeMap.getElem?_collect_keyed (topo.groups.map GroupInfo.id)
    (fun id => ((given.bind fun x => x.groups[id]?).map capGroup).getD {}) id
  rw [List.map_map] at keyed
  simp only [any_named, decide_eq_true_iff]
  exact keyed

private theorem capped_again {α : Type} {Ok : α → Prop} {cap : α → α} {default : α} (caps : ∀ x, Ok (cap x))
    (fallback : Ok default) (fixed : ∀ {x}, Ok x → cap x = x) (given : Option α) :
    cap ((given.map cap).getD default) = (given.map cap).getD default := by
  cases given with
  | none => exact fixed fallback
  | some x => exact fixed (caps x)

theorem shapeMix_again : shapeMix topo node (some (shapeMix topo node given)) = shapeMix topo node given := by
  have level : ∀ source, (shapeMix topo node (some (shapeMix topo node given))).level source =
      (shapeMix topo node given).level source := by
    intro source
    rw [shapeMix_level, Option.bind_some, shapeMix_level]
    split
    · exact congrArg some (capped_again capLevel_ok level_default_ok capLevel_of_ok _)
    · rfl
  apply Mix.ext
  · cases given with
    | none => exact capOut_of_ok out_default_ok
    | some x => exact capOut_of_ok (capOut_ok x.out)
  · apply Std.ExtTreeMap.ext_getElem?
    exact fun id => level (.input id)
  · apply Std.ExtTreeMap.ext_getElem?
    intro id
    rw [shapeMix_group, Option.bind_some, shapeMix_group]
    split
    · exact congrArg some (capped_again capGroup_ok group_default_ok capGroup_of_ok _)
    · rfl
  · apply Std.ExtTreeMap.ext_getElem?
    exact fun id => level (.mix id)

theorem reconcile_again : (reconcile topo (reconcile topo state).1).1 = (reconcile topo state).1 := by
  apply MixState.ext
  · apply Std.ExtTreeMap.ext_getElem?
    intro id
    rw [reconcile_input, reconcile_input]
    split
    · exact congrArg some (capped_again capInput_ok input_default_ok capInput_of_ok _)
    · rfl
  · apply Std.ExtTreeMap.ext_getElem?
    intro id
    rw [reconcile_mix, reconcile_mix]
    cases found : topo.mixes.reverse.find? (·.id == id) with
    | none => rfl
    | some node =>
      have named : node.id = id := by simpa using List.find?_some found
      subst named
      simp only [Option.map_some, reconcile_mix, found, shapeMix_again]

end

/-- An id of a state, by where it stands. -/
inductive Spot where
  | input (id : InputId)
  | mixInput (mix : MixId) (id : InputId)
  | mixGroup (mix : MixId) (id : GroupId)
  | hearing (mix heard : MixId)
  | mix (id : MixId)
  deriving DecidableEq

/-- The mix it stands in. -/
def Spot.holder : Spot → Option MixId
  | .mixInput m _ | .mixGroup m _ | .hearing m _ => some m
  | .input _ | .mix _ => none

/-- As a drop is named. -/
def Spot.text : Spot → String
  | .input id => "input " ++ clip id
  | .mixInput m id => "mix " ++ clip m ++ " input " ++ clip id
  | .mixGroup m id => "mix " ++ clip m ++ " group " ++ clip id
  | .hearing m heard => "mix " ++ clip m ++ " hearing " ++ clip heard
  | .mix id => "mix " ++ clip id

/-- The state has it and the topology does not. What a mix holds counts when the topology
has the mix. -/
def Spot.Lacking (topo : TopologyInfo) (state : MixState) : Spot → Prop
  | .input id => id ∈ state.inputs ∧ id ∉ topo.inputs.map (·.id)
  | .mixInput m id => m ∈ topo.mixes.map (·.id) ∧ (∃ x, state.mixes[m]? = some x ∧ id ∈ x.inputs) ∧
    id ∉ topo.inputs.map (·.id)
  | .mixGroup m id => m ∈ topo.mixes.map (·.id) ∧ (∃ x, state.mixes[m]? = some x ∧ id ∈ x.groups) ∧
    id ∉ topo.groups.map (·.id)
  | .hearing m heard => (∃ x, state.mixes[m]? = some x ∧ heard ∈ x.mixes) ∧
    ∃ node ∈ topo.mixes, node.id = m ∧ heard ∉ node.mixes ∧ heard ∉ node.peers
  | .mix id => id ∈ state.mixes ∧ id ∉ topo.mixes.map (·.id)

section
variable (topo : TopologyInfo) (state : MixState)

/-- What the topology lacks of one mix. -/
def lackingOf (node : MixInfo) (x : Mix) : List Spot :=
  (x.inputs.keys.filter fun id => !topo.inputs.any (·.id == id)).map (.mixInput node.id) ++
  (x.groups.keys.filter fun id => !topo.groups.any (·.id == id)).map (.mixGroup node.id) ++
  (x.mixes.keys.filter fun id => !(node.mixes.contains id || node.peers.contains id)).map (.hearing node.id)

/-- What the topology lacks of the state, in the order it is named. -/
def lacking : List Spot :=
  (state.inputs.keys.filter fun id => !topo.inputs.any (·.id == id)).map .input ++
  topo.mixes.flatMap (fun node => (state.mixes[node.id]?.map (lackingOf topo node)).getD []) ++
  (state.mixes.keys.filter fun id => !topo.mixes.any (·.id == id)).map .mix

theorem reconcile_dropped : (reconcile topo state).2 = (lacking topo state).map Spot.text := by
  simp only [reconcile, lacking, List.map_append, List.map_map, List.map_flatMap]
  congr 2
  apply List.flatMap_congr
  intro node _
  cases state.mixes[node.id]? with
  | none => rfl
  | some x => simp [droppedOf, lackingOf, Function.comp_def, Spot.text]

private theorem any_iff {α : Type} (nodes : List α) (key : α → String) (id : String) :
    (!nodes.any fun n => key n == id) = true ↔ id ∉ nodes.map key := by
  simp [any_named]

theorem mem_lackingOf (node : MixInfo) (x : Mix) (spot : Spot) : spot ∈ lackingOf topo node x ↔
    (∃ id, spot = .mixInput node.id id ∧ id ∈ x.inputs ∧ id ∉ topo.inputs.map (·.id)) ∨
    (∃ id, spot = .mixGroup node.id id ∧ id ∈ x.groups ∧ id ∉ topo.groups.map (·.id)) ∨
    ∃ heard, spot = .hearing node.id heard ∧ heard ∈ x.mixes ∧ heard ∉ node.mixes ∧ heard ∉ node.peers := by
  simp only [lackingOf, List.mem_append, List.mem_map, List.mem_filter, Std.ExtTreeMap.mem_keys,
    Bool.not_or, Bool.and_eq_true, Bool.not_eq_true', List.contains_eq_mem, decide_eq_false_iff_not, or_assoc]
  grind

theorem mem_lacking (spot : Spot) : spot ∈ lacking topo state ↔ spot.Lacking topo state := by
  have inside : spot ∈ topo.mixes.flatMap (fun node => (state.mixes[node.id]?.map (lackingOf topo node)).getD []) ↔
      ∃ node ∈ topo.mixes, ∃ x, state.mixes[node.id]? = some x ∧ spot ∈ lackingOf topo node x := by
    rw [List.mem_flatMap]
    refine exists_congr fun node => and_congr_right fun _ => ?_
    cases state.mixes[node.id]? <;> simp
  simp only [lacking, List.mem_append, inside, mem_lackingOf, List.mem_map, List.mem_filter, any_iff,
    Std.ExtTreeMap.mem_keys]
  cases spot with
  | input id => simp [Spot.Lacking]
  | mix id => simp [Spot.Lacking]
  | mixInput mix id =>
    simp only [Spot.Lacking, List.mem_map]
    grind
  | mixGroup mix id =>
    simp only [Spot.Lacking, List.mem_map]
    grind
  | hearing mix heard =>
    simp only [Spot.Lacking]
    grind

private theorem keys_nodup {V : Type} (m : BTreeMap String V) : m.keys.Nodup := by
  rw [List.nodup_iff_pairwise_ne]
  exact Std.ExtTreeMap.distinct_keys.imp fun apart same => apart (Std.compare_eq_iff_eq.mpr same)

theorem lackingOf_nodup (node : MixInfo) (x : Mix) : (lackingOf topo node x).Nodup := by
  have one : ∀ {V : Type} (m : BTreeMap String V) (known : String → Bool) (spot : String → Spot),
      Function.Injective spot → ((m.keys.filter known).map spot).Nodup :=
    fun m known spot apart => ((keys_nodup m).filter known).map apart
  simp only [lackingOf, List.nodup_append]
  refine ⟨⟨one _ _ _ fun a b same => by cases same; rfl, one _ _ _ fun a b same => by cases same; rfl, ?_⟩,
    one _ _ _ fun a b same => by cases same; rfl, ?_⟩
  · grind
  · grind

private theorem lackingOf_mix {node : MixInfo} {x : Mix} {spot : Spot} (named : spot ∈ lackingOf topo node x) :
    spot.holder = some node.id := by
  rcases (mem_lackingOf topo node x spot).mp named with ⟨id, rfl, -⟩ | ⟨id, rfl, -⟩ | ⟨id, rfl, -⟩ <;> rfl

theorem lacking_nodup (distinct : (topo.mixes.map (·.id)).Nodup) : (lacking topo state).Nodup := by
  have held : ∀ spot ∈ topo.mixes.flatMap (fun node => (state.mixes[node.id]?.map (lackingOf topo node)).getD []),
      spot.holder.isSome = true := by
    intro spot member
    obtain ⟨node, -, inside⟩ := List.mem_flatMap.mp member
    cases given : state.mixes[node.id]? with
    | none => simp [given] at inside
    | some x =>
      rw [given] at inside
      simp [lackingOf_mix topo inside]
  have inputs : ((state.inputs.keys.filter fun id => !topo.inputs.any (·.id == id)).map Spot.input).Nodup :=
    ((keys_nodup _).filter _).map fun a b same => by cases same; rfl
  have mixes : ((state.mixes.keys.filter fun id => !topo.mixes.any (·.id == id)).map Spot.mix).Nodup :=
    ((keys_nodup _).filter _).map fun a b same => by cases same; rfl
  have nested : (topo.mixes.flatMap fun node =>
      (state.mixes[node.id]?.map (lackingOf topo node)).getD []).Nodup := by
    rw [List.nodup_flatMap]
    constructor
    · intro node _
      cases state.mixes[node.id]? with
      | none => exact .nil
      | some x => exact lackingOf_nodup topo node x
    · -- What two mixes lack stands in different mixes.
      apply (List.pairwise_map.mp distinct).imp
      intro node other apart spot first second
      have named : ∀ n : MixInfo, spot ∈ (state.mixes[n.id]?.map (lackingOf topo n)).getD [] →
          spot.holder = some n.id := by
        intro n inside
        cases given : state.mixes[n.id]? with
        | none => simp [given] at inside
        | some x =>
          rw [given] at inside
          exact lackingOf_mix topo inside
      exact apart (Option.some.inj ((named node first).symm.trans (named other second)))
  simp only [lacking, List.nodup_append, inputs, nested, mixes, true_and]
  constructor
  · intro spot first other second same
    obtain ⟨id, -, rfl⟩ := List.mem_map.mp first
    simpa [← same, Spot.holder] using held other second
  · intro spot first other second same
    obtain ⟨id, -, rfl⟩ := List.mem_map.mp second
    rcases List.mem_append.mp first with input | inside
    · obtain ⟨id', -, rfl⟩ := List.mem_map.mp input
      cases same
    · simpa [same, Spot.holder] using held spot inside

/-- A shaped state lacks nothing of its topology. -/
theorem none_lacking (distinct : (topo.mixes.map (·.id)).Nodup) : lacking topo (reconcile topo state).1 = [] := by
  rw [List.eq_nil_iff_forall_not_mem]
  intro spot member
  have known : ∀ (id : MixId) (x : Mix), (reconcile topo state).1.mixes[id]? = some x →
      ∃ node ∈ topo.mixes, node.id = id ∧ x = shapeMix topo node state.mixes[id]? := by
    intro id x held
    rw [reconcile_mix, Option.map_eq_some_iff] at held
    obtain ⟨node, found, rfl⟩ := held
    have named : node.id = id := by simpa using List.find?_some found
    exact ⟨node, List.mem_reverse.mp (List.mem_of_find?_eq_some found), named, by rw [named]⟩
  have level : ∀ (node : MixInfo) (given : Option Mix) (source : Source),
      ((shapeMix topo node given).level source).isSome = true → node.holds topo source = true := by
    intro node given source some
    rw [shapeMix_level] at some
    by_contra lacks
    simp [lacks] at some
  have lacks := (mem_lacking topo _ spot).mp member
  cases spot with
  | input id =>
    obtain ⟨held, unknown⟩ := lacks
    rw [Std.ExtTreeMap.mem_iff_isSome_getElem?, reconcile_input] at held
    simp [any_named, unknown] at held
  | mix id =>
    obtain ⟨held, unknown⟩ := lacks
    obtain ⟨x, held⟩ := Option.isSome_iff_exists.mp (Std.ExtTreeMap.mem_iff_isSome_getElem?.mp held)
    obtain ⟨node, listed, rfl, -⟩ := known id x held
    exact unknown (List.mem_map_of_mem listed)
  | mixInput m id =>
    obtain ⟨-, ⟨x, held, inside⟩, unknown⟩ := lacks
    obtain ⟨node, -, -, rfl⟩ := known m x held
    have holds := level node _ (.input id) (Std.ExtTreeMap.mem_iff_isSome_getElem?.mp inside)
    simp [MixInfo.holds, any_named, unknown] at holds
  | mixGroup m id =>
    obtain ⟨-, ⟨x, held, inside⟩, unknown⟩ := lacks
    obtain ⟨node, -, -, rfl⟩ := known m x held
    rw [Std.ExtTreeMap.mem_iff_isSome_getElem?, shapeMix_group] at inside
    simp [any_named, unknown] at inside
  | hearing m heard =>
    obtain ⟨⟨x, held, inside⟩, node, listed, rfl, whole, peer⟩ := lacks
    rw [reconcile_mix_at topo state distinct listed] at held
    cases held
    have holds := level node _ (.mix heard) (Std.ExtTreeMap.mem_iff_isSome_getElem?.mp inside)
    simp [MixInfo.holds, whole, peer] at holds

/-- Shaping is exact: every slot of the topology and no other, each the capped given value or
the default; every id the topology lacks named once; nothing left for a second time. -/
theorem reconcile_exact (distinct : (topo.mixes.map (·.id)).Nodup) :
    let shaped := (reconcile topo state).1
    (∀ id, shaped.inputs[id]? = if id ∈ topo.inputs.map (·.id) then
      some ((state.inputs[id]?.map capInput).getD {}) else none) ∧
    (∀ id, id ∈ shaped.mixes ↔ id ∈ topo.mixes.map (·.id)) ∧
    (∀ node ∈ topo.mixes, ∃ x, shaped.mixes[node.id]? = some x ∧
      x.out = (state.mixes[node.id]?.map fun given => capOut given.out).getD {} ∧
      (∀ id, x.inputs[id]? = if id ∈ topo.inputs.map (·.id) then
        some (((state.mixes[node.id]?.bind (·.inputs[id]?)).map capLevel).getD {}) else none) ∧
      (∀ id, x.mixes[id]? = if id ∈ node.mixes ++ node.peers then
        some (((state.mixes[node.id]?.bind (·.mixes[id]?)).map capLevel).getD {}) else none) ∧
      ∀ id, x.groups[id]? = if id ∈ topo.groups.map (·.id) then
        some (((state.mixes[node.id]?.bind (·.groups[id]?)).map capGroup).getD {}) else none) ∧
    (∃ dropped : List Spot, (reconcile topo state).2 = dropped.map Spot.text ∧ dropped.Nodup ∧
      ∀ spot, spot ∈ dropped ↔ spot.Lacking topo state) ∧
    reconcile topo shaped = (shaped, []) := by
  intro shaped
  refine ⟨fun id => ?_, fun id => ?_, fun node listed => ?_, ?_, ?_⟩
  · simpa [any_named] using reconcile_input topo state id
  · rw [Std.ExtTreeMap.mem_iff_isSome_getElem?, reconcile_mix, Option.isSome_map, List.find?_isSome, List.mem_map]
    simp only [List.mem_reverse, beq_iff_eq]
  · refine ⟨_, reconcile_mix_at topo state distinct listed, rfl, fun id => ?_, fun id => ?_, fun id => ?_⟩
    · simpa [MixInfo.holds, any_named, Mix.level] using shapeMix_level topo node state.mixes[node.id]? (.input id)
    · simpa [MixInfo.holds, Mix.level] using shapeMix_level topo node state.mixes[node.id]? (.mix id)
    · simpa [any_named] using shapeMix_group topo node state.mixes[node.id]? id
  · exact ⟨lacking topo state, reconcile_dropped topo state, lacking_nodup topo state distinct,
      mem_lacking topo state⟩
  · apply Prod.ext
    · exact reconcile_again topo state
    · rw [reconcile_dropped, none_lacking topo state distinct, List.map_nil]

end

/-- Two mixes, one heard by the other, and a state that has more and less than they do. -/
def twoMixes : TopologyInfo where
  hash := ""
  sampleRate := 96000
  engineer := "b"
  inputs := [⟨"voice", 1, false, none⟩]
  groups := []
  mixes := [⟨"a", 2, [], []⟩, ⟨"b", 2, ["a"], []⟩]

def otherMixes : MixState where
  mixes := (∅ : BTreeMap MixId Mix).insert "b" { inputs := (∅ : BTreeMap InputId Level).insert "choir" {} }
    |>.insert "ghost" { inputs := (∅ : BTreeMap InputId Level).insert "bogus" {} }

theorem reconcile_exact_two :
    (reconcile twoMixes otherMixes).2 = ["mix b input choir", "mix ghost"] ∧
      reconcile twoMixes (reconcile twoMixes otherMixes).1 = ((reconcile twoMixes otherMixes).1, []) :=
  ⟨by decide +kernel, (reconcile_exact twoMixes otherMixes (by decide)).2.2.2.2⟩

/-- What an unknown mix holds is not named, only the mix; and with two mixes of one id the
second counts, so what it hears is dropped at the first. -/
theorem nested_ids_go_unnamed :
    (∃ x, otherMixes.mixes["ghost"]? = some x ∧ "bogus" ∈ x.inputs ∧ "bogus" ∉ twoMixes.inputs.map (·.id) ∧
      (reconcile twoMixes otherMixes).2 = ["mix b input choir", "mix ghost"]) ∧
    let twins : TopologyInfo := { twoMixes with mixes := [⟨"a", 2, [], []⟩, ⟨"a", 2, ["b"], []⟩] }
    (reconcile twins (reconcile twins {}).1).2 = ["mix a hearing b"] := by
  constructor
  · exact ⟨{ inputs := (∅ : BTreeMap InputId Level).insert "bogus" {} }, by decide +kernel, by decide +kernel,
      by decide, by decide +kernel⟩
  · decide +kernel

end IemMixer.Proto
