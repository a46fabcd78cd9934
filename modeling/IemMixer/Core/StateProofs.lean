import IemMixer.TopologyIndex
import IemMixer.Proto.ReconcileProofs
import IemMixer.Core.State

/-! The reconciled state against its protocol form. A `Shaped` state has every slot
of the topology and every value in range; its protocol form is looked up slot by
slot, and the protocol's shaper leaves it as it is. -/
namespace IemMixer
open Lib Proto TopologyProofs

attribute [ext] MixRec Reconciled

/-- Laid out as the topology says, every value in its range. -/
structure Shaped (topo : Topology) (s : Reconciled) : Prop where
  inputCount : s.inputs.length = topo.inputs.length
  mixCount : s.mixes.length = topo.mixes.length
  levelCount : ∀ (m : ℕ) (rec : MixRec), s.mixes[m]? = some rec → rec.levels.length = topo.levels m
  groupCount : ∀ rec ∈ s.mixes, rec.groups.length = topo.groups.length
  inputsOk : ∀ x ∈ s.inputs, x.Ok
  outsOk : ∀ rec ∈ s.mixes, rec.out.Ok
  levelsOk : ∀ rec ∈ s.mixes, ∀ l ∈ rec.levels, l.Ok
  groupsOk : ∀ rec ∈ s.mixes, ∀ g ∈ rec.groups, g.Ok

/-! ### Looking up the protocol form -/

section
variable {topo : Topology} (wf : WellFormed topo)
include wf

theorem toState_input_iff (r : Reconciled) (id : InputId) (x : InputState) :
    (toState topo r).inputs[id]? = some x ↔
      ∃ i : ℕ, topo.inputs[i]?.map (·.id) = some id ∧ r.inputs[i]? = some x :=
  BTreeMap.getElem?_collect_zip _ _ _ (inputIds_nodup wf) id x

theorem toState_mix_iff (r : Reconciled) (id : MixId) (x : Mix) :
    (toState topo r).mixes[id]? = some x ↔
      ∃ (m : ℕ) (rec : MixRec), topo.mixes[m]?.map (·.id) = some id ∧ r.mixes[m]? = some rec ∧
        x = toMix topo m rec := by
  have keys : (((topo.mixes.zip r.mixes).zipIdx.map fun p =>
      (p.1.1.id, toMix topo p.2 p.1.2)).map Prod.fst).Nodup := by
    have firsts := (BTreeMap.fst_zip_sublist topo.mixes r.mixes).map (·.id)
    rw [List.map_map] at firsts
    refine (mixIds_nodup wf).sublist ?_
    rw [List.map_map, show (Prod.fst ∘ fun p : (MixNode × MixRec) × ℕ =>
      (p.1.1.id, toMix topo p.2 p.1.2)) = ((fun n : MixNode => n.id) ∘ Prod.fst) ∘ Prod.fst from rfl,
      ← List.map_map, List.zipIdx_map_fst]
    exact firsts
  rw [toState, BTreeMap.getElem?_collect_iff _ keys, List.mem_iff_getElem?]
  simp only [List.getElem?_map, List.getElem?_zipIdx, Option.map_map, Option.map_eq_some_iff,
    List.getElem?_zip_eq_some, Prod.exists, Function.comp_apply, Prod.mk.injEq, Nat.zero_add]
  constructor
  · rintro ⟨m, node, rec, ⟨there, held⟩, rfl, rfl⟩
    exact ⟨m, rec, ⟨node, there, rfl⟩, held, rfl⟩
  · rintro ⟨m, rec, ⟨node, there, rfl⟩, held, rfl⟩
    exact ⟨m, node, rec, ⟨there, held⟩, rfl, rfl⟩

omit wf in
@[simp] theorem toMix_out (m : ℕ) (rec : MixRec) : (toMix topo m rec).out = rec.out := by
  have step : ∀ (mix : Mix) (p : Level × ℕ), (putLevel topo m mix p).out = mix.out := by
    intro mix p
    unfold putLevel
    split <;> rfl
  have fold : ∀ (ps : List (Level × ℕ)) (mix : Mix), (ps.foldl (putLevel topo m) mix).out = mix.out := by
    intro ps
    induction ps with
    | nil => exact fun mix => rfl
    | cons p rest ih => exact fun mix => (ih _).trans (step mix p)
  exact fold _ _

theorem toMix_group_iff (m : ℕ) (rec : MixRec) (id : GroupId) (x : MixGroup) :
    (toMix topo m rec).groups[id]? = some x ↔
      ∃ g : ℕ, topo.groups[g]?.map (·.id) = some id ∧ rec.groups[g]? = some x :=
  BTreeMap.getElem?_collect_zip _ _ _ (groupIds_nodup wf) id x

omit wf in
private theorem putLevel_level (m : ℕ) (mix : Mix) (p : Level × ℕ) (source : Source) :
    (putLevel topo m mix p).level source =
      if topo.source m p.2 = some source then some p.1 else mix.level source := by
  unfold putLevel
  split
  · rename_i id read
    cases source with
    | input other => simp [Mix.level, read, BTreeMap.getElem?_insert_eq]
    | mix other => simp [Mix.level, read]
  · rename_i id read
    cases source with
    | input other => simp [Mix.level, read]
    | mix other => simp [Mix.level, read, BTreeMap.getElem?_insert_eq]
  · rename_i read
    simp [read]

theorem toMix_level_iff {m : ℕ} {node : MixNode} (held : topo.mixes[m]? = some node) (rec : MixRec)
    (source : Source) (l : Level) :
    (toMix topo m rec).level source = some l ↔
      ∃ k : ℕ, topo.source m k = some source ∧ rec.levels[k]? = some l := by
  have fold : ∀ levels : List Level,
      (levels.zipIdx.foldl (putLevel topo m) { out := rec.out }).level source = some l ↔
        ∃ k : ℕ, topo.source m k = some source ∧ levels[k]? = some l := by
    intro levels
    induction levels using List.reverseRecOn with
    | nil =>
      cases source with
      | input id => simp [Mix.level]
      | mix id => simp [Mix.level]
    | append_singleton levels last ih =>
      rw [List.zipIdx_append, List.foldl_append, List.zipIdx_singleton, List.foldl_cons,
        List.foldl_nil, putLevel_level, Nat.zero_add]
      by_cases here : topo.source m levels.length = some source
      · -- No earlier slot reads this source.
        have only : ∀ k, topo.source m k = some source → k = levels.length := by
          intro k read
          rw [source_slot_iff wf held] at read here
          exact Option.some.inj (read.symm.trans here)
        rw [if_pos here]
        constructor
        · intro same
          exact ⟨levels.length, here, by simpa using same⟩
        · rintro ⟨k, read, found⟩
          rw [only k read] at found
          simpa using found
      · rw [if_neg here, ih]
        refine exists_congr fun k => and_congr_right fun read => ?_
        have other : k ≠ levels.length := fun same => here (same ▸ read)
        rw [List.getElem?_append]
        by_cases early : k < levels.length
        · rw [if_pos early]
        · rw [if_neg early, List.getElem?_eq_none (by omega), List.getElem?_eq_none (by simp; omega)]
  exact fold rec.levels

end

/-! ### The protocol's shaper -/

section
variable {info : TopologyInfo} {state : MixState}

private theorem getD_ok {α : Type} {Ok : α → Prop} {given : Option α} {default : α}
    (held : ∀ x, given = some x → Ok x) (fallback : Ok default) : Ok (given.getD default) := by
  cases given with
  | none => exact fallback
  | some x => exact held x rfl

private theorem capped_ok {α : Type} {Ok : α → Prop} {cap : α → α} {default : α}
    (caps : ∀ x, Ok (cap x)) (fallback : Ok default) (given : Option α) :
    Ok ((given.map cap).getD default) := by
  cases given with
  | none => exact fallback
  | some x => exact caps x

theorem shapeMix_ok (node : MixInfo) (given : Option Mix) :
    (shapeMix info node given).out.Ok ∧
      (∀ source l, (shapeMix info node given).level source = some l → l.Ok) ∧
      ∀ (g : GroupId) (s : MixGroup), (shapeMix info node given).groups[g]? = some s → s.Ok := by
  refine ⟨?_, fun source l held => ?_, fun g s held => ?_⟩
  · cases given with
    | none => exact out_default_ok
    | some x => exact capOut_ok x.out
  · cases source with
    | input id =>
      have entry := BTreeMap.mem_of_getElem?_collect _ _ _ held
      obtain ⟨i, -, same⟩ := List.mem_map.mp entry
      cases same
      exact capped_ok capLevel_ok level_default_ok _
    | mix id =>
      have entry := BTreeMap.mem_of_getElem?_collect _ _ _ held
      obtain ⟨h, -, same⟩ := List.mem_map.mp entry
      cases same
      exact capped_ok capLevel_ok level_default_ok _
  · have entry := BTreeMap.mem_of_getElem?_collect _ _ _ held
    obtain ⟨i, -, same⟩ := List.mem_map.mp entry
    cases same
    exact capped_ok capGroup_ok group_default_ok _

/-- Whatever it is given, the shaper leaves every value in its range. -/
theorem shaper_ok : (Proto.reconcile info state).1.Ok where
  inputs := by
    intro id x held
    have entry := BTreeMap.mem_of_getElem?_collect _ _ _ held
    obtain ⟨n, -, same⟩ := List.mem_map.mp entry
    cases same
    exact capped_ok capInput_ok input_default_ok _
  outs := by
    intro id x held
    have entry := BTreeMap.mem_of_getElem?_collect _ _ _ held
    obtain ⟨node, -, same⟩ := List.mem_map.mp entry
    cases same
    exact (shapeMix_ok node _).1
  levels := by
    intro id x held
    have entry := BTreeMap.mem_of_getElem?_collect _ _ _ held
    obtain ⟨node, -, same⟩ := List.mem_map.mp entry
    cases same
    exact (shapeMix_ok node _).2.1
  groups := by
    intro id x held
    have entry := BTreeMap.mem_of_getElem?_collect _ _ _ held
    obtain ⟨node, -, same⟩ := List.mem_map.mp entry
    cases same
    exact (shapeMix_ok node _).2.2

end

/-- Whatever it is given, the engine lays out a shaped state. -/
theorem reconcile_shaped (topo : Topology) (state : MixState) :
    Shaped topo (reconcile topo state).1 := by
  have ok : (Proto.reconcile topo.info state).1.Ok := shaper_ok
  have lays : ∀ rec ∈ (reconcile topo state).1.mixes, ∃ (m : ℕ) (id : MixId),
      rec = layMix topo m (Proto.reconcile topo.info state).1.mixes[id]? := by
    intro rec member
    obtain ⟨p, -, rfl⟩ := List.mem_map.mp member
    exact ⟨p.2, p.1.id, rfl⟩
  constructor
  case inputCount => simp [reconcile]
  case mixCount => simp [reconcile]
  case levelCount =>
    intro m rec held
    simp only [reconcile, List.getElem?_map, List.getElem?_zipIdx, Nat.zero_add,
      Option.map_eq_some_iff] at held
    obtain ⟨p, ⟨node, -, rfl⟩, rfl⟩ := held
    simp [layMix]
  case groupCount =>
    intro rec member
    obtain ⟨m, id, rfl⟩ := lays rec member
    simp [layMix]
  case inputsOk =>
    intro x member
    obtain ⟨n, -, rfl⟩ := List.mem_map.mp member
    exact getD_ok (fun x held => ok.inputs n.id x held) input_default_ok
  case outsOk =>
    intro rec member
    obtain ⟨m, id, rfl⟩ := lays rec member
    refine getD_ok (fun out held => ?_) out_default_ok
    obtain ⟨x, there, rfl⟩ := Option.map_eq_some_iff.mp held
    exact ok.outs id x there
  case levelsOk =>
    intro rec member l inside
    obtain ⟨m, id, rfl⟩ := lays rec member
    obtain ⟨k, -, rfl⟩ := List.mem_map.mp inside
    refine getD_ok (fun l held => ?_) level_default_ok
    obtain ⟨source, -, held⟩ := Option.bind_eq_some_iff.mp held
    obtain ⟨x, there, held⟩ := Option.bind_eq_some_iff.mp held
    exact ok.levels id x there source l held
  case groupsOk =>
    intro rec member s inside
    obtain ⟨m, id, rfl⟩ := lays rec member
    obtain ⟨g, -, rfl⟩ := List.mem_map.mp inside
    refine getD_ok (fun s held => ?_) group_default_ok
    obtain ⟨x, there, held⟩ := Option.bind_eq_some_iff.mp held
    exact ok.groups id x there g.id s held

/-! ### What the engine lays out is what the shaper made -/

/-- The ids of the mixes a mix hears and of its peers. -/
private theorem heard_iff {topo : Topology} {m : ℕ} {node : MixNode}
    (held : topo.mixes[m]? = some node) (id : MixId) :
    id ∈ (hears node).filterMap (fun s => topo.mixes[s]?.map (·.id)) ↔
      ∃ k : ℕ, k < topo.levels m ∧ topo.source m k = some (.mix id) := by
  rw [List.mem_filterMap]
  constructor
  · rintro ⟨s, member, named⟩
    obtain ⟨j, bound, rfl⟩ := List.getElem_of_mem member
    refine ⟨topo.inputs.length + j, by rw [levels_eq held]; omega, ?_⟩
    obtain ⟨n, found, rfl⟩ := Option.map_eq_some_iff.mp named
    rw [source_eq held, if_neg (by omega), Nat.add_sub_cancel_left, List.getElem?_eq_getElem bound]
    simp [found]
  · rintro ⟨k, -, read⟩
    rw [source_eq held] at read
    by_cases early : k < topo.inputs.length
    · simp [early] at read
    · rw [if_neg early, Option.bind_eq_some_iff] at read
      obtain ⟨s, there, named⟩ := read
      obtain ⟨n, found, same⟩ := Option.map_eq_some_iff.mp named
      cases same
      exact ⟨s, List.mem_of_getElem? there, by simp [found]⟩

section
variable {topo : Topology} (wf : WellFormed topo)
include wf

section
variable {m : ℕ} {node : MixNode} (held : topo.mixes[m]? = some node)
include held

private theorem read_iff (id : InputId) :
    id ∈ topo.inputs.map (·.id) ↔
      ∃ k : ℕ, k < topo.levels m ∧ topo.source m k = some (.input id) := by
  simp only [source_slot_iff wf held, List.mem_iff_getElem?, List.getElem?_map]
  have slot : topo.slot m (.input id) = topo.inputIndex id := by simp [Topology.slot, held]
  constructor
  · rintro ⟨i, named⟩
    have heard : topo.slot m (.input id) = some i := slot.trans ((inputIndex_iff wf id i).mpr named)
    exact ⟨i, slot_bound wf held heard, heard⟩
  · rintro ⟨k, -, heard⟩
    exact ⟨k, (inputIndex_iff wf id k).mp (slot.symm.trans heard)⟩

/-- The protocol's description of mix `m`. -/
private def infoOf (topo : Topology) (node : MixNode) : MixInfo :=
  { id := node.id
    channels := if node.mono then 1 else 2
    mixes := node.mixes.filterMap fun s => topo.mixes[s]?.map (·.id)
    peers := node.peers.filterMap fun s => topo.mixes[s]?.map (·.id) }

/-- A mix has the levels of its slots. -/
private theorem holds_iff (source : Source) : (infoOf topo node).holds topo.info source = true ↔
    ∃ k, k < topo.levels m ∧ topo.source m k = some source := by
  cases source with
  | input id =>
    rw [← read_iff wf held id]
    simp [MixInfo.holds, Topology.info]
  | mix id =>
    rw [← heard_iff held id, hears, List.filterMap_append, List.mem_append]
    simp [MixInfo.holds, infoOf]

private theorem shaped_level (given : Option Mix) (source : Source) :
    (∃ l, (shapeMix topo.info (infoOf topo node) given).level source = some l) ↔
      ∃ k, k < topo.levels m ∧ topo.source m k = some source := by
  rw [← holds_iff wf held, shapeMix_level]
  cases (infoOf topo node).holds topo.info source <;> simp

private theorem shaped_mix (state : MixState) : (Proto.reconcile topo.info state).1.mixes[node.id]? =
    some (shapeMix topo.info (infoOf topo node) state.mixes[node.id]?) := by
  have distinct : (topo.info.mixes.map (·.id)).Nodup := by
    rw [Topology.info, List.map_map]
    exact mixIds_nodup wf
  have listed : infoOf topo node ∈ topo.info.mixes := List.mem_map.mpr ⟨node, List.mem_of_getElem? held, rfl⟩
  exact reconcile_mix_at topo.info state distinct listed

private theorem laid_mix (state : MixState) : (reconcile topo state).1.mixes[m]? =
    some (layMix topo m (some (shapeMix topo.info (infoOf topo node) state.mixes[node.id]?))) := by
  simp [reconcile, held, shaped_mix wf held]

end

/-! From a layout and back. -/

private theorem laid_level {m : ℕ} {node : MixNode} (held : topo.mixes[m]? = some node) (x : Mix)
    (domain : ∀ source, (∃ l, x.level source = some l) ↔
      ∃ k, k < topo.levels m ∧ topo.source m k = some source) (source : Source) :
    (toMix topo m (layMix topo m (some x))).level source = x.level source := by
  apply Option.ext
  intro l
  rw [toMix_level_iff wf held]
  simp only [layMix, List.getElem?_map, Option.map_eq_some_iff, List.getElem?_eq_some_iff,
    List.getElem_range, List.length_range]
  constructor
  · rintro ⟨k, read, slot, ⟨bound, rfl⟩, rfl⟩
    obtain ⟨l, found⟩ := (domain source).mpr ⟨k, bound, read⟩
    simp [read, found]
  · intro found
    obtain ⟨k, bound, read⟩ := (domain source).mp ⟨l, found⟩
    exact ⟨k, read, k, ⟨bound, rfl⟩, by simp [read, found]⟩

omit wf in
private theorem zip_map_self {α β : Type} (xs : List α) (f : α → β) :
    xs.zip (xs.map f) = xs.map fun x => (x, f x) := by
  have both : (xs.map id).zip (xs.map f) = xs.map fun x => (id x, f x) := List.zip_map'
  simpa using both

private theorem toMix_layMix {m : ℕ} {node : MixNode} (held : topo.mixes[m]? = some node)
    (given : Option Mix) :
    toMix topo m (layMix topo m (some (shapeMix topo.info (infoOf topo node) given))) =
      shapeMix topo.info (infoOf topo node) given := by
  have level := laid_level wf held _ (shaped_level wf held given)
  refine Mix.ext (by simp [layMix]) ?_ ?_ ?_
  · apply Std.ExtTreeMap.ext_getElem?
    exact fun id => level (.input id)
  · let strip : GroupId → MixGroup := fun id =>
      ((given.bind fun x => x.groups[id]?).map capGroup).getD {}
    have shaped : (shapeMix topo.info (infoOf topo node) given).groups =
        BTreeMap.collect ((topo.groups.map (·.id)).map fun id => (id, strip id)) := by
      simp only [shapeMix, Topology.info, List.map_map, Function.comp_def, strip]
    have laid : (layMix topo m (some (shapeMix topo.info (infoOf topo node) given))).groups =
        topo.groups.map fun g => strip g.id := by
      simp only [layMix, Option.bind_some, shaped]
      refine List.map_congr_left fun g member => ?_
      rw [BTreeMap.getElem?_collect_keyed, if_pos (List.mem_map_of_mem member), Option.getD_some]
    simp only [toMix, laid, shaped, zip_map_self, List.map_map, Function.comp_def]
  · apply Std.ExtTreeMap.ext_getElem?
    exact fun id => level (.mix id)

private theorem layMix_toMix {m : ℕ} {node : MixNode} (held : topo.mixes[m]? = some node) {s : Reconciled}
    (shaped : Shaped topo s) {rec : MixRec} (there : s.mixes[m]? = some rec) :
    layMix topo m (some (shapeMix topo.info (infoOf topo node) (some (toMix topo m rec)))) = rec := by
  have member := List.mem_of_getElem? there
  have count := shaped.levelCount m rec there
  have out : (layMix topo m (some (shapeMix topo.info (infoOf topo node) (some (toMix topo m rec))))).out = rec.out := by
    simpa [layMix, shapeMix] using capOut_of_ok (shaped.outsOk rec member)
  have levels : (layMix topo m (some (shapeMix topo.info (infoOf topo node) (some (toMix topo m rec))))).levels =
      rec.levels := by
    apply List.ext_getElem
    · simp [layMix, count]
    · intro k bound inside
      have slot : k < topo.levels m := count ▸ inside
      obtain ⟨source, read⟩ := source_isSome wf held slot
      have found := (toMix_level_iff wf held rec source rec.levels[k]).mpr ⟨k, read, List.getElem?_eq_getElem inside⟩
      have holds := (holds_iff wf held source).mpr ⟨k, slot, read⟩
      have kept := capLevel_of_ok (shaped.levelsOk rec member _ (List.getElem_mem inside))
      simp [layMix, read, shapeMix_level, holds, found, kept]
  have groups : (layMix topo m (some (shapeMix topo.info (infoOf topo node) (some (toMix topo m rec))))).groups =
      rec.groups := by
    apply List.ext_getElem
    · simp [layMix, shaped.groupCount rec member]
    · intro g bound inside
      have slot : g < topo.groups.length := shaped.groupCount rec member ▸ inside
      have found := (toMix_group_iff wf m rec topo.groups[g].id rec.groups[g]).mpr
        ⟨g, by simp [slot], List.getElem?_eq_getElem inside⟩
      have known : ∃ x ∈ topo.info.groups, x.id = topo.groups[g].id :=
        ⟨_, List.mem_map_of_mem (List.getElem_mem slot), rfl⟩
      have kept := capGroup_of_ok (shaped.groupsOk rec member _ (List.getElem_mem inside))
      simp [layMix, shapeMix_group, known, found, kept]
  exact MixRec.ext out levels groups

/-- The engine's layout of a state, in the protocol's form, is what the protocol's shaper
made of it. -/
theorem toState_reconcile (state : MixState) :
    toState topo (reconcile topo state).1 = (Proto.reconcile topo.info state).1 := by
  apply MixState.ext
  · let value : InputId → InputState := fun id => (state.inputs[id]?.map capInput).getD {}
    have shaped : (Proto.reconcile topo.info state).1.inputs =
        BTreeMap.collect ((topo.inputs.map (·.id)).map fun id => (id, value id)) := by
      simp only [Proto.reconcile, Topology.info, List.map_map, Function.comp_def, value]
    have laid : (reconcile topo state).1.inputs = topo.inputs.map fun n => value n.id := by
      simp only [reconcile, shaped]
      refine List.map_congr_left fun n member => ?_
      rw [BTreeMap.getElem?_collect_keyed, if_pos (List.mem_map_of_mem member), Option.getD_some]
    simp only [toState, laid, shaped, zip_map_self, List.map_map, Function.comp_def]
  · have entries : (topo.mixes.zip (reconcile topo state).1.mixes).zipIdx.map (fun p =>
        (p.1.1.id, toMix topo p.2 p.1.2)) =
        topo.info.mixes.map fun node => (node.id, shapeMix topo.info node state.mixes[node.id]?) := by
      apply List.ext_getElem?
      intro m
      cases held : topo.mixes[m]? with
      | none =>
        have past := List.getElem?_eq_none_iff.mp held
        rw [List.getElem?_eq_none (by simp [reconcile, past]),
          List.getElem?_eq_none (by simp [Topology.info, past])]
      | some node =>
        have pair : (topo.mixes.zip (reconcile topo state).1.mixes)[m]? = some (node,
            layMix topo m (some (shapeMix topo.info (infoOf topo node) state.mixes[node.id]?))) :=
          List.getElem?_zip_eq_some.mpr ⟨held, laid_mix wf held state⟩
        have described : topo.info.mixes[m]? = some (infoOf topo node) := by
          simp only [Topology.info, List.getElem?_map, held]
          rfl
        rw [List.getElem?_map, List.getElem?_zipIdx, pair, List.getElem?_map, described]
        simp only [Option.map_some, Nat.zero_add]
        exact congrArg (fun x => some (node.id, x)) (toMix_layMix wf held state.mixes[node.id]?)
    exact congrArg BTreeMap.collect entries

/-- A shaped layout, from its protocol form. -/
theorem reconcile_toState {s : Reconciled} (shaped : Shaped topo s) : (reconcile topo (toState topo s)).1 = s := by
  have inputs : (reconcile topo (toState topo s)).1.inputs = s.inputs := by
    apply List.ext_getElem?
    intro i
    cases held : topo.inputs[i]? with
    | none =>
      have past := List.getElem?_eq_none_iff.mp held
      rw [List.getElem?_eq_none (by simp [reconcile, past]), List.getElem?_eq_none (by rw [shaped.inputCount]; exact past)]
    | some n =>
      obtain ⟨bound, -⟩ := List.getElem?_eq_some_iff.mp held
      have there := List.getElem?_eq_getElem (shaped.inputCount.symm ▸ bound)
      have given := (toState_input_iff wf s n.id _).mpr ⟨i, by simp [held], there⟩
      have known : ∃ x ∈ topo.info.inputs, x.id = n.id :=
        ⟨_, List.mem_map_of_mem (List.mem_of_getElem? held), rfl⟩
      have kept := capInput_of_ok (shaped.inputsOk _ (List.mem_of_getElem? there))
      simp [reconcile, held, reconcile_input, known, given, kept, there]
  have mixes : (reconcile topo (toState topo s)).1.mixes = s.mixes := by
    apply List.ext_getElem?
    intro m
    cases held : topo.mixes[m]? with
    | none =>
      have past := List.getElem?_eq_none_iff.mp held
      rw [List.getElem?_eq_none (by simp [reconcile, past]), List.getElem?_eq_none (by rw [shaped.mixCount]; exact past)]
    | some node =>
      obtain ⟨bound, -⟩ := List.getElem?_eq_some_iff.mp held
      have there := List.getElem?_eq_getElem (shaped.mixCount.symm ▸ bound)
      have given := (toState_mix_iff wf s node.id _).mpr ⟨m, _, by simp [held], there, rfl⟩
      rw [laid_mix wf held, given, there, layMix_toMix wf held shaped there]
  exact Reconciled.ext inputs mixes

/-- The protocol's shaper leaves a shaped state as it is and drops nothing. -/
theorem shaper_fixed {s : Reconciled} (shaped : Shaped topo s) :
    Proto.reconcile topo.info (toState topo s) = (toState topo s, []) := by
  have same : (Proto.reconcile topo.info (toState topo s)).1 = toState topo s := by
    rw [← toState_reconcile wf, reconcile_toState wf shaped]
  have distinct : (topo.info.mixes.map (·.id)).Nodup := by
    rw [Topology.info, List.map_map]
    exact mixIds_nodup wf
  have none := none_lacking topo.info (toState topo s) distinct
  rw [same] at none
  apply Prod.ext same
  rw [reconcile_dropped, none, List.map_nil]

end

/-! ### Writes that keep the shape -/

theorem Shaped.set_input {topo : Topology} {s : Reconciled} (shaped : Shaped topo s) (i : ℕ)
    {new : InputState} (ok : new.Ok) : Shaped topo { s with inputs := s.inputs.set i new } where
  inputCount := by simpa using shaped.inputCount
  mixCount := shaped.mixCount
  levelCount := shaped.levelCount
  groupCount := shaped.groupCount
  inputsOk := by
    intro x member
    rcases List.mem_or_eq_of_mem_set member with old | rfl
    · exact shaped.inputsOk x old
    · exact ok
  outsOk := shaped.outsOk
  levelsOk := shaped.levelsOk
  groupsOk := shaped.groupsOk

/-- A record as long as the one it replaces, every value in range. -/
structure Fits (old new : MixRec) : Prop where
  levelCount : new.levels.length = old.levels.length
  groupCount : new.groups.length = old.groups.length
  outOk : new.out.Ok
  levelsOk : ∀ l ∈ new.levels, l.Ok
  groupsOk : ∀ g ∈ new.groups, g.Ok

theorem Shaped.modify_mix {topo : Topology} {s : Reconciled} (shaped : Shaped topo s) (m : ℕ)
    {f : MixRec → MixRec} (fits : ∀ rec, s.mixes[m]? = some rec → Fits rec (f rec)) :
    Shaped topo { s with mixes := s.mixes.modify m f } := by
  -- Every record of the new state is an old one, or the one at `m` written.
  have origin : ∀ (k : ℕ) (rec : MixRec), (s.mixes.modify m f)[k]? = some rec →
      s.mixes[k]? = some rec ∨ ∃ old, s.mixes[k]? = some old ∧ Fits old rec := by
    intro k rec held
    rw [List.getElem?_modify] at held
    by_cases here : m = k
    · subst here
      simp only [Option.map_eq_map, Option.map_eq_some_iff, if_true] at held
      obtain ⟨old, was, rfl⟩ := held
      exact .inr ⟨old, was, fits old was⟩
    · simp only [Option.map_eq_map, if_neg here, Option.map_id_fun', id_eq] at held
      exact .inl held
  have member : ∀ rec ∈ s.mixes.modify m f, rec ∈ s.mixes ∨ ∃ old ∈ s.mixes, Fits old rec := by
    intro rec inside
    obtain ⟨k, held⟩ := List.mem_iff_getElem?.mp inside
    rcases origin k rec held with old | ⟨old, was, new⟩
    · exact .inl (List.mem_of_getElem? old)
    · exact .inr ⟨old, List.mem_of_getElem? was, new⟩
  constructor
  case inputCount => exact shaped.inputCount
  case mixCount => simpa using shaped.mixCount
  case levelCount =>
    intro k rec held
    rcases origin k rec held with old | ⟨old, was, new⟩
    · exact shaped.levelCount k rec old
    · exact new.levelCount.trans (shaped.levelCount k old was)
  case groupCount =>
    intro rec inside
    rcases member rec inside with old | ⟨old, was, new⟩
    · exact shaped.groupCount rec old
    · exact new.groupCount.trans (shaped.groupCount old was)
  case inputsOk => exact shaped.inputsOk
  case outsOk =>
    intro rec inside
    rcases member rec inside with old | ⟨old, was, new⟩
    · exact shaped.outsOk rec old
    · exact new.outOk
  case levelsOk =>
    intro rec inside
    rcases member rec inside with old | ⟨old, was, new⟩
    · exact shaped.levelsOk rec old
    · exact new.levelsOk
  case groupsOk =>
    intro rec inside
    rcases member rec inside with old | ⟨old, was, new⟩
    · exact shaped.groupsOk rec old
    · exact new.groupsOk

/-! ### Writes as the protocol sees them -/

section
variable {topo : Topology} (wf : WellFormed topo)
include wf

theorem toState_set_input (r : Reconciled) {i : ℕ} {node : InputNode} {old : InputState}
    (new : InputState) (found : topo.inputs[i]? = some node) (held : r.inputs[i]? = some old) :
    toState topo { r with inputs := r.inputs.set i new } =
      { toState topo r with inputs := (toState topo r).inputs.insert node.id new } := by
  obtain ⟨bound, -⟩ := List.getElem?_eq_some_iff.mp held
  exact MixState.ext (BTreeMap.collect_zip_set (inputIds_nodup wf) new found bound) rfl

theorem toState_modify_mix (r : Reconciled) {m : ℕ} {node : MixNode} {rec : MixRec}
    (f : MixRec → MixRec) (found : topo.mixes[m]? = some node) (held : r.mixes[m]? = some rec) :
    (toState topo r).mixes[node.id]? = some (toMix topo m rec) ∧
    toState topo { r with mixes := r.mixes.modify m f } =
      { toState topo r with
        mixes := (toState topo r).mixes.insert node.id (toMix topo m (f rec)) } := by
  refine ⟨(toState_mix_iff wf r node.id _).mpr ⟨m, rec, by simp [found], held, rfl⟩, ?_⟩
  refine MixState.ext rfl ?_
  apply Std.ExtTreeMap.ext_getElem?
  intro id
  apply Option.ext
  intro x
  simp only [BTreeMap.getElem?_insert_eq]
  by_cases here : node.id = id
  · rw [if_pos here, toState_mix_iff wf]
    have at_m : topo.mixes[m]?.map (·.id) = some id := by simp [found, here]
    have written : (r.mixes.modify m f)[m]? = some (f rec) := by simp [held]
    constructor
    · rintro ⟨j, other, named, there, rfl⟩
      rw [BTreeMap.name_inj (mixIds_nodup wf) named at_m] at there ⊢
      cases written.symm.trans there
      rfl
    · intro same
      cases same
      exact ⟨m, f rec, at_m, written, rfl⟩
  · rw [if_neg here, toState_mix_iff wf, toState_mix_iff wf]
    refine exists_congr fun j => exists_congr fun other => and_congr_right fun named => ?_
    have apart : m ≠ j := by
      rintro rfl
      simp [found] at named
      exact here named
    simp [apart]

/-- Records with the same levels give the same level maps. -/
private theorem toMix_levels_congr {m : ℕ} {node : MixNode} (found : topo.mixes[m]? = some node)
    (rec rec' : MixRec) (same : rec.levels = rec'.levels) :
    (toMix topo m rec).inputs = (toMix topo m rec').inputs ∧
      (toMix topo m rec).mixes = (toMix topo m rec').mixes := by
  have levels : ∀ source, (toMix topo m rec).level source = (toMix topo m rec').level source := by
    intro source
    apply Option.ext
    intro l
    rw [toMix_level_iff wf found, toMix_level_iff wf found, same]
  exact ⟨Std.ExtTreeMap.ext_getElem? fun {id} => levels (.input id),
    Std.ExtTreeMap.ext_getElem? fun {id} => levels (.mix id)⟩

theorem toMix_set_out {m : ℕ} {node : MixNode} (found : topo.mixes[m]? = some node) (rec : MixRec)
    (new : MixOut) : toMix topo m { rec with out := new } = { toMix topo m rec with out := new } := by
  obtain ⟨inputs, mixes⟩ := toMix_levels_congr wf found { rec with out := new } rec rfl
  exact Mix.ext (toMix_out m _) inputs rfl mixes

theorem toMix_set_level {m k : ℕ} {node : MixNode} {source : Source} {old : Level}
    (found : topo.mixes[m]? = some node) (rec : MixRec) (new : Level)
    (read : topo.source m k = some source) (held : rec.levels[k]? = some old) :
    toMix topo m { rec with levels := rec.levels.set k new } =
      match source with
      | .input id => { toMix topo m rec with inputs := (toMix topo m rec).inputs.insert id new }
      | .mix id => { toMix topo m rec with mixes := (toMix topo m rec).mixes.insert id new } := by
  obtain ⟨bound, -⟩ := List.getElem?_eq_some_iff.mp held
  have levels : ∀ other, (toMix topo m { rec with levels := rec.levels.set k new }).level other =
      if source = other then some new else (toMix topo m rec).level other := by
    intro other
    apply Option.ext
    intro l
    by_cases here : source = other
    · subst here
      rw [if_pos rfl, toMix_level_iff wf found]
      constructor
      · rintro ⟨j, same, there⟩
        rw [source_slot_iff wf found] at read same
        cases read.symm.trans same
        rw [List.getElem?_set_self bound] at there
        exact there
      · intro same
        exact ⟨k, read, by rw [List.getElem?_set_self bound, same]⟩
    · rw [if_neg here, toMix_level_iff wf found, toMix_level_iff wf found]
      refine exists_congr fun j => and_congr_right fun reads => ?_
      have apart : k ≠ j := by
        rintro rfl
        exact here (Option.some.inj (read.symm.trans reads))
      rw [List.getElem?_set_ne apart]
  have out : (toMix topo m { rec with levels := rec.levels.set k new }).out = (toMix topo m rec).out := by
    rw [toMix_out, toMix_out]
  cases source with
  | input id =>
    refine Mix.ext out (Std.ExtTreeMap.ext_getElem? fun {other} => ?_) rfl
      (Std.ExtTreeMap.ext_getElem? fun {other} => ?_)
    · have at_other := levels (.input other)
      simp only [Mix.level, Source.input.injEq] at at_other
      rw [at_other, BTreeMap.getElem?_insert_eq]
    · have at_other := levels (.mix other)
      simpa only [Mix.level, reduceCtorEq, if_false] using at_other
  | mix id =>
    refine Mix.ext out (Std.ExtTreeMap.ext_getElem? fun {other} => ?_) rfl
      (Std.ExtTreeMap.ext_getElem? fun {other} => ?_)
    · have at_other := levels (.input other)
      simpa only [Mix.level, reduceCtorEq, if_false] using at_other
    · have at_other := levels (.mix other)
      simp only [Mix.level, Source.mix.injEq] at at_other
      rw [at_other, BTreeMap.getElem?_insert_eq]

theorem toMix_set_group {m g : ℕ} {node : MixNode} {group : GroupNode} {old : MixGroup}
    (found : topo.mixes[m]? = some node) (rec : MixRec) (new : MixGroup)
    (named : topo.groups[g]? = some group) (held : rec.groups[g]? = some old) :
    toMix topo m { rec with groups := rec.groups.set g new } =
      { toMix topo m rec with groups := (toMix topo m rec).groups.insert group.id new } := by
  obtain ⟨bound, -⟩ := List.getElem?_eq_some_iff.mp held
  obtain ⟨inputs, mixes⟩ :=
    toMix_levels_congr wf found { rec with groups := rec.groups.set g new } rec rfl
  have groups := BTreeMap.collect_zip_set (groupIds_nodup wf) new named bound
  exact Mix.ext (by rw [toMix_out, toMix_out]) inputs groups mixes

end

end IemMixer
