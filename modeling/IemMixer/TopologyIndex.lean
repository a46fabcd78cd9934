import IemMixer.TopologyProofs

/-! Names and slots of a compiled topology: an id leads to the entity it names, and
a level slot of a mix to the one source it reads. -/
namespace IemMixer.TopologyProofs
open Lib Proto

theorem findIdx?_eq_some_iff_getElem? {l : List ℕ} (distinct : l.Nodup) (s j : ℕ) :
    l.findIdx? (· == s) = some j ↔ l[j]? = some s := by
  constructor
  · intro found
    obtain ⟨bound, hit, -⟩ := List.findIdx?_eq_some_iff_getElem.mp found
    rw [List.getElem?_eq_getElem bound, beq_iff_eq.mp hit]
  · intro held
    obtain ⟨bound, rfl⟩ := List.getElem?_eq_some_iff.mp held
    refine List.findIdx?_eq_some_iff_getElem.mpr ⟨bound, by simp, fun i earlier => ?_⟩
    intro same
    have index := (distinct.getElem_inj_iff).mp (beq_iff_eq.mp same)
    omega

theorem indexOf_iff {ids : List String} (distinct : ids.Nodup) (id : String) (i : ℕ) :
    (indexOf ids)[id]? = some i ↔ ids[i]? = some id := by
  have keys : (ids.zipIdx.map Prod.fst).Nodup := by simpa using distinct
  rw [indexOf, BTreeMap.getElem?_collect_iff _ keys, List.mem_zipIdx_iff_getElem?]

section
variable {topo : Topology} (wf : WellFormed topo)
include wf

theorem inputIndex_iff (id : InputId) (i : ℕ) :
    topo.inputIndex id = some i ↔ topo.inputs[i]?.map (·.id) = some id := by
  have distinct := (List.nodup_append.mp (List.nodup_append.mp wf.ids).1).1
  rw [Topology.inputIndex, wf.inputMap, indexOf_iff distinct, List.getElem?_map]

theorem groupIndex_iff (id : GroupId) (g : ℕ) :
    topo.groupIndex id = some g ↔ topo.groups[g]?.map (·.id) = some id := by
  have distinct := (List.nodup_append.mp (List.nodup_append.mp wf.ids).1).2.1
  rw [Topology.groupIndex, wf.groupMap, indexOf_iff distinct, List.getElem?_map]

theorem mixIndex_iff (id : MixId) (m : ℕ) :
    topo.mixIndex id = some m ↔ topo.mixes[m]?.map (·.id) = some id := by
  have distinct := (List.nodup_append.mp wf.ids).2.1
  rw [Topology.mixIndex, wf.mixMap, indexOf_iff distinct, List.getElem?_map]

theorem inputIds_nodup : (topo.inputs.map (·.id)).Nodup :=
  (List.nodup_append.mp (List.nodup_append.mp wf.ids).1).1

theorem groupIds_nodup : (topo.groups.map (·.id)).Nodup :=
  (List.nodup_append.mp (List.nodup_append.mp wf.ids).1).2.1

theorem mixIds_nodup : (topo.mixes.map (·.id)).Nodup := (List.nodup_append.mp wf.ids).2.1

/-- The mixes a mix hears, then its peers: its level slots after the inputs. -/
def hears (node : MixNode) : List ℕ := node.mixes ++ node.peers

omit wf in
theorem levels_eq {m : ℕ} {node : MixNode} (held : topo.mixes[m]? = some node) :
    topo.levels m = topo.inputs.length + (hears node).length := by
  simp [Topology.levels, held, hears]

theorem hears_nodup {m : ℕ} {node : MixNode} (held : topo.mixes[m]? = some node) :
    (hears node).Nodup := by
  have member := List.mem_of_getElem? held
  refine List.nodup_append.mpr ⟨wf.heardOnce node member, wf.peersOnce node member, ?_⟩
  rintro s heard p peer rfl
  exact (wf.peersOther m node held s peer).2.2 heard

theorem hears_bound {m s : ℕ} {node : MixNode} (held : topo.mixes[m]? = some node)
    (member : s ∈ hears node) : s < topo.mixes.length := by
  obtain ⟨bound, -⟩ := List.getElem?_eq_some_iff.mp held
  rcases List.mem_append.mp member with heard | peer
  · exact Nat.lt_trans (wf.heardBefore m node held s heard) bound
  · exact (wf.peersOther m node held s peer).1

omit wf in
theorem source_eq {m : ℕ} {node : MixNode} (held : topo.mixes[m]? = some node) (k : ℕ) :
    topo.source m k = if k < topo.inputs.length then topo.inputs[k]?.map fun n => .input n.id
      else (hears node)[k - topo.inputs.length]?.bind fun s => topo.mixes[s]?.map fun n => .mix n.id := by
  by_cases bound : k < topo.inputs.length
  · simp [Topology.source, held, bound]
  · have past : topo.inputs[k]? = none := List.getElem?_eq_none (by omega)
    simp only [Topology.source, held, past, bound, if_false, hears, List.getElem?_append]
    by_cases early : k - topo.inputs.length < node.mixes.length
    · simp [early]
    · simp [early]

omit wf in
theorem slot_mix_eq {m : ℕ} {node : MixNode} (held : topo.mixes[m]? = some node) (id : MixId) :
    topo.slot m (.mix id) = (topo.mixIndex id).bind fun s =>
      ((hears node).findIdx? (· == s)).map (topo.inputs.length + ·) := by
  simp only [Topology.slot, held, Option.bind_eq_bind, Option.bind_some, hears]
  cases topo.mixIndex id with
  | none => rfl
  | some s =>
    simp only [Option.bind_some, List.findIdx?_append]
    cases node.mixes.findIdx? (· == s) with
    | some k => rfl
    | none =>
      cases node.peers.findIdx? (· == s) with
      | none => rfl
      | some k => simp [Nat.add_comm]

/-- A level slot reads one source, and a source a mix hears has one slot. -/
theorem source_slot_iff {m : ℕ} {node : MixNode} (held : topo.mixes[m]? = some node) (k : ℕ)
    (source : Source) : topo.source m k = some source ↔ topo.slot m source = some k := by
  rw [source_eq held]
  cases source with
  | input id =>
    have slot : topo.slot m (.input id) = topo.inputIndex id := by simp [Topology.slot, held]
    rw [slot, inputIndex_iff wf]
    by_cases bound : k < topo.inputs.length
    · simp [bound]
    · simp [bound, Option.bind_eq_some_iff]
  | mix id =>
    rw [slot_mix_eq held, Option.bind_eq_some_iff]
    by_cases bound : k < topo.inputs.length
    · simp only [bound, if_true, Option.map_eq_some_iff, reduceCtorEq, and_false, exists_false,
        false_iff, not_exists, not_and]
      intro s _ j _
      omega
    · simp only [bound, if_false, Option.bind_eq_some_iff, Option.map_eq_some_iff,
        findIdx?_eq_some_iff_getElem? (hears_nodup wf held), mixIndex_iff wf, Source.mix.injEq]
      constructor
      · rintro ⟨s, heard, n, found, rfl⟩
        exact ⟨s, ⟨n, found, rfl⟩, k - topo.inputs.length, heard, by omega⟩
      · rintro ⟨s, ⟨n, found, rfl⟩, j, heard, rfl⟩
        exact ⟨s, by simpa using heard, n, found, rfl⟩

theorem source_isSome {m k : ℕ} {node : MixNode} (held : topo.mixes[m]? = some node)
    (bound : k < topo.levels m) : ∃ source, topo.source m k = some source := by
  rw [levels_eq held] at bound
  rw [source_eq held]
  by_cases early : k < topo.inputs.length
  · exact ⟨.input topo.inputs[k].id, by simp [early]⟩
  · have inside : k - topo.inputs.length < (hears node).length := by omega
    have known := hears_bound wf held (List.getElem_mem inside)
    simp only [early, if_false, List.getElem?_eq_getElem inside, Option.bind_some,
      List.getElem?_eq_getElem known, Option.map_some]
    exact ⟨_, rfl⟩

theorem slot_bound {m k : ℕ} {node : MixNode} {source : Source} (held : topo.mixes[m]? = some node)
    (heard : topo.slot m source = some k) : k < topo.levels m := by
  have read := (source_slot_iff wf held k source).mpr heard
  rw [source_eq held] at read
  rw [levels_eq held]
  by_cases early : k < topo.inputs.length
  · omega
  · simp only [early, if_false, Option.bind_eq_some_iff] at read
    obtain ⟨s, there, -⟩ := read
    obtain ⟨inside, -⟩ := List.getElem?_eq_some_iff.mp there
    omega

end
end IemMixer.TopologyProofs
