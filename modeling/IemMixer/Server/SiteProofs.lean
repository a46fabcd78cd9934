import IemMixer.TopologyIndex
import IemMixer.Server.View

/-! A view's ids are the topology's: one name space, and each mix hears known mixes once. -/
namespace IemMixer.Server
open Lib Proto TopologyProofs

/-- What a view relies on in an announced topology. -/
structure Named (topo : TopologyInfo) : Prop where
  ids : (topo.inputs.map (·.id) ++ topo.groups.map (·.id) ++ topo.mixes.map (·.id)).Nodup
  once : ∀ m ∈ topo.mixes, (m.mixes ++ m.peers).Nodup
  known : ∀ m ∈ topo.mixes, ∀ h ∈ m.mixes ++ m.peers, h ∈ topo.mixes.map (·.id)

section
variable {topo : Topology}

/-- Distinct places have distinct names. -/
theorem names_nodup (ids : (topo.mixes.map (·.id)).Nodup) {places : List ℕ} (once : places.Nodup) :
    (places.filterMap fun m => topo.mixes[m]?.map (·.id)).Nodup := by
  apply once.filterMap
  intro i j id inI inJ
  rw [Option.mem_def] at inI inJ
  exact BTreeMap.name_inj ids inI inJ

theorem info_named (wf : WellFormed topo) : Named topo.info where
  ids := by simpa [Topology.info, Function.comp_def] using wf.ids
  once := by
    intro m member
    obtain ⟨node, inside, rfl⟩ := List.mem_map.mp member
    obtain ⟨i, place⟩ := List.mem_iff_getElem?.mp inside
    have names := names_nodup (mixIds_nodup wf) (hears_nodup wf place)
    rwa [hears, List.filterMap_append] at names
  known := by
    intro m member h heard
    obtain ⟨node, inside, rfl⟩ := List.mem_map.mp member
    have named : ∀ places : List ℕ, h ∈ (places.filterMap fun m => topo.mixes[m]?.map (·.id)) →
        h ∈ topo.info.mixes.map (·.id) := by
      intro places among
      obtain ⟨p, -, there⟩ := List.mem_filterMap.mp among
      obtain ⟨n, found, rfl⟩ := Option.map_eq_some_iff.mp there
      simpa [Topology.info, Function.comp_def] using
        List.mem_map_of_mem (f := (·.id)) (List.mem_of_getElem? found)
    rcases List.mem_append.mp heard with whole | peer
    · exact named node.mixes whole
    · exact named node.peers peer

end

section
variable {topo : TopologyInfo} (named : Named topo) (cfg : Config) (roster : Option RosterState) {page : Page}
  {viewer : Viewer}

/-- The mix a page hears by, in the topology. -/
theorem mix_info {id : MixId} {m : MixView} (found : (SiteView.buildWith cfg roster topo).1.mix id = some m) :
    ∃ x ∈ topo.mixes, x.id = id ∧ m.id = id ∧ m.hears = x.mixes ++ x.peers := by
  have same : m.id = id := by simpa using List.find?_some found
  obtain ⟨x, member, rfl⟩ := List.mem_map.mp (List.mem_of_find?_eq_some found)
  exact ⟨x, member, same, same, rfl⟩

include named

theorem heard_nodup : (heard (SiteView.buildWith cfg roster topo).1 page viewer).Nodup := by
  unfold heard
  split
  · cases found : (SiteView.buildWith cfg roster topo).1.mix page.mix with
    | none => simp
    | some m =>
      obtain ⟨x, member, -, -, hears⟩ := mix_info cfg roster found
      simp only [Option.map_some, Option.getD_some, hears]
      exact (named.once x member).filter _
  · exact List.nodup_nil

theorem heard_known {h : MixId} (member : h ∈ heard (SiteView.buildWith cfg roster topo).1 page viewer) :
    h ∈ topo.mixes.map (·.id) := by
  unfold heard at member
  split at member
  · cases found : (SiteView.buildWith cfg roster topo).1.mix page.mix with
    | none => simp [found] at member
    | some m =>
      obtain ⟨x, inside, -, -, hears⟩ := mix_info cfg roster found
      simp only [found, Option.map_some, Option.getD_some, hears] at member
      exact named.known x inside h (List.mem_of_mem_filter member)
  · cases member

end

section
variable {topo : Topology} (wf : WellFormed topo) (cfg : Config) (roster : Option RosterState) {id : String}
  {page : Page} {viewer : Viewer} (paged : (SiteView.buildWith cfg roster topo.info).1.page id = some page)

include paged in
/-- A page's mix is an engine's mix. -/
theorem page_mix : ∃ node ∈ topo.mixes, node.id = page.mix := by
  unfold SiteView.page at paged
  cases member : (SiteView.buildWith cfg roster topo.info).1.member id with
  | some mem =>
    simp only [member, Option.some.injEq] at paged
    obtain rfl := paged
    have among : mem ∈ SiteView.knownMembers cfg roster topo.info := List.mem_of_find?_eq_some member
    simpa [SiteView.knownMembers, Topology.info] using (List.mem_filter.mp among).2
  | none =>
    simp only [member, Option.map_eq_some_iff] at paged
    obtain ⟨mv, found, rfl⟩ := paged
    obtain ⟨info, inside, rfl⟩ := List.mem_map.mp (List.mem_of_find?_eq_some found)
    obtain ⟨node, there, rfl⟩ := List.mem_map.mp inside
    exact ⟨node, there, rfl⟩

include wf

theorem mixIndex_of_mem {node : MixNode} (inside : node ∈ topo.mixes) :
    ∃ m, topo.mixes[m]? = some node ∧ topo.mixIndex node.id = some m := by
  obtain ⟨m, place⟩ := List.mem_iff_getElem?.mp inside
  exact ⟨m, place, (mixIndex_iff wf _ _).mpr (by rw [place]; rfl)⟩

/-- Every source a page shows has a slot in its mix. -/
theorem shown_slot {m : ℕ} (known : topo.mixIndex page.mix = some m) {source : Source}
    (visible : shown (SiteView.buildWith cfg roster topo.info).1 page viewer source = true) :
    ∃ k, topo.slot m source = some k := by
  obtain ⟨node, found, named⟩ := Option.map_eq_some_iff.mp ((mixIndex_iff wf page.mix m).mp known)
  cases source with
  | input id =>
    have there : ∃ n ∈ topo.inputs, n.id = id := by
      simp only [shown, showsInput, Bool.and_eq_true] at visible
      obtain ⟨iv, input⟩ := Option.isSome_iff_exists.mp visible.1
      obtain ⟨info, inside, rfl⟩ := List.mem_map.mp (List.mem_of_find?_eq_some input)
      obtain ⟨n, member, rfl⟩ := List.mem_map.mp inside
      exact ⟨n, member, by simpa [SiteView.inputView] using List.find?_some input⟩
    obtain ⟨n, member, rfl⟩ := there
    obtain ⟨i, place⟩ := List.mem_iff_getElem?.mp member
    exact ⟨i, by
      rw [show topo.slot m (.input n.id) = topo.inputIndex n.id by simp [Topology.slot, found]]
      exact (inputIndex_iff wf _ _).mpr (by rw [place]; rfl)⟩
  | mix id =>
    have heard : id ∈ Server.heard (SiteView.buildWith cfg roster topo.info).1 page viewer := by
      simpa [shown] using visible
    unfold Server.heard at heard
    split at heard
    · cases view : (SiteView.buildWith cfg roster topo.info).1.mix page.mix with
      | none => simp [view] at heard
      | some mv =>
        obtain ⟨info, inside, here, -, hears'⟩ := mix_info cfg roster view
        obtain ⟨other, member, rfl⟩ := List.mem_map.mp inside
        obtain ⟨j, place⟩ := List.mem_iff_getElem?.mp member
        -- Ids are distinct, so that record is the page's mix.
        have index : topo.mixIndex page.mix = some j :=
          (mixIndex_iff wf _ _).mpr (by rw [place]; exact congrArg some here)
        obtain rfl : m = j := Option.some.inj (known.symm.trans index)
        obtain rfl : node = other := Option.some.inj (found.symm.trans place)
        simp only [view, Option.map_some, Option.getD_some, hears', ← List.filterMap_append] at heard
        obtain ⟨p, among, read⟩ := List.mem_filterMap.mp (List.mem_of_mem_filter heard)
        obtain ⟨i, hit⟩ := Option.isSome_iff_exists.mp
          (List.findIdx?_isSome (p := (· == p)) ▸ List.any_eq_true.mpr ⟨p, among, by simp⟩ :
            (hears node).findIdx? (· == p) |>.isSome)
        exact ⟨topo.inputs.length + i, by
          rw [slot_mix_eq found, (mixIndex_iff wf _ _).mpr read]
          simp [hit]⟩
    · cases heard

end

end IemMixer.Server
