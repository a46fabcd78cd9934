import Mathlib.Data.List.Perm.Basic
import Mathlib.Data.Finset.Basic
import IemMixer.TopologyProofs
import IemMixer.Rt.Render

/-! The render order of a compiled topology: every buffer a mix reads was written
earlier in the same segment, so a segment owes nothing to the buffers the last one
left, and what each mix hears is what `Carries` says its sources bring. -/
namespace IemMixer.Rt
open Lib Proto TopologyProofs

theorem renderOrder_perm (mixes : List MixNode) :
    (renderOrder mixes).Perm (List.range mixes.length) := by
  have complement : (List.range mixes.length).filter (fun m => mixes[m]?.any (!·.hearsNothing)) =
      (List.range mixes.length).filter (fun m => !mixes[m]?.any (·.hearsNothing)) := by
    apply List.filter_congr
    intro m member
    simp [List.getElem?_eq_getElem (List.mem_range.mp member)]
  rw [renderOrder, complement]
  exact List.filter_append_perm _ _

theorem mem_renderOrder {mixes : List MixNode} {m : ℕ} :
    m ∈ renderOrder mixes ↔ m < mixes.length :=
  (renderOrder_perm mixes).mem_iff.trans List.mem_range

/-- Whether mix `m` hears no other mix. -/
def quiet (mixes : List MixNode) (m : ℕ) : Bool := mixes[m]?.any (·.hearsNothing)

private theorem loud_of_any {mixes : List MixNode} {m : ℕ}
    (loud : mixes[m]?.any (!·.hearsNothing) = true) : quiet mixes m = false := by
  unfold quiet
  cases held : mixes[m]? with
  | none => rfl
  | some node => simpa [held] using loud

private theorem renderOrder_sorted (mixes : List MixNode) :
    (renderOrder mixes).Pairwise fun a b => quiet mixes a = false → quiet mixes b = false ∧ a < b := by
  refine List.pairwise_append.mpr ⟨?_, ?_, ?_⟩
  · apply List.Pairwise.imp_of_mem _ (List.pairwise_lt_range.filter _)
    intro a b silent _ _ loud
    have hush : quiet mixes a = true := (List.mem_filter.mp silent).2
    simp [hush] at loud
  · apply List.Pairwise.imp_of_mem _ (List.pairwise_lt_range.filter _)
    intro a b _ member less _
    exact ⟨loud_of_any (List.mem_filter.mp member).2, less⟩
  · intro a silent b _ loud
    have hush : quiet mixes a = true := (List.mem_filter.mp silent).2
    simp [hush] at loud

/-- A mix that hears something comes after every mix declared before it and after
every mix that hears nothing. -/
theorem renderOrder_before {mixes : List MixNode} {pre post : List ℕ} {m s : ℕ}
    (shape : renderOrder mixes = pre ++ m :: post) (loud : quiet mixes m = false)
    (bound : s < mixes.length) (sooner : s < m ∨ quiet mixes s = true) : s ∈ pre := by
  have listed : s ∈ pre ++ m :: post := shape ▸ mem_renderOrder.mpr bound
  rcases List.mem_append.mp listed with early | late
  · exact early
  exfalso
  rcases List.mem_cons.mp late with rfl | late
  · rcases sooner with less | silent
    · omega
    · simp [silent] at loud
  · have sorted := renderOrder_sorted mixes
    rw [shape] at sorted
    have after := (List.pairwise_cons.mp (List.pairwise_append.mp sorted).2.1).1 s late loud
    rcases sooner with less | silent
    · omega
    · simp [silent] at after

private theorem loud_of_member {topo : Topology} {m s : ℕ} {node : MixNode} (held : topo.mixes[m]? = some node)
    (member : s ∈ node.mixes ∨ s ∈ node.peers) : quiet topo.mixes m = false := by
  rcases member with heard | peer
  · have some_mix : node.mixes ≠ [] := List.ne_nil_of_mem heard
    simp [quiet, held, MixNode.hearsNothing, some_mix]
  · have some_peer : node.peers ≠ [] := List.ne_nil_of_mem peer
    simp [quiet, held, MixNode.hearsNothing, some_peer]

section
variable {topo : Topology} (wf : WellFormed topo)
include wf

/-- A mix heard whole is rendered before the mix that hears it. -/
theorem heard_rendered {pre post : List ℕ} {m s : ℕ} {node : MixNode}
    (shape : topo.order = pre ++ m :: post) (held : topo.mixes[m]? = some node)
    (member : s ∈ node.mixes) : s ∈ pre := by
  have less := wf.heardBefore m node held s member
  obtain ⟨bound, -⟩ := List.getElem?_eq_some_iff.mp held
  exact renderOrder_before (wf.order ▸ shape) (loud_of_member held (.inl member))
    (Nat.lt_trans less bound) (.inl less)

/-- A peer without a shadow hears nothing: what it renders is its own output. -/
theorem quiet_of_unshadowed {m p : ℕ} {node peer : MixNode} (held : topo.mixes[m]? = some node)
    (member : p ∈ node.peers) (found : topo.mixes[p]? = some peer) (plain : peer.shadow = false) :
    peer.hearsNothing = true := by
  have asPeer : topo.mixes.any (·.peers.contains p) = true := by
    rw [List.any_eq_true]
    exact ⟨node, List.mem_of_getElem? held, by simpa using member⟩
  have shadow := wf.shadow p peer found
  rw [plain, asPeer, Bool.true_and] at shadow
  simpa using shadow.symm

/-- A peer has a shadow, or is rendered before the mix that hears it. -/
theorem peer_rendered {pre post : List ℕ} {m p : ℕ} {node peer : MixNode}
    (shape : topo.order = pre ++ m :: post) (held : topo.mixes[m]? = some node)
    (member : p ∈ node.peers) (found : topo.mixes[p]? = some peer) :
    peer.shadow = true ∨ p ∈ pre := by
  cases shadowed : peer.shadow with
  | true => exact .inl rfl
  | false =>
    have silent := quiet_of_unshadowed wf held member found shadowed
    refine .inr (renderOrder_before (wf.order ▸ shape) (loud_of_member held (.inr member))
      (wf.peersOther m node held p member).1 (.inr ?_))
    simp [quiet, found, silent]

end

/-- Mix `m` reads the sum of `s`: it hears it whole, or as a peer with no shadow.
Past the end a sum is left as it is. -/
def Reads (topo : Topology) (m s : ℕ) : Prop :=
  (topo.mixes[m]? = none ∧ s = m) ∨ ∃ node, topo.mixes[m]? = some node ∧
    (s ∈ node.mixes ∨ s ∈ node.peers ∧ topo.mixes[s]?.any (·.shadow) = false)

theorem order_ready {topo : Topology} (wf : WellFormed topo) :
    Schedule.Ready (Reads topo) topo.order := by
  constructor
  case once =>
    rw [wf.order]
    exact (renderOrder_perm topo.mixes).nodup_iff.mpr List.nodup_range
  case earlier =>
    rintro pre m post shape s (⟨missing, rfl⟩ | ⟨node, held, heard | ⟨member, plain⟩⟩)
    · have listed : s ∈ topo.order := by simp [shape]
      rw [wf.order, mem_renderOrder] at listed
      rw [List.getElem?_eq_getElem listed] at missing
      cases missing
    · exact heard_rendered wf shape held heard
    · have found := List.getElem?_eq_getElem (wf.peersOther m node held s member).1
      rcases peer_rendered wf shape held member found with shadowed | early
      · simp [found, shadowed] at plain
      · exact early

section
variable {σ : Type} (topo : Topology) (strips : Strips σ)

theorem accumulateAll_congr (m first : ℕ) (src src' : ℕ → σ) (sources : List ℕ) (acc : σ)
    (same : ∀ s ∈ sources, src s = src' s) :
    accumulateAll topo strips m first src sources acc =
      accumulateAll topo strips m first src' sources acc := by
  unfold accumulateAll
  apply List.foldl_ext
  rintro acc ⟨s, k⟩ member
  have listed : s ∈ sources := (List.mem_zipIdx' member).2 ▸ List.getElem_mem _
  simp only [same s listed]

theorem renderMix_reads (own : ℕ → σ) (shadow : ℕ → Option σ)
    (laid : ∀ m, (shadow m).isSome = topo.mixes[m]?.any (·.shadow)) :
    Schedule.ReadsOnly (renderMix topo strips own shadow) (Reads topo) := by
  intro m sum sum' same
  unfold renderMix
  cases held : topo.mixes[m]? with
  | none => exact same m (.inl ⟨held, rfl⟩)
  | some spec =>
    have heard : ∀ s ∈ spec.mixes, sum s = sum' s :=
      fun s member => same s (.inr ⟨spec, held, .inl member⟩)
    have peers : ∀ p ∈ spec.peers, (shadow p).getD (sum p) = (shadow p).getD (sum' p) := by
      intro p member
      cases present : shadow p with
      | some out => rfl
      | none =>
        have plain := laid p
        rw [present] at plain
        exact same p (.inr ⟨spec, held, .inr ⟨member, plain.symm⟩⟩)
    simp only [mixIn]
    rw [accumulateAll_congr topo strips m _ _ _ spec.mixes _ heard,
      accumulateAll_congr topo strips m _ _ _ spec.peers _ peers]

variable {topo}

private theorem shadow_laid {bank : Bank σ} (laid : bank.Laid topo) (out : ℕ → σ) (m : ℕ) :
    ((bank.shadow m).map fun _ => out m).isSome = topo.mixes[m]?.any (·.shadow) := by
  rw [Option.isSome_map]
  exact laid m

/-- A rendered bank solves the mixes' equations. -/
theorem renderMixes_solves (wf : WellFormed topo) {bank : Bank σ} (laid : bank.Laid topo) (m : ℕ)
    (bound : m < topo.mixes.length) :
    (renderMixes topo strips bank).sum m =
      strips.chain m (received topo strips (renderMixes topo strips bank) m) := by
  have solved := Schedule.run_solves
    (renderMix_reads topo strips strips.ownSum _ (shadow_laid laid fun m =>
      strips.shadowChain m (strips.ownSum m))) topo.order (order_ready wf) bank.sum m
    (wf.order ▸ mem_renderOrder.mpr bound)
  simp only [received, renderMix, List.getElem?_eq_getElem bound] at solved ⊢
  exact solved

/-- A segment owes nothing to what the last one left in the buffers. -/
theorem renderMixes_fresh (wf : WellFormed topo) {bank bank' : Bank σ} (laid : bank.Laid topo)
    (laid' : bank'.Laid topo) (m : ℕ) (bound : m < topo.mixes.length) :
    (renderMixes topo strips bank).sum m = (renderMixes topo strips bank').sum m ∧
      (renderMixes topo strips bank).shadow m = (renderMixes topo strips bank').shadow m ∧
      (renderMixes topo strips bank).own m = (renderMixes topo strips bank').own m := by
  have shadows : ∀ out : ℕ → σ, (fun m => (bank.shadow m).map fun _ => out m) =
      fun m => (bank'.shadow m).map fun _ => out m := by
    intro out
    funext m
    have same := (laid m).trans (laid' m).symm
    cases left : bank.shadow m <;> cases right : bank'.shadow m <;> simp_all
  have listed : m ∈ topo.order := wf.order ▸ mem_renderOrder.mpr bound
  have reading := renderMix_reads topo strips strips.ownSum _ (shadow_laid laid' fun m =>
    strips.shadowChain m (strips.ownSum m))
  refine ⟨?_, congrFun (shadows fun m => strips.shadowChain m (strips.ownSum m)) m, rfl⟩
  simp only [renderMixes, shadows]
  exact Schedule.solution_unique reading topo.order (order_ready wf)
    (Schedule.run_solves reading _ (order_ready wf) _)
    (Schedule.run_solves reading _ (order_ready wf) _) m listed

end

private theorem accumulateAll_provenance (topo : Topology) (m first : ℕ) (src : ℕ → Finset ℕ)
    (sources : List ℕ) (acc : Finset ℕ) (others : ∀ s ∈ sources, s ≠ m ∧ s < topo.mixes.length)
    (x : ℕ) :
    x ∈ accumulateAll topo provenance m first src sources acc ↔
      x ∈ acc ∨ ∃ s ∈ sources, x ∈ src s := by
  unfold accumulateAll
  induction sources using List.reverseRecOn with
  | nil => simp
  | append_singleton sources last ih =>
    have other := others last (by simp)
    rw [List.zipIdx_append, List.foldl_append]
    simp only [List.zipIdx_singleton, List.foldl_cons, List.foldl_nil,
      show ¬ (last = m ∨ topo.mixes.length ≤ last) by omega, if_false, provenance, Finset.mem_union]
    have before := ih fun s member => others s (by simp [member])
    simp only [provenance] at before
    rw [before]
    simp [or_and_right, exists_or, or_assoc]

section
variable {topo : Topology} (wf : WellFormed topo) {bank : Bank (Finset ℕ)} (laid : bank.Laid topo)
include wf laid

/-- What a peer's reader reads holds the peer's output and nothing else. -/
private theorem peer_own {m p : ℕ} {node : MixNode} (held : topo.mixes[m]? = some node)
    (member : p ∈ node.peers) :
    ((renderMixes topo provenance bank).shadow p).getD ((renderMixes topo provenance bank).sum p) =
      {p} := by
  have bound := (wf.peersOther m node held p member).1
  have found := List.getElem?_eq_getElem bound
  cases present : bank.shadow p with
  | some out => simp [renderMixes, present, provenance]
  | none =>
    have plain := laid p
    simp only [present, Option.isSome_none, found, Option.any_some] at plain
    have silent := quiet_of_unshadowed wf held member found plain.symm
    simp only [MixNode.hearsNothing, Bool.and_eq_true, List.isEmpty_iff] at silent
    have hears : received topo provenance (renderMixes topo provenance bank) p = ∅ := by
      simp only [received, found, mixIn, silent.1, silent.2]
      rfl
    have shadow : (renderMixes topo provenance bank).shadow p = none := by simp [renderMixes, present]
    rw [shadow, Option.getD_none, renderMixes_solves provenance wf laid p bound, hears]
    rfl

private theorem received_step {m : ℕ} {node : MixNode} (held : topo.mixes[m]? = some node) (x : ℕ) :
    x ∈ received topo provenance (renderMixes topo provenance bank) m ↔
      x ∈ node.peers ∨ ∃ h ∈ node.mixes, x ∈ (renderMixes topo provenance bank).sum h := by
  obtain ⟨bound, -⟩ := List.getElem?_eq_some_iff.mp held
  have heard : ∀ h ∈ node.mixes, h ≠ m ∧ h < topo.mixes.length := by
    intro h member
    have less := wf.heardBefore m node held h member
    omega
  have peers : ∀ p ∈ node.peers, p ≠ m ∧ p < topo.mixes.length := by
    intro p member
    obtain ⟨inside, other, -⟩ := wf.peersOther m node held p member
    exact ⟨other, inside⟩
  have own : (renderMixes topo provenance bank).own m = ∅ := rfl
  have outputs : (∃ p ∈ node.peers, x ∈ ((renderMixes topo provenance bank).shadow p).getD
      ((renderMixes topo provenance bank).sum p)) ↔ x ∈ node.peers := by
    constructor
    · rintro ⟨p, member, inside⟩
      rw [peer_own wf laid held member, Finset.mem_singleton] at inside
      exact inside ▸ member
    · intro member
      exact ⟨x, member, by rw [peer_own wf laid held member]; exact Finset.mem_singleton_self x⟩
  simp only [received, held, mixIn]
  rw [accumulateAll_provenance _ _ _ _ _ _ peers, accumulateAll_provenance _ _ _ _ _ _ heard,
    outputs, own]
  simp [or_comm]

/-- A mix's rendered output holds what it carries. -/
theorem sum_iff (m : ℕ) (bound : m < topo.mixes.length) (x : ℕ) :
    x ∈ (renderMixes topo provenance bank).sum m ↔ Carries topo.mixes m x := by
  induction m using Nat.strongRecOn generalizing x with
  | ind m ih =>
    have held := List.getElem?_eq_getElem bound
    have chained : x ∈ (renderMixes topo provenance bank).sum m ↔
        x = m ∨ x ∈ received topo provenance (renderMixes topo provenance bank) m := by
      rw [renderMixes_solves provenance wf laid m bound]
      exact Finset.mem_insert
    have earlier : (∃ h ∈ topo.mixes[m].mixes, x ∈ (renderMixes topo provenance bank).sum h) ↔
        ∃ h ∈ topo.mixes[m].mixes, Carries topo.mixes h x := by
      constructor
      · rintro ⟨h, member, inside⟩
        have less := wf.heardBefore m _ held h member
        exact ⟨h, member, (ih h less (by omega) x).mp inside⟩
      · rintro ⟨h, member, carried⟩
        have less := wf.heardBefore m _ held h member
        exact ⟨h, member, (ih h less (by omega) x).mpr carried⟩
    rw [chained, received_step wf laid held, earlier, carries_iff held, List.mem_append,
      List.mem_singleton]
    tauto

/-- What each mix hears: what the mixes it hears whole bring, and its peers' own
outputs. -/
theorem received_iff {m : ℕ} {node : MixNode} (held : topo.mixes[m]? = some node) (x : ℕ) :
    x ∈ received topo provenance (renderMixes topo provenance bank) m ↔
      x ∈ node.peers ∨ ∃ h ∈ node.mixes, Carries topo.mixes h x := by
  obtain ⟨bound, -⟩ := List.getElem?_eq_some_iff.mp held
  have sums : (∃ h ∈ node.mixes, x ∈ (renderMixes topo provenance bank).sum h) ↔
      ∃ h ∈ node.mixes, Carries topo.mixes h x := by
    refine exists_congr fun h => and_congr_right fun member => ?_
    have less := wf.heardBefore m node held h member
    exact sum_iff wf laid h (by omega) x
  rw [received_step wf laid held, sums]

end

/-- The hearing order. Of a site `compile` accepts: the order holds every mix once;
each mix heard whole is rendered before its reader, and each peer is too unless a
shadow is read in its place; a segment's buffers do not depend on those the last
one left; and no mix hears its own output. A site refused because a mix hears
itself back has names that all resolve, and rendered as it stands that mix would
hear its own output. -/
theorem hearing_order (digest : TopologyInfo → String) (site : Site) :
    (∀ topo, compile digest site = .ok topo →
      topo.order.Perm (List.range topo.mixes.length) ∧
      (∀ pre m post node, topo.order = pre ++ m :: post → topo.mixes[m]? = some node →
        (∀ s ∈ node.mixes, s ∈ pre) ∧
        ∀ p ∈ node.peers, ∃ peer, topo.mixes[p]? = some peer ∧ (peer.shadow = true ∨ p ∈ pre)) ∧
      (∀ (σ : Type) (strips : Strips σ) (bank bank' : Bank σ), bank.Laid topo → bank'.Laid topo →
        ∀ m < topo.mixes.length,
          (renderMixes topo strips bank).sum m = (renderMixes topo strips bank').sum m ∧
          (renderMixes topo strips bank).shadow m = (renderMixes topo strips bank').shadow m ∧
          (renderMixes topo strips bank).own m = (renderMixes topo strips bank').own m) ∧
      ∀ bank : Bank (Finset ℕ), bank.Laid topo → ∀ m < topo.mixes.length,
        m ∉ received topo provenance (renderMixes topo provenance bank) m) ∧
    ∀ a b, compile digest site = .error (.hearsItselfBack a b) →
      ∃ arranged m node, arrange site = .ok arranged ∧ arranged.mixes[m]? = some node ∧
        node.id = a ∧ b ∈ node.mixes.filterMap (fun h => arranged.mixes[h]?.map (·.id)) ∧
        ∀ bank : Bank (Finset ℕ), bank.Laid (arranged.topology digest) →
          m ∈ received (arranged.topology digest) provenance
            (renderMixes (arranged.topology digest) provenance bank) m := by
  constructor
  · intro topo accepted
    obtain ⟨wf, never⟩ := compile_spec digest ⟨site, topo, accepted⟩
    refine ⟨wf.order ▸ renderOrder_perm topo.mixes, ?_, ?_, ?_⟩
    · intro pre m post node shape held
      refine ⟨fun s member => heard_rendered wf shape held member, fun p member => ?_⟩
      have found := List.getElem?_eq_getElem (wf.peersOther m node held p member).1
      exact ⟨_, found, peer_rendered wf shape held member found⟩
    · intro σ strips bank bank' laid laid' m bound
      exact renderMixes_fresh strips wf laid laid' m bound
    · intro bank laid m bound back
      have held := List.getElem?_eq_getElem bound
      rcases (received_iff wf laid held m).mp back with peer | ⟨h, member, carried⟩
      · exact (wf.peersOther m _ held m peer).2.1 rfl
      · exact never m _ held h member carried
  · intro a b refused
    obtain ⟨arranged, m, node, h, heard, ok, held, named, member, found, heardNamed, carried⟩ :=
      compile_back digest site a b refused
    refine ⟨arranged, m, node, ok, held, named, ?_, fun bank laid => ?_⟩
    · exact List.mem_filterMap.mpr ⟨h, member, by simp [found, heardNamed]⟩
    · have marked := markShadows_getElem? arranged.mixes m
      rw [held, Option.map_some] at marked
      have wf := topology_wellFormed digest site arranged (arrange_spec _ _ ok)
      exact (received_iff wf laid marked m).mpr
        (.inr ⟨h, member, (carries_markShadows _ _ _).mpr carried⟩)

theorem hearing_order_duet :
    compile (fun _ => "") duet = .ok duetCompiled.topo ∧
      duetCompiled.topo.order.Perm (List.range duetCompiled.topo.mixes.length) ∧
      ∀ bank : Bank (Finset ℕ), bank.Laid duetCompiled.topo → ∀ m < duetCompiled.topo.mixes.length,
        m ∉ received duetCompiled.topo provenance (renderMixes duetCompiled.topo provenance bank) m := by
  have accepted := duetCompiled.accepted
  obtain ⟨perm, -, -, silent⟩ := (hearing_order (fun _ => "") duet).1 duetCompiled.topo accepted
  exact ⟨accepted, perm, silent⟩

end IemMixer.Rt
