import IemMixer.TopologyProofs
import IemMixer.Core.Commands

/-! The card outputs: each mix sends on channels of its own, HIL's spare outputs are none of
them, and so is no output a HIL mask covers. -/
namespace IemMixer.TopologyOutputs
open Lib Proto TopologyProofs

/-- An accepted list of channels is new and used from then on. -/
theorem checkChannels_new (id : String) (map : UInt16) (chans used used' : List UInt16)
    (ok : checkChannels id map chans used = .ok used') :
    chans.Nodup ∧ (∀ ch ∈ chans, ch ∉ used) ∧ (∀ ch, ch ∈ used' ↔ ch ∈ chans ∨ ch ∈ used) := by
  induction chans generalizing used with
  | nil =>
    cases ok
    simp
  | cons first rest ih =>
    simp only [checkChannels, refused_ok_iff, List.contains_eq_mem, decide_eq_true_eq] at ok
    obtain ⟨-, unused, later⟩ := ok
    obtain ⟨distinct, fresh, after⟩ := ih _ later
    refine ⟨List.nodup_cons.mpr ⟨fun again => fresh first again List.mem_cons_self, distinct⟩, ?_, ?_⟩
    · intro ch member
      rcases List.mem_cons.mp member with rfl | later
      · exact unused
      · exact fun before => fresh ch later (List.mem_cons_of_mem _ before)
    · intro ch
      rw [after ch, List.mem_cons, List.mem_cons]
      tauto

/-- A mix sends on output `slot`. -/
def Sends (node : MixNode) (slot : ℕ) : Prop := node.tx.1 = some slot ∨ node.tx.2 = some slot

/-- The outputs collected so far: each once, and every mix's own among them. -/
structure TxOk (tx used : List UInt16) (mixes : List MixNode) : Prop where
  distinct : tx.Nodup
  used : ∀ ch ∈ tx, ch ∈ used
  slots : ∀ node ∈ mixes, ∀ slot, Sends node slot → slot < tx.length

theorem compileMixes_tx (map : UInt16) (m : ℕ) (rest : List SiteMix) (acc result : MixesAcc)
    (ok : compileMixes map m rest acc = .ok result) (held : TxOk acc.tx acc.used acc.mixes) :
    TxOk result.tx result.used result.mixes := by
  induction rest generalizing m acc with
  | nil =>
    cases ok
    exact held
  | cons mix rest ih =>
    simp only [compileMixes, refused_ok_iff, bind_ok_iff] at ok
    obtain ⟨count, used, checked, heard, -, later⟩ := ok
    obtain ⟨distinct, fresh, after⟩ := checkChannels_new _ _ _ _ _ checked
    refine ih _ _ later ⟨?_, ?_, ?_⟩
    · refine List.nodup_append.mpr ⟨held.distinct, distinct, fun a before b added => ?_⟩
      rintro rfl
      exact fresh a added (held.used a before)
    · intro ch member
      rcases List.mem_append.mp member with before | added
      · exact (after ch).mpr (.inr (held.used ch before))
      · exact (after ch).mpr (.inl added)
    · intro node member slot sends
      rw [List.length_append]
      rcases List.mem_append.mp member with before | added
      · exact Nat.lt_of_lt_of_le (held.slots node before slot sends) (Nat.le_add_right _ _)
      · obtain rfl := List.mem_singleton.mp added
        have some : mix.tx.length = 1 ∨ mix.tx.length = 2 := not_not.mp count
        rcases sends with left | right
        · cases left
          omega
        · simp only at right
          split at right
          · cases right
          · rename_i stereo
            cases right
            simp only [beq_iff_eq] at stereo
            omega

theorem compilePeers_tx (declared : BTreeMap String ℕ) (engineer m : ℕ) (site : List SiteMix)
    (mixes result : List MixNode) (ok : compilePeers declared engineer m site mixes = .ok result) :
    result.map (·.tx) = mixes.map (·.tx) := by
  induction site generalizing m mixes with
  | nil =>
    cases ok
    rfl
  | cons mix rest ih =>
    simp only [compilePeers, refused_ok_iff, bind_ok_iff] at ok
    obtain ⟨-, peers, -, later⟩ := ok
    rw [ih _ _ later]
    apply List.ext_getElem?
    intro k
    rw [List.getElem?_map, List.getElem?_map, List.getElem?_modify]
    by_cases here : m = k <;> cases mixes[k]? <;> simp [here]

/-- A compiled topology's outputs are distinct, and every mix sends on some of them. -/
theorem compile_tx (digest : TopologyInfo → String) (c : Compiled digest) :
    c.topo.tx.Nodup ∧ ∀ node ∈ c.topo.mixes, ∀ slot, Sends node slot → slot < c.topo.tx.length := by
  have ok := c.accepted
  simp only [compile, arrange, bind_ok_iff] at ok
  obtain ⟨a, ⟨⟨⟩, -, ins, -, ⟨inputs, groups⟩, -, outs, mixesOk, engineer, -, mixes, peersOk, arranged⟩, -, -, done⟩ := ok
  have held := compileMixes_tx _ _ _ _ _ mixesOk ⟨by simp, by simp, by simp⟩
  have same : a.topology digest = c.topo := Except.ok.inj done
  cases arranged
  rw [← same]
  refine ⟨held.distinct, fun node member slot sends => ?_⟩
  have marked : (markShadows mixes).map (·.tx) = outs.mixes.map (·.tx) := by
    rw [← compilePeers_tx _ _ _ _ _ _ peersOk]
    apply List.ext_getElem?
    intro k
    simp only [List.getElem?_map, markShadows_getElem?, Option.map_map]
    rfl
  have listed : node.tx ∈ outs.mixes.map (·.tx) := marked ▸ List.mem_map_of_mem member
  obtain ⟨old, before, tx⟩ := List.mem_map.mp listed
  exact held.slots old before slot (by simpa only [Sends, tx] using sends)

/-- A channel no mix sends on, as far as the topology says, is none of the mixes'. -/
theorem spare_of_mixOnTx {topo : Topology} (distinct : topo.tx.Nodup) {ch : UInt16} (free : topo.mixOnTx ch = none)
    {node : MixNode} (member : node ∈ topo.mixes) {slot : ℕ} (sends : Sends node slot) : topo.tx[slot]? ≠ some ch := by
  intro there
  obtain ⟨bound, holds⟩ := List.getElem?_eq_some_iff.mp there
  have first : topo.tx.findIdx? (· == ch) = some slot := by
    refine List.findIdx?_eq_some_iff_getElem.mpr ⟨bound, by simp [holds], fun k before => ?_⟩
    have apart := (List.pairwise_iff_getElem.mp distinct) k slot (by omega) bound before
    simpa [← holds] using apart
  simp only [Topology.mixOnTx, first, Option.bind_eq_bind, Option.bind_some, List.find?_eq_none] at free
  have refuted := free node member
  rcases sends with left | right
  · simp [left] at refuted
  · simp [right] at refuted

/-- Every accepted spare output is one no mix sends on. -/
theorem hilOutputsFrom_spare (topo : Topology) (hilTx outputs result : List UInt16)
    (ok : topo.hilOutputsFrom hilTx outputs = .ok result) (spare : ∀ ch ∈ outputs, topo.mixOnTx ch = none) :
    ∀ ch ∈ result, topo.mixOnTx ch = none := by
  induction hilTx generalizing outputs with
  | nil =>
    cases ok
    exact spare
  | cons ch rest ih =>
    rw [Topology.hilOutputsFrom] at ok
    split at ok
    · cases ok
    split at ok
    · cases ok
    rename_i accepted
    split at ok
    · cases ok
    split at ok
    · cases ok
    refine ih _ ok fun other member => ?_
    rcases List.mem_append.mp member with before | added
    · exact spare other before
    · obtain rfl := List.mem_singleton.mp added
      simpa only [Topology.mixTxRefusal, Option.map_eq_none_iff] using accepted

theorem hilOutputs_spare {topo : Topology} {hilTx hil : List UInt16} (ok : topo.hilOutputs hilTx = .ok hil) :
    ∀ ch ∈ hil, topo.mixOnTx ch = none := by
  unfold Topology.hilOutputs at ok
  split at ok
  · cases ok
  · exact hilOutputsFrom_spare topo hilTx [] hil ok (by simp)

/-- The channels a mask covers: each was asked for and has its slot. -/
def Covers (hil cardTx : List UInt16) (mask : HilMask) : Prop :=
  ∀ (k : ℕ) (bound : k < 8), mask[k] = true → ∃ ch ∈ cardTx, hil[k]? = some ch

theorem hilBit_covers {topo : Topology} {hil asked : List UInt16} {mask mask' : HilMask} {ch : UInt16}
    (covers : Covers hil asked mask) (wanted : ch ∈ asked) (ok : hilBit topo hil mask ch = .ok mask') :
    Covers hil asked mask' := by
  unfold hilBit at ok
  split at ok
  · cases ok
  split at ok
  · cases ok
  rename_i slot found
  split at ok
  · cases ok
    intro k bound set
    rw [Vector.getElem_set] at set
    split at set
    · rename_i same
      subst same
      obtain ⟨inside, holds, -⟩ := List.findIdx?_eq_some_iff_getElem.mp found
      exact ⟨ch, wanted, by rw [List.getElem?_eq_getElem inside, eq_of_beq holds]⟩
    · exact covers k bound set
  · cases ok

theorem hilMask_covers {topo : Topology} {hil cardTx : List UInt16} {mask : HilMask}
    (ok : hilMask topo hil cardTx = .ok mask) : Covers hil cardTx mask := by
  have every : ∀ (rest : List UInt16) (mask : HilMask), (∀ ch ∈ rest, ch ∈ cardTx) → Covers hil cardTx mask →
      ∀ mask', rest.foldlM (hilBit topo hil) mask = .ok mask' → Covers hil cardTx mask' := by
    intro rest
    induction rest with
    | nil =>
      intro mask _ covers mask' done
      cases done
      exact covers
    | cons ch rest ih =>
      intro mask asked covers mask' done
      rw [List.foldlM_cons, bind_ok_iff] at done
      obtain ⟨next, bit, later⟩ := done
      exact ih next (fun other member => asked other (List.mem_cons_of_mem _ member))
        (hilBit_covers covers (asked ch List.mem_cons_self) bit) mask' later
  unfold hilMask at ok
  split at ok
  · cases ok
  · refine every cardTx _ (fun _ member => member) ?_ mask ok
    intro k bound set
    simp at set

/-- No spare output a mask covers is a channel some mix sends on. -/
theorem mask_spares_mixes (digest : TopologyInfo → String) (c : Compiled digest) {hilTx hil cardTx : List UInt16}
    {mask : HilMask} (outputs : c.topo.hilOutputs hilTx = .ok hil) (accepted : hilMask c.topo hil cardTx = .ok mask)
    (k : ℕ) (bound : k < 8) (set : mask[k] = true) :
    ∃ ch, (c.topo.tx ++ hil)[c.topo.tx.length + k]? = some ch ∧
      ∀ node ∈ c.topo.mixes, ∀ slot, Sends node slot → c.topo.tx[slot]? ≠ some ch := by
  obtain ⟨ch, -, there⟩ := hilMask_covers accepted k bound set
  refine ⟨ch, by rw [List.getElem?_append_right (by omega)]; simpa using there, fun node member slot sends => ?_⟩
  have free := hilOutputs_spare outputs ch (List.mem_of_getElem? there)
  exact spare_of_mixOnTx (compile_tx digest c).1 free member sends

end IemMixer.TopologyOutputs
