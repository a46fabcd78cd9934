import IemMixer.Lib.Addressed
import IemMixer.Server.RampLevels
import IemMixer.Server.SiteProofs

/-! A command of a ramp is an edit of one place of one mix, and a batch is its edits. -/
namespace IemMixer.Server.Exact
open Lib Proto TopologyProofs

/-! ### What one command does -/

/-- One place of a mix written: a level's slot or a strip. -/
structure Edit where
  place : ℕ ⊕ ℕ
  level : Level ℝ → Level ℝ := id
  strip : Strip ℝ → Strip ℝ := id

namespace Engine

noncomputable def edit (m : ℕ) (e : Engine) (c : Edit) : Engine := e.modifyMix m fun rec => match c.place with
  | .inl k => { rec with levels := rec.levels.modify k c.level }
  | .inr g => { rec with groups := rec.groups.modify g c.strip }

/-- Everything a ramp never writes. -/
structure Frame (e e' : Engine) : Prop where
  topo : e'.topo = e.topo
  inputs : e'.inputs = e.inputs
  solo : e'.solo = e.solo
  outs : e'.mixes.map (·.out) = e.mixes.map (·.out)

theorem Frame.refl (e : Engine) : Frame e e := ⟨rfl, rfl, rfl, rfl⟩

theorem Frame.trans {e e' e'' : Engine} (first : Frame e e') (second : Frame e' e'') : Frame e e'' :=
  ⟨second.topo.trans first.topo, second.inputs.trans first.inputs, second.solo.trans first.solo,
    second.outs.trans first.outs⟩

variable {e : Engine} {m : ℕ} {c : Edit}

theorem edit_frame (m : ℕ) (e : Engine) (c : Edit) : Frame e (e.edit m c) := by
  refine ⟨rfl, rfl, rfl, ?_⟩
  apply List.ext_getElem?
  intro i
  simp only [edit, modifyMix, List.getElem?_map, List.getElem?_modify]
  cases e.mixes[i]? with
  | none => rfl
  | some rec => cases c.place <;> by_cases here : m = i <;> simp [here]

theorem edit_level (m : ℕ) (e : Engine) (c : Edit) (m' k : ℕ) : (e.edit m c).level m' k =
    if m = m' ∧ c.place = .inl k then (e.level m' k).map c.level else e.level m' k := by
  simp only [edit, modifyMix, level, List.getElem?_modify]
  by_cases here : m = m'
  · subst here
    cases e.mixes[m]? with
    | none => simp
    | some rec =>
      cases c.place with
      | inl j =>
        by_cases same : j = k <;> simp [same]
      | inr g => simp
  · simp [here]

theorem edit_strip (m : ℕ) (e : Engine) (c : Edit) (m' g : ℕ) : (e.edit m c).strip m' g =
    if m = m' ∧ c.place = .inr g then (e.strip m' g).map c.strip else e.strip m' g := by
  simp only [edit, modifyMix, strip, List.getElem?_modify]
  by_cases here : m = m'
  · subst here
    cases e.mixes[m]? with
    | none => simp
    | some rec =>
      cases c.place with
      | inl k => simp
      | inr j =>
        by_cases same : j = g <;> simp [same]
  · simp [here]

/-- The state in the topology's shape. -/
structure Shaped (e : Engine) : Prop where
  mixes : e.mixes.length = e.topo.mixes.length
  levels : ∀ (m : ℕ) (rec : MixRec), e.mixes[m]? = some rec → rec.levels.length = e.topo.levels m
  groups : ∀ (m : ℕ) (rec : MixRec), e.mixes[m]? = some rec → rec.groups.length = e.topo.groups.length

/-- Shaped, with every value in its range. -/
structure Sound (e : Engine) : Prop extends Shaped e where
  fits : ∀ m k l, e.level m k = some l → l.InRange
  strips : ∀ m g s, e.strip m g = some s → -150 ≤ s.gainDb ∧ s.gainDb ≤ 12

theorem Shaped.edit (shaped : Shaped e) (m : ℕ) (c : Edit) : Shaped (e.edit m c) := by
  have kept : ∀ (m' : ℕ) (rec' : MixRec), (e.edit m c).mixes[m']? = some rec' →
      ∃ rec : MixRec, e.mixes[m']? = some rec ∧ rec'.levels.length = rec.levels.length ∧ rec'.groups.length = rec.groups.length := by
    intro m' rec' held
    simp only [Engine.edit, modifyMix, List.getElem?_modify] at held
    obtain ⟨rec, old, rfl⟩ := Option.map_eq_some_iff.mp held
    refine ⟨rec, old, ?_⟩
    cases c.place <;> split <;> simp
  constructor
  case mixes => simpa [Engine.edit, modifyMix] using shaped.mixes
  case levels =>
    intro m' rec' held
    obtain ⟨rec, old, levels, -⟩ := kept m' rec' held
    exact levels.trans (shaped.levels m' rec old)
  case groups =>
    intro m' rec' held
    obtain ⟨rec, old, -, groups⟩ := kept m' rec' held
    exact groups.trans (shaped.groups m' rec old)

theorem modifyMix_congr {f g : MixRec → MixRec} (same : ∀ rec : MixRec, e.mixes[m]? = some rec → f rec = g rec) :
    e.modifyMix m f = e.modifyMix m g := by
  unfold modifyMix
  congr 1
  apply List.ext_getElem?
  intro i
  simp only [List.getElem?_modify]
  by_cases here : m = i
  · subst here
    cases held : e.mixes[m]? with
    | none => rfl
    | some rec => simp [same rec held]
  · simp [here]

theorem modifyMix_self {f : MixRec → MixRec} (same : ∀ rec : MixRec, e.mixes[m]? = some rec → f rec = rec) :
    e.modifyMix m f = e := by
  rw [modifyMix_congr (g := id) same]
  simp [modifyMix]

/-- A level written is an edit, whether it was that level already or not. -/
theorem setLevel_edit {k : ℕ} {old : Level ℝ} {node : MixNode} {source : Source} (found : e.topo.mixes[m]? = some node)
    (reads : e.topo.source m k = some source) (held : e.level m k = some old) (f : Level ℝ → Level ℝ) :
    ∃ n ≤ 1, e.setLevel m k (f old) = (n, e.edit m { place := .inl k, level := f }) := by
  have there : ∀ rec : MixRec, e.mixes[m]? = some rec → rec.levels[k]? = some old := by
    intro rec record
    simpa [level, record] using held
  unfold setLevel
  simp only [found, reads, held]
  split
  · rename_i same
    refine ⟨0, Nat.zero_le _, congrArg (Prod.mk 0) (modifyMix_self fun rec record => ?_).symm⟩
    simp only [← set_eq_modify (there rec record) f, ← same]
    obtain ⟨bound, rfl⟩ := List.getElem?_eq_some_iff.mp (there rec record)
    rw [List.set_getElem_self]
  · refine ⟨1, le_rfl, congrArg (Prod.mk 1) (modifyMix_congr fun rec record => ?_)⟩
    simp only [set_eq_modify (there rec record) f]

theorem setGroup_edit {g : ℕ} {old : Strip ℝ} {node : MixNode} {group : GroupNode}
    (found : e.topo.mixes[m]? = some node) (reads : e.topo.groups[g]? = some group) (held : e.strip m g = some old) (f : Strip ℝ → Strip ℝ) :
    ∃ n ≤ 1, e.setGroup m g (f old) = (n, e.edit m { place := .inr g, strip := f }) := by
  have there : ∀ rec : MixRec, e.mixes[m]? = some rec → rec.groups[g]? = some old := by
    intro rec record
    simpa [strip, record] using held
  unfold setGroup
  simp only [found, reads, held]
  split
  · rename_i same
    refine ⟨0, Nat.zero_le _, congrArg (Prod.mk 0) (modifyMix_self fun rec record => ?_).symm⟩
    simp only [← set_eq_modify (there rec record) f, ← same]
    obtain ⟨bound, rfl⟩ := List.getElem?_eq_some_iff.mp (there rec record)
    rw [List.set_getElem_self]
  · refine ⟨1, le_rfl, congrArg (Prod.mk 1) (modifyMix_congr fun rec record => ?_)⟩
    simp only [set_eq_modify (there rec record) f]

/-- The edit a command is in mix `m`. -/
def Means (topo : Topology) (m : ℕ) (op : Move ℝ) (c : Edit) : Prop := match op with
  | .setLevel mix source gainDb pan muted => topo.mixIndex mix = some m ∧
      ∃ k, topo.slot m source = some k ∧ c = { place := .inl k, level := (·.set gainDb pan muted) }
  | .setGroup mix group gainDb muted => topo.mixIndex mix = some m ∧
      ∃ g, topo.groupIndex group = some g ∧ c = { place := .inr g, strip := (·.set gainDb muted) }

section
variable (wf : WellFormed e.topo) (shaped : Shaped e)
include wf shaped

/-- The record of a known mix. -/
theorem Shaped.record {mix : MixId} (known : e.topo.mixIndex mix = some m) :
    ∃ node rec, e.topo.mixes[m]? = some node ∧ e.mixes[m]? = some rec := by
  obtain ⟨node, found, -⟩ := Option.map_eq_some_iff.mp ((mixIndex_iff wf mix m).mp known)
  obtain ⟨bound, -⟩ := List.getElem?_eq_some_iff.mp found
  exact ⟨node, e.mixes.get ⟨m, shaped.mixes ▸ bound⟩, found, List.getElem?_eq_getElem (shaped.mixes ▸ bound)⟩

theorem Shaped.heard {mix : MixId} {source : Source} {k : ℕ} (known : e.topo.mixIndex mix = some m)
    (slot : e.topo.slot m source = some k) : ∃ l, e.level m k = some l := by
  obtain ⟨node, rec, found, held⟩ := shaped.record wf known
  have bound : k < rec.levels.length := shaped.levels m rec held ▸ slot_bound wf found slot
  exact ⟨rec.levels[k], by simp [level, held]⟩

theorem Shaped.stripped {mix : MixId} {group : GroupId} {g : ℕ} (known : e.topo.mixIndex mix = some m)
    (index : e.topo.groupIndex group = some g) : ∃ s, e.strip m g = some s := by
  obtain ⟨node, rec, found, held⟩ := shaped.record wf known
  obtain ⟨node', there, -⟩ := Option.map_eq_some_iff.mp ((groupIndex_iff wf group g).mp index)
  obtain ⟨inside, -⟩ := List.getElem?_eq_some_iff.mp there
  have bound : g < rec.groups.length := shaped.groups m rec held ▸ inside
  exact ⟨rec.groups[g], by simp [strip, held]⟩

/-- A command is its edit, at one RT command at most. -/
theorem Shaped.one_spec {op : Move ℝ} (means : Means e.topo m op c) : ∃ n ≤ 1, e.one op = .ok (n, e.edit m c) := by
  cases op with
  | setLevel mix source gainDb pan muted =>
    obtain ⟨known, k, slot, rfl⟩ := means
    obtain ⟨node, rec, found, -⟩ := shaped.record wf known
    obtain ⟨old, there⟩ := shaped.heard wf known slot
    obtain ⟨n, few, written⟩ := setLevel_edit found ((source_slot_iff wf found k source).mpr slot) there
      (·.set gainDb pan muted)
    refine ⟨n, few, ?_⟩
    rw [← written]
    simp [one, Engine.mix, known, slot, there, bind, Except.bind, pure, Except.pure]
  | setGroup mix group gainDb muted =>
    obtain ⟨known, g, index, rfl⟩ := means
    obtain ⟨node, rec, found, -⟩ := shaped.record wf known
    obtain ⟨old, there⟩ := shaped.stripped wf known index
    obtain ⟨place, reads, -⟩ := Option.map_eq_some_iff.mp ((groupIndex_iff wf group g).mp index)
    obtain ⟨n, few, written⟩ := setGroup_edit found reads there (·.set gainDb muted)
    refine ⟨n, few, ?_⟩
    rw [← written]
    simp [one, Engine.mix, Engine.group, known, index, there, bind, Except.bind, pure, Except.pure]

end

section
variable {topo : Topology} (wf : WellFormed topo) {ops : List (Move ℝ)} {cs : List Edit}
include wf

/-- The commands of a loop are their edits, each at one RT command at most. -/
theorem Shaped.batchLoop_spec (shaped : Shaped e) (same : e.topo = topo) (means : List.Forall₂ (Means topo m) ops cs)
    (rt : ℕ) : ∃ n ≤ rt + ops.length, e.batchLoop rt ops = .ok (n, cs.foldl (Engine.edit m) e) := by
  induction means generalizing e rt with
  | nil => exact ⟨rt, le_rfl, rfl⟩
  | @cons op c ops cs first _ ih =>
    subst same
    obtain ⟨n, few, one⟩ := shaped.one_spec wf first
    obtain ⟨total, bound, rest⟩ := ih (shaped.edit m c) rfl (rt + n)
    refine ⟨total, by simp only [List.length_cons]; omega, ?_⟩
    rw [batchLoop, one]
    exact rest

/-- A batch that is not too long is its edits. -/
theorem Shaped.batch_spec (shaped : Shaped e) (same : e.topo = topo) (means : List.Forall₂ (Means topo m) ops cs)
    (few : ops.length ≤ maxBatch) : e.batch ops = .ok (cs.foldl (Engine.edit m) e) := by
  obtain ⟨n, bound, ran⟩ := shaped.batchLoop_spec wf same means 0
  unfold batch
  rw [if_neg (not_lt.mpr few), ran]
  have within : ¬ maxCmdsPerBlock < n := by simp only [maxBatch, maxCmdsPerBlock] at *; omega
  simp [bind, Except.bind, within, pure, Except.pure]

end

/-- The level at a place of mix `m`; a strip's place has none. -/
def levelAt (m : ℕ) (e : Engine) : ℕ ⊕ ℕ → Option (Level ℝ)
  | .inl k => e.level m k
  | .inr _ => none

def stripAt (m : ℕ) (e : Engine) : ℕ ⊕ ℕ → Option (Strip ℝ)
  | .inl _ => none
  | .inr g => e.strip m g

theorem levelAt_other (m : ℕ) (e : Engine) (c : Edit) (place : ℕ ⊕ ℕ) (other : c.place ≠ place) :
    levelAt m (e.edit m c) place = levelAt m e place := by
  cases place with
  | inl k => exact (edit_level m e c m k).trans (if_neg fun both => other both.2)
  | inr g => rfl

theorem levelAt_self (m : ℕ) (e : Engine) (c : Edit) :
    levelAt m (e.edit m c) c.place = (levelAt m e c.place).map c.level := by
  cases place : c.place with
  | inl k => exact (edit_level m e c m k).trans (if_pos ⟨rfl, place⟩)
  | inr g => rfl

theorem stripAt_other (m : ℕ) (e : Engine) (c : Edit) (place : ℕ ⊕ ℕ) (other : c.place ≠ place) :
    stripAt m (e.edit m c) place = stripAt m e place := by
  cases place with
  | inl k => rfl
  | inr g => exact (edit_strip m e c m g).trans (if_neg fun both => other both.2)

theorem stripAt_self (m : ℕ) (e : Engine) (c : Edit) :
    stripAt m (e.edit m c) c.place = (stripAt m e c.place).map c.strip := by
  cases place : c.place with
  | inl k => rfl
  | inr g => exact (edit_strip m e c m g).trans (if_pos ⟨rfl, place⟩)

/-- Edits of one mix leave the others. -/
theorem edits_aside (cs : List Edit) (m : ℕ) (e : Engine) {m' : ℕ} (other : m ≠ m') :
    (∀ k, (cs.foldl (Engine.edit m) e).level m' k = e.level m' k) ∧
      ∀ g, (cs.foldl (Engine.edit m) e).strip m' g = e.strip m' g := by
  induction cs generalizing e with
  | nil => exact ⟨fun _ => rfl, fun _ => rfl⟩
  | cons c cs ih =>
    obtain ⟨levels, strips⟩ := ih (e.edit m c)
    constructor
    · intro k
      exact (levels k).trans ((edit_level m e c m' k).trans (if_neg fun both => other both.1))
    · intro g
      exact (strips g).trans ((edit_strip m e c m' g).trans (if_neg fun both => other both.1))

theorem edits_frame (cs : List Edit) (m : ℕ) (e : Engine) : Frame e (cs.foldl (Engine.edit m) e) := by
  induction cs generalizing e with
  | nil => exact Frame.refl e
  | cons c cs ih => exact (edit_frame m e c).trans (ih _)

theorem Shaped.edits (shaped : Shaped e) (cs : List Edit) (m : ℕ) : Shaped (cs.foldl (Engine.edit m) e) := by
  induction cs generalizing e with
  | nil => exact shaped
  | cons c cs ih => exact ih (shaped.edit m c)

end Engine

end IemMixer.Server.Exact
