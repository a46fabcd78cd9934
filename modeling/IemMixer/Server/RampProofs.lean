import IemMixer.Server.RampPlay

/-! A ramp lands: over exact numbers its batches take every level and strip the page shows to
its target, by amplitudes that only move towards it, and nothing else moves. -/
namespace IemMixer.Server.Exact
open Lib Proto TopologyProofs

/-! ### What the page hears of it -/

section
variable {topo : Topology} {view : SiteView} {page : Page} {m : ℕ} {e : Engine} {sends : List (Send ℝ)}
  {groups : BTreeMap GroupId ℝ} (given : Given topo view page m e sends groups)
include given

omit given in
/-- The amplitude of a moving level after `i` batches. -/
noncomputable def trail (a b : ℝ) (i : ℕ) : ℝ := audible (between a b (min i rampSteps))

omit given in
theorem trail_towards {cur target : Level ℝ} (i : ℕ) :
    let a := cur.amplitude
    let b := target.amplitude
    (a ≤ b → a ≤ trail a b i ∧ trail a b i ≤ trail a b (i + 1) ∧ trail a b i ≤ b) ∧
      (b ≤ a → b ≤ trail a b i ∧ trail a b (i + 1) ≤ trail a b i ∧ trail a b i ≤ a) := by
  intro a b
  have low : 0 ≤ a := cur.amplitude_nonneg
  have low' : 0 ≤ b := target.amplitude_nonneg
  have start : audible a = a := cur.audible_amplitude
  have finish : audible b = b := target.audible_amplitude
  have ends : between a b rampSteps = b := by
    rw [between_eq]
    norm_num [rampSteps]
  by_cases early : i < rampSteps
  · obtain ⟨up, down⟩ := between_towards (a := a) (b := b) early
    simp only [trail, min_eq_left early.le, min_eq_left (Nat.succ_le_of_lt early)]
    constructor
    · intro le
      obtain ⟨first, nearer, short⟩ := up le
      refine ⟨?_, audible_mono (low.trans (first.trans nearer)) nearer, ?_⟩
      · exact start.symm.trans_le (audible_mono (low.trans first) first)
      · exact (audible_mono low' (nearer.trans short)).trans_eq finish
    · intro le
      obtain ⟨short, nearer, first⟩ := down le
      refine ⟨?_, audible_mono (low'.trans (short.trans nearer)) nearer, ?_⟩
      · exact finish.symm.trans_le (audible_mono (low'.trans (short.trans nearer)) (short.trans nearer))
      · exact (audible_mono low first).trans_eq start
  · have late := not_lt.mp early
    simp only [trail, min_eq_right late, min_eq_right (Nat.le_succ_of_le late), ends, finish]
    exact ⟨fun le => ⟨le, le_rfl, le_rfl⟩, fun le => ⟨le_rfl, le_rfl, le⟩⟩

theorem Given.stage_amplitude {s : Send ℝ} (moves : s ∈ moving view e.mirror page sends) {i : ℕ}
    (within : i ≤ rampSteps + 1) : ((stage topo view page m e sends groups i).mirror.level page.mix s.src).amplitude =
      trail (e.mirror.level page.mix s.src).amplitude s.level.amplitude i := by
  have slot := given.slot (mem_moving moves).2
  have here := given.current (stage topo view page m e sends groups i) ((stage_frame i).topo.trans given.same)
    (stage_shaped given.sound.toShaped i) slot
  have cur := given.sound.fits m _ _ (given.current e given.same given.sound.toShaped slot)
  have there := given.fits s (mem_moving moves).1
  by_cases early : i ≤ rampSteps
  · rw [given.stage_level moves early] at here
    rw [← Option.some.inj here, track_amplitude cur there early, trail, min_eq_left early]
  · obtain rfl : i = rampSteps + 1 := by omega
    rw [given.stage_settled moves] at here
    have ends : between (e.mirror.level page.mix s.src).amplitude s.level.amplitude rampSteps = s.level.amplitude := by
      rw [between_eq]
      norm_num [rampSteps]
    rw [← Option.some.inj here, trail, min_eq_right (Nat.le_succ _), ends, Level.audible_amplitude]

end

/-- Where a send ends: at its target, as far as the ramp tells levels apart. -/
structure Send.Reached (s : Send ℝ) (l : Level ℝ) : Prop where
  gain : |l.gainDb - s.gainDb| ≤ 1 / 1000000000
  pan : |l.pan - s.pan| ≤ 1 / 1000000000
  muted : l.muted = s.muted

/-- What a ramp leaves: its sends and groups at their targets, and everything else as it was. -/
structure Lands (view : SiteView) (page : Page) (sends : List (Send ℝ)) (groups : BTreeMap GroupId ℝ)
    (e e' : Engine) : Prop where
  frame : Engine.Frame e e'
  reached : ∀ s ∈ sends, shown view page (Viewer.ofPage page) s.src = true →
    s.Reached (e'.mirror.level page.mix s.src)
  faded : ∀ g ∈ groups.toList, view.group = some g.1 →
    |(e'.mirror.group page.mix g.1).gainDb - g.2| ≤ 1 / 1000000000
  levels : ∀ m k, (∀ s ∈ sends, shown view page (Viewer.ofPage page) s.src = true →
    ¬ (e.topo.mixIndex page.mix = some m ∧ e.topo.slot m s.src = some k)) → e'.level m k = e.level m k
  strips : ∀ m i, (∀ g ∈ groups.toList, view.group = some g.1 →
    ¬ (e.topo.mixIndex page.mix = some m ∧ e.topo.groupIndex g.1 = some i)) → e'.strip m i = e.strip m i
  switches : ∀ m i, (e'.strip m i).map (fun s => (s.muted, s.eq)) = (e.strip m i).map fun s => (s.muted, s.eq)

/-- One batch of a level's way from `start` to its target. -/
structure Glides (s : Send ℝ) (start before after : Level ℝ) : Prop where
  muted : start.muted = true → s.muted = true → after.muted = true
  rises : start.amplitude ≤ s.level.amplitude →
    start.amplitude ≤ after.amplitude ∧ before.amplitude ≤ after.amplitude ∧ after.amplitude ≤ s.level.amplitude
  falls : s.level.amplitude ≤ start.amplitude →
    s.level.amplitude ≤ after.amplitude ∧ after.amplitude ≤ before.amplitude ∧ after.amplitude ≤ start.amplitude

theorem same_iff (a b : ℝ) : same a b = true ↔ |a - b| ≤ 1 / 1000000000 := by
  simp [same, Numbers.le, Numbers.abs, Numbers.sub, Numbers.tiny]

section
variable {topo : Topology} {view : SiteView} {page : Page} {m : ℕ} {e : Engine} {sends : List (Send ℝ)}
  {groups : BTreeMap GroupId ℝ}

/-- A shown send that does not move is at its target already. -/
theorem still_reached {s : Send ℝ} (inside : s ∈ sends) (visible : shown view page (Viewer.ofPage page) s.src = true)
    (still : s ∉ moving view e.mirror page sends) : s.Reached (e.mirror.level page.mix s.src) := by
  simp only [moving, List.mem_filter, inside, visible, and_self, true_and, Bool.not_eq_true', Bool.not_eq_false,
    Bool.and_eq_true, same_iff, beq_iff_eq] at still
  exact ⟨still.1.1, still.1.2, still.2⟩

variable (given : Given topo view page m e sends groups)
include given

/-- A shown send that does not move stays where it is. -/
theorem Given.stage_still {s : Send ℝ} (inside : s ∈ sends)
    (visible : shown view page (Viewer.ofPage page) s.src = true) (still : s ∉ moving view e.mirror page sends) (i : ℕ) :
    (stage topo view page m e sends groups i).mirror.level page.mix s.src = e.mirror.level page.mix s.src := by
  have slot := given.slot visible
  have here := given.current (stage topo view page m e sends groups i) ((stage_frame i).topo.trans given.same)
    (stage_shaped given.sound.toShaped i) slot
  have before := given.current e given.same given.sound.toShaped slot
  have elsewhere : ∀ t ∈ moving view e.mirror page sends,
      (Sum.inl ((topo.slot m s.src).getD 0) : ℕ ⊕ ℕ) ≠ .inl ((topo.slot m t.src).getD 0) := by
    intro t moves same
    obtain ⟨from_, visible'⟩ := mem_moving moves
    exact still (given.slot_inj inside from_ visible visible' (Sum.inl.inj same) ▸ moves)
  have kept : Engine.levelAt m (stage topo view page m e sends groups i) (.inl _) = Engine.levelAt m e (.inl _) :=
    (Exact.stage_still i elsewhere fun _ _ => Sum.inl_ne_inr).1
  exact Option.some.inj (here.symm.trans (kept.trans before))

theorem Given.glides {s : Send ℝ} (inside : s ∈ sends) (visible : shown view page (Viewer.ofPage page) s.src = true)
    {i : ℕ} (within : i ≤ rampSteps) : Glides s (e.mirror.level page.mix s.src)
      ((stage topo view page m e sends groups i).mirror.level page.mix s.src)
      ((stage topo view page m e sends groups (i + 1)).mirror.level page.mix s.src) := by
  by_cases moves : s ∈ moving view e.mirror page sends
  · have before := given.stage_amplitude moves (show i ≤ rampSteps + 1 by omega)
    have after := given.stage_amplitude moves (show i + 1 ≤ rampSteps + 1 by omega)
    have now := @trail_towards (e.mirror.level page.mix s.src) s.level i
    have next := @trail_towards (e.mirror.level page.mix s.src) s.level (i + 1)
    constructor
    case muted =>
      intro cur target
      have here := given.current (stage topo view page m e sends groups (i + 1))
        ((stage_frame (i + 1)).topo.trans given.same) (stage_shaped given.sound.toShaped (i + 1)) (given.slot visible)
      by_cases early : i < rampSteps
      · rw [given.stage_level moves early] at here
        rw [← Option.some.inj here, track_muted _ _ early]
        simp [cur, target]
      · obtain rfl : i = rampSteps := by omega
        rw [given.stage_settled moves] at here
        rw [← Option.some.inj here]
        exact target
    case rises =>
      intro le
      rw [before, after]
      exact ⟨(next.1 le).1, (now.1 le).2.1, (next.1 le).2.2⟩
    case falls =>
      intro le
      rw [before, after]
      exact ⟨(next.2 le).1, (now.2 le).2.1, (next.2 le).2.2⟩
  · rw [given.stage_still inside visible moves, given.stage_still inside visible moves]
    exact ⟨fun muted _ => muted, fun le => ⟨le_rfl, le_rfl, le⟩, fun le => ⟨le, le_rfl, le_rfl⟩⟩

/-- A moving strip after the fifth step. -/
theorem Given.strip_moves {g : GroupId × ℝ} (moves : g ∈ movingGroups view e.mirror page groups) {j : ℕ}
    (index : topo.groupIndex g.1 = some j) (steps : 0 < rampSteps) :
    (stage topo view page m e sends groups rampSteps).strip m j = some { e.mirror.group page.mix g.1 with
      gainDb := cap (groupGain (e.mirror.group page.mix g.1) g.2 rampSteps) (-150) 12 } := by
  have last := given.stage_strip moves (show rampSteps - 1 < rampSteps by omega)
  rwa [index, Option.getD_some, Nat.sub_add_cancel steps] at last

omit given in
/-- A strip that does not move stays. -/
theorem strip_still {g : GroupId × ℝ} (still : g ∉ movingGroups view e.mirror page groups) (inside : g ∈ groups.toList)
    (ours : view.group = some g.1) (j i : ℕ) :
    (stage topo view page m e sends groups i).strip m j = e.strip m j := by
  have elsewhere : ∀ h ∈ movingGroups view e.mirror page groups,
      (Sum.inr j : ℕ ⊕ ℕ) ≠ .inr ((topo.groupIndex h.1).getD 0) := by
    intro h moves _
    obtain ⟨from_, ours'⟩ := mem_movingGroups moves
    have same := List.inj_on_of_nodup_map (BTreeMap.nodup_keys_toList groups) inside from_
      (Option.some.inj (ours.symm.trans ours'))
    exact still (same ▸ moves)
  exact (Exact.stage_still i (fun _ _ => Sum.inr_ne_inl) elsewhere).2

/-- The last stage is the end of the plan: a batch left out edits nothing. -/
theorem Given.stage_end : stage topo view page m e sends groups (ramp view e.mirror page sends groups).1.length =
    stage topo view page m e sends groups (rampSteps + 1) := by
  have empty : ∀ i, batchMoves view page e sends groups i = [] → batchEdits topo view page m e sends groups i = [] := by
    intro i none
    have means := given.means i
    rw [none] at means
    exact List.forall₂_nil_left_iff.mp means
  by_cases busy : moving view e.mirror page sends = [] ∧ movingGroups view e.mirror page groups = []
  · rw [ramp_idle busy.1 busy.2]
    have idle : ∀ i, stage topo view page m e sends groups i = e := by
      intro i
      induction i with
      | zero => rfl
      | succ i ih =>
        have none : batchMoves view page e sends groups i = [] := by
          apply List.eq_nil_of_length_eq_zero
          have bound : (batchMoves view page e sends groups i).length ≤ _ := batchMoves_length i
          simpa [busy.1, busy.2] using bound
        rw [stage, empty i none]
        exact ih
    rw [idle, idle]
  · rw [ramp_busy busy]
    cases last : (batchMoves view page e sends groups rampSteps).isEmpty with
    | true =>
      have none := empty rampSteps (List.isEmpty_iff.mp last)
      simp only [List.length_append, List.length_map, List.length_range, List.filter_cons, last, List.filter_nil]
      show _ = (batchEdits topo view page m e sends groups rampSteps).foldl _ _
      rw [none]
      rfl
    | false => simp [last]

theorem Given.lands : Lands view page sends groups e
    (stage topo view page m e sends groups (ramp view e.mirror page sends groups).1.length) := by
  rw [given.stage_end]
  have shaped : Engine.Shaped (stage topo view page m e sends groups (rampSteps + 1)) :=
    stage_shaped given.sound.toShaped _
  have topo' : (stage topo view page m e sends groups (rampSteps + 1)).topo = topo :=
    (stage_frame _).topo.trans given.same
  constructor
  case frame => exact stage_frame _
  case reached =>
    intro s inside visible
    by_cases moves : s ∈ moving view e.mirror page sends
    · have here := given.current _ topo' shaped (given.slot visible)
      rw [given.stage_settled moves] at here
      rw [← Option.some.inj here]
      exact ⟨by simp [Send.level], by simp [Send.level], rfl⟩
    · rw [given.stage_still inside visible moves]
      exact still_reached inside visible moves
  case faded =>
    intro g inside ours
    obtain ⟨j, index⟩ := given.grouped g.1 ours
    have here := given.currentStrip _ topo' shaped index
    by_cases moves : g ∈ movingGroups view e.mirror page groups
    · obtain ⟨low, high⟩ := given.fits' g inside
      rw [stage_strip_settled, given.strip_moves moves index (by decide)] at here
      rw [← Option.some.inj here]
      simp only [groupGain, if_pos, cap_of_mem low high, sub_self, abs_zero]
      norm_num
    · have still : (stage topo view page m e sends groups (rampSteps + 1)).strip m j = e.strip m j :=
        strip_still moves inside ours j _
      rw [given.currentStrip e given.same given.sound.toShaped index] at still
      rw [Option.some.inj (here.symm.trans still)]
      simp only [movingGroups, List.mem_filter, inside, ours, beq_self_eq_true, and_self, true_and, Bool.not_eq_true',
        Bool.not_eq_false, same_iff] at moves
      exact moves
  case levels =>
    intro m' k apart
    by_cases here : m = m'
    · subst here
      have elsewhere : ∀ t ∈ moving view e.mirror page sends,
          (Sum.inl k : ℕ ⊕ ℕ) ≠ .inl ((topo.slot m t.src).getD 0) := by
        intro t moves same
        obtain ⟨from_, visible⟩ := mem_moving moves
        have slot := given.slot visible
        rw [← Sum.inl.inj same] at slot
        exact apart t from_ visible (given.same ▸ ⟨given.known, slot⟩)
      exact (Exact.stage_still _ elsewhere fun _ _ => Sum.inl_ne_inr).1
    · exact (stage_aside _ here).1 k
  case strips =>
    intro m' i apart
    by_cases here : m = m'
    · subst here
      have elsewhere : ∀ g ∈ movingGroups view e.mirror page groups,
          (Sum.inr i : ℕ ⊕ ℕ) ≠ .inr ((topo.groupIndex g.1).getD 0) := by
        intro g moves same
        obtain ⟨from_, ours⟩ := mem_movingGroups moves
        obtain ⟨j, index⟩ := given.grouped g.1 ours
        have there := Sum.inr.inj same
        rw [index, Option.getD_some] at there
        exact apart g from_ ours (given.same ▸ ⟨given.known, there ▸ index⟩)
      exact (Exact.stage_still _ (fun _ _ => Sum.inr_ne_inl) elsewhere).2
    · exact (stage_aside _ here).2 i
  case switches =>
    intro m' i
    by_cases here : m = m'
    · subst here
      by_cases mover : ∃ g ∈ movingGroups view e.mirror page groups, topo.groupIndex g.1 = some i
      · obtain ⟨g, moves, index⟩ := mover
        rw [stage_strip_settled, given.strip_moves moves index (by decide),
          given.currentStrip e given.same given.sound.toShaped index]
        rfl
      · have elsewhere : ∀ g ∈ movingGroups view e.mirror page groups,
            (Sum.inr i : ℕ ⊕ ℕ) ≠ .inr ((topo.groupIndex g.1).getD 0) := by
          intro g moves same
          obtain ⟨j, index⟩ := given.grouped g.1 (mem_movingGroups moves).2
          have there := Sum.inr.inj same
          rw [index, Option.getD_some] at there
          exact mover ⟨g, moves, there ▸ index⟩
        exact congrArg _ (Exact.stage_still _ (fun _ _ => Sum.inr_ne_inl) elsewhere).2
    · rw [(stage_aside _ here).2]

end

/-! ### A page of the engine's own view -/

section
variable {topo : Topology} (wf : WellFormed topo) (cfg : Config) (roster : Option RosterState) {id : String}
  {page : Page} (paged : (SiteView.buildWith cfg roster topo.info).1.page id = some page)

include wf

include paged in
/-- A page of the view over an engine's topology is one to play on. -/
theorem given_of_paged {e : Engine} (same : e.topo = topo) (sound : Engine.Sound e) {sends : List (Send ℝ)}
    (once : (sends.map (·.src)).Nodup) (fits : ∀ s ∈ sends, s.level.InRange) {groups : BTreeMap GroupId ℝ}
    (fits' : ∀ g ∈ groups.toList, -150 ≤ g.2 ∧ g.2 ≤ 12) :
    ∃ m, Given topo (SiteView.buildWith cfg roster topo.info).1 page m e sends groups := by
  obtain ⟨node, inside, named⟩ := page_mix cfg roster paged
  obtain ⟨m, -, known⟩ := mixIndex_of_mem wf inside
  rw [named] at known
  refine ⟨m, wf, known, fun source visible => shown_slot wf cfg roster known visible, fun g head => ?_, same, sound,
    once, fits, fits'⟩
  -- The view's group is the topology's first.
  simp only [SiteView.buildWith, Topology.info, List.head?_map, Option.map_map, Option.map_eq_some_iff] at head
  obtain ⟨group, first, rfl⟩ := head
  exact ⟨0, (groupIndex_iff wf _ _).mpr (by rw [← List.head?_eq_getElem?, first]; rfl)⟩

end

/-! ### The claim -/

section
variable {view : SiteView} {page : Page} {e : Engine} {sends : List (Send ℝ)} {groups : BTreeMap GroupId ℝ}

/-- What was captured of a page and mirror is what is there. -/
theorem ramp_captured : (ramp view e.mirror page (capture view e.mirror page).sends
    (capture view e.mirror page).groups).1 = [] := by
  apply ramp_idle
  · rw [moving, List.filter_eq_nil_iff]
    intro s inside
    obtain ⟨source, -, rfl⟩ := List.mem_map.mp (List.mem_of_mem_filter inside)
    simp [same_iff]
  · rw [movingGroups, List.filter_eq_nil_iff]
    rintro ⟨key, gain⟩ inside
    have held := Std.ExtTreeMap.mem_toList_iff_getElem?_eq_some.mp (List.mem_of_mem_filter inside)
    obtain ⟨id, -, pair⟩ := List.mem_map.mp (BTreeMap.mem_of_getElem?_collect _ _ _ held)
    obtain ⟨rfl, rfl⟩ := Prod.mk.inj pair
    simp [same_iff]

/-- A first batch too long is refused, and the plan ends with it. -/
theorem ramp_refused (many : maxBatch < (moving view e.mirror page sends).length +
    (movingGroups view e.mirror page groups).length) :
    ∃ error, e.play ((ramp view e.mirror page sends groups).1.take 1) = .error error ∧
      e.play (ramp view e.mirror page sends groups).1 = .error error := by
  have busy : ¬ (moving view e.mirror page sends = [] ∧ movingGroups view e.mirror page groups = []) := by
    rintro ⟨levels, strips⟩
    simp [levels, strips] at many
  have long : maxBatch < (batchMoves view page e sends groups 0).length := by
    simpa [batchMoves, step, rampSteps] using many
  rw [ramp_busy busy]
  have refused : ∀ later, e.play (batchMoves view page e sends groups 0 :: later) =
      .error ⟨.badValue, "a batch holds at most " ++ toString maxBatch ++ " commands"⟩ := by
    intro later
    rw [Engine.play, List.foldlM_cons, Engine.batch, if_pos long]
    rfl
  exact ⟨_, refused [], refused _⟩

end

/-- An engine at its defaults. -/
noncomputable def Engine.fresh (topo : Topology) : Engine where
  topo := topo
  inputs := topo.inputs.map fun _ => {}
  mixes := topo.mixes.zipIdx.map fun p =>
    { out := {}
      levels := List.replicate (topo.levels p.2) { gainDb := Numbers.bottom, pan := 0, muted := false }
      groups := topo.groups.map fun _ => { gainDb := 0, muted := false, eq := {} } }
  solo := ∅

theorem Engine.fresh_sound (topo : Topology) : Sound (Engine.fresh topo) := by
  have record : ∀ (m : ℕ) (rec : MixRec), (Engine.fresh topo).mixes[m]? = some rec → rec =
      { out := {}
        levels := List.replicate (topo.levels m) { gainDb := Numbers.bottom, pan := 0, muted := false }
        groups := topo.groups.map fun _ => { gainDb := 0, muted := false, eq := {} } } := by
    intro m rec held
    simp only [Engine.fresh, List.getElem?_map, List.getElem?_zipIdx, Option.map_map, Option.map_eq_some_iff] at held
    obtain ⟨node, -, rfl⟩ := held
    simp
  constructor
  case toShaped =>
    constructor
    case mixes => simp [Engine.fresh]
    case levels =>
      intro m rec held
      simp [record m rec held, Engine.fresh]
    case groups =>
      intro m rec held
      simp [record m rec held, Engine.fresh]
  case fits =>
    intro m k l held
    obtain ⟨rec, there, here⟩ := Option.bind_eq_some_iff.mp held
    rw [record m rec there] at here
    obtain rfl := List.eq_of_mem_replicate (List.mem_of_getElem? here)
    constructor <;> norm_num [Numbers.bottom]
  case strips =>
    intro m g s held
    obtain ⟨rec, there, here⟩ := Option.bind_eq_some_iff.mp held
    rw [record m rec there] at here
    obtain ⟨node, -, rfl⟩ := List.mem_map.mp (List.mem_of_getElem? here)
    constructor <;> norm_num

/-- A page of an engine without a site's config. -/
def plainPage (mix : MixId) : Page where
  id := mix
  name := title mix
  mix := mix
  member := none

/-- Ids in their form, all different, pass. -/
theorem checkIds_ok {ids seen : List String} (valid : ∀ id ∈ ids, validId id = true) (once : ids.Nodup)
    (fresh : ∀ id ∈ ids, id ∉ seen) : checkIds ids seen = .ok () := by
  induction ids generalizing seen with
  | nil => rfl
  | cons id ids ih =>
    obtain ⟨apart, rest⟩ := List.nodup_cons.mp once
    rw [checkIds, if_neg (by simp [valid id List.mem_cons_self]),
      if_neg (by simpa using fresh id List.mem_cons_self)]
    refine ih (fun other inside => valid other (List.mem_cons_of_mem _ inside)) rest fun other inside => ?_
    rw [List.mem_cons, not_or]
    exact ⟨fun same => apart (same ▸ inside), fresh other (List.mem_cons_of_mem _ inside)⟩

/-- Mono inputs on channels of their own compile, in no group. -/
theorem compileInputs_mono (map : UInt16) {pairs : List (String × UInt16)} (acc : InputsAcc)
    (known : ∀ p ∈ pairs, p.2 ≠ 0 ∧ p.2 ≤ map) (once : (pairs.map (·.2)).Nodup)
    (fresh : ∀ p ∈ pairs, p.2 ∉ acc.used) :
    ∃ out, compileInputs map (pairs.map fun p => { id := p.1, rx := [p.2] }) acc = .ok out ∧
      out.inputs.map (·.id) = acc.inputs.map (·.id) ++ pairs.map (·.1) := by
  induction pairs generalizing acc with
  | nil => exact ⟨acc, rfl, by simp⟩
  | cons p pairs ih =>
    obtain ⟨apart, rest⟩ := List.nodup_cons.mp once
    obtain ⟨some, within⟩ := known p List.mem_cons_self
    have taken : checkChannels p.1 map [p.2] acc.used = .ok (p.2 :: acc.used) := by
      have here := fresh p List.mem_cons_self
      simp [checkChannels, some, here, UInt16.not_lt.mpr within]
    have apart' : ∀ q ∈ pairs, q.2 ∉ p.2 :: acc.used := by
      intro q inside
      rw [List.mem_cons, not_or]
      exact ⟨fun same => apart (List.mem_map.mpr ⟨q, inside, same⟩), fresh q (List.mem_cons_of_mem _ inside)⟩
    obtain ⟨out, ran, ids⟩ := ih
      { rx := acc.rx ++ [p.2], used := p.2 :: acc.used, talkback := acc.talkback,
        inputs := acc.inputs ++ [⟨p.1, (acc.rx.length, acc.rx.length), false, false, none⟩] }
      (fun q inside => known q (List.mem_cons_of_mem _ inside)) rest apart'
    refine ⟨out, ?_, by simpa using ids⟩
    simpa [compileInputs, taken, bind, Except.bind] using ran

/-- A card of 1000 channels with a mono input on each of `pairs`, and the engineer's mix alone. -/
def monoSite (pairs : List (String × UInt16)) : Site where
  channels := 1000
  engineer := "eng"
  inputs := pairs.map fun p => { id := p.1, rx := [p.2] }
  mixes := [{ id := "eng", tx := [1, 2] }]

/-- It is accepted, with every one of its inputs. -/
theorem monoSite_compiles {pairs : List (String × UInt16)} (valid : ∀ p ∈ pairs, validId p.1 = true)
    (distinct : (pairs.map (·.1)).Nodup) (apart : "eng" ∉ pairs.map (·.1)) (known : ∀ p ∈ pairs, p.2 ≠ 0 ∧ p.2 ≤ 1000)
    (once : (pairs.map (·.2)).Nodup) : ∃ topo, compile (fun _ => "") (monoSite pairs) = .ok topo ∧
      topo.inputs.map (·.id) = pairs.map (·.1) ∧ topo.mixes.map (·.id) = ["eng"] := by
  have ids : (monoSite pairs).inputs.map (·.id) ++ (monoSite pairs).groups.map (·.id) ++
      (monoSite pairs).mixes.map (·.id) = pairs.map (·.1) ++ ["eng"] := by
    simp [monoSite, Function.comp_def]
  have checked : checkIds (pairs.map (·.1) ++ ["eng"]) [] = .ok () := by
    apply checkIds_ok
    · intro id inside
      rcases List.mem_append.mp inside with input | engineer
      · obtain ⟨p, member, rfl⟩ := List.mem_map.mp input
        exact valid p member
      · rw [List.mem_singleton.mp engineer]
        decide
    · exact List.nodup_append.mpr ⟨distinct, List.nodup_singleton _, fun a inA b inB same =>
        apart (List.mem_singleton.mp inB ▸ same ▸ inA)⟩
    · simp
  obtain ⟨out, ran, named⟩ := compileInputs_mono 1000 {} known once (by simp)
  let node : MixNode := ⟨"eng", (some 0, some 1), false, [], [], false⟩
  let outs : MixesAcc :=
    { tx := [1, 2], used := [2, 1], declared := (∅ : BTreeMap String ℕ).insert "eng" 0, mixes := [node] }
  have inputs : compileInputs (monoSite pairs).channels (monoSite pairs).inputs {} = .ok out := ran
  have groups : ∀ pos inputs, compileGroups pos 0 (monoSite pairs).groups inputs [] = .ok (inputs, []) := fun _ _ => rfl
  have mixes : compileMixes (monoSite pairs).channels 0 (monoSite pairs).mixes {} = .ok outs := rfl
  have engineer : findEngineer (monoSite pairs).engineer outs = .ok 0 := by
    simp [findEngineer, outs, monoSite, node]
  have peers : compilePeers outs.declared 0 0 (monoSite pairs).mixes outs.mixes = .ok [node] := rfl
  have carries : ∀ name, compileCarries name 0 [node] [] = .ok [[0]] := fun _ => rfl
  let arranged : Arranged :=
    { inputs := out.inputs
      groups := []
      direct := (out.inputs.zipIdx.filter fun p => p.1.group.isNone).map (·.2)
      mixes := [node]
      rx := out.rx
      tx := outs.tx
      engineer := 0 }
  have arranges : arrange (monoSite pairs) = .ok arranged := by
    simp only [arrange, ids, checked, inputs, groups, mixes, engineer, peers, bind, Except.bind, pure, Except.pure]
    rfl
  refine ⟨arranged.topology fun _ => "", ?_, ?_, rfl⟩
  · simp only [compile, arranges, bind, Except.bind]
    rw [carries]
    rfl
  · rw [show (arranged.topology fun _ => "").inputs = out.inputs from rfl, named]
    rfl

/-- Two letters for a name. -/
def letters : List Char := "abcdefghijklmnopqrstuvwxyz".toList

/-- 676 names. -/
def pairNames : List String := (letters ×ˢ letters).map fun p => String.ofList [p.1, p.2]

/-- The names with channels from 1. -/
def pairs : List (String × UInt16) := pairNames.zipIdx.map fun p => (p.1, UInt16.ofNat (p.2 + 1))

theorem letters_nodup : letters.Nodup := by decide

theorem pairNames_length : pairNames.length = 676 := by
  rw [pairNames, List.length_map, List.length_product]
  rfl

theorem pairNames_nodup : pairNames.Nodup := by
  refine (letters_nodup.product letters_nodup).map fun p q same => ?_
  have chars := String.ofList_injective same
  simp only [List.cons.injEq, and_true] at chars
  exact Prod.ext chars.1 chars.2

theorem pairNames_valid {id : String} (inside : id ∈ pairNames) : validId id = true := by
  obtain ⟨⟨a, b⟩, both, rfl⟩ := List.mem_map.mp inside
  obtain ⟨inA, inB⟩ := List.mem_product.mp both
  have start : ∀ c ∈ letters, isIdStart c = true := List.all_eq_true.mp rfl
  have small : ∀ c ∈ letters, c.utf8Size = 1 := by
    have all : letters.all (·.utf8Size == 1) = true := rfl
    simpa using all
  simp [validId, start a inA, start b inB, small a inA, small b inB, maxIdLen]

@[simp] theorem pairs_names : pairs.map (·.1) = pairNames := by simp [pairs, Function.comp_def]

theorem pairs_place {p : String × UInt16} (inside : p ∈ pairs) :
    ∃ i < 676, pairNames[i]? = some p.1 ∧ p.2 = UInt16.ofNat (i + 1) := by
  obtain ⟨⟨name, i⟩, there, rfl⟩ := List.mem_map.mp inside
  have held := List.mem_zipIdx_iff_getElem?.mp there
  obtain ⟨bound, -⟩ := List.getElem?_eq_some_iff.mp held
  exact ⟨i, pairNames_length ▸ bound, held, rfl⟩

theorem channel_toNat {i : ℕ} (small : i < 676) : (UInt16.ofNat (i + 1)).toNat = i + 1 := by
  rw [UInt16.toNat_ofNat']
  omega

theorem pairs_known : ∀ p ∈ pairs, p.2 ≠ 0 ∧ p.2 ≤ (1000 : UInt16) := by
  intro p inside
  obtain ⟨i, small, -, channel⟩ := pairs_place inside
  have value := channel_toNat small
  rw [channel]
  constructor
  · intro zero
    rw [zero] at value
    simp at value
  · rw [UInt16.le_iff_toNat_le, value]
    show i + 1 ≤ 1000
    omega

theorem pairs_once : (pairs.map (·.2)).Nodup := by
  have indices : (pairNames.zipIdx.map (·.2)).Nodup := by
    simpa using List.nodup_range' (s := 0) (n := pairNames.length)
  rw [pairs, List.map_map]
  refine (List.Nodup.of_map _ indices).map_on fun p inP q inQ same => ?_
  have held := List.mem_zipIdx_iff_getElem?.mp inP
  have held' := List.mem_zipIdx_iff_getElem?.mp inQ
  obtain ⟨bound, -⟩ := List.getElem?_eq_some_iff.mp held
  obtain ⟨bound', -⟩ := List.getElem?_eq_some_iff.mp held'
  have values := congrArg UInt16.toNat same
  simp only [Function.comp_apply] at values
  rw [channel_toNat (pairNames_length ▸ bound), channel_toNat (pairNames_length ▸ bound')] at values
  have index : p.2 = q.2 := Nat.succ_injective values
  rw [index] at held
  exact Prod.ext (Option.some.inj (held.symm.trans held')) index

theorem wide_compiles : ∃ topo, compile (fun _ => "") (monoSite pairs) = .ok topo ∧
    topo.inputs.map (·.id) = pairNames ∧ topo.mixes.map (·.id) = ["eng"] := by
  rw [← pairs_names]
  apply monoSite_compiles
  · intro p inside
    apply pairNames_valid
    rw [← pairs_names]
    exact List.mem_map_of_mem inside
  · rw [pairs_names]
    exact pairNames_nodup
  · rw [pairs_names]
    intro inside
    obtain ⟨⟨a, b⟩, -, same⟩ := List.mem_map.mp inside
    have lengths := congrArg (fun s : String => s.toList.length) same
    simp at lengths
  · exact pairs_known
  · exact pairs_once

theorem ok_get {ε α : Type} {x : Except ε α} (some : x.toOption.isSome = true) : x = .ok (x.toOption.get some) := by
  cases x with
  | error e => cases some
  | ok a => rfl

theorem wide_isSome : (compile (fun _ => "") (monoSite pairs)).toOption.isSome = true := by
  obtain ⟨topo, ok, -⟩ := wide_compiles
  rw [ok]
  rfl

/-- A site of 676 inputs. -/
def wideCompiled : Compiled fun _ => "" where
  site := monoSite pairs
  topo := (compile (fun _ => "") (monoSite pairs)).toOption.get wide_isSome
  accepted := ok_get wide_isSome

theorem wide_topo : wideCompiled.topo.inputs.map (·.id) = pairNames ∧ wideCompiled.topo.mixes.map (·.id) = ["eng"] := by
  obtain ⟨topo, ok, facts⟩ := wide_compiles
  have same : wideCompiled.topo = topo := Except.ok.inj (wideCompiled.accepted.symm.trans ok)
  rwa [same]

/-- Every input faded up. -/
def wideSends : List (Send ℝ) := pairNames.map fun id => { src := .input id, gainDb := 0, pan := 0, muted := false }

theorem fresh_level (topo : Topology) (mix : MixId) (source : Source) :
    (Engine.fresh topo).mirror.level mix source = { gainDb := -150, pan := 0, muted := false } := by
  have any : ∀ m k l, (Engine.fresh topo).level m k = some l → l = { gainDb := -150, pan := 0, muted := false } := by
    intro m k l held
    obtain ⟨rec, there, here⟩ := Option.bind_eq_some_iff.mp held
    simp only [Engine.fresh, List.getElem?_map, List.getElem?_zipIdx, Option.map_map, Option.map_eq_some_iff] at there
    obtain ⟨node, -, rfl⟩ := there
    exact List.eq_of_mem_replicate (List.mem_of_getElem? here)
  simp only [Engine.mirror]
  cases held : ((Engine.fresh topo).topo.mixIndex mix).bind fun m =>
      ((Engine.fresh topo).topo.slot m source).bind ((Engine.fresh topo).level m) with
  | none => rfl
  | some l =>
    obtain ⟨m, -, slot⟩ := Option.bind_eq_some_iff.mp held
    obtain ⟨k, -, there⟩ := Option.bind_eq_some_iff.mp slot
    exact any m k l there

/-- An input of a site without a roster is shown on every page. -/
theorem shown_plain {topo : Topology} {id : InputId} (known : id ∈ topo.inputs.map (·.id)) (page : Page)
    (viewer : Viewer) : shown (SiteView.buildWith {} none topo.info).1 page viewer (.input id) = true := by
  obtain ⟨n, member, rfl⟩ := List.mem_map.mp known
  simp only [shown, showsInput, SiteView.foreignInput, Bool.and_eq_true]
  constructor
  · apply List.find?_isSome.mpr
    refine ⟨_, List.mem_map_of_mem (List.mem_map_of_mem member), ?_⟩
    simp [SiteView.inputView]
  · rfl

/-- The only mix of a site without a config has a page. -/
theorem page_plain {topo : Topology} {mix : MixId} (only : topo.mixes.map (·.id) = [mix]) :
    (SiteView.buildWith {} none topo.info).1.page mix = some (plainPage mix) := by
  obtain ⟨n, one, rfl⟩ := List.map_eq_singleton_iff.mp only
  simp [SiteView.page, SiteView.member, SiteView.buildWith, SiteView.knownMembers, siteMembers, Topology.info, one,
    SiteView.mixView, SiteView.vacantSets, plainPage]

end IemMixer.Server.Exact
