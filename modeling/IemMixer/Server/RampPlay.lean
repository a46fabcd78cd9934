import IemMixer.Server.RampEdits

/-! A ramp played: its batches are accepted, and each level and strip it moves is followed
from stage to stage. -/
namespace IemMixer.Server.Exact
open Lib Proto TopologyProofs

/-! ### The ramp as edits -/

open Engine in
/-- What a ramp is played on: an engine of this topology, and a page that shows sources its mix hears. -/
structure Given (topo : Topology) (view : SiteView) (page : Page) (m : ℕ) (e : Engine) (sends : List (Send ℝ))
    (groups : BTreeMap GroupId ℝ) : Prop where
  wf : WellFormed topo
  known : topo.mixIndex page.mix = some m
  slots : ∀ source, shown view page (Viewer.ofPage page) source = true → ∃ k, topo.slot m source = some k
  grouped : ∀ g, view.group = some g → ∃ i, topo.groupIndex g = some i
  same : e.topo = topo
  sound : Sound e
  once : (sends.map (·.src)).Nodup
  fits : ∀ s ∈ sends, s.level.InRange
  fits' : ∀ g ∈ groups.toList, -150 ≤ g.2 ∧ g.2 ≤ 12

section
variable {topo : Topology} {view : SiteView} {page : Page} {m : ℕ} {e : Engine} {sends : List (Send ℝ)}
  {groups : BTreeMap GroupId ℝ} (given : Given topo view page m e sends groups)

/-- The gain a strip's command at step `k` gives it. -/
noncomputable def groupGain (cur : Strip ℝ) (target : ℝ) (k : ℕ) : ℝ :=
  if k = rampSteps then target
  else linDb (dbToLin cur.gainDb + (dbToLin target - dbToLin cur.gainDb) * k / rampSteps)

theorem groupStep_eq (mix : MixId) (group : GroupId) (cur : Strip ℝ) (target : ℝ) (k : ℕ) :
    groupStep mix group cur target k = .setGroup mix group (some (groupGain cur target k)) none := rfl

variable (topo m) in
/-- The edits of one level over the steps, and of one strip. -/
noncomputable def levelEdit (cur : Level ℝ) (s : Send ℝ) (k : ℕ) : Edit where
  place := .inl ((topo.slot m s.src).getD 0)
  level := (·.set (some (stepGain cur s k)) (some (stepPan cur s k)) (stepMute cur s k))

variable (topo) in
noncomputable def groupEdit (cur : Strip ℝ) (g : GroupId × ℝ) (k : ℕ) : Edit where
  place := .inr ((topo.groupIndex g.1).getD 0)
  strip := (·.set (some (groupGain cur g.2 k)) none)

variable (topo m) in
noncomputable def settleEdit (s : Send ℝ) : Edit where
  place := .inl ((topo.slot m s.src).getD 0)
  level := (·.set (some s.gainDb) none none)

variable (topo view page m e sends groups) in
/-- The edits of batch `i`: five steps, and the settling. -/
noncomputable def batchEdits (i : ℕ) : List Edit :=
  if i < rampSteps then
    ((moving view e.mirror page sends).map fun s => levelEdit topo m (e.mirror.level page.mix s.src) s (i + 1)) ++
      (movingGroups view e.mirror page groups).map fun g => groupEdit topo (e.mirror.group page.mix g.1) g (i + 1)
  else if i = rampSteps then ((moving view e.mirror page sends).filter (·.muted)).map (settleEdit topo m)
  else []

variable (view page e sends groups) in
/-- The commands of batch `i`. -/
noncomputable def batchMoves (i : ℕ) : List (Move ℝ) :=
  if i < rampSteps then step view e.mirror page sends groups (i + 1)
  else if i = rampSteps then settle view e.mirror page sends
  else []

theorem mem_moving {s : Send ℝ} (moves : s ∈ moving view e.mirror page sends) :
    s ∈ sends ∧ shown view page (Viewer.ofPage page) s.src = true := by
  obtain ⟨among, -⟩ := List.mem_filter.mp moves
  exact List.mem_filter.mp among

theorem mem_movingGroups {g : GroupId × ℝ} (moves : g ∈ movingGroups view e.mirror page groups) :
    g ∈ groups.toList ∧ view.group = some g.1 := by
  obtain ⟨among, -⟩ := List.mem_filter.mp moves
  obtain ⟨inside, ours⟩ := List.mem_filter.mp among
  exact ⟨inside, by simpa using ours⟩

include given

theorem Given.slot {s : Send ℝ} (visible : shown view page (Viewer.ofPage page) s.src = true) :
    topo.slot m s.src = some ((topo.slot m s.src).getD 0) := by
  obtain ⟨k, slot⟩ := given.slots s.src visible
  rw [slot, Option.getD_some]

theorem Given.means (i : ℕ) :
    List.Forall₂ (Engine.Means topo m) (batchMoves view page e sends groups i)
      (batchEdits topo view page m e sends groups i) := by
  unfold batchMoves batchEdits
  split
  · apply List.rel_append
    · rw [List.forall₂_map_left_iff, List.forall₂_map_right_iff, List.forall₂_same]
      intro s moves
      rw [levelStep_eq]
      exact ⟨given.known, _, given.slot (mem_moving moves).2, rfl⟩
    · rw [List.forall₂_map_left_iff, List.forall₂_map_right_iff, List.forall₂_same]
      intro g moves
      obtain ⟨i, index⟩ := given.grouped g.1 (mem_movingGroups moves).2
      rw [groupStep_eq]
      exact ⟨given.known, i, index, by simp [groupEdit, index]⟩
  · split
    · unfold settle
      rw [List.forall₂_map_left_iff, List.forall₂_map_right_iff, List.forall₂_same]
      intro s moves
      exact ⟨given.known, _, given.slot (mem_moving (List.mem_of_mem_filter moves)).2, rfl⟩
    · exact .nil

/-- Different sends are of different slots. -/
theorem Given.slot_inj {s t : Send ℝ} (inS : s ∈ sends) (inT : t ∈ sends)
    (visible : shown view page (Viewer.ofPage page) s.src = true)
    (visible' : shown view page (Viewer.ofPage page) t.src = true)
    (same : (topo.slot m s.src).getD 0 = (topo.slot m t.src).getD 0) : s = t := by
  obtain ⟨node, found, -⟩ := Option.map_eq_some_iff.mp ((mixIndex_iff given.wf page.mix m).mp given.known)
  have reads := (source_slot_iff given.wf found _ s.src).mpr (given.slot visible)
  have reads' := (source_slot_iff given.wf found _ t.src).mpr (given.slot visible')
  rw [same] at reads
  exact List.inj_on_of_nodup_map given.once inS inT (Option.some.inj (reads.symm.trans reads'))

theorem Given.apart (i : ℕ) : ((batchEdits topo view page m e sends groups i).map (·.place)).Nodup := by
  have distinct : (moving view e.mirror page sends).Nodup :=
    ((List.Nodup.of_map _ given.once).filter _).filter _
  unfold batchEdits
  split
  · rw [List.map_append, List.map_map, List.map_map]
    refine List.nodup_append.mpr ⟨?_, ?_, ?_⟩
    · refine distinct.map_on fun s inS t inT same => ?_
      obtain ⟨from_, visible⟩ := mem_moving inS
      obtain ⟨from', visible'⟩ := mem_moving inT
      exact given.slot_inj from_ from' visible visible' (Sum.inl.inj same)
    · have keys := BTreeMap.nodup_keys_toList groups
      refine (((List.Nodup.of_map _ keys).filter _).filter _).map_on fun g inG h inH _ => ?_
      obtain ⟨from_, ours⟩ := mem_movingGroups inG
      obtain ⟨from', ours'⟩ := mem_movingGroups inH
      exact List.inj_on_of_nodup_map keys from_ from' (Option.some.inj (ours.symm.trans ours'))
    · intro a inA b inB
      obtain ⟨s, -, rfl⟩ := List.mem_map.mp inA
      obtain ⟨g, -, rfl⟩ := List.mem_map.mp inB
      exact Sum.inl_ne_inr
  · split
    · rw [List.map_map]
      refine (distinct.filter _).map_on fun s inS t inT same => ?_
      obtain ⟨from_, visible⟩ := mem_moving (List.mem_of_mem_filter inS)
      obtain ⟨from', visible'⟩ := mem_moving (List.mem_of_mem_filter inT)
      exact given.slot_inj from_ from' visible visible' (Sum.inl.inj same)
    · exact List.nodup_nil

omit given
variable (topo view page m e sends groups) in
/-- The engine after `i` batches. -/
noncomputable def stage : ℕ → Engine
  | 0 => e
  | i + 1 => (batchEdits topo view page m e sends groups i).foldl (Engine.edit m) (stage i)

theorem stage_frame (i : ℕ) : Engine.Frame e (stage topo view page m e sends groups i) := by
  induction i with
  | zero => exact .refl e
  | succ i ih => exact ih.trans (Engine.edits_frame _ _ _)

theorem stage_shaped (shaped : Engine.Shaped e) (i : ℕ) : Engine.Shaped (stage topo view page m e sends groups i) := by
  induction i with
  | zero => exact shaped
  | succ i ih => exact ih.edits _ _

/-- Another mix is as it was. -/
theorem stage_aside (i : ℕ) {m' : ℕ} (other : m ≠ m') :
    (∀ k, (stage topo view page m e sends groups i).level m' k = e.level m' k) ∧
      ∀ g, (stage topo view page m e sends groups i).strip m' g = e.strip m' g := by
  induction i with
  | zero => exact ⟨fun _ => rfl, fun _ => rfl⟩
  | succ i ih =>
    obtain ⟨levels, strips⟩ := Engine.edits_aside (batchEdits topo view page m e sends groups i) m
      (stage topo view page m e sends groups i) other
    exact ⟨fun k => (levels k).trans (ih.1 k), fun g => (strips g).trans (ih.2 g)⟩

theorem mem_places {i : ℕ} {place : ℕ ⊕ ℕ}
    (member : place ∈ (batchEdits topo view page m e sends groups i).map (·.place)) :
    (∃ s ∈ moving view e.mirror page sends, place = .inl ((topo.slot m s.src).getD 0)) ∨
      ∃ g ∈ movingGroups view e.mirror page groups, place = .inr ((topo.groupIndex g.1).getD 0) := by
  obtain ⟨c, inside, rfl⟩ := List.mem_map.mp member
  unfold batchEdits at inside
  split at inside
  · rcases List.mem_append.mp inside with level | strip
    · obtain ⟨s, moves, rfl⟩ := List.mem_map.mp level
      exact .inl ⟨s, moves, rfl⟩
    · obtain ⟨g, moves, rfl⟩ := List.mem_map.mp strip
      exact .inr ⟨g, moves, rfl⟩
  · split at inside
    · obtain ⟨s, moves, rfl⟩ := List.mem_map.mp inside
      exact .inl ⟨s, List.mem_of_mem_filter moves, rfl⟩
    · cases inside

/-- A place no mover has is as it was. -/
theorem stage_still {place : ℕ ⊕ ℕ} (i : ℕ)
    (level : ∀ s ∈ moving view e.mirror page sends, place ≠ .inl ((topo.slot m s.src).getD 0))
    (strip : ∀ g ∈ movingGroups view e.mirror page groups, place ≠ .inr ((topo.groupIndex g.1).getD 0)) :
    Engine.levelAt m (stage topo view page m e sends groups i) place = Engine.levelAt m e place ∧
      Engine.stripAt m (stage topo view page m e sends groups i) place = Engine.stripAt m e place := by
  induction i with
  | zero => exact ⟨rfl, rfl⟩
  | succ i ih =>
    have absent : place ∉ (batchEdits topo view page m e sends groups i).map (·.place) := by
      intro member
      rcases mem_places member with ⟨s, moves, same⟩ | ⟨g, moves, same⟩
      · exact level s moves same
      · exact strip g moves same
    constructor
    · exact (foldl_elsewhere (·.place) (Engine.levelAt m) (Engine.levelAt_other m) absent _).trans ih.1
    · exact (foldl_elsewhere (·.place) (Engine.stripAt m) (Engine.stripAt_other m) absent _).trans ih.2

include given

/-- The level the mirror shows of a shown source is the one at its slot. -/
theorem Given.current (e' : Engine) (same : e'.topo = topo) (shaped : Engine.Shaped e') {source : Source} {k : ℕ}
    (slot : topo.slot m source = some k) : e'.level m k = some (e'.mirror.level page.mix source) := by
  subst same
  obtain ⟨l, held⟩ := shaped.heard given.wf given.known slot
  simp [Engine.mirror, given.known, slot, held]

theorem Given.currentStrip (e' : Engine) (same : e'.topo = topo) (shaped : Engine.Shaped e') {group : GroupId} {i : ℕ}
    (index : topo.groupIndex group = some i) : e'.strip m i = some (e'.mirror.group page.mix group) := by
  subst same
  obtain ⟨s, held⟩ := shaped.stripped given.wf given.known index
  simp [Engine.mirror, given.known, index, held]

section
variable {s : Send ℝ} (moves : s ∈ moving view e.mirror page sends)
include moves

theorem Given.stage_level {i : ℕ} (within : i ≤ rampSteps) :
    (stage topo view page m e sends groups i).level m ((topo.slot m s.src).getD 0) =
      some (track (e.mirror.level page.mix s.src) s i) := by
  induction i with
  | zero => exact given.current e given.same given.sound.toShaped (given.slot (mem_moving moves).2)
  | succ i ih =>
    have member : levelEdit topo m (e.mirror.level page.mix s.src) s (i + 1) ∈
        batchEdits topo view page m e sends groups i := by
      unfold batchEdits
      rw [if_pos (Nat.lt_of_succ_le within)]
      exact List.mem_append_left _ (List.mem_map.mpr ⟨s, moves, rfl⟩)
    have there := foldl_there (·.place) (Engine.levelAt m) (fun c => Option.map c.level) (Engine.levelAt_other m)
      (Engine.levelAt_self m) (given.apart i) member (stage topo view page m e sends groups i)
    calc (stage topo view page m e sends groups (i + 1)).level m ((topo.slot m s.src).getD 0)
        = ((stage topo view page m e sends groups i).level m ((topo.slot m s.src).getD 0)).map
            (levelEdit topo m (e.mirror.level page.mix s.src) s (i + 1)).level := there
      _ = some (track (e.mirror.level page.mix s.src) s (i + 1)) := by
          rw [ih (Nat.le_of_succ_le within)]
          rfl

/-- At the end of the plan a level is at its target. -/
theorem Given.stage_settled :
    (stage topo view page m e sends groups (rampSteps + 1)).level m ((topo.slot m s.src).getD 0) = some s.level := by
  have there := given.fits s (mem_moving moves).1
  have lands := @track_lands (e.mirror.level page.mix s.src) s there
  have before := given.stage_level moves (le_refl rampSteps)
  by_cases muted : s.muted = true
  · rw [if_pos muted] at lands
    have member : settleEdit topo m s ∈ batchEdits topo view page m e sends groups rampSteps := by
      unfold batchEdits
      rw [if_neg (lt_irrefl _), if_pos rfl]
      exact List.mem_map.mpr ⟨s, List.mem_filter.mpr ⟨moves, muted⟩, rfl⟩
    have settled := foldl_there (·.place) (Engine.levelAt m) (fun c => Option.map c.level) (Engine.levelAt_other m)
      (Engine.levelAt_self m) (given.apart rampSteps) member (stage topo view page m e sends groups rampSteps)
    calc (stage topo view page m e sends groups (rampSteps + 1)).level m ((topo.slot m s.src).getD 0)
        = ((stage topo view page m e sends groups rampSteps).level m ((topo.slot m s.src).getD 0)).map
            (settleEdit topo m s).level := settled
      _ = some s.level := by
          rw [before, ← lands]
          rfl
  · rw [if_neg muted] at lands
    have absent : Sum.inl ((topo.slot m s.src).getD 0) ∉
        (batchEdits topo view page m e sends groups rampSteps).map (·.place) := by
      unfold batchEdits
      rw [if_neg (lt_irrefl _), if_pos rfl, List.map_map]
      intro member
      obtain ⟨t, inside, same⟩ := List.mem_map.mp member
      obtain ⟨among, silent⟩ := List.mem_filter.mp inside
      obtain ⟨from_, visible⟩ := mem_moving among
      obtain ⟨from', visible'⟩ := mem_moving moves
      exact muted (given.slot_inj from_ from' visible visible' (Sum.inl.inj same) ▸ silent)
    have still := foldl_elsewhere Edit.place (Engine.levelAt m) (Engine.levelAt_other m) absent
      (stage topo view page m e sends groups rampSteps)
    exact (Eq.trans still before).trans (congrArg some lands)

end

/-- A strip over the steps: only its gain changes. -/
theorem Given.stage_strip {g : GroupId × ℝ} (moves : g ∈ movingGroups view e.mirror page groups) {i : ℕ}
    (within : i < rampSteps) :
    (stage topo view page m e sends groups (i + 1)).strip m ((topo.groupIndex g.1).getD 0) =
      some { e.mirror.group page.mix g.1 with
        gainDb := cap (groupGain (e.mirror.group page.mix g.1) g.2 (i + 1)) (-150) 12 } := by
  obtain ⟨j, index⟩ := given.grouped g.1 (mem_movingGroups moves).2
  have member : ∀ i, i < rampSteps → groupEdit topo (e.mirror.group page.mix g.1) g (i + 1) ∈
      batchEdits topo view page m e sends groups i := by
    intro i within
    unfold batchEdits
    rw [if_pos within]
    exact List.mem_append_right _ (List.mem_map.mpr ⟨g, moves, rfl⟩)
  have there := fun i within => foldl_there Edit.place (Engine.stripAt m) (fun c : Edit => Option.map c.strip)
    (Engine.stripAt_other m) (Engine.stripAt_self m) (given.apart i) (member i within)
    (stage topo view page m e sends groups i)
  induction i with
  | zero =>
    have first : e.strip m ((topo.groupIndex g.1).getD 0) = some (e.mirror.group page.mix g.1) := by
      rw [index]
      exact given.currentStrip e given.same given.sound.toShaped index
    exact (there 0 within).trans (by
      show Option.map _ (e.strip m ((topo.groupIndex g.1).getD 0)) = _
      rw [first]
      rfl)
  | succ i ih =>
    exact (there (i + 1) within).trans (by
      show Option.map _ ((stage topo view page m e sends groups (i + 1)).strip m ((topo.groupIndex g.1).getD 0)) = _
      rw [ih (by omega)]
      rfl)

omit given in
/-- The settling leaves the strips. -/
theorem stage_strip_settled (g : ℕ) : (stage topo view page m e sends groups (rampSteps + 1)).strip m g =
    (stage topo view page m e sends groups rampSteps).strip m g := by
  have absent : Sum.inr g ∉ (batchEdits topo view page m e sends groups rampSteps).map (·.place) := by
    unfold batchEdits
    rw [if_neg (lt_irrefl _), if_pos rfl, List.map_map]
    intro member
    obtain ⟨t, -, same⟩ := List.mem_map.mp member
    exact Sum.inl_ne_inr same
  exact foldl_elsewhere Edit.place (Engine.stripAt m) (Engine.stripAt_other m) absent
    (stage topo view page m e sends groups rampSteps)

/-! ### Playing it -/

omit given in
theorem batchMoves_length (i : ℕ) : (batchMoves view page e sends groups i).length ≤
    (moving view e.mirror page sends).length + (movingGroups view e.mirror page groups).length := by
  unfold batchMoves
  split
  · simp [step]
  · split
    · simp only [settle, List.length_map]
      exact (List.length_filter_le _ _).trans (Nat.le_add_right _ _)
    · exact Nat.zero_le _

omit given in
/-- Nothing to move, nothing sent. -/
theorem ramp_idle (levels : moving view e.mirror page sends = [])
    (strips : movingGroups view e.mirror page groups = []) :
    (ramp view e.mirror page sends groups).1 = [] := by
  simp [ramp, step, settle, levels, strips]

omit given in
/-- Else five batches, and a sixth when a level ends muted. -/
theorem ramp_busy
    (busy : ¬ (moving view e.mirror page sends = [] ∧ movingGroups view e.mirror page groups = [])) :
    (ramp view e.mirror page sends groups).1 = (List.range rampSteps).map (batchMoves view page e sends groups) ++
      [batchMoves view page e sends groups rampSteps].filter (!·.isEmpty) := by
  have steps : ∀ k, (step view e.mirror page sends groups k).isEmpty = false := by
    intro k
    simp only [step, List.isEmpty_eq_false_iff]
    simpa using busy
  have batches : (List.range rampSteps).map (batchMoves view page e sends groups) =
      (List.range rampSteps).map fun i => step view e.mirror page sends groups (i + 1) := by
    apply List.map_congr_left
    intro i inside
    exact if_pos (List.mem_range.mp inside)
  have last : batchMoves view page e sends groups rampSteps = settle view e.mirror page sends := by
    unfold batchMoves
    rw [if_neg (lt_irrefl _), if_pos rfl]
  rw [batches, last, ramp]
  simp only [List.filter_append]
  rw [List.filter_eq_self.mpr]
  intro batch member
  obtain ⟨i, -, rfl⟩ := List.mem_map.mp member
  simp [steps]

omit given in
theorem ramp_batch {i : ℕ} {ops : List (Move ℝ)} (sent : (ramp view e.mirror page sends groups).1[i]? = some ops) :
    ops = batchMoves view page e sends groups i := by
  by_cases busy : moving view e.mirror page sends = [] ∧ movingGroups view e.mirror page groups = []
  · simp [ramp_idle busy.1 busy.2] at sent
  · rw [ramp_busy busy, List.getElem?_append] at sent
    split at sent
    · rename_i early
      rw [List.getElem?_map, List.getElem?_range (by simpa using early)] at sent
      exact (Option.some.inj sent).symm
    · rename_i late
      simp only [List.length_map, List.length_range, not_lt] at late sent
      have last := List.mem_of_getElem? sent
      have only := List.mem_singleton.mp (List.mem_of_mem_filter last)
      have short : (List.filter (!·.isEmpty) [batchMoves view page e sends groups rampSteps]).length ≤ 1 :=
        List.length_filter_le _ _
      obtain ⟨bound, -⟩ := List.getElem?_eq_some_iff.mp sent
      obtain rfl : i = rampSteps := by omega
      exact only

/-- The plan is accepted batch by batch, each leading to the next stage. -/
theorem Given.play (few : (moving view e.mirror page sends).length + (movingGroups view e.mirror page groups).length ≤
    maxBatch) {i : ℕ} (within : i ≤ (ramp view e.mirror page sends groups).1.length) :
    e.play ((ramp view e.mirror page sends groups).1.take i) = .ok (stage topo view page m e sends groups i) := by
  induction i with
  | zero => rfl
  | succ i ih =>
    obtain ⟨ops, sent⟩ : ∃ ops, (ramp view e.mirror page sends groups).1[i]? = some ops :=
      ⟨_, List.getElem?_eq_getElem within⟩
    have before := ih (Nat.le_of_succ_le within)
    have shaped : Engine.Shaped (stage topo view page m e sends groups i) := stage_shaped given.sound.toShaped i
    have taken := shaped.batch_spec given.wf ((stage_frame i).topo.trans given.same) (given.means i)
      ((batchMoves_length i).trans few)
    unfold Engine.play at *
    rw [List.take_add_one, sent, List.foldlM_append, before]
    rw [ramp_batch sent]
    simp only [Option.toList_some, List.foldlM_cons, List.foldlM_nil, bind, Except.bind, taken]
    rfl

end

end IemMixer.Server.Exact
