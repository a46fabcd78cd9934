import Mathlib.Tactic.Linarith
import Mathlib.Tactic.NormNum
import Mathlib.Data.Rat.Floor
import IemMixer.Ui.Fader

/-! The fader follows the finger: what a drag sends stays on the scale, near the raw position or
on the first integer a fast move crossed, and a slow drag skips no integer. -/
namespace IemMixer.Ui.Fader
variable {K : Type} [Field K] [LinearOrder K] [IsStrictOrderedRing K] [FloorRing K]

theorem round_near (x : K) : |(round x : K) - x| ≤ 1 / 2 := by
  have below := Int.floor_le (x + 1 / 2)
  have above := Int.lt_floor_add_one (x + 1 / 2)
  have under := Int.ceil_lt_add_one (x - 1 / 2)
  have upper := Int.le_ceil (x - 1 / 2)
  unfold round
  rw [Nat.cast_two, ← one_div, abs_le]
  split_ifs <;> constructor <;> linarith

theorem le_round {k : ℤ} {x : K} (le : (k : K) ≤ x) : k ≤ round x := by
  unfold round
  rw [Nat.cast_two, ← one_div]
  split_ifs
  · rw [Int.le_floor]
    linarith
  · rw [Int.le_ceil_iff]
    linarith

theorem round_le {k : ℤ} {x : K} (le : x ≤ k) : round x ≤ k := by
  unfold round
  rw [Nat.cast_two, ← one_div]
  split_ifs
  · rw [← Int.lt_add_one_iff, Int.floor_lt]
    push_cast
    linarith
  · rw [Int.ceil_le]
    linarith

theorem quantize_near (value : K) : |quantize value - value| ≤ 1 / 10 := by
  have near := abs_le.mp (round_near (value * 5))
  unfold quantize
  rw [Nat.cast_ofNat, abs_le]
  constructor <;> linarith

theorem le_quantize {k : ℤ} {value : K} (le : (k : K) ≤ value) : (k : K) ≤ quantize value := by
  have scaled : ((k * 5 : ℤ) : K) ≤ round (value * 5) := by
    exact_mod_cast le_round (by push_cast; linarith)
  unfold quantize
  push_cast at scaled ⊢
  linarith

theorem quantize_le {k : ℤ} {value : K} (le : value ≤ k) : quantize value ≤ k := by
  have scaled : ((round (value * 5) : ℤ) : K) ≤ (k * 5 : ℤ) := by
    exact_mod_cast round_le (by push_cast; linarith)
  unfold quantize
  push_cast at scaled ⊢
  linarith

theorem quantize_int (k : ℤ) : quantize (k : K) = k :=
  le_antisymm (quantize_le le_rfl) (le_quantize le_rfl)

omit [IsStrictOrderedRing K] in
theorem crossedInteger_up {prevRaw newRaw : K} (up : prevRaw < newRaw) :
    crossedInteger prevRaw newRaw =
      if prevRaw < ⌈prevRaw⌉ ∧ (⌈prevRaw⌉ : K) ≤ newRaw then some (⌈prevRaw⌉ : K) else none := by
  simp [crossedInteger, up, up.ne]

omit [IsStrictOrderedRing K] in
theorem crossedInteger_down {prevRaw newRaw : K} (down : newRaw < prevRaw) :
    crossedInteger prevRaw newRaw =
      if newRaw < ⌈newRaw⌉ ∧ (⌈newRaw⌉ : K) ≤ prevRaw then some (⌊prevRaw⌋ : K) else none := by
  simp [crossedInteger, down.ne', down.not_gt]

theorem clamp_mem (fader : Fader) (x : K) : (fader.min : K) ≤ fader.clamp x ∧ fader.clamp x ≤ fader.max := by
  have ordered : (fader.min : K) ≤ fader.max := by exact_mod_cast fader.ordered.le
  unfold clamp
  split
  · exact ⟨le_rfl, ordered⟩
  · rename_i above
    split
    · exact ⟨ordered, le_rfl⟩
    · rename_i below
      exact ⟨not_lt.mp above, not_lt.mp below⟩

omit [IsStrictOrderedRing K] in
/-- What a move can send: upwards the integer above its start, downwards the one below it,
else its end on the grid. -/
theorem newValue_cases (raw newRaw : K) :
    (raw < ⌈raw⌉ ∧ (⌈raw⌉ : K) ≤ newRaw ∧ newValue raw newRaw = ⌈raw⌉) ∨
    (newRaw < ⌈newRaw⌉ ∧ (⌈newRaw⌉ : K) ≤ raw ∧ newValue raw newRaw = ⌊raw⌋) ∨
    ((raw < newRaw → raw < ⌈raw⌉ → newRaw < ⌈raw⌉) ∧ (newRaw < raw → newRaw < ⌈newRaw⌉ → raw < ⌈newRaw⌉) ∧
      newValue raw newRaw = quantize newRaw) := by
  unfold newValue
  rcases lt_trichotomy raw newRaw with up | rfl | down
  · rw [crossedInteger_up up]
    split_ifs with crossed
    · exact .inl ⟨crossed.1, crossed.2, rfl⟩
    · exact .inr (.inr ⟨fun _ off => not_le.mp fun le => crossed ⟨off, le⟩, fun down => absurd down up.not_gt, rfl⟩)
  · exact .inr (.inr ⟨fun up => absurd up (lt_irrefl _), fun down => absurd down (lt_irrefl _),
      by simp [crossedInteger]⟩)
  · rw [crossedInteger_down down]
    split_ifs with crossed
    · exact .inr (.inl ⟨crossed.1, crossed.2, rfl⟩)
    · exact .inr (.inr ⟨fun up => absurd up down.not_gt, fun _ off => not_le.mp fun le => crossed ⟨off, le⟩, rfl⟩)

theorem newValue_mem {low high : ℤ} {raw newRaw : K} (start : (low : K) ≤ raw ∧ raw ≤ high)
    (stop : (low : K) ≤ newRaw ∧ newRaw ≤ high) :
    (low : K) ≤ newValue raw newRaw ∧ newValue raw newRaw ≤ high := by
  obtain ⟨off, reached, same⟩ | ⟨off, reached, same⟩ | ⟨-, -, same⟩ := newValue_cases raw newRaw
  · rw [same]
    exact ⟨start.1.trans off.le, reached.trans stop.2⟩
  · rw [same]
    have below : (⌊raw⌋ : K) ≤ raw := Int.floor_le raw
    exact ⟨by exact_mod_cast Int.le_floor.mpr start.1, below.trans start.2⟩
  · rw [same]
    exact ⟨le_quantize stop.1, quantize_le stop.2⟩

/-- The first integer beyond `raw`, the way `newRaw` lies. -/
def ahead (raw newRaw : K) : ℤ := if raw ≤ newRaw then ⌊raw⌋ + 1 else ⌈raw⌉ - 1

/-- From between two integers: within 1 dB, or the first integer crossed, more than 1 dB back. -/
theorem newValue_off {raw newRaw : K} (off : raw ∉ Set.range ((↑) : ℤ → K)) :
    |newValue raw newRaw - newRaw| ≤ 1 ∨
      1 < |newRaw - ahead raw newRaw| ∧ newValue raw newRaw = ahead raw newRaw := by
  have between : ⌈raw⌉ = ⌊raw⌋ + 1 := Int.ceil_eq_floor_add_one_iff_notMem raw |>.mpr off
  have far : ∀ x : K, |x - newRaw| ≤ 1 ∨ 1 < |newRaw - x| := fun x => by
    rw [abs_sub_comm newRaw]
    exact le_or_gt _ _
  obtain ⟨above, reached, same⟩ | ⟨above, reached, same⟩ | ⟨-, -, same⟩ := newValue_cases raw newRaw
  · have first : ahead raw newRaw = ⌈raw⌉ := by rw [ahead, if_pos (above.le.trans reached), between]
    rw [same, first]
    exact (far _).imp_right fun past => ⟨past, rfl⟩
  · have first : ahead raw newRaw = ⌊raw⌋ := by rw [ahead, if_neg (above.trans_le reached).not_ge, between]; omega
    rw [same, first]
    exact (far _).imp_right fun past => ⟨past, rfl⟩
  · rw [same]
    exact .inl ((quantize_near newRaw).trans (by norm_num))

/-- From an integer: within 1 dB upwards, and downwards while the move is no longer than that. -/
theorem newValue_on {raw newRaw : K} (on : raw ∈ Set.range ((↑) : ℤ → K)) (short : raw - newRaw ≤ 1) :
    |newValue raw newRaw - newRaw| ≤ 1 := by
  obtain ⟨k, rfl⟩ := on
  obtain ⟨above, -, -⟩ | ⟨above, reached, same⟩ | ⟨-, -, same⟩ := newValue_cases (k : K) newRaw
  · simp at above
  · rw [same, Int.floor_intCast, abs_of_nonneg]
    · exact short
    · exact sub_nonneg.mpr (above.le.trans reached)
  · rw [same]
    exact (quantize_near newRaw).trans (by norm_num)

/-- The integers a move meets or goes past. -/
def Move.Passes (move : Move K) (k : ℤ) : Prop :=
  (move.raw < k ∧ (k : K) ≤ move.newRaw) ∨ (move.newRaw ≤ k ∧ (k : K) < move.raw)

/-- A move of less than 1 dB passes one integer at most, and sends it. -/
theorem newValue_passed {raw newRaw : K} {k : ℤ} (short : |newRaw - raw| < 1)
    (passed : (raw < k ∧ (k : K) ≤ newRaw) ∨ (newRaw ≤ k ∧ (k : K) < raw)) : newValue raw newRaw = k := by
  obtain ⟨under, past⟩ := abs_lt.mp short
  have whole : ∀ a b : ℤ, (a : K) < b + 1 → a ≤ b := fun a b lt => by
    have : a < b + 1 := by exact_mod_cast lt
    omega
  obtain ⟨above, reached, same⟩ | ⟨above, reached, same⟩ | ⟨noneUp, noneDown, same⟩ := newValue_cases raw newRaw
  · rcases passed with ⟨start, stop⟩ | ⟨stop, start⟩
    · have least : ⌈raw⌉ ≤ k := Int.ceil_le.mpr start.le
      rw [same, le_antisymm least (whole k ⌈raw⌉ (by linarith))]
    · linarith
  · rcases passed with ⟨start, stop⟩ | ⟨stop, start⟩
    · linarith
    · have most : k ≤ ⌊raw⌋ := Int.le_floor.mpr start.le
      have low := Int.floor_le raw
      rw [same, le_antisymm (whole ⌊raw⌋ k (by linarith)) most]
  · have upper := Int.le_ceil raw
    have upperNew := Int.le_ceil newRaw
    rcases passed with ⟨start, stop⟩ | ⟨stop, start⟩
    · have least : (⌈raw⌉ : K) ≤ k := by exact_mod_cast Int.ceil_le.mpr start.le
      rcases upper.lt_or_eq with off | on
      · have := noneUp (start.trans_le stop) off
        linarith
      · have : k ≤ ⌈raw⌉ := whole k ⌈raw⌉ (by linarith)
        have : (k : K) ≤ ⌈raw⌉ := by exact_mod_cast this
        linarith
    · have least : ⌈newRaw⌉ ≤ k := Int.ceil_le.mpr stop
      have least' : (⌈newRaw⌉ : K) ≤ k := by exact_mod_cast least
      rcases upperNew.lt_or_eq with off | on
      · have := noneDown (stop.trans_lt start) off
        linarith
      · rw [same, on, quantize_int, le_antisymm least (whole k ⌈newRaw⌉ (by linarith))]

/-- Each move of a drag starts and ends on the scale. -/
theorem drag_on_scale {fader : Fader} {raw : K} {deltas : List K}
    (start : (fader.min : K) ≤ raw ∧ raw ≤ fader.max) :
    ∀ move ∈ fader.drag raw deltas, ((fader.min : K) ≤ move.raw ∧ move.raw ≤ fader.max) ∧
      ((fader.min : K) ≤ move.newRaw ∧ move.newRaw ≤ fader.max) ∧
      move.newValue = newValue move.raw move.newRaw := by
  induction deltas generalizing raw with
  | nil => simp [drag]
  | cons deltaRatio rest ih =>
    intro move member
    rcases List.mem_cons.mp member with rfl | later
    · exact ⟨start, clamp_mem fader _, rfl⟩
    · exact ih (clamp_mem fader _) move later

/-- The fader follows the finger: what a drag sends is on the scale and within 1 dB of the raw
position, or the first integer a longer move crossed; and moves of less than 1 dB send every
integer they pass. -/
theorem drag_follows (fader : Fader) (raw : K) (deltas : List K)
    (start : (fader.min : K) ≤ raw ∧ raw ≤ fader.max) :
    (∀ move ∈ fader.drag raw deltas,
      ((fader.min : K) ≤ move.newValue ∧ move.newValue ≤ fader.max) ∧
      (move.raw ∉ Set.range ((↑) : ℤ → K) → |move.newValue - move.newRaw| ≤ 1 ∨
        1 < |move.newRaw - ahead move.raw move.newRaw| ∧ move.newValue = ahead move.raw move.newRaw) ∧
      (move.raw ∈ Set.range ((↑) : ℤ → K) → move.raw - move.newRaw ≤ 1 →
        |move.newValue - move.newRaw| ≤ 1)) ∧
    ((∀ move ∈ fader.drag raw deltas, |move.newRaw - move.raw| < 1) →
      ∀ move ∈ fader.drag raw deltas, ∀ k : ℤ, move.Passes k → move.newValue = k) := by
  refine ⟨fun move member => ?_, fun short move member k passed => ?_⟩
  · obtain ⟨low, high, same⟩ := drag_on_scale start move member
    rw [same]
    exact ⟨newValue_mem low high, newValue_off, newValue_on⟩
  · obtain ⟨-, -, same⟩ := drag_on_scale start move member
    rw [same]
    exact newValue_passed (short move member) passed

def usual : Fader := ⟨-60, 12, by decide⟩

theorem slow_drag :
    ((usual.min : ℚ) ≤ (usual.touchmove (11 / 2 : ℚ) (1 / 80)).newValue ∧
      (usual.touchmove (11 / 2 : ℚ) (1 / 80)).newValue ≤ usual.max) ∧
    (usual.touchmove (11 / 2 : ℚ) (1 / 80)).newValue = (6 : ℤ) := by
  have ⟨values, passed⟩ := drag_follows usual (11 / 2 : ℚ) [1 / 80] (by decide +kernel)
  have only : ∀ move ∈ usual.drag (11 / 2 : ℚ) [1 / 80], move = ⟨11 / 2, 32 / 5, 6⟩ := by decide +kernel
  have moved : usual.touchmove (11 / 2 : ℚ) (1 / 80) ∈ usual.drag (11 / 2) [1 / 80] := List.mem_cons_self
  refine ⟨(values _ moved).1, passed (fun move member => ?_) _ moved 6 (.inl ?_)⟩
  · rw [only move member]
    norm_num [abs_lt]
  · rw [only _ moved]
    norm_num

/-- From 5.5 dB to 10.2 dB in one move: 6 dB is sent. -/
theorem fast_drag :
    ((usual.min : ℚ) ≤ 11 / 2 ∧ (11 / 2 : ℚ) ≤ usual.max) ∧
      usual.drag (11 / 2 : ℚ) [47 / 720] = [⟨11 / 2, 51 / 5, 6⟩] ∧ ¬|(6 : ℚ) - 51 / 5| ≤ 1 := by
  decide +kernel

end IemMixer.Ui.Fader
