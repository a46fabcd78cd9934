import IemMixer.Server.RampExact

/-! A level on its way over exact numbers: what each step of a ramp makes of it, and that it
ends as stored. -/
namespace IemMixer.Server.Exact
open Lib Proto

theorem dbToLin_eq (db : ℝ) : dbToLin db = if -150 < db then (10 : ℝ) ^ (db / 20) else 0 := by
  simp [dbToLin, Numbers.lt, Numbers.bottom, Numbers.pow10, Numbers.div, Numbers.nat]

theorem linDb_eq (g : ℝ) : linDb g = if 0 < g then 20 * Real.logb 10 g else -150 := by
  simp [linDb, Numbers.lt, Numbers.bottom, Numbers.log10, Numbers.mul, Numbers.nat]

theorem dbToLin_nonneg (db : ℝ) : 0 ≤ dbToLin db := by
  rw [dbToLin_eq]
  split
  · positivity
  · exact le_rfl

theorem dbToLin_mono : Monotone (dbToLin : ℝ → ℝ) := by
  intro a b le
  rw [dbToLin_eq b]
  split
  · rename_i heard
    rw [dbToLin_eq]
    split
    · exact Real.rpow_le_rpow_of_exponent_le (by norm_num) (by linarith)
    · positivity
  · rename_i silent
    rw [dbToLin_eq, if_neg fun low => silent (low.trans_le le)]

/-- An amplitude as it sounds: what is not above `-150` dB is silence. -/
noncomputable def audible (x : ℝ) : ℝ := if Numbers.bottom < linDb x then x else 0

theorem audible_eq (x : ℝ) : audible x = if (10 : ℝ) ^ (-150 / 20 : ℝ) < x then x else 0 := by
  have same : (Numbers.bottom : ℝ) < linDb x ↔ (10 : ℝ) ^ (-150 / 20 : ℝ) < x := by
    show -150 < linDb x ↔ _
    rw [linDb_eq]
    by_cases pos : 0 < x
    · rw [if_pos pos, ← Real.lt_logb_iff_rpow_lt (by norm_num) pos, div_lt_iff₀' (by norm_num)]
    · rw [if_neg pos]
      have positive : (0 : ℝ) < 10 ^ (-150 / 20 : ℝ) := by positivity
      exact ⟨fun never => absurd never (lt_irrefl _), fun heard => absurd (positive.trans heard) pos⟩
  simp only [audible, same]

theorem audible_mono {x y : ℝ} (nonneg : 0 ≤ y) (le : x ≤ y) : audible x ≤ audible y := by
  rw [audible_eq, audible_eq]
  by_cases heard : (10 : ℝ) ^ (-150 / 20 : ℝ) < x
  · rw [if_pos heard, if_pos (heard.trans_le le)]
    exact le
  · rw [if_neg heard]
    split
    · exact nonneg
    · exact le_rfl

@[simp] theorem audible_zero : audible 0 = 0 := by simp [audible]

/-- What a gain sounds like is audible, or silence. -/
@[simp] theorem audible_dbToLin (db : ℝ) : audible (dbToLin db) = dbToLin db := by
  rw [dbToLin_eq]
  split
  · rename_i above
    rw [audible_eq]
    exact if_pos ((Real.rpow_lt_rpow_left_iff (by norm_num)).mpr (by linarith))
  · exact audible_zero

theorem cap_of_mem {v lo hi : ℝ} (low : lo ≤ v) (high : v ≤ hi) : cap v lo hi = v := by
  rw [cap, min_eq_left high, max_eq_right low]

/-- The gain of an amplitude sounds as it, as far as it sounds. -/
theorem dbToLin_linDb {x : ℝ} (high : x ≤ dbToLin 12) : dbToLin (cap (linDb x) (-150) 12) = audible x := by
  have top : dbToLin (12 : ℝ) = 10 ^ (12 / 20 : ℝ) := by rw [dbToLin_eq, if_pos (by norm_num)]
  rw [linDb_eq]
  by_cases pos : 0 < x
  · rw [if_pos pos]
    have back : (10 : ℝ) ^ (20 * Real.logb 10 x / 20) = x := by
      rw [mul_div_cancel_left₀ _ (by norm_num), Real.rpow_logb (by norm_num) (by norm_num) pos]
    have under : 20 * Real.logb 10 x ≤ 12 := by
      rw [← back, top, Real.rpow_le_rpow_left_iff (by norm_num)] at high
      linarith
    have sounds : (10 : ℝ) ^ (-150 / 20 : ℝ) < x ↔ -150 < 20 * Real.logb 10 x := by
      conv_lhs => rw [← back]
      rw [Real.rpow_lt_rpow_left_iff (by norm_num)]
      constructor <;> intro lt <;> linarith
    rw [cap, min_eq_left under, dbToLin_eq, audible_eq]
    by_cases heard : -150 < 20 * Real.logb 10 x
    · rw [max_eq_right heard.le, if_pos heard, if_pos (sounds.mpr heard), back]
    · rw [max_eq_left (not_lt.mp heard), if_neg (lt_irrefl _), if_neg (sounds.not.mpr heard)]
  · rw [if_neg pos, cap_of_mem le_rfl (by norm_num), dbToLin_eq, if_neg (lt_irrefl _), audible_eq,
      if_neg fun heard => pos ((by positivity : (0 : ℝ) < 10 ^ (-150 / 20 : ℝ)).trans heard)]

/-- What the engine keeps of a level. -/
structure Level.InRange (l : Level ℝ) : Prop where
  low : -150 ≤ l.gainDb
  high : l.gainDb ≤ 12
  left : -1 ≤ l.pan
  right : l.pan ≤ 1

/-- How loud it sounds. -/
noncomputable def Level.amplitude (l : Level ℝ) : ℝ := if l.muted then 0 else dbToLin l.gainDb

def Send.level (s : Send ℝ) : Level ℝ where
  gainDb := s.gainDb
  pan := s.pan
  muted := s.muted

theorem Level.amplitude_nonneg (l : Level ℝ) : 0 ≤ l.amplitude := by
  unfold amplitude
  split
  · exact le_rfl
  · exact dbToLin_nonneg _

theorem Level.InRange.amplitude_le {l : Level ℝ} (fits : l.InRange) : l.amplitude ≤ dbToLin 12 := by
  unfold amplitude
  split
  · exact dbToLin_nonneg _
  · exact dbToLin_mono fits.high

@[simp] theorem Level.audible_amplitude (l : Level ℝ) : audible l.amplitude = l.amplitude := by
  unfold amplitude
  split <;> simp

theorem between_eq (a b : ℝ) (k : ℕ) : between a b k = a + (b - a) * (k / 5) := by
  simp [between, Numbers.add, Numbers.sub, Numbers.mul, Numbers.div, Numbers.nat, rampSteps]

/-- On the way from `a` to `b`: at step `k + 1` nearer, and never past. -/
theorem between_towards {a b : ℝ} {k : ℕ} (before : k < rampSteps) :
    (a ≤ b → a ≤ between a b k ∧ between a b k ≤ between a b (k + 1) ∧ between a b (k + 1) ≤ b) ∧
      (b ≤ a → b ≤ between a b (k + 1) ∧ between a b (k + 1) ≤ between a b k ∧ between a b k ≤ a) := by
  have part : (0 : ℝ) ≤ k / 5 := by positivity
  have next : ((k + 1 : ℕ) : ℝ) / 5 = k / 5 + 1 / 5 := by push_cast; ring
  have whole : ((k + 1 : ℕ) : ℝ) / 5 ≤ 1 := by
    rw [div_le_one (by norm_num)]
    exact_mod_cast before
  rw [between_eq, between_eq, next] at *
  constructor
  · intro le
    refine ⟨?_, ?_, ?_⟩ <;> nlinarith
  · intro le
    refine ⟨?_, ?_, ?_⟩ <;> nlinarith

theorem between_le {a b top : ℝ} (low : a ≤ top) (low' : b ≤ top) {k : ℕ} (within : k ≤ rampSteps) :
    between a b k ≤ top := by
  have part : (k : ℝ) / 5 ≤ 1 := by
    rw [div_le_one (by norm_num)]
    exact_mod_cast within
  have part' : (0 : ℝ) ≤ k / 5 := by positivity
  rw [between_eq]
  nlinarith

/-- The gain a level's command at step `k` gives it. -/
noncomputable def stepGain (cur : Level ℝ) (s : Send ℝ) (k : ℕ) : ℝ :=
  if k = rampSteps ∧ !s.muted then s.gainDb else linDb (between cur.amplitude s.level.amplitude k)

noncomputable def stepPan (cur : Level ℝ) (s : Send ℝ) (k : ℕ) : ℝ :=
  if k = rampSteps then s.pan else between cur.pan s.pan k

def stepMute (cur : Level ℝ) (s : Send ℝ) (k : ℕ) : Option Bool := match cur.muted, s.muted with
  | false, true => if k = rampSteps then some true else none
  | true, false => if k = 1 then some false else none
  | _, _ => none

theorem levelStep_eq (mix : MixId) (cur : Level ℝ) (s : Send ℝ) (k : ℕ) :
    levelStep mix cur s k =
      .setLevel mix s.src (some (stepGain cur s k)) (some (stepPan cur s k)) (stepMute cur s k) := by
  have zero : (Numbers.nat 0 : ℝ) = 0 := Nat.cast_zero
  simp only [levelStep, stepGain, stepPan, Level.amplitude, Send.level, zero]
  rfl

/-- The level after the first `i` steps. -/
noncomputable def track (cur : Level ℝ) (s : Send ℝ) : ℕ → Level ℝ
  | 0 => cur
  | i + 1 => (track cur s i).set (some (stepGain cur s (i + 1))) (some (stepPan cur s (i + 1))) (stepMute cur s (i + 1))

theorem track_muted (cur : Level ℝ) (s : Send ℝ) {i : ℕ} (within : i < rampSteps) :
    (track cur s (i + 1)).muted = if i + 1 = rampSteps then s.muted else cur.muted && s.muted := by
  induction i with
  | zero =>
    simp only [track, Level.set, stepMute, rampSteps]
    cases cur.muted <;> cases s.muted <;> simp
  | succ i ih =>
    have before : i + 1 ≠ rampSteps := by omega
    have earlier := ih (by omega)
    rw [if_neg before] at earlier
    rw [track, Level.set]
    simp only [earlier, stepMute]
    cases cur.muted <;> cases s.muted <;> simp
    split <;> simp_all

section
variable {cur : Level ℝ} {s : Send ℝ} (here : cur.InRange) (there : s.level.InRange)
include here there

/-- At every step it sounds as the way from the one amplitude to the other says. -/
theorem track_amplitude {i : ℕ} (within : i ≤ rampSteps) :
    (track cur s i).amplitude = audible (between cur.amplitude s.level.amplitude i) := by
  cases i with
  | zero => simp [track, between_eq]
  | succ i =>
    have muted := track_muted cur s (Nat.lt_of_succ_le within)
    have gain : (track cur s (i + 1)).gainDb = cap (stepGain cur s (i + 1)) (-150) 12 := rfl
    have top : between cur.amplitude s.level.amplitude (i + 1) ≤ dbToLin 12 :=
      between_le here.amplitude_le there.amplitude_le within
    have last : i + 1 = rampSteps → between cur.amplitude s.level.amplitude (i + 1) = s.level.amplitude := by
      intro at_
      rw [at_, between_eq]
      norm_num [rampSteps]
    rw [Level.amplitude, muted, gain, stepGain]
    by_cases done : i + 1 = rampSteps
    · rw [if_pos done, last done, Level.audible_amplitude]
      cases silent : s.muted
      · have sounds : s.level.amplitude = dbToLin s.gainDb := by simp [Level.amplitude, Send.level, silent]
        simp only [done, Bool.not_false, and_self, if_true, Bool.false_eq_true, if_false]
        rw [sounds, cap_of_mem (show -150 ≤ s.gainDb from there.low) there.high]
      · simp [Level.amplitude, Send.level, silent]
    · rw [if_neg done, if_neg (fun both => done both.1 : ¬(i + 1 = rampSteps ∧ (!s.muted) = true)), dbToLin_linDb top]
      cases silent : s.muted <;> cases mute : cur.muted
      · simp
      · simp
      · simp
      · simp [Level.amplitude, Send.level, silent, mute, between_eq]

omit here in
/-- The whole ramp of a level, with the gain it is left with when it ends muted. -/
theorem track_lands :
    (if s.muted then (track cur s rampSteps).set (some s.gainDb) none none else track cur s rampSteps) = s.level := by
  have muted : (track cur s rampSteps).muted = s.muted := track_muted cur s (show 4 < rampSteps by decide)
  have pan : (track cur s rampSteps).pan = s.pan := by
    show cap (stepPan cur s rampSteps) (-1) 1 = s.pan
    rw [stepPan, if_pos rfl]
    exact cap_of_mem there.left there.right
  split
  · apply Level.ext
    · exact cap_of_mem there.low there.high
    · exact pan
    · exact muted
  · rename_i sounds
    apply Level.ext
    · show cap (stepGain cur s rampSteps) (-150) 12 = s.gainDb
      rw [stepGain, if_pos (by simp [sounds])]
      exact cap_of_mem there.low there.high
    · exact pan
    · exact muted

end

end IemMixer.Server.Exact
