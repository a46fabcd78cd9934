import Mathlib.Tactic.Linarith
import Mathlib.Tactic.FieldSimp
import Mathlib.Tactic.Positivity
import Mathlib.Algebra.Order.Field.Power
import IemMixer.Lib.Float64

/-! How far a rounded result is from the exact one: within `2⁻⁵²` of it, away from underflow
and overflow. -/
namespace IemMixer.Lib.F64

theorem roundEven_near (q : ℚ) : |(roundEven q : ℚ) - q| ≤ 1 / 2 := by
  have low := Int.floor_le q
  have high := Int.lt_floor_add_one q
  unfold roundEven
  simp only
  rw [abs_le]
  split_ifs <;> push_cast <;> constructor <;> linarith

theorem exponent_le {q : ℚ} (pos : 0 < q) : (2 : ℚ) ^ exponent q ≤ q := by
  unfold exponent
  simp only
  split
  · assumption
  · have num : (2 : ℚ) ^ Nat.log2 q.num.natAbs ≤ q.num := by
      have whole : q.num.natAbs ≠ 0 := Int.natAbs_ne_zero.mpr (Rat.num_pos.mpr pos).ne'
      have below := Nat.log2_self_le whole
      have same : ((q.num.natAbs : ℤ) : ℚ) = q.num := by rw [Int.natAbs_of_nonneg (Rat.num_pos.mpr pos).le]
      rw [← same]
      exact_mod_cast below
    have den : (q.den : ℚ) ≤ 2 ^ (Nat.log2 q.den + 1) := by
      exact_mod_cast Nat.lt_log2_self.le
    have split : (2 : ℚ) ^ ((Nat.log2 q.num.natAbs : ℤ) - (Nat.log2 q.den : ℤ) - 1) =
        2 ^ Nat.log2 q.num.natAbs / 2 ^ (Nat.log2 q.den + 1) := by
      rw [sub_sub, zpow_sub₀ (by norm_num), zpow_natCast]
      norm_cast
    rw [split]
    calc (2 : ℚ) ^ Nat.log2 q.num.natAbs / 2 ^ (Nat.log2 q.den + 1)
        ≤ q.num / q.den := div_le_div₀ (by exact_mod_cast (Rat.num_pos.mpr pos).le) num
          (by exact_mod_cast q.den_pos) den
      _ = q := Rat.num_div_den q

/-- The size of a result neither tiny nor large. -/
theorem magnitude_near {m : ℚ} (normal : (2 : ℚ) ^ (-1000 : ℤ) ≤ m) :
    |(roundEven (m / 2 ^ (Max.max (exponent m) (-1022) - 52)) : ℚ) * 2 ^ (Max.max (exponent m) (-1022) - 52) - m| ≤
      m / 2 ^ 52 := by
  have pos : 0 < m := lt_of_lt_of_le (by positivity) normal
  have ulp_le : (2 : ℚ) ^ (Max.max (exponent m) (-1022) - 52) ≤ m / 2 ^ 52 := by
    rw [zpow_sub₀ (by norm_num)]
    apply div_le_div_of_nonneg_right _ (by norm_num)
    rcases le_total (exponent m) (-1022) with low | high
    · rw [max_eq_right low]
      exact (zpow_le_zpow_right₀ (by norm_num) (by norm_num)).trans normal
    · rw [max_eq_left high]
      exact exponent_le pos
  have ulp_pos : (0 : ℚ) < 2 ^ (Max.max (exponent m) (-1022) - 52) := by positivity
  generalize (2 : ℚ) ^ (Max.max (exponent m) (-1022) - 52) = ulp at *
  have half := roundEven_near (m / ulp)
  calc |(roundEven (m / ulp) : ℚ) * ulp - m|
      = |(roundEven (m / ulp) : ℚ) - m / ulp| * ulp := by
        rw [← abs_of_pos ulp_pos, ← abs_mul, abs_of_pos ulp_pos, sub_mul, div_mul_cancel₀ _ ulp_pos.ne']
    _ ≤ 1 / 2 * ulp := mul_le_mul_of_nonneg_right half ulp_pos.le
    _ ≤ m / 2 ^ 52 := by linarith

/-- A result neither tiny nor large is within `2⁻⁵²` of the exact one. -/
theorem ofRatSigned_near (neg : Bool) {q : ℚ} (normal : (2 : ℚ) ^ (-1000 : ℤ) ≤ |q|) (small : |q| ≤ 1) :
    ∃ r, ofRatSigned neg q = .fin r ∧ |r - q| ≤ |q| / 2 ^ 52 := by
  have pos : 0 < |q| := lt_of_lt_of_le (by positivity) normal
  have near := magnitude_near normal
  unfold ofRatSigned
  rw [if_neg (abs_pos.mp pos)]
  simp only
  generalize (roundEven (|q| / 2 ^ (Max.max (exponent |q|) (-1022) - 52)) : ℚ) *
    2 ^ (Max.max (exponent |q|) (-1022) - 52) = mag at *
  obtain ⟨low, high⟩ := abs_le.mp near
  have tiny : |q| / 2 ^ 52 ≤ |q| / 2 := div_le_div_of_nonneg_left pos.le (by norm_num) (by norm_num)
  have bounded : mag < 2 := by linarith
  have large : (2 : ℚ) ^ (1 : ℤ) ≤ 2 ^ (1024 : ℤ) := zpow_le_zpow_right₀ (by norm_num) (by norm_num)
  rw [zpow_one] at large
  rw [if_neg (by linarith), if_neg (bounded.trans_le large).not_ge]
  refine ⟨_, rfl, ?_⟩
  split
  · rename_i below
    rw [abs_of_neg below] at *
    rw [abs_le]
    constructor <;> linarith
  · rename_i above
    rw [abs_of_nonneg (not_lt.mp above)] at *
    exact near

end IemMixer.Lib.F64
