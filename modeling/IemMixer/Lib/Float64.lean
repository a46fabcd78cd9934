import Mathlib.Data.Rat.Floor
import Mathlib.Tactic.Common

/-! IEEE 754 binary64 as a program sees it: NaN, the two infinities, a negative
zero and the finite values, each finite value by the rational it denotes. A
comparison with NaN is false and both zeros compare equal, so `peq` is not
Lean's equality. Arithmetic is the exact rational result rounded to the nearest
double, ties to even (`ofRat`). Every double is a value here; a statement about
every value is a statement about every double. -/
namespace IemMixer.Lib

inductive F64 where
  | nan
  | inf (neg : Bool)
  | negZero
  | fin (q : ℚ)
  deriving DecidableEq, Repr

namespace F64

instance : Inhabited F64 := ⟨.fin 0⟩

def isFinite : F64 → Bool
  | .negZero | .fin _ => true
  | .nan | .inf _ => false

/-- The rational a finite value denotes (0 for the rest). -/
def val : F64 → ℚ
  | .fin q => q
  | .negZero | .nan | .inf _ => 0

/-- `<`: false when either side is NaN. -/
def lt : F64 → F64 → Bool
  | .nan, _ => false
  | _, .nan => false
  | .inf a, .inf b => a && !b
  | .inf a, _ => a
  | _, .inf b => !b
  | a, b => a.val < b.val

/-- `==`: NaN equals nothing, the two zeros equal each other. -/
def peq : F64 → F64 → Bool
  | .nan, _ => false
  | _, .nan => false
  | .inf a, .inf b => a == b
  | .inf _, _ => false
  | _, .inf _ => false
  | a, b => a.val == b.val

/-- `<=`. -/
def le (a b : F64) : Bool := lt a b || peq a b

/-- `f64::clamp`: the lower bound first, then the upper one. -/
def clamp (v lo hi : F64) : F64 :=
  let v := if lt v lo then lo else v
  if lt hi v then hi else v

/-- `f64::min`: a NaN side gives the other. -/
def min : F64 → F64 → F64
  | .nan, b => b
  | a, .nan => a
  | a, b => if lt b a then b else a

/-- `f64::max`: a NaN side gives the other. -/
def max : F64 → F64 → F64
  | .nan, b => b
  | a, .nan => a
  | a, b => if lt a b then b else a

def abs : F64 → F64
  | .nan => .nan
  | .inf _ => .inf false
  | .negZero => .fin 0
  | .fin q => .fin |q|

/-- The value with a zero's sign forgotten: what comparisons see. -/
def num : F64 → F64
  | .negZero => .fin 0
  | v => v

/-- The finite values from `lo` to `hi`, both included. -/
def within (v lo hi : F64) : Bool := v.isFinite && !lt v lo && !lt hi v

theorem lt_irrefl (v : F64) : lt v v = false := by
  cases v with
  | nan => rfl
  | inf neg => cases neg <;> rfl
  | negZero => rfl
  | fin q => simp [lt, val]

theorem peq_self (finite : v.isFinite = true) : peq v v = true := by
  cases v with
  | nan => simp [isFinite] at finite
  | inf neg => simp [isFinite] at finite
  | negZero => rfl
  | fin q => simp [peq, val]

theorem peq_comm (a b : F64) : a.peq b = b.peq a := by
  cases a <;> cases b <;> simp [peq, Bool.beq_comm]

theorem num_of_peq (same : peq a b = true) : a.num = b.num := by
  cases a <;> cases b <;> simp_all [peq, num, val]

/-- Only the two zeros are equal without being the same. -/
theorem eq_of_peq (same : peq a b = true) (nonzero : a.val ≠ 0) : a = b := by
  cases a <;> cases b <;> simp_all [peq, val]

/-- Finite values compare as the rationals they denote. -/
theorem lt_eq_false_iff (left : a.isFinite = true) (right : b.isFinite = true) :
    lt a b = false ↔ b.val ≤ a.val := by
  have rational : lt a b = decide (a.val < b.val) := by
    cases a <;> cases b <;> first | rfl | simp_all [isFinite]
  rw [rational, decide_eq_false_iff_not, not_lt]

/-- Above a positive bound a value is not a zero. -/
theorem val_ne_zero_of_within (inside : within v lo hi = true) (finite : lo.isFinite = true)
    (positive : 0 < lo.val) : v.val ≠ 0 := by
  simp only [within, Bool.and_eq_true, Bool.not_eq_true'] at inside
  have bound := (lt_eq_false_iff inside.1.1 finite).mp inside.1.2
  exact (positive.trans_le bound).ne'

/-- Clamping between ordered finite bounds lands between them. -/
theorem within_clamp (finite : v.isFinite = true) (low : lo.isFinite = true)
    (high : hi.isFinite = true) (ordered : lt hi lo = false) :
    within (clamp v lo hi) lo hi = true := by
  simp only [clamp, within]
  by_cases below : lt v lo = true
  · simp [below, ordered, low, lt_irrefl]
  · by_cases above : lt hi v = true
    · simp [below, above, ordered, high, lt_irrefl]
    · simp [below, above, finite]

/-- A value already between the bounds is left as it is. -/
theorem clamp_of_within (inside : within v lo hi = true) : clamp v lo hi = v := by
  simp only [within, Bool.and_eq_true, Bool.not_eq_true'] at inside
  simp [clamp, inside.1.2, inside.2]

theorem finite_of_within (inside : within v lo hi = true) : v.isFinite = true := by
  simp only [within, Bool.and_eq_true] at inside
  exact inside.1.1

/-- The integer nearest `q ≥ 0`, ties to even. -/
def roundEven (q : ℚ) : ℤ :=
  let low := ⌊q⌋
  let rest := q - low
  if rest < 1 / 2 then low
  else if 1 / 2 < rest then low + 1
  else if low % 2 = 0 then low else low + 1

/-- The binary exponent `e` of `q > 0`: `2 ^ e ≤ q < 2 ^ (e + 1)`. -/
def exponent (q : ℚ) : ℤ :=
  let guess : ℤ := (Nat.log2 q.num.natAbs : ℤ) - (Nat.log2 q.den : ℤ)
  if (2 : ℚ) ^ guess ≤ q then guess else guess - 1

/-- The double nearest `q`, ties to even; beyond the largest one, infinity.
`neg` is the sign a zero result carries. -/
def ofRatSigned (neg : Bool) (q : ℚ) : F64 :=
  if q = 0 then if neg then .negZero else .fin 0
  else
    let ulp : ℚ := (2 : ℚ) ^ (Max.max (exponent |q|) (-1022) - 52)
    let mag : ℚ := roundEven (|q| / ulp) * ulp
    if mag = 0 then if q < 0 then .negZero else .fin 0
    else if (2 : ℚ) ^ (1024 : ℤ) ≤ mag then .inf (decide (q < 0))
    else .fin (if q < 0 then -mag else mag)

/-- The double nearest a literal. -/
def ofRat (q : ℚ) : F64 := ofRatSigned false q

/-- The sign bit (NaN's is not observable here). -/
def neg : F64 → Bool
  | .nan => false
  | .inf s => s
  | .negZero => true
  | .fin q => decide (q < 0)

def opp : F64 → F64
  | .nan => .nan
  | .inf s => .inf (!s)
  | .negZero => .fin 0
  | .fin q => if q = 0 then .negZero else .fin (-q)

def add : F64 → F64 → F64
  | .nan, _ => .nan
  | _, .nan => .nan
  | .inf a, .inf b => if a = b then .inf a else .nan
  | .inf a, _ => .inf a
  | _, .inf b => .inf b
  | a, b => ofRatSigned (a.neg && b.neg) (a.val + b.val)

def sub (a b : F64) : F64 := add a b.opp

def mul : F64 → F64 → F64
  | .nan, _ => .nan
  | _, .nan => .nan
  | .inf a, b => if b.isFinite && b.val == 0 then .nan else .inf (a != b.neg)
  | a, .inf b => if a.val == 0 then .nan else .inf (a.neg != b)
  | a, b => ofRatSigned (a.neg != b.neg) (a.val * b.val)

def div : F64 → F64 → F64
  | .nan, _ => .nan
  | _, .nan => .nan
  | .inf _, .inf _ => .nan
  | .inf a, b => .inf (a != b.neg)
  | a, .inf b => ofRatSigned (a.neg != b) 0
  | a, b =>
    if b.val == 0 then if a.val == 0 then .nan else .inf (a.neg != b.neg)
    else ofRatSigned (a.neg != b.neg) (a.val / b.val)

/-- `f64::sqrt`: the double nearest the root, which is never a tie. -/
def sqrt : F64 → F64
  | .fin q =>
    if q < 0 then .nan
    else if q = 0 then .fin 0
    else
      let ulp : ℚ := (2 : ℚ) ^ (exponent q / 2 - 52)
      let low := Nat.sqrt ⌊q / (ulp * ulp)⌋.toNat
      .fin ((if ((low : ℚ) + 1 / 2) * (low + 1 / 2) * (ulp * ulp) < q then (low : ℚ) + 1 else low) * ulp)
  | .negZero => .negZero
  | .inf neg => if neg then .nan else .inf false
  | .nan => .nan

/-- `f64::round`: to the nearest integer, ties away from zero. -/
def round : F64 → F64
  | .fin q => ofRatSigned (decide (q < 0)) (if q < 0 then -⌊-q + 1 / 2⌋ else ⌊q + 1 / 2⌋)
  | v => v

/-- `f64::fract`: what is past the decimal point. -/
def fract : F64 → F64
  | .fin q => .fin (q - if 0 ≤ q then ⌊q⌋ else ⌈q⌉)
  | .negZero => .fin 0
  | .nan | .inf _ => .nan

/-- `as u64`: towards zero, saturating; NaN is 0. -/
def toU64 : F64 → ℕ
  | .nan | .negZero => 0
  | .inf s => if s then 0 else 2 ^ 64 - 1
  | .fin q => Nat.min ⌊q⌋.toNat (2 ^ 64 - 1)

/-- `as f32`: the nearest single, ties to even; a single is here the double of its value. -/
def toSingle : F64 → F64
  | .fin q =>
    if q = 0 then .fin 0
    else
      let ulp : ℚ := (2 : ℚ) ^ (Max.max (exponent |q|) (-126) - 23)
      let mag : ℚ := roundEven (|q| / ulp) * ulp
      if mag = 0 then if q < 0 then .negZero else .fin 0
      else if (2 : ℚ) ^ (128 : ℤ) ≤ mag then .inf (decide (q < 0))
      else .fin (if q < 0 then -mag else mag)
  | v => v

example : add (ofRat (1 / 10)) (ofRat (2 / 10)) ≠ ofRat (3 / 10) := by decide +kernel

end F64
end IemMixer.Lib
