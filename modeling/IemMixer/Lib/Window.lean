import Mathlib.Algebra.Order.Field.Basic
import Mathlib.Data.List.Basic
import Mathlib.Tactic.Common

/-! Peak holds: the largest of the newest values, kept without keeping the values by windows
that start over when they have had their share. Two windows that start over in turn never
forget together. -/
namespace IemMixer.Lib

section
variable {K : Type} [Zero K] [LinearOrder K]

/-- The largest of them, at least zero. -/
def largest (values : List K) : K := values.foldr max 0

@[simp] theorem largest_nil : largest ([] : List K) = 0 := rfl

@[simp] theorem largest_cons (a : K) (values : List K) : largest (a :: values) = max a (largest values) := rfl

theorem largest_nonneg (values : List K) : 0 ≤ largest values := by
  induction values with
  | nil => exact le_rfl
  | cons a values ih => exact ih.trans (le_max_right _ _)

theorem le_largest {a : K} {values : List K} (member : a ∈ values) : a ≤ largest values := by
  induction values with
  | nil => cases member
  | cons b values ih =>
    rcases List.mem_cons.mp member with rfl | later
    · exact le_max_left _ _
    · exact (ih later).trans (le_max_right _ _)

theorem largest_take_mono (values : List K) {n m : ℕ} (le : n ≤ m) :
    largest (values.take n) ≤ largest (values.take m) := by
  induction values generalizing n m with
  | nil => simp
  | cons a values ih =>
    cases n with
    | zero => exact largest_nonneg _
    | succ n =>
      cases m with
      | zero => cases le
      | succ m => exact max_le_max le_rfl (ih (Nat.le_of_succ_le_succ le))

/-- Two stretches of the newest values have the larger stretch's largest. -/
theorem largest_take_max (values : List K) (n m : ℕ) :
    max (largest (values.take n)) (largest (values.take m)) = largest (values.take (max n m)) := by
  rcases le_total n m with le | le
  · rw [max_eq_right (largest_take_mono values le), max_eq_right le]
  · rw [max_eq_left (largest_take_mono values le), max_eq_left le]

/-- A window: how many values came since the one it started with, and their largest. -/
structure Window (K : Type) where
  age : ℕ
  peak : K

namespace Window

/-- One more value; past `top` the window starts over with it. -/
def push (top : ℕ) (w : Window K) (a : K) : Window K :=
  if w.age + 1 ≤ top then ⟨w.age + 1, max w.peak a⟩ else ⟨0, max 0 a⟩

/-- It knows the largest of the values since it started, newest first in `past`. -/
structure Knows (top : ℕ) (past : List K) (w : Window K) : Prop where
  young : w.age ≤ top
  peak : w.peak = largest (past.take (w.age + 1))

theorem Knows.push {top : ℕ} {past : List K} {w : Window K} (knows : w.Knows top past) (a : K) :
    (w.push top a).Knows top (a :: past) := by
  unfold Window.push
  split
  case isTrue young =>
    constructor
    case young => exact young
    case peak => rw [List.take_succ_cons, largest_cons, knows.peak, max_comm]
  case isFalse old =>
    constructor
    case young => exact Nat.zero_le _
    case peak => simp [max_comm]

/-- A window is `lag` values ahead of another, round their common cycle. -/
def Ahead (top lag : ℕ) (w v : Window K) : Prop := v.age = w.age + lag ∨ w.age = v.age + (top + 1 - lag)

theorem Ahead.push {top lag : ℕ} (within : lag ≤ top) {w v : Window K} (ahead : Ahead top lag w v)
    (young : w.age ≤ top) (young' : v.age ≤ top) (a : K) : Ahead top lag (w.push top a) (v.push top a) := by
  unfold Ahead Window.push at *
  split <;> split <;> simp only <;> omega

/-- Together they cover a lag or what it leaves of the cycle, and no more than a cycle. -/
theorem Ahead.covers {top lag : ℕ} {past : List K} {w v : Window K} (ahead : Ahead top lag w v)
    (knows : w.Knows top past) (knows' : v.Knows top past) :
    largest (past.take (min lag (top + 1 - lag) + 1)) ≤ max w.peak v.peak ∧
      max w.peak v.peak ≤ largest (past.take (top + 1)) := by
  have young := knows.young
  have young' := knows'.young
  rw [knows.peak, knows'.peak, largest_take_max]
  constructor
  · apply largest_take_mono
    unfold Ahead at ahead
    omega
  · apply largest_take_mono
    omega

end Window

end

end IemMixer.Lib
