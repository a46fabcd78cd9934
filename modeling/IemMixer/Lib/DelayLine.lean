import Mathlib.Data.List.Induction
import Mathlib.Data.Nat.ModEq
import Mathlib.Tactic.Common

/-! A delay line in a ring of cells: the newest value is at `pos`, the one `j` before it `j` cells
on, around the end of the ring. -/
namespace IemMixer.Lib

structure DelayLine (α : Type) where
  cells : List α
  pos : ℕ

namespace DelayLine

section
variable {α : Type} [Zero α]

/-- `n` cells of silence. -/
def silent (n : ℕ) : DelayLine α := ⟨.replicate n 0, 0⟩

def push (line : DelayLine α) (x : α) : DelayLine α :=
  let pos := (line.pos + line.cells.length - 1) % line.cells.length
  ⟨line.cells.set pos x, pos⟩

/-- The value `j` before the newest. -/
def ago (line : DelayLine α) (j : ℕ) : α := line.cells[(line.pos + j) % line.cells.length]?.getD 0

omit [Zero α] in
@[simp] theorem length_push (line : DelayLine α) (x : α) : (line.push x).cells.length = line.cells.length := by
  simp [push]

@[simp] theorem ago_silent (n j : ℕ) : (silent n : DelayLine α).ago j = 0 := by
  simp only [ago, silent, List.getElem?_replicate]
  split <;> rfl

theorem ago_push_zero (line : DelayLine α) (x : α) (room : 0 < line.cells.length) : (line.push x).ago 0 = x := by
  have inside : (line.pos + line.cells.length - 1) % line.cells.length < line.cells.length := Nat.mod_lt _ room
  simp [ago, push, inside]

/-- The cell a push writes is the one that was furthest back. -/
theorem ago_push_succ (line : DelayLine α) (x : α) {j : ℕ} (near : j + 1 < line.cells.length) :
    (line.push x).ago (j + 1) = line.ago j := by
  have same : ((line.pos + line.cells.length - 1) % line.cells.length + (j + 1)) % line.cells.length =
      (line.pos + j) % line.cells.length := by
    rw [Nat.mod_add_mod, show line.pos + line.cells.length - 1 + (j + 1) = line.pos + j + line.cells.length by omega,
      Nat.add_mod_right]
  have apart : (line.pos + line.cells.length - 1) % line.cells.length ≠ (line.pos + j) % line.cells.length := by
    intro meet
    rw [show line.pos + line.cells.length - 1 = line.pos + (line.cells.length - 1) by omega] at meet
    have ends : Nat.ModEq line.cells.length (line.cells.length - 1) j := Nat.ModEq.add_left_cancel' _ meet
    have equal := Nat.ModEq.eq_of_lt_of_lt ends (by omega) (by omega)
    omega
  simp only [ago, push, List.length_set]
  rw [same, List.getElem?_set_ne apart]

/-- After the pushes of `xs` on a silent line the last ones are there, and silence before them. -/
theorem ago_pushes (n : ℕ) (xs : List α) {j : ℕ} (near : j < n) :
    (xs.foldl push (silent n)).ago j = if j < xs.length then xs[xs.length - 1 - j]?.getD 0 else 0 := by
  have length : ∀ xs : List α, (xs.foldl push (silent n)).cells.length = n := by
    intro xs
    induction xs using List.reverseRecOn with
    | nil => simp [silent]
    | append_singleton xs x ih => simp [ih]
  induction xs using List.reverseRecOn generalizing j with
  | nil => simp
  | append_singleton xs x ih =>
    rw [List.foldl_append, List.foldl_cons, List.foldl_nil]
    cases j with
    | zero =>
      rw [ago_push_zero _ _ (by rw [length]; omega)]
      simp
    | succ j =>
      rw [ago_push_succ _ _ (by rw [length]; exact near), ih (by omega)]
      by_cases past : j < xs.length
      · have inside : xs.length - 1 - j < xs.length := by omega
        have index : (xs ++ [x]).length - 1 - (j + 1) = xs.length - 1 - j := by
          rw [List.length_append, List.length_singleton]
          omega
        rw [if_pos past, if_pos (by simpa using past), index, List.getElem?_append_left inside]
      · rw [if_neg past, if_neg (by simpa using past)]

end
end DelayLine
end IemMixer.Lib
