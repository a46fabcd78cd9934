import Mathlib.Data.List.Basic
import Mathlib.Tactic.Common

/-! A list that sheds its first droppable entries, one at a time, while it is longer than
a cap. What may not be dropped stays, and so does everything behind what had to go. -/
namespace IemMixer.Lib.Shed

variable {α : Type} (cap : ℕ) (droppable : α → Bool)

/-- The loop, at most `fuel` times round. -/
def loop : ℕ → List α → List α
  | 0, list => list
  | fuel + 1, list =>
    if cap < list.length then
      match list.findIdx? droppable with
      | some i => loop fuel (list.eraseIdx i)
      | none => list
    else list

/-- Each round makes the list shorter, so as many as it is long are enough. -/
def shed (list : List α) : List α := loop cap droppable list.length list

/-- Entries of which none had to go are all there. -/
theorem loop_filter (spared : α → Bool) (fuel : ℕ) (list : List α)
    (spare : ∀ x ∈ (list.filter droppable).take (list.length - cap), spared x = false) :
    (loop cap droppable fuel list).filter spared = list.filter spared := by
  induction fuel generalizing list with
  | zero => rfl
  | succ fuel ih =>
    unfold loop
    split
    · rename_i long
      cases found : list.findIdx? droppable with
      | none => rfl
      | some i =>
        obtain ⟨bound, drops, first⟩ := List.findIdx?_eq_some_iff_getElem.mp found
        -- What goes is the head of the droppable ones.
        have parts : list = list.take i ++ list[i] :: list.drop (i + 1) := by
          rw [← List.drop_eq_getElem_cons bound, List.take_append_drop]
        have before : (list.take i).filter droppable = [] := by
          rw [List.filter_eq_nil_iff]
          intro x member
          obtain ⟨j, inside, rfl⟩ := List.mem_iff_getElem.mp member
          rw [List.length_take] at inside
          rw [List.getElem_take]
          exact first j (by omega)
        have head : list.filter droppable = list[i] :: (list.drop (i + 1)).filter droppable := by
          conv_lhs => rw [parts]
          rw [List.filter_append, before, List.nil_append, List.filter_cons_of_pos drops]
        have rest : (list.eraseIdx i).filter droppable = (list.drop (i + 1)).filter droppable := by
          rw [List.eraseIdx_eq_take_drop_succ, List.filter_append, before, List.nil_append]
        have goes : spared list[i] = false := by
          apply spare
          rw [head, show list.length - cap = (list.length - cap - 1) + 1 by omega, List.take_succ_cons]
          exact List.mem_cons_self
        simp only
        rw [ih (list.eraseIdx i)]
        · conv_rhs => rw [parts]
          rw [List.eraseIdx_eq_take_drop_succ, List.filter_append, List.filter_append,
            List.filter_cons_of_neg (by simp [goes])]
        · intro x member
          apply spare
          rw [head, show list.length - cap = (list.length - 1 - cap) + 1 by omega, List.take_succ_cons]
          rw [rest, List.length_eraseIdx_of_lt bound] at member
          exact List.mem_cons_of_mem _ member
    · rfl

theorem loop_sublist (fuel : ℕ) (list : List α) : (loop cap droppable fuel list).Sublist list := by
  induction fuel generalizing list with
  | zero => exact .refl _
  | succ fuel ih =>
    unfold loop
    split
    · split
      · exact (ih _).trans (List.eraseIdx_sublist ..)
      · exact .refl _
    · exact .refl _

/-- Still too long, it has nothing left to drop. -/
theorem loop_length (fuel : ℕ) (list : List α) (enough : list.length ≤ cap + fuel) :
    (loop cap droppable fuel list).length ≤ cap ∨ ∀ x ∈ loop cap droppable fuel list, droppable x = false := by
  induction fuel generalizing list with
  | zero => exact .inl enough
  | succ fuel ih =>
    unfold loop
    split
    · cases found : list.findIdx? droppable with
      | none => exact .inr (List.findIdx?_eq_none_iff.mp found)
      | some i =>
        obtain ⟨bound, -⟩ := List.findIdx?_eq_some_iff_getElem.mp found
        apply ih
        rw [List.length_eraseIdx_of_lt bound]
        omega
    · exact .inl (by omega)

end IemMixer.Lib.Shed
