import Mathlib.Tactic.Common
import Mathlib.Data.List.Basic

/-! Lists written through an index that saturates at `cap - 1`. Two places share the
last index once the list is longer than `cap`; what one index names alone behaves
as if the index were exact. -/
namespace IemMixer.Lib

/-- `i`, or the last index below `cap`. -/
def saturate (cap i : ℕ) : ℕ := if i < cap then i else cap - 1

/-- The places of `l` one index names alone: all up to `cap` of them, else all before
the last index. -/
def named (cap : ℕ) (l : List α) : List α := l.take (if l.length ≤ cap then l.length else cap - 1)

variable {cap : ℕ}

theorem named_modify (l : List α) (i : ℕ) (f : α → α) :
    named cap (l.modify i f) = (named cap l).modify i f := by
  simp [named, List.take_modify]

variable (cap) in
theorem named_length_le (l : List α) : (named cap l).length ≤ l.length := by
  rw [named, List.length_take]
  exact Nat.min_le_right _ _

theorem named_length_eq {l : List α} {l' : List β} (same : l.length = l'.length) :
    (named cap l).length = (named cap l').length := by
  simp [named, same]

theorem getElem?_of_named {l : List α} {i : ℕ} {x : α} (held : (named cap l)[i]? = some x) :
    l[i]? = some x := by
  unfold named at held
  obtain ⟨bound, same⟩ := List.getElem?_eq_some_iff.mp held
  rw [List.getElem_take] at same
  exact List.getElem?_eq_some_iff.mpr ⟨Nat.lt_of_lt_of_le bound (List.length_take_le' _ _), same⟩

/-- Writing a place of the list is writing what its index names. -/
theorem named_modify_saturate (l : List α) {i : ℕ} (inside : i < l.length) (f : α → α) :
    named cap (l.modify i f) = (named cap l).modify (saturate cap i) f := by
  rw [named_modify]
  by_cases small : i < cap
  · rw [saturate, if_pos small]
  · have short : (named cap l).length ≤ cap - 1 := by
      simp only [named, List.length_take]
      split <;> omega
    rw [saturate, if_neg small, List.modify_eq_self (by omega), List.modify_eq_self short]

theorem set_eq_modify {l : List α} {i : ℕ} {old : α} (held : l[i]? = some old) (f : α → α) :
    l.set i (f old) = l.modify i f := by
  apply List.ext_getElem?
  intro j
  rw [List.getElem?_set, List.getElem?_modify]
  by_cases here : i = j
  · subst here
    obtain ⟨bound, rfl⟩ := List.getElem?_eq_some_iff.mp held
    simp [bound]
  · simp [here]

variable (cap) in
/-- A place overwritten, through what its index names. -/
theorem named_set_saturate {l : List α} {i : ℕ} {old : α} (held : l[i]? = some old) (f : α → α) :
    named cap (l.set i (f old)) = (named cap l).modify (saturate cap i) f := by
  rw [set_eq_modify held]
  exact named_modify_saturate l (List.getElem?_eq_some_iff.mp held).1 f

section
variable (g : α → ℕ → β → β)

/-- Writes past the end write nothing. -/
private theorem sweep_past (xs : List α) (l : List β) (n : ℕ) (above : l.length ≤ n)
    (fits : n + xs.length ≤ cap ∨ l.length ≤ cap - 1) :
    (xs.zipIdx n).foldl (fun acc p => acc.modify (saturate cap p.2) (g p.1 p.2)) l = l := by
  induction xs generalizing n with
  | nil => rfl
  | cons x xs ih =>
    simp only [List.length_cons] at fits
    have beyond : l.length ≤ saturate cap n := by
      unfold saturate
      split <;> omega
    rw [List.zipIdx_cons, List.foldl_cons, List.modify_eq_self beyond]
    exact ih (n + 1) (by omega) (by omega)

variable (cap) in
private theorem sweep_from (xs : List α) (done rest : List β) (shorter : rest.length ≤ xs.length)
    (fits : done.length + rest.length ≤ cap - 1 ∨ done.length + xs.length ≤ cap) :
    (xs.zipIdx done.length).foldl (fun acc p => acc.modify (saturate cap p.2) (g p.1 p.2))
      (done ++ rest) = done ++ List.zipWith (fun p => g p.1 p.2) (xs.zipIdx done.length) rest := by
  induction xs generalizing done rest with
  | nil =>
    obtain rfl : rest = [] := List.length_eq_zero_iff.mp (by simpa using shorter)
    simp
  | cons x xs ih =>
    simp only [List.length_cons] at shorter fits
    cases rest with
    | nil =>
      simp only [List.length_nil] at fits
      simp only [List.append_nil, List.zipWith_nil_right]
      exact sweep_past g (x :: xs) done _ (Nat.le_refl _) (by simp only [List.length_cons]; omega)
    | cons y rest =>
      simp only [List.length_cons] at shorter fits
      have index : saturate cap done.length = done.length := by
        unfold saturate
        split <;> omega
      have here : (done ++ y :: rest).modify done.length (g x done.length) =
          (done ++ [g x done.length y]) ++ rest := by
        simp [List.modify_eq_take_drop]
      have next := ih (done ++ [g x done.length y]) rest (by omega)
        (by simp only [List.length_append, List.length_singleton]; omega)
      simp only [List.length_append, List.length_singleton] at next
      rw [List.zipIdx_cons, List.foldl_cons, index, here, next]
      simp

/-- Every element of `xs` written at its own index: each place the index names alone
gets its own. -/
theorem sweep (xs : List α) (l : List β) (same : l.length = (named cap xs).length) :
    xs.zipIdx.foldl (fun acc p => acc.modify (saturate cap p.2) (g p.1 p.2)) l =
      List.zipWith (fun p => g p.1 p.2) xs.zipIdx l := by
  have all := sweep_from cap g xs [] l (by rw [same]; exact named_length_le cap xs) (by
    simp only [same, named, List.length_take, List.length_nil]
    split <;> omega)
  simpa using all

variable (cap) in
/-- Where each write says the whole new value, what was there does not matter. -/
theorem sweep_overwrites (xs : List α) (l : List β) (f : α → ℕ → β)
    (same : l.length = (named cap xs).length)
    (whole : ∀ i x y, xs[i]? = some x → l[i]? = some y → g x i y = f x i) :
    xs.zipIdx.foldl (fun acc p => acc.modify (saturate cap p.2) (g p.1 p.2)) l =
      named cap (xs.zipIdx.map fun p => f p.1 p.2) := by
  rw [sweep g xs l same]
  have size : (named cap (xs.zipIdx.map fun p => f p.1 p.2)).length = l.length := by
    rw [same]
    exact named_length_eq (by simp)
  apply List.ext_getElem?
  intro i
  by_cases inside : i < l.length
  · have read : i < xs.length := by
      have := named_length_le cap xs
      omega
    have taken : (named cap (xs.zipIdx.map fun p => f p.1 p.2))[i]? =
        (xs.zipIdx.map fun p => f p.1 p.2)[i]? := by
      unfold named at size ⊢
      rw [List.length_take] at size
      exact List.getElem?_take_of_lt (by omega)
    rw [taken, List.getElem?_zipWith, List.getElem?_map, List.getElem?_zipIdx,
      List.getElem?_eq_getElem read, List.getElem?_eq_getElem inside]
    simpa using whole i _ _ (List.getElem?_eq_getElem read) (List.getElem?_eq_getElem inside)
  · rw [List.getElem?_eq_none (by simp only [List.length_zipWith]; omega),
      List.getElem?_eq_none (by omega)]

end

end IemMixer.Lib
