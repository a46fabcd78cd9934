import Mathlib.Data.Int.Order.Basic
import Mathlib.Data.Nat.Notation

/-! A sequence read by position the way Python reads one: a place below zero counts from the end, a
slice's bounds are clamped, and a search answers −1 when it finds nothing. -/
namespace IemMixer.Lib.Sequence
variable {α : Type}

/-- A slice's bound. -/
def clamp (size : ℕ) (place : ℤ) : ℕ := if place < 0 then (place + size).toNat else min place.toNat size

/-- `data[place]`; `none` is an `IndexError`. -/
def item? (data : List α) (place : ℤ) : Option α :=
  if 0 ≤ place then data[place.toNat]?
  else if 0 ≤ place + data.length then data[(place + data.length).toNat]?
  else none

/-- `data[low:high]`. -/
def slice (data : List α) (low high : ℤ) : List α :=
  (data.take (clamp data.length high)).drop (clamp data.length low)

/-- The last `x` before place `high` and not before `low`. -/
def lastBefore [DecidableEq α] (data : List α) (x : α) (low : ℕ) : ℕ → ℤ
  | 0 => -1
  | high + 1 => if high < low then -1 else if data[high]? = some x then high else lastBefore data x low high

/-- `data.rfind(x, low, high)`. -/
def rfind [DecidableEq α] (data : List α) (x : α) (low high : ℤ) : ℤ :=
  lastBefore data x (clamp data.length low) (clamp data.length high)

/-- `data.find(x, low)`. -/
def find [DecidableEq α] (data : List α) (x : α) (low : ℤ) : ℤ :=
  match (data.drop (clamp data.length low)).idxOf? x with
  | some n => (clamp data.length low + n : ℕ)
  | none => -1

variable {data : List α} {x : α} {low high place : ℤ}

theorem clamp_inside {size : ℕ} (first : 0 ≤ place) (last : place ≤ size) : clamp size place = place.toNat := by
  unfold clamp
  rw [if_neg (by omega)]
  omega

theorem clamp_before {size : ℕ} (before : place < -size) : clamp size place = 0 := by
  unfold clamp
  rw [if_pos (by omega)]
  omega

theorem item?_ofNat (n : ℕ) : item? data n = data[n]? := by
  rw [item?, if_pos (by omega), Int.toNat_natCast]

theorem item?_nonneg (first : 0 ≤ place) : item? data place = data[place.toNat]? := by
  rw [item?, if_pos first]

theorem item?_some (first : -(data.length : ℤ) ≤ place) (last : place < data.length) :
    ∃ x, item? data place = some x := by
  unfold item?
  split
  · exact ⟨_, List.getElem?_eq_getElem (by omega)⟩
  · rw [if_pos (by omega)]
    exact ⟨_, List.getElem?_eq_getElem (by omega)⟩

theorem item?_none (before : place < -(data.length : ℤ)) : item? data place = none := by
  rw [item?, if_neg (by omega), if_neg (by omega)]

theorem item?_past (past : (data.length : ℤ) ≤ place) : item? data place = none := by
  rw [item?_nonneg (by omega)]
  exact List.getElem?_eq_none (by omega)

theorem item?_mem (held : item? data place = some x) : x ∈ data := by
  unfold item? at held
  split at held
  · exact List.mem_of_getElem? held
  · split at held
    · exact List.mem_of_getElem? held
    · cases held

theorem slice_inside (first : 0 ≤ low) (order : low ≤ high) (last : high ≤ data.length) :
    slice data low high = (data.take high.toNat).drop low.toNat := by
  rw [slice, clamp_inside first (by omega), clamp_inside (by omega) last]

theorem length_slice (first : 0 ≤ low) (order : low ≤ high) (last : high ≤ data.length) :
    ((slice data low high).length : ℤ) = high - low := by
  rw [slice_inside first order last, List.length_drop, List.length_take]
  omega

theorem slice_append {middle : ℤ} (first : 0 ≤ low) (before : low ≤ middle) (after : middle ≤ high)
    (last : high ≤ data.length) : slice data low middle ++ slice data middle high = slice data low high := by
  rw [slice_inside first before (by omega), slice_inside (by omega) after last,
    slice_inside first (by omega) last]
  have early : data.take middle.toNat = (data.take high.toNat).take middle.toNat := by
    rw [List.take_take, Nat.min_eq_left (by omega)]
  rw [early]
  conv_rhs => rw [← List.take_append_drop middle.toNat (data.take high.toNat)]
  rw [List.drop_append_of_le_length]
  rw [List.length_take, List.length_take]
  omega

theorem slice_self (first : 0 ≤ low) (last : low ≤ data.length) : slice data low low = [] := by
  rw [slice_inside first le_rfl last]
  exact List.drop_eq_nil_of_le (by rw [List.length_take]; omega)

theorem mem_slice (first : 0 ≤ low) (order : low ≤ high) (last : high ≤ data.length) :
    x ∈ slice data low high ↔ ∃ place, low ≤ place ∧ place < high ∧ item? data place = some x := by
  rw [slice_inside first order last, List.mem_iff_getElem?]
  constructor
  · rintro ⟨n, held⟩
    rw [List.getElem?_drop, List.getElem?_take] at held
    split at held
    · exact ⟨low + n, by omega, by omega, by rw [item?_nonneg (by omega), ← held]; congr 1; omega⟩
    · cases held
  · rintro ⟨place, after, before, held⟩
    refine ⟨(place - low).toNat, ?_⟩
    rw [List.getElem?_drop, List.getElem?_take, if_pos (by omega), ← held, item?_nonneg (by omega)]
    congr 1
    omega

theorem slice_cons (first : 0 ≤ low) (order : low < high) (last : high ≤ data.length)
    (held : item? data low = some x) : slice data low high = x :: slice data (low + 1) high := by
  rw [slice_inside first (by omega) last, slice_inside (by omega) (by omega) last]
  rw [item?_nonneg first] at held
  have step : (low + 1).toNat = low.toNat + 1 := by omega
  rw [step]
  obtain ⟨inside, same⟩ := List.getElem?_eq_some_iff.mp held
  refine (List.drop_eq_getElem_cons (by rw [List.length_take]; omega)).trans ?_
  congr 1
  rw [List.getElem_take]
  exact same

section
variable [DecidableEq α]

theorem lastBefore_cases (data : List α) (x : α) (low high : ℕ) :
    (lastBefore data x low high = -1 ∧ ∀ n, low ≤ n → n < high → data[n]? ≠ some x) ∨
      ∃ found : ℕ, lastBefore data x low high = found ∧ low ≤ found ∧ found < high ∧ data[found]? = some x ∧
        ∀ n, found < n → n < high → data[n]? ≠ some x := by
  induction high with
  | zero => exact .inl ⟨rfl, fun n _ before => absurd before (by omega)⟩
  | succ high ih =>
    unfold lastBefore
    split
    next below => exact .inl ⟨rfl, fun n after before => absurd before (by omega)⟩
    next inside =>
      split
      next held => exact .inr ⟨high, rfl, by omega, by omega, held, fun n after before => absurd before (by omega)⟩
      next other =>
        have here (n : ℕ) (before : n < high + 1) (below : n < high → data[n]? ≠ some x) : data[n]? ≠ some x := by
          rcases Nat.lt_succ_iff_lt_or_eq.mp before with before | rfl
          · exact below before
          · exact other
        rcases ih with ⟨missing, clean⟩ | ⟨found, same, after, before, held, clean⟩
        · exact .inl ⟨missing, fun n after before => here n before (clean n after)⟩
        · exact .inr ⟨found, same, after, by omega, held, fun n after before => here n before (clean n after)⟩

theorem rfind_cases (x : α) (first : 0 ≤ low) (order : low ≤ high) (last : high ≤ data.length) :
    (rfind data x low high = -1 ∧ ∀ place, low ≤ place → place < high → item? data place ≠ some x) ∨
      ∃ found, rfind data x low high = found ∧ low ≤ found ∧ found < high ∧ item? data found = some x ∧
        ∀ place, found < place → place < high → item? data place ≠ some x := by
  rw [rfind, clamp_inside first (by omega), clamp_inside (by omega) last]
  rcases lastBefore_cases data x low.toNat high.toNat with ⟨missing, clean⟩ | ⟨found, same, after, before, held, clean⟩
  · refine .inl ⟨missing, fun place after before => ?_⟩
    rw [item?_nonneg (by omega)]
    exact clean _ (by omega) (by omega)
  · refine .inr ⟨found, same, by omega, by omega, by rw [item?_ofNat]; exact held, fun place after before => ?_⟩
    rw [item?_nonneg (by omega)]
    exact clean _ (by omega) (by omega)

theorem rfind_before (x : α) (low : ℤ) (before : high < -(data.length : ℤ)) : rfind data x low high = -1 := by
  rw [rfind, clamp_before before]
  rfl

theorem find_cases (data : List α) (x : α) (first : 0 ≤ low) (last : low ≤ data.length) :
    (find data x low = -1 ∧ ∀ place, low ≤ place → item? data place ≠ some x) ∨
      ∃ found, find data x low = found ∧ low ≤ found ∧ found < data.length ∧ item? data found = some x ∧
        ∀ place, low ≤ place → place < found → item? data place ≠ some x := by
  unfold find
  rw [clamp_inside first last]
  have there (place : ℤ) (after : low ≤ place) : item? data place = (data.drop low.toNat)[(place - low).toNat]? := by
    rw [item?_nonneg (by omega), List.getElem?_drop]
    congr 1
    omega
  cases search : (data.drop low.toNat).idxOf? x with
  | none =>
    refine .inl ⟨rfl, fun place after held => ?_⟩
    rw [there place after] at held
    exact (List.idxOf?_eq_none_iff.mp search) (List.mem_of_getElem? held)
  | some n =>
    obtain ⟨inside, held, clean⟩ := List.idxOf?_eq_some_iff.mp search
    rw [List.length_drop] at inside
    refine .inr ⟨low + n, by simp; omega, by omega, by omega, ?_, fun place after before => ?_⟩
    · have here : (low + (n : ℤ) - low).toNat = n := by omega
      rw [there _ (by omega), here, List.getElem?_eq_some_iff]
      exact ⟨by rw [List.length_drop]; omega, by simpa using held⟩
    · rw [there place after]
      intro same
      obtain ⟨within, same⟩ := List.getElem?_eq_some_iff.mp same
      exact clean (place - low).toNat (by omega) same

end

end IemMixer.Lib.Sequence
