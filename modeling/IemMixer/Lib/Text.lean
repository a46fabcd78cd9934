import Mathlib.Data.Char
import Mathlib.Data.List.Lex
import Mathlib.Data.Nat.Notation

/-! Text as its characters: splitting around a separator, and the order of texts that share
a length. -/
namespace IemMixer.Lib.Text

/-- `str::split_once`: around the first `sep`. -/
def splitOnce (sep : Char) : List Char → Option (List Char × List Char)
  | [] => none
  | c :: rest =>
    if c = sep then some ([], rest) else (splitOnce sep rest).map fun (before, after) => (c :: before, after)

/-- `str::rsplit_once`: around the last `sep`. -/
def rsplitOnce (sep : Char) (text : List Char) : Option (List Char × List Char) :=
  (splitOnce sep text.reverse).map fun (last, before) => (before.reverse, last.reverse)

/-- The first `n` bytes and the rest; `none` off a character's boundary, or past the end. -/
def splitAt : ℕ → List Char → Option (List Char × List Char)
  | 0, text => some ([], text)
  | _, [] => none
  | n, c :: rest =>
    if c.utf8Size ≤ n then (splitAt (n - c.utf8Size) rest).map fun (before, after) => (c :: before, after) else none

theorem splitOnce_iff {sep : Char} {text before rest : List Char} :
    splitOnce sep text = some (before, rest) ↔ text = before ++ sep :: rest ∧ sep ∉ before := by
  induction text generalizing before with
  | nil => simp [splitOnce]
  | cons c tail ih =>
    by_cases here : c = sep
    · subst here
      rw [splitOnce, if_pos rfl]
      constructor
      · rintro ⟨rfl, rfl⟩
        exact ⟨rfl, by simp⟩
      · rintro ⟨all, plain⟩
        cases before with
        | nil => simpa using all
        | cons d before =>
          obtain ⟨rfl, -⟩ := List.cons.inj all
          simp at plain
    · rw [splitOnce, if_neg here, Option.map_eq_some_iff]
      constructor
      · rintro ⟨⟨first, later⟩, found, same⟩
        obtain ⟨rfl, rfl⟩ := Prod.mk.inj same
        obtain ⟨rfl, plain⟩ := ih.mp found
        exact ⟨rfl, by simp [plain, Ne.symm here]⟩
      · rintro ⟨all, plain⟩
        cases before with
        | nil => exact absurd (List.cons.inj all).1 here
        | cons d before =>
          obtain ⟨rfl, all⟩ := List.cons.inj all
          exact ⟨(before, rest), ih.mpr ⟨by simpa using all, fun member => plain (List.mem_cons_of_mem _ member)⟩, rfl⟩

theorem rsplitOnce_iff {sep : Char} {text before rest : List Char} :
    rsplitOnce sep text = some (before, rest) ↔ text = before ++ sep :: rest ∧ sep ∉ rest := by
  unfold rsplitOnce
  simp only [Option.map_eq_some_iff, Prod.exists, splitOnce_iff, Prod.mk.injEq]
  constructor
  · rintro ⟨last, first, ⟨all, plain⟩, rfl, rfl⟩
    have reversed := congrArg List.reverse all
    exact ⟨by simpa using reversed, by simpa using plain⟩
  · rintro ⟨rfl, plain⟩
    exact ⟨rest.reverse, before.reverse, by simp [plain], by simp, by simp⟩

/-- Of texts of one length the smaller stays so, whatever follows. -/
theorem append_lt_append {a b : List Char} (same : a.length = b.length) (smaller : a < b) (x y : List Char) :
    a ++ x < b ++ y := by
  induction a generalizing b with
  | nil =>
    obtain rfl : b = [] := List.length_eq_zero_iff.mp same.symm
    exact absurd smaller (List.lt_irrefl [])
  | cons c rest ih =>
    cases b with
    | nil => simp at same
    | cons d others =>
      rw [List.cons_append, List.cons_append, List.cons_lt_cons_iff]
      refine (List.cons_lt_cons_iff.mp smaller).imp id fun ⟨here, later⟩ => ⟨here, ?_⟩
      exact ih (Nat.succ.inj same) later

end IemMixer.Lib.Text
