import Mathlib.Tactic.Common
import Mathlib.Data.List.Basic

/-! Items cut from a stream of symbols that arrives in pieces. A format decides on what
is there so far; what it decided stands whatever comes after, so cutting piece by piece
and cutting the whole give the same items. -/
namespace IemMixer.Lib

/-- What a parser makes of the symbols there so far. -/
inductive Parsed (β α ε : Type) where
  | short
  | done (item : α) (rest : List β)
  | refused (e : ε)
  deriving DecidableEq

/-- A parser of one item that never takes back a decision and consumes what it decides on. -/
structure Format (β α ε : Type) where
  parse : List β → Parsed β α ε
  empty : parse [] = .short
  done_append : ∀ {b item rest} more, parse b = .done item rest →
    parse (b ++ more) = .done item (rest ++ more)
  refused_append : ∀ {b e} more, parse b = .refused e → parse (b ++ more) = .refused e
  consumes : ∀ {b item rest}, parse b = .done item rest → ∃ used, used ≠ [] ∧ b = used ++ rest

/-- The items cut off, and what is left: a refusal, or symbols that wait for more. -/
structure Cut (β α ε : Type) where
  items : List α
  left : Except ε (List β)

namespace Format
variable {β α ε : Type} (f : Format β α ε)

theorem shrinks {b rest : List β} {item : α} (decided : f.parse b = .done item rest) :
    rest.length < b.length := by
  obtain ⟨used, some, rfl⟩ := f.consumes decided
  have := List.length_pos_iff.mpr some
  simp only [List.length_append]
  omega

/-- Every item at the head of `b`. -/
def cut (b : List β) : Cut β α ε :=
  match decided : f.parse b with
  | .short => ⟨[], .ok b⟩
  | .refused e => ⟨[], .error e⟩
  | .done item rest =>
    have := f.shrinks decided
    ⟨item :: (cut rest).items, (cut rest).left⟩
termination_by b.length

variable {f}

theorem cut_short {b : List β} (decided : f.parse b = .short) : f.cut b = ⟨[], .ok b⟩ := by
  rw [cut]
  split <;> simp_all

theorem cut_refused {b : List β} {e : ε} (decided : f.parse b = .refused e) :
    f.cut b = ⟨[], .error e⟩ := by
  rw [cut]
  split <;> simp_all

theorem cut_done {b rest : List β} {item : α} (decided : f.parse b = .done item rest) :
    f.cut b = ⟨item :: (f.cut rest).items, (f.cut rest).left⟩ := by
  rw [cut]
  split <;> simp_all

/-- The cut after `c`, once `more` came. -/
def goOn (f : Format β α ε) (c : Cut β α ε) (more : List β) : Cut β α ε :=
  match c.left with
  | .error _ => c
  | .ok rest => ⟨c.items ++ (f.cut (rest ++ more)).items, (f.cut (rest ++ more)).left⟩

/-- Cutting what is there and going on with the rest is cutting the whole. -/
theorem cut_append (b more : List β) : f.cut (b ++ more) = f.goOn (f.cut b) more := by
  induction size : b.length using Nat.strongRecOn generalizing b with
  | ind n ih =>
    cases decided : f.parse b with
    | short => simp [cut_short decided, goOn]
    | refused e =>
      rw [cut_refused decided, cut_refused (f.refused_append more decided)]
      rfl
    | done item rest =>
      have smaller := f.shrinks decided
      rw [cut_done decided, cut_done (f.done_append more decided),
        ih rest.length (by omega) rest rfl]
      cases left : (f.cut rest).left <;> simp [goOn, left]

/-- What waits after a cut is not yet an item. -/
theorem cut_waits {b rest : List β} (left : (f.cut b).left = .ok rest) : f.parse rest = .short := by
  induction size : b.length using Nat.strongRecOn generalizing b with
  | ind n ih =>
    cases decided : f.parse b with
    | short =>
      rw [cut_short decided] at left
      cases left
      exact decided
    | refused e =>
      rw [cut_refused decided] at left
      cases left
    | done item after =>
      have smaller := f.shrinks decided
      rw [cut_done decided] at left
      exact ih after.length (by omega) left rfl

/-- What is left where no item is: a refusal, or symbols that wait. -/
def stop (f : Format β α ε) (b : List β) : Except ε (List β) :=
  match f.parse b with
  | .refused e => .error e
  | _ => .ok b

theorem cut_stop {b : List β} (none : ∀ item rest, f.parse b ≠ .done item rest) :
    f.cut b = ⟨[], f.stop b⟩ := by
  unfold stop
  cases decided : f.parse b with
  | short => exact cut_short decided
  | refused e => exact cut_refused decided
  | done item rest => exact absurd decided (none item rest)

/-- Formats that cut the same items stop at the same place. -/
theorem cut_alike {ε' : Type} {g : Format β α ε'}
    (alike : ∀ b item rest, f.parse b = .done item rest ↔ g.parse b = .done item rest) (b : List β) :
    (f.cut b).items = (g.cut b).items ∧ ∃ last, (∀ item rest, f.parse last ≠ .done item rest) ∧
      (f.cut b).left = f.stop last ∧ (g.cut b).left = g.stop last := by
  induction size : b.length using Nat.strongRecOn generalizing b with
  | ind n ih =>
    by_cases whole : ∃ item rest, f.parse b = .done item rest
    · obtain ⟨item, rest, decided⟩ := whole
      have smaller := f.shrinks decided
      obtain ⟨items, last, none, left, left'⟩ := ih rest.length (by omega) rest rfl
      rw [cut_done decided, cut_done ((alike b item rest).mp decided)]
      exact ⟨congrArg (item :: ·) items, last, none, left, left'⟩
    · have none : ∀ item rest, f.parse b ≠ .done item rest :=
        fun item rest there => whole ⟨item, rest, there⟩
      have none' : ∀ item rest, g.parse b ≠ .done item rest :=
        fun item rest there => none item rest ((alike b item rest).mpr there)
      rw [cut_stop none, cut_stop none']
      exact ⟨rfl, b, none, rfl, rfl⟩

section
variable {enc : α → List β}

/-- `enc item` is what the format cuts as `item`, and no shorter piece of it is one. -/
structure Writes (f : Format β α ε) (enc : α → List β) (item : α) : Prop where
  whole : f.parse (enc item) = .done item []
  piece : ∀ {b}, b <+: enc item → b.length < (enc item).length → f.parse b = .short

theorem cut_wire (items : List α) (writes : ∀ item ∈ items, Writes f enc item) (more : List β) :
    f.cut (items.flatMap enc ++ more) = ⟨items ++ (f.cut more).items, (f.cut more).left⟩ := by
  induction items with
  | nil => rfl
  | cons item items ih =>
    have whole := f.done_append (items.flatMap enc ++ more) (writes item (by simp)).whole
    rw [List.flatMap_cons, List.append_assoc, cut_done whole, List.nil_append,
      ih fun other member => writes other (by simp [member])]
    rfl

/-- Of a beginning of the written items exactly those are cut whose last symbol is there. -/
theorem cut_beginning (items : List α) (writes : ∀ item ∈ items, Writes f enc item) {b : List β}
    (begins : b <+: items.flatMap enc) :
    ∃ k ≤ items.length, f.cut b = ⟨items.take k, .ok (b.drop ((items.take k).flatMap enc).length)⟩ ∧
      ((items.take k).flatMap enc).length ≤ b.length ∧
      (k < items.length → b.length < ((items.take (k + 1)).flatMap enc).length) := by
  induction items generalizing b with
  | nil =>
    obtain rfl : b = [] := List.prefix_nil.mp begins
    exact ⟨0, Nat.le_refl _, cut_short f.empty, Nat.le_refl _, by simp⟩
  | cons item items ih =>
    have first := writes item (by simp)
    rw [List.flatMap_cons] at begins
    by_cases whole : (enc item).length ≤ b.length
    · -- The first item is there whole; the rest of `b` begins the other items.
      obtain ⟨tail, rfl⟩ := List.prefix_of_prefix_length_le (List.prefix_append ..) begins whole
      obtain ⟨k, fits, cuts, there, next⟩ := ih (fun other member => writes other (by simp [member]))
        ((List.prefix_append_right_inj _).mp begins)
      refine ⟨k + 1, by simpa using fits, ?_, ?_, ?_⟩
      · rw [cut_done (f.done_append tail first.whole), List.nil_append, cuts]
        simp [List.drop_append]
      · simpa using there
      · intro more
        simpa using next (by simpa using more)
    · -- Only a piece of the first item is there.
      have piece : b <+: enc item :=
        List.prefix_of_prefix_length_le begins (List.prefix_append ..) (by omega)
      refine ⟨0, by simp, ?_, by simp, ?_⟩
      · simpa using cut_short (first.piece piece (by omega))
      · simpa using by omega

end

section
variable (size : ℕ) (look : List β → Except ε ℕ) (make : List β → List β → Except ε α)

/-- `look` reads the body's size off a whole header, or refuses it; `make` makes the item
of the header and its body. -/
def headedParse (b : List β) : Parsed β α ε :=
  if b.length < size then .short
  else match look (b.take size) with
    | .error e => .refused e
    | .ok n =>
      if b.length < size + n then .short
      else match make (b.take size) ((b.drop size).take n) with
        | .error e => .refused e
        | .ok item => .done item (b.drop (size + n))

variable {size look make}

theorem headedParse_append {b : List β} (more : List β)
    (decided : headedParse size look make b ≠ .short) :
    headedParse size look make (b ++ more) = match headedParse size look make b with
      | .done item rest => .done item (rest ++ more)
      | other => other := by
  unfold headedParse at decided ⊢
  by_cases head : b.length < size
  · simp [head] at decided
  have head' : ¬ (b ++ more).length < size := by
    simp only [List.length_append]
    omega
  rw [if_neg head] at decided ⊢
  rw [if_neg head', List.take_append_of_le_length (by omega), List.drop_append_of_le_length (by omega)]
  cases said : look (b.take size) with
  | error e => rfl
  | ok n =>
    simp only [said] at decided ⊢
    by_cases whole : b.length < size + n
    · simp [whole] at decided
    have whole' : ¬ (b ++ more).length < size + n := by
      simp only [List.length_append]
      omega
    rw [if_neg whole, if_neg whole', List.take_append_of_le_length (by simp only [List.length_drop]; omega),
      List.drop_append_of_le_length (by omega)]
    cases make (b.take size) ((b.drop size).take n) <;> rfl

/-- The format of items with such a header. -/
def headed (size : ℕ) (some : 0 < size) (look : List β → Except ε ℕ)
    (make : List β → List β → Except ε α) : Format β α ε where
  parse := headedParse size look make
  empty := by simp [headedParse, some]
  done_append := fun more decided => by
    rw [headedParse_append more (by simp [decided]), decided]
  refused_append := fun more decided => by
    rw [headedParse_append more (by simp [decided]), decided]
  consumes := fun {b item rest} decided => by
    unfold headedParse at decided
    by_cases short : b.length < size
    · simp [short] at decided
    cases said : look (b.take size) with
    | error e => simp [short, said] at decided
    | ok n =>
      by_cases part : b.length < size + n
      · simp [short, said, part] at decided
      cases made : make (b.take size) ((b.drop size).take n) with
      | error e => simp [short, said, part, made] at decided
      | ok other =>
        simp only [short, said, part, made, if_false, Parsed.done.injEq] at decided
        refine ⟨b.take (size + n), fun none => ?_, by rw [← decided.2, List.take_append_drop]⟩
        have := congrArg List.length none
        simp only [List.length_take, List.length_nil] at this
        omega

theorem headed_refused {some : 0 < size} {b : List β} {e : ε}
    (decided : (headed size some look make).parse b = .refused e) :
    look (b.take size) = .error e ∨ ∃ n, look (b.take size) = .ok n ∧
      make (b.take size) ((b.drop size).take n) = .error e := by
  change headedParse size look make b = .refused e at decided
  unfold headedParse at decided
  by_cases short : b.length < size
  · simp [short] at decided
  cases said : look (b.take size) with
  | error other =>
    simp only [short, said, if_false, Parsed.refused.injEq] at decided
    exact .inl (by rw [decided])
  | ok n =>
    by_cases part : b.length < size + n
    · simp [short, said, part] at decided
    cases made : make (b.take size) ((b.drop size).take n) with
    | error other =>
      simp only [short, said, part, made, if_false, Parsed.refused.injEq] at decided
      exact .inr ⟨n, rfl, by rw [made, decided]⟩
    | ok item => simp [short, said, part, made] at decided

/-- An item written as a header and the body it announces. -/
theorem headed_writes {some : 0 < size} {enc : α → List β} {item : α} (head body : List β)
    (bytes : enc item = head ++ body) (whole : head.length = size) (size' : look head = .ok body.length)
    (made : make head body = .ok item) : Writes (headed size some look make) enc item := by
  have here : (head ++ body).take size = head := by rw [← whole, List.take_left]
  have after : (head ++ body).drop size = body := by rw [← whole, List.drop_left]
  constructor
  · show headedParse size look make (enc item) = .done item []
    unfold headedParse
    rw [bytes, if_neg (by simp [whole]), here, size', after]
    simp only
    rw [if_neg (by simp [whole]), List.take_length, made]
    simp [← whole]
  · intro b begins shorter
    show headedParse size look make b = .short
    unfold headedParse
    rw [bytes] at begins shorter
    simp only [List.length_append, whole] at shorter
    by_cases short : b.length < size
    · rw [if_pos short]
    · have same : b.take size = head := by
        rw [← here, (List.prefix_iff_eq_take.mp begins), List.take_take]
        congr 1
        omega
      rw [if_neg short, same, size']
      simp only
      rw [if_pos shorter]

end

end Format

end IemMixer.Lib
