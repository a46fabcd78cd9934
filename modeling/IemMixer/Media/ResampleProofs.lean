import IemMixer.Lib.DelayLine
import IemMixer.Media.Resample

/-! The resamplers equal their convolutions: however the input is cut into chunks and however often
the ring wraps, each output is the sum of all the taps over the input at that output's place. -/
namespace IemMixer.Resample
open Lib
open Media (taps center isOdd)

section
variable {K : Type} [Field K] [LinearOrder K]

namespace Line

/-- A ring of as many cells as there are taps. -/
def delay (line : Line K) : DelayLine K := ⟨line.hist, line.pos⟩

/-- The line after the samples `xs`. -/
def after (xs : List K) : Line K := xs.foldl push new

omit [LinearOrder K] in
@[simp] theorem after_append (xs : List K) (x : K) : after (xs ++ [x]) = (after xs).push x := by
  simp [after]

omit [LinearOrder K] in
theorem length_after (xs : List K) : (after xs).hist.length = taps := by
  induction xs using List.reverseRecOn with
  | nil => simp [after, new]
  | append_singleton xs x ih => simp [push, ih]

omit [LinearOrder K] in
theorem delay_after (xs : List K) : (after xs).delay = xs.foldl DelayLine.push (.silent taps) := by
  induction xs using List.reverseRecOn with
  | nil => rfl
  | append_singleton xs x ih =>
    have length := length_after xs
    rw [List.foldl_append, ← ih, after_append]
    simp only [push, delay, DelayLine.push, List.foldl_cons, List.foldl_nil, length]

end Line

omit [LinearOrder K] in
/-- A list's products, summed by index. -/
theorem sum_zipIdx (h : List K) (x : ℕ → K) :
    (h.zipIdx.map fun p => p.1 * x p.2).sum = ∑ j ∈ Finset.range h.length, h[j]?.getD 0 * x j := by
  induction h using List.reverseRecOn with
  | nil => simp
  | append_singleton h c ih =>
    have early : ∀ j ∈ Finset.range h.length, (h ++ [c])[j]?.getD 0 * x j = h[j]?.getD 0 * x j := by
      intro j inside
      rw [List.getElem?_append_left (Finset.mem_range.mp inside)]
    rw [List.length_append, List.length_singleton, Finset.sum_range_succ, Finset.sum_congr rfl early, ← ih]
    simp [List.zipIdx_append]

/-- The terms left out are zero. -/
theorem sum_nonzero [Wave K] (x : ℕ → K) :
    (nonzero.map fun p => p.2 * x p.1).sum = ∑ j ∈ Finset.range taps, (halfBand (K := K))[j]?.getD 0 * x j := by
  have skipped : ∀ ps : List (K × ℕ), ((ps.filter fun p => decide (p.1 ≠ 0)).map fun p => p.1 * x p.2).sum =
      (ps.map fun p => p.1 * x p.2).sum := by
    intro ps
    induction ps with
    | nil => rfl
    | cons p ps ih =>
      by_cases zero : p.1 = 0
      · rw [List.filter_cons_of_neg (by simpa using zero), List.map_cons, List.sum_cons, zero, zero_mul, zero_add, ih]
      · rw [List.filter_cons_of_pos (by simpa using zero), List.map_cons, List.map_cons, List.sum_cons, List.sum_cons, ih]
  have length : (halfBand (K := K)).length = taps := by simp [halfBand]
  rw [← length, ← sum_zipIdx, ← skipped, nonzero, List.map_map]
  rfl

section
variable [Wave K]

/-- After the samples `xs` and `x` the product is the convolution at the last. -/
theorem dot_after (xs : List K) (x : K) :
    ((Line.after xs).push x).dot nonzero = convolve halfBand (xs ++ [x]) xs.length := by
  have length : (halfBand (K := K)).length = taps := by simp [halfBand]
  have line := Line.delay_after (xs ++ [x])
  have cells := Line.length_after (xs ++ [x])
  rw [← Line.after_append, Line.dot, convolve, length]
  have sums := sum_nonzero fun j => (Line.after (xs ++ [x])).hist[((Line.after (xs ++ [x])).pos + j) % taps]?.getD 0
  refine sums.trans (Finset.sum_congr rfl fun j inside => ?_)
  have ago := DelayLine.ago_pushes taps (xs ++ [x]) (Finset.mem_range.mp inside)
  rw [← line] at ago
  simp only [DelayLine.ago, Line.delay, cells, List.length_append, List.length_singleton, Nat.add_sub_cancel,
    Nat.lt_succ_iff] at ago
  rw [ago]

omit [LinearOrder K] [Wave K] in
/-- Later input does not reach back. -/
theorem convolve_append (h xs ys : List K) {n : ℕ} (past : n < xs.length) :
    convolve h (xs ++ ys) n = convolve h xs n := by
  refine Finset.sum_congr rfl fun j _ => ?_
  rw [List.getElem?_append_left (by omega)]

omit [Field K] [LinearOrder K] [Wave K] in
/-- What is fed in chunks is fed at once. -/
theorem feedChunks_flatten {S A B : Type} (feed : S → List A → S × List B) (nothing : ∀ s, feed s [] = (s, []))
    (append : ∀ s xs ys, feed s (xs ++ ys) =
      ((feed (feed s xs).1 ys).1, (feed s xs).2 ++ (feed (feed s xs).1 ys).2)) (s : S) (chunks : List (List A)) :
    feedChunks feed s chunks = feed s chunks.flatten := by
  induction chunks generalizing s with
  | nil => exact (nothing s).symm
  | cons chunk rest ih =>
    rw [List.flatten_cons, append, feedChunks]
    simp only [ih]

omit [LinearOrder K] [Wave K] in
theorem decimator_append (d : Decimator2 K) (xs ys : List (K × K)) : d.feed (xs ++ ys) =
    (((d.feed xs).1.feed ys).1, (d.feed xs).2 ++ ((d.feed xs).1.feed ys).2) := by
  induction xs generalizing d with
  | nil => rfl
  | cons x rest ih =>
    obtain ⟨l, r⟩ := x
    simp only [List.cons_append, Decimator2.feed, ih, List.append_assoc]

theorem decimated_append (xs : List (K × K)) (x : K × K) : decimated (xs ++ [x]) =
    decimated xs ++ if xs.length % 2 = 0 then [(convolve halfBand (xs.map (·.1) ++ [x.1]) xs.length,
      convolve halfBand (xs.map (·.2) ++ [x.2]) xs.length)] else [] := by
  have early : ∀ (side : K × K → K), ∀ k ∈ List.range ((xs.length + 1) / 2),
      convolve halfBand (xs.map side ++ [side x]) (2 * k) = convolve halfBand (xs.map side) (2 * k) := by
    intro side k member
    have inside := List.mem_range.mp member
    exact convolve_append _ _ _ (by rw [List.length_map]; omega)
  have kept : (List.range ((xs.length + 1) / 2)).map (fun k => (convolve halfBand (xs.map (·.1) ++ [x.1]) (2 * k),
      convolve halfBand (xs.map (·.2) ++ [x.2]) (2 * k))) = decimated xs :=
    List.map_congr_left fun k member => Prod.ext (early (·.1) k member) (early (·.2) k member)
  rw [← kept]
  simp only [decimated, List.map_append, List.map_singleton, List.length_append, List.length_singleton]
  split
  · rename_i even
    rw [show (xs.length + 1 + 1) / 2 = (xs.length + 1) / 2 + 1 by omega, List.range_succ, List.map_append,
      List.map_singleton, show 2 * ((xs.length + 1) / 2) = xs.length by omega]
  · rename_i odd
    rw [show (xs.length + 1 + 1) / 2 = (xs.length + 1) / 2 by omega, List.append_nil]

/-- The decimator after `xs`: both lines after their sides, every second output skipped. -/
theorem decimator_feed (xs : List (K × K)) : Decimator2.new.feed xs =
    (⟨nonzero, (Line.after (xs.map (·.1)), Line.after (xs.map (·.2))), xs.length % 2 == 1⟩, decimated xs) := by
  induction xs using List.reverseRecOn with
  | nil => simp [Decimator2.feed, Decimator2.new, Line.after, decimated]
  | append_singleton xs x ih =>
    rw [decimator_append, ih, decimated_append]
    have left := dot_after (xs.map (·.1)) x.1
    have right := dot_after (xs.map (·.2)) x.2
    rw [List.length_map] at left right
    have parity : (xs ++ [x]).length % 2 = (xs.length + 1) % 2 := by simp
    simp only [Decimator2.feed, Decimator2.push, List.map_append, List.map_singleton, Line.after_append, parity,
      List.append_nil, left, right]
    rcases Nat.mod_two_eq_zero_or_one xs.length with even | odd
    · simp [even, Nat.add_mod]
    · simp [odd, Nat.add_mod]

omit [LinearOrder K] [Wave K] in
theorem interpolator_append (i : Interpolator2 K) (xs ys : List K) : i.feed (xs ++ ys) =
    (((i.feed xs).1.feed ys).1, (i.feed xs).2 ++ ((i.feed xs).1.feed ys).2) := by
  induction xs generalizing i with
  | nil => rfl
  | cons x rest ih => simp only [List.cons_append, Interpolator2.feed, ih, List.append_assoc]

omit [LinearOrder K] [Wave K] in
theorem stuffed_append (xs : List K) (x : K) : stuffed (xs ++ [x]) = stuffed xs ++ [x, 0] := by
  simp [stuffed]

omit [LinearOrder K] [Wave K] in
@[simp] theorem length_stuffed (xs : List K) : (stuffed xs).length = 2 * xs.length := by
  induction xs with
  | nil => rfl
  | cons x rest ih =>
    simp only [stuffed, List.flatMap_cons, List.length_append, List.length_cons, List.length_nil] at ih ⊢
    omega

theorem interpolated_append (xs : List K) (x : K) : interpolated (xs ++ [x]) =
    interpolated xs ++ [(2 : ℕ) * convolve halfBand (stuffed xs ++ [x]) (2 * xs.length),
      (2 : ℕ) * convolve halfBand (stuffed xs ++ [x] ++ [0]) (2 * xs.length + 1)] := by
  have early : ∀ n ∈ List.range (2 * xs.length),
      ((2 : ℕ) : K) * convolve halfBand (stuffed xs ++ [x, 0]) n = (2 : ℕ) * convolve halfBand (stuffed xs) n := by
    intro n member
    rw [convolve_append _ _ _ (by simpa using member)]
  unfold interpolated
  rw [← List.map_congr_left early, stuffed_append, List.length_append, List.length_singleton,
    show 2 * (xs.length + 1) = 2 * xs.length + 1 + 1 by omega, List.range_succ, List.range_succ, List.append_assoc,
    List.map_append]
  have first : convolve halfBand (stuffed xs ++ [x, 0]) (2 * xs.length) =
      convolve (halfBand (K := K)) (stuffed xs ++ [x]) (2 * xs.length) := by
    rw [show stuffed xs ++ [x, 0] = stuffed xs ++ [x] ++ [0] by simp, convolve_append _ _ _ (by simp)]
  simp [first]

theorem interpolator_feed (xs : List K) :
    Interpolator2.new.feed xs = ({ taps := nonzero, line := Line.after (stuffed xs) }, interpolated xs) := by
  induction xs using List.reverseRecOn with
  | nil => rfl
  | append_singleton xs x ih =>
    rw [interpolator_append, ih, interpolated_append]
    have first := dot_after (stuffed xs) x
    have second := dot_after (stuffed xs ++ [x]) 0
    rw [List.length_append, List.length_singleton] at second
    rw [Line.after_append] at second
    rw [length_stuffed] at first second
    have line : Line.after (stuffed (xs ++ [x])) = ((Line.after (stuffed xs)).push x).push 0 := by
      rw [stuffed_append, show stuffed xs ++ [x, 0] = stuffed xs ++ [x] ++ [0] by simp, Line.after_append,
        Line.after_append]
    simp only [Interpolator2.feed, Interpolator2.push, Interpolator2.step, first, second, line, List.append_nil]

/-- Fed in any chunks, the decimator gives the convolution of each side at every second place, and
the interpolator that of the input with a zero after each sample at every place, with gain 2. -/
theorem resamplers_convolve (stereo : List (List (K × K))) (mono : List (List K)) :
    (feedChunks Decimator2.feed .new stereo).2 = decimated stereo.flatten ∧
      (feedChunks Interpolator2.feed .new mono).2 = interpolated mono.flatten := by
  constructor
  · rw [show feedChunks Decimator2.feed .new stereo = Decimator2.new.feed stereo.flatten from
      feedChunks_flatten Decimator2.feed (fun _ => rfl) decimator_append _ _, decimator_feed]
  · rw [show feedChunks Interpolator2.feed .new mono = Interpolator2.new.feed mono.flatten from
      feedChunks_flatten Interpolator2.feed (fun _ => rfl) interpolator_append _ _, interpolator_feed]

end
end

/-! ### The framer's filter -/

section
open Media (asPairs TapFramer)

variable {K : Type} [Field K] [LinearOrder K] [Wave K] {R : F64 → K → Prop}

theorem forall₂_set {α β : Type} {R : α → β → Prop} {xs : List α} {ys : List β} (both : List.Forall₂ R xs ys)
    {x : α} {y : β} (new : R x y) (i : ℕ) : List.Forall₂ R (xs.set i x) (ys.set i y) := by
  induction both generalizing i with
  | nil => exact .nil
  | cons head tail ih =>
    cases i with
    | zero => exact .cons new tail
    | succ i => exact .cons head (ih i)

/-- The framer's delay line holds related samples at the same places. -/
structure Line.Like (R : F64 → K → Prop) (code : Media.Line) (line : Line K) : Prop where
  pos : code.pos = line.pos
  hist : List.Forall₂ R code.hist line.hist

omit [Field K] [LinearOrder K] [Wave K] in
theorem Line.Like.push {code : Media.Line} {line : Line K} (like : Line.Like R code line) {x : F64} {y : K}
    (same : R x y) : Line.Like R (code.push x) (line.push y) := by
  refine ⟨?_, ?_⟩
  · simp only [Media.Line.push, Line.push, like.pos]
  · simp only [Media.Line.push, Line.push, like.pos]
    exact forall₂_set like.hist same _

/-- The framer's decimator does, and answers at the same inputs. -/
structure Decimator2.Like (R : F64 → K → Prop) (code : Media.Decimator2) (d : Decimator2 K) : Prop where
  left : Line.Like R code.lines.1 d.lines.1
  right : Line.Like R code.lines.2 d.lines.2
  skip : code.skip = d.skip

theorem Decimator2.like_new [Libm] (zero : R (.fin 0) 0) : Like R .new (.new : Decimator2 K) := by
  have silent : Line.Like R {} (.new : Line K) := by
    refine ⟨rfl, ?_⟩
    show List.Forall₂ R (.replicate Media.taps (.fin 0)) (.replicate Media.taps 0)
    induction Media.taps with
    | zero => exact .nil
    | succ n ih => exact .cons zero ih
  exact ⟨silent, silent, rfl⟩

omit [LinearOrder K] [Wave K] in
theorem Decimator2.Like.push {code : Media.Decimator2} {d : Decimator2 K} (like : Like R code d) {l r : F64} {x y : K}
    (left : R l x) (right : R r y) :
    Like R (code.push l r).1 (d.push x y).1 ∧ (code.push l r).2.isSome = (d.push x y).2.isSome := by
  refine ⟨⟨like.left.push left, like.right.push right, congrArg (!·) like.skip⟩, ?_⟩
  simp only [Media.Decimator2.push, Decimator2.push, like.skip]
  split <;> rfl

theorem TapFramer.push_dec (f : TapFramer) (out : List Media.Frame) (l r : F64) :
    (TapFramer.push (f, out) (l, r)).1.dec = (f.dec.push l r).1 := by
  unfold TapFramer.push
  simp only
  cases f.dec.push l r with
  | mk dec answer =>
    cases answer with
    | none => rfl
    | some pair =>
      simp only
      split <;> rfl

/-- Fed the samples a new framer was fed, the exact decimator holds them at the same places and
answers next at the same input: the two differ by the roundings of their taps and sums only. -/
theorem framer_like [Libm] (zero : R (.fin 0) 0) (stream : UInt8) {samples : List F64} {xs : List (K × K)}
    (same : List.Forall₂ (fun p q => R p.1 q.1 ∧ R p.2 q.2) (asPairs samples) xs) :
    Decimator2.Like R (TapFramer.feed (.new stream, []) samples).1.dec (Decimator2.feed .new xs).1 := by
  have fed : ∀ (state : TapFramer × List Media.Frame) (d : Decimator2 K), Decimator2.Like R state.1.dec d →
      Decimator2.Like R ((asPairs samples).foldl TapFramer.push state).1.dec (d.feed xs).1 := by
    generalize asPairs samples = pairs at same
    induction same with
    | nil => exact fun _ _ like => like
    | cons pair _ ih =>
      intro state d like
      rw [List.foldl_cons]
      refine ih _ _ ?_
      rw [TapFramer.push_dec]
      exact (like.push pair.1 pair.2).1
  exact fed _ _ (Decimator2.like_new zero)

end
end IemMixer.Resample
