import Mathlib.Algebra.Group.Nat.Even
import IemMixer.Lib.Runs
import IemMixer.Core.BatchProofs
import IemMixer.Media.Tap

/-! A tap keeps its sides: whatever the ring drops, it holds whole pairs, so the framer
gets left and right in turn and its frames depend on the samples alone. -/
namespace IemMixer.Media
open Lib Proto

theorem length_interleave {α : Type} (pairs : List (α × α)) : (interleave pairs).length = 2 * pairs.length := by
  induction pairs with
  | nil => rfl
  | cons p rest ih =>
    have cons : interleave (p :: rest) = p.1 :: p.2 :: interleave rest := rfl
    rw [cons, List.length_cons, List.length_cons, ih, List.length_cons]
    omega

theorem interleave_append {α : Type} (xs ys : List (α × α)) :
    interleave (xs ++ ys) = interleave xs ++ interleave ys := List.flatMap_append

theorem asPairs_interleave {α : Type} (pairs : List (α × α)) : asPairs (interleave pairs) = pairs := by
  induction pairs with
  | nil => rfl
  | cons p rest ih => exact congrArg (p :: ·) ih

theorem take_interleave {α : Type} (pairs : List (α × α)) (n : ℕ) :
    (interleave pairs).take (2 * n) = interleave (pairs.take n) := by
  induction pairs generalizing n with
  | nil => simp [interleave]
  | cons p rest ih =>
    cases n with
    | zero => rfl
    | succ n => exact congrArg (fun tail => p.1 :: p.2 :: tail) (ih n)

/-- Samples of an even number are pairs. -/
theorem interleave_asPairs {α : Type} (xs : List α) (whole : Even xs.length) : interleave (asPairs xs) = xs := by
  induction xs using asPairs.induct with
  | case1 l r rest ih =>
    have less : Even rest.length := by
      simp only [List.length_cons] at whole
      rw [Nat.even_add_one, Nat.not_even_iff_odd, Nat.odd_add_one, Nat.not_odd_iff_even] at whole
      exact whole
    exact congrArg (fun tail => l :: r :: tail) (ih less)
  | case2 xs other =>
    match xs with
    | [] => rfl
    | [x] => simp at whole
    | l :: r :: rest => exact absurd rfl (other l r rest)

theorem asPairs_append {α : Type} (xs ys : List α) (whole : Even xs.length) :
    asPairs (xs ++ ys) = asPairs xs ++ asPairs ys := by
  obtain ⟨pairs, rfl⟩ : ∃ pairs, xs = interleave pairs := ⟨_, (interleave_asPairs xs whole).symm⟩
  rw [asPairs_interleave]
  induction pairs with
  | nil => rfl
  | cons p rest ih =>
    refine congrArg (p :: ·) (ih ?_)
    rw [length_interleave]
    exact even_two_mul _

theorem even_flatten {α : Type} {chunks : List (List α)} (whole : ∀ chunk ∈ chunks, Even chunk.length) :
    Even chunks.flatten.length := by
  induction chunks with
  | nil => exact .zero
  | cons chunk rest ih =>
    rw [List.flatten_cons, List.length_append]
    exact (whole chunk List.mem_cons_self).add (ih fun chunk member => whole chunk (List.mem_cons_of_mem _ member))

namespace TapFramer

/-- Pop after pop. -/
def feedAll (state : TapFramer × List Frame) (chunks : List (List F64)) : TapFramer × List Frame :=
  chunks.foldl feed state

theorem feed_append (state : TapFramer × List Frame) (xs ys : List F64) (whole : Even xs.length) :
    feed state (xs ++ ys) = feed (feed state xs) ys := by
  unfold feed
  rw [asPairs_append xs ys whole, List.foldl_append]

/-- Chunks of whole pairs are fed as one. -/
theorem feedAll_eq (state : TapFramer × List Frame) (chunks : List (List F64))
    (whole : ∀ chunk ∈ chunks, Even chunk.length) : feedAll state chunks = feed state chunks.flatten := by
  induction chunks generalizing state with
  | nil => rfl
  | cons chunk rest ih =>
    rw [List.flatten_cons, feed_append _ _ _ (whole chunk List.mem_cons_self)]
    exact ih _ fun chunk member => whole chunk (List.mem_cons_of_mem _ member)

/-- Frames so far are whole and numbered, and the rest waits in the buffer; `n` pairs went in. -/
structure Framed (stream : UInt8) (n : ℕ) (state : TapFramer × List Frame) : Prop where
  own : state.1.stream = stream
  seq : state.1.seq = .ofNat state.2.length
  skip : state.1.dec.skip = decide (n % 2 = 1)
  partly : state.1.buf.length < 2 * frame48k
  count : 2 * frame48k * state.2.length + state.1.buf.length = 2 * ((n + 1) / 2)
  frames : ∀ (i : ℕ) (frame : Frame), state.2[i]? = some frame →
    frame.1 = { stream, channels := 2, seq := .ofNat i, frames := .ofNat frame48k } ∧
      frame.2.length = 2 * frame48k

theorem framed_new [Libm] (stream : UInt8) : Framed stream 0 (new stream, []) where
  own := rfl
  seq := rfl
  skip := rfl
  partly := show 0 < 2 * frame48k by decide
  count := rfl
  frames := by simp

theorem Framed.push {stream : UInt8} {n : ℕ} {state : TapFramer × List Frame} (framed : Framed stream n state)
    (pair : F64 × F64) : Framed stream (n + 1) (push state pair) := by
  obtain ⟨⟨_, dec, seq, buf⟩, out⟩ := state
  obtain ⟨rfl, numbered, skips, partly, count, frames⟩ := framed
  simp only [frame48k] at numbered skips partly count
  unfold TapFramer.push Decimator2.push
  simp only
  rw [skips]
  by_cases odd : n % 2 = 1
  · -- every second input only enters the filter
    rw [decide_eq_true odd]
    have even : ¬(n + 1) % 2 = 1 := by omega
    exact ⟨rfl, numbered, (decide_eq_false even).symm, partly, show 2 * 960 * out.length + buf.length = _ by omega,
      frames⟩
  · have next : (n + 1) % 2 = 1 := by omega
    rw [decide_eq_false odd]
    simp only [Bool.false_eq_true, if_false]
    split
    · rename_i full
      rw [List.length_append, List.length_cons, List.length_cons, List.length_nil, frame48k] at full
      have filled : buf.length + 2 = 2 * frame48k := by
        rw [frame48k]
        omega
      refine ⟨rfl, ?_, (decide_eq_true next).symm, show 0 < 2 * frame48k by decide, ?_, ?_⟩
      · rw [List.length_append, numbered]
        exact (UInt64.ofNat_add _ _).symm
      · rw [List.length_append, List.length_singleton, List.length_nil, frame48k]
        omega
      · intro i frame held
        rw [List.getElem?_append] at held
        split at held
        · exact frames i frame held
        · rename_i past
          obtain ⟨here, -⟩ := List.getElem?_eq_some_iff.mp held
          rw [List.length_singleton] at here
          obtain rfl : i = out.length := by omega
          rw [Nat.sub_self] at held
          cases held
          refine ⟨by rw [numbered], ?_⟩
          rw [List.length_append]
          exact filled
    · rename_i more
      refine ⟨rfl, numbered, (decide_eq_true next).symm, not_le.mp more, ?_, frames⟩
      show 2 * 960 * out.length + (buf ++ [_, _]).length = _
      rw [frame48k] at more
      rw [List.length_append, List.length_cons, List.length_cons, List.length_nil]
      omega

theorem Framed.feed {stream : UInt8} {n : ℕ} {state : TapFramer × List Frame} (framed : Framed stream n state)
    (samples : List F64) : Framed stream (n + (asPairs samples).length) (feed state samples) := by
  unfold TapFramer.feed
  generalize asPairs samples = pairs
  induction pairs generalizing n state with
  | nil => exact framed
  | cons pair rest ih =>
    have later := ih (framed.push pair)
    rw [show n + 1 + rest.length = n + (pair :: rest).length by rw [List.length_cons]; omega] at later
    exact later

end TapFramer

namespace Tap

/-- What holds of a tap whatever its two threads did. -/
structure Whole [Libm] (stream : UInt8) (t : Tap) : Prop where
  ring : Even t.ring.length
  writing : Even (t.writing.getD []).length
  taking : ∀ n, t.taking = some n → Even n
  fits : t.ring.length + (t.writing.getD []).length ≤ tapRing
  popped : ∀ chunk ∈ t.popped, Even chunk.length
  /-- Each push's first pairs, one push after the other. -/
  order : ∃ kept : List (List (F64 × F64)), List.Forall₂ (· <+: ·) kept t.offered ∧
    interleave kept.flatten = t.popped.flatten ++ t.ring ++ t.writing.getD []
  framed : (t.framer, t.frames) = TapFramer.feed (.new stream, []) t.popped.flatten

section
variable [Libm] {stream : UInt8} {t t' : Tap}

theorem whole_new : Whole stream (new stream) where
  ring := .zero
  writing := .zero
  taking := by simp [new]
  fits := Nat.zero_le _
  popped := by simp [new]
  order := ⟨[], .nil, rfl⟩
  framed := rfl

theorem Whole.push (whole : Whole stream t) (pairs : List (F64 × F64)) (moved : t.push pairs = some t') :
    Whole stream t' := by
  unfold Tap.push at moved
  split at moved
  · cases moved
  · rename_i idle
    cases moved
    obtain ⟨ring, -, taking, fits, popped, ⟨kept, prefixes, order⟩, framed⟩ := whole
    rw [idle, Option.getD_none, List.append_nil] at order
    obtain ⟨half, even⟩ := even_iff_exists_two_mul.mp ring
    have room : tapRing - t.ring.length = 2 * (19200 - half) := by
      rw [even, tapRing]
      omega
    have slice : (interleave pairs).take (tapRing - t.ring.length) = interleave (pairs.take (19200 - half)) := by
      rw [room, take_interleave]
    rw [slice]
    refine ⟨ring, ?_, taking, ?_, popped, ⟨kept ++ [pairs.take (19200 - half)], ?_, ?_⟩, framed⟩
    · rw [Option.getD_some, length_interleave]
      exact even_two_mul _
    · rw [Option.getD_some, ← slice, List.length_take]
      simp only
      omega
    · exact List.rel_append prefixes (.cons (List.take_prefix _ _) .nil)
    · rw [List.flatten_append, interleave_append, order, List.flatten_singleton]
      rfl

theorem Whole.move (whole : Whole stream t) {m : Move} (moved : t.move m = some t') : Whole stream t' := by
  cases m with
  | pushTap l r silent => exact whole.push _ moved
  | pushProbe sine fade => exact whole.push _ moved
  | pushed =>
    obtain ⟨slice, writes, rfl⟩ := Option.map_eq_some_iff.mp moved
    obtain ⟨ring, writing, taking, fits, popped, ⟨kept, prefixes, order⟩, framed⟩ := whole
    rw [writes, Option.getD_some] at writing fits order
    refine ⟨?_, .zero, taking, ?_, popped, ⟨kept, prefixes, ?_⟩, framed⟩
    · rw [List.length_append]
      exact ring.add writing
    · simp only [Option.getD_none, List.length_append, List.length_nil]
      omega
    · rw [order, Option.getD_none, List.append_nil, List.append_assoc]
  | pop =>
    simp only [Tap.move] at moved
    split at moved
    · cases moved
    · cases moved
      refine { whole with taking := fun n takes => ?_ }
      cases takes
      have bounded := whole.fits
      rw [Nat.min_eq_right (by omega)]
      exact whole.ring
  | fed =>
    obtain ⟨n, takes, rfl⟩ := Option.map_eq_some_iff.mp moved
    obtain ⟨ring, writing, taking, fits, popped, ⟨kept, prefixes, order⟩, framed⟩ := whole
    have got : Even (t.ring.take n).length := by
      rw [List.length_take]
      rcases Nat.le_total n t.ring.length with less | more
      · rw [Nat.min_eq_left less]
        exact taking n takes
      · rw [Nat.min_eq_right more]
        exact ring
    refine ⟨?_, writing, by simp, ?_, ?_, ⟨kept, prefixes, ?_⟩, ?_⟩
    · have cut := congrArg List.length (List.take_append_drop n t.ring)
      rw [List.length_append] at cut
      rw [← cut] at ring
      exact (Nat.even_add.mp ring).mp got
    · simp only [List.length_drop]
      omega
    · intro chunk member
      rcases List.mem_append.mp member with before | now
      · exact popped chunk before
      · rw [List.mem_singleton.mp now]
        exact got
    · simp only [List.flatten_append, List.flatten_singleton]
      rw [order, List.append_assoc t.popped.flatten (t.ring.take n), List.take_append_drop]
    · rw [List.flatten_append, List.flatten_singleton, TapFramer.feed_append _ _ _ (even_flatten popped), ← framed]

end

attribute [local instance] Core.duetLibm

/-- A push that fits drops nothing. -/
theorem push_fits {t : Tap} (pairs : List (F64 × F64)) (idle : t.writing = none)
    (fits : t.ring.length + 2 * pairs.length ≤ tapRing) :
    t.push pairs = some { t with writing := some (interleave pairs), offered := t.offered ++ [pairs] } := by
  unfold Tap.push
  rw [idle]
  simp only
  have length := length_interleave pairs
  rw [List.take_of_length_le (by omega), if_neg (by omega)]

theorem silent_pairs : (tapPairs (List.replicate 240 (.fin 0)) (List.replicate 240 (.fin 0)) true).length = 240 := by
  rw [tapPairs, scratched, List.length_take, List.length_map, List.length_zip, List.length_replicate]
  rfl

/-- A ring with as much silence as fits. -/
theorem silence_fills (n : ℕ) (fits : 2 * (240 * n) ≤ tapRing) :
    ∃ t : Tap, Leads move (fun _ _ => True) (new 1) t ∧ t.ring.length = 2 * (240 * n) ∧ t.writing = none ∧
      t.taking = none ∧ t.framer = .new 1 ∧ t.frames = [] ∧ t.popped = [] := by
  induction n with
  | zero => exact ⟨new 1, .refl, rfl, rfl, rfl, rfl, rfl, rfl⟩
  | succ n ih =>
    obtain ⟨t, run, filled, idle, rest⟩ := ih (by omega)
    have pushed := push_fits (tapPairs (List.replicate 240 (.fin 0)) (List.replicate 240 (.fin 0)) true) idle
      (by rw [silent_pairs]; omega)
    refine ⟨_, .tail (.tail run ⟨.pushTap _ _ _, trivial, pushed⟩) ⟨.pushed, trivial, rfl⟩, ?_, rfl, rest⟩
    simp only
    rw [List.length_append, length_interleave, silent_pairs, filled]
    omega

/-- A push that does not fit fills the ring and counts as one overrun. -/
theorem push_overruns {t : Tap} (pairs : List (F64 × F64)) (idle : t.writing = none)
    (full : tapRing - t.ring.length < 2 * pairs.length) :
    t.push pairs = some { t with
      writing := some ((interleave pairs).take (tapRing - t.ring.length))
      overruns := t.overruns + 1
      offered := t.offered ++ [pairs] } := by
  unfold Tap.push
  rw [idle]
  simp only
  rw [length_interleave, if_pos full]

end Tap
end IemMixer.Media
