import IemMixer.Media.Tap
import Mathlib

/-! The 96 ↔ 48 kHz resamplers of the listen taps and talkback over exact numbers: a half-band
filter of 79 taps, and a ring of as many samples whose product with the taps that are not zero
is every output. -/
namespace IemMixer.Resample
open Media (taps center isOdd)

/-- The functions of the reals the filter calls. -/
class Wave (K : Type) where
  pi : K
  sin : K → K
  sqrt : K → K

noncomputable instance realWave : Wave ℝ where
  pi := Real.pi
  sin := Real.sin
  sqrt := Real.sqrt

section
variable {K : Type} [Field K] [LinearOrder K] [Wave K]

def beta : K := (503 : ℕ) / (50 : ℕ)

/-- The modified Bessel function I0 by its power series: 99 terms. -/
def besselI0 (x : K) : K :=
  let q := x * x / (4 : ℕ)
  ((List.range' 1 99).foldl (fun (sum, term) k =>
    let term := term * (q / ((k * k : ℕ) : K))
    (sum + term, term)) ((1, 1) : K × K)).1

/-- A tap before the odd ones are normalised. -/
def rawTap (n : ℕ) : K :=
  let half : K := (center : ℕ)
  let off := (n - center) + (center - n)
  if off = 0 then 1 / (2 : ℕ)
  else if off % 2 = 0 then 0
  else
    let k : K := (n : K) - half
    let r := k / half
    let w := besselI0 (beta * Wave.sqrt (max (1 - r * r) 0))
    Wave.sin (Wave.pi * k / (2 : ℕ)) / (Wave.pi * k) * w

/-- Taps at even offsets are zero, the centre is a half and the odd taps sum to a half. -/
def halfBand : List K :=
  let odd : K := (((List.range taps).filter isOdd).map rawTap).sum
  (List.range taps).map fun n => if isOdd n then rawTap n * (1 / (2 : ℕ) / odd) else rawTap n

/-- The taps that are not zero, each with its place. -/
def nonzero : List (ℕ × K) := (halfBand.zipIdx.filter fun p => decide (p.1 ≠ 0)).map fun p => (p.2, p.1)

/-- A delay line with the newest sample at `pos`: `x[n − j]` is at `pos + j`. -/
structure Line (K : Type) where
  hist : List K
  pos : ℕ

namespace Line

def new : Line K := { hist := .replicate taps 0, pos := 0 }

def push (line : Line K) (x : K) : Line K :=
  let pos := (line.pos + taps - 1) % taps
  { hist := line.hist.set pos x, pos }

def dot (line : Line K) (coeffs : List (ℕ × K)) : K :=
  (coeffs.map fun (j, h) => h * line.hist[(line.pos + j) % taps]?.getD 0).sum

end Line

/-- Stereo 2:1 decimator: the first input and every second after it yield an output. -/
structure Decimator2 (K : Type) where
  taps : List (ℕ × K)
  lines : Line K × Line K
  skip : Bool

namespace Decimator2

def new : Decimator2 K := { taps := nonzero, lines := (.new, .new), skip := false }

def push (d : Decimator2 K) (l r : K) : Decimator2 K × Option (K × K) :=
  let a := d.lines.1.push l
  let b := d.lines.2.push r
  ({ d with lines := (a, b), skip := !d.skip }, if d.skip then none else some (a.dot d.taps, b.dot d.taps))

/-- A chunk, sample after sample, as the framer feeds it. -/
def feed (d : Decimator2 K) : List (K × K) → Decimator2 K × List (K × K)
  | [] => (d, [])
  | (l, r) :: rest =>
    let (d, out) := d.push l r
    let (d, outs) := d.feed rest
    (d, out.toList ++ outs)

end Decimator2

/-- Mono 1:2 interpolator: zeros between the inputs, gain 2. -/
structure Interpolator2 (K : Type) where
  taps : List (ℕ × K)
  line : Line K

namespace Interpolator2

def new : Interpolator2 K := { taps := nonzero, line := .new }

def step (i : Interpolator2 K) (x : K) : Interpolator2 K × K :=
  let line := i.line.push x
  ({ i with line }, (2 : ℕ) * line.dot i.taps)

def push (i : Interpolator2 K) (x : K) : Interpolator2 K × List K :=
  let (i, a) := i.step x
  let (i, b) := i.step 0
  (i, [a, b])

/-- A chunk, sample after sample, as the talkback feeds it. -/
def feed (i : Interpolator2 K) : List K → Interpolator2 K × List K
  | [] => (i, [])
  | x :: rest =>
    let (i, out) := i.push x
    let (i, outs) := i.feed rest
    (i, out ++ outs)

end Interpolator2

/-- Chunk after chunk, each fed where the one before left off. -/
def feedChunks {S A B : Type} (feed : S → List A → S × List B) (s : S) : List (List A) → S × List B
  | [] => (s, [])
  | chunk :: rest =>
    let (s, out) := feed s chunk
    let (s, outs) := feedChunks feed s rest
    (s, out ++ outs)

/-- The convolution of `xs` with the taps `h` at position `n`, zeros before the start. -/
def convolve (h xs : List K) (n : ℕ) : K :=
  ∑ j ∈ Finset.range h.length, h[j]?.getD 0 * if j ≤ n then xs[n - j]?.getD 0 else 0

/-- The convolution at the first place and every second after it, on both sides. -/
def decimated (xs : List (K × K)) : List (K × K) := (List.range ((xs.length + 1) / 2)).map fun k =>
  (convolve halfBand (xs.map (·.1)) (2 * k), convolve halfBand (xs.map (·.2)) (2 * k))

/-- A zero after each input. -/
def stuffed (xs : List K) : List K := xs.flatMap fun x => [x, 0]

/-- The convolution of the stuffed input at every place, with gain 2. -/
def interpolated (xs : List K) : List K :=
  (List.range (2 * xs.length)).map fun n => (2 : ℕ) * convolve halfBand (stuffed xs) n

end
end IemMixer.Resample
