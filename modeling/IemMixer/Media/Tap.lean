import IemMixer.Params
import IemMixer.Proto.Frame
import IemMixer.Rt.Output

/-! A listen tap's way out: the RT thread's pushes into its ring, the media pump's pops,
and the framer that makes 48 kHz frames of what was popped. The ring has one thread at
either end, so a push and a pop each first look at how much there is and act later. -/
namespace IemMixer.Media
open Lib Proto

/-- Taps of the half-band filter. -/
def taps : ℕ := 79
def center : ℕ := taps / 2
def beta : F64 := .ofRat 10.06
def pi : F64 := .ofRat 3.141592653589793

/-- The modified Bessel function I0 by its power series. -/
def besselI0 (x : F64) : F64 :=
  let q := (x.mul x).div (.fin 4)
  ((List.range' 1 99).foldl (fun (sum, term) k =>
    let term := term.mul (q.div (.fin (k * k)))
    (sum.add term, term)) ((.fin 1, .fin 1) : F64 × F64)).1

/-- `Iterator::sum`. -/
def sum (xs : List F64) : F64 := xs.foldl F64.add .negZero

section
variable [Libm]

/-- A tap before the odd ones are normalised. -/
def rawTap (n : ℕ) : F64 :=
  let off := (n - center) + (center - n)
  if off = 0 then .ofRat 0.5
  else if off % 2 = 0 then .fin 0
  else
    let k := (F64.fin n).sub (.fin center)
    let r := k.div (.fin center)
    let w := besselI0 (beta.mul (((F64.fin 1).sub (r.mul r)).max (.fin 0)).sqrt)
    ((Libm.sin ((pi.mul k).div (.fin 2))).div (pi.mul k)).mul w

def isOdd (n : ℕ) : Bool := ((n - center) + (center - n)) % 2 == 1

/-- The filter: the centre 0.5, taps at even offsets 0, the odd ones summing to 0.5. -/
def halfBand : List F64 :=
  let odd := sum (((List.range taps).filter isOdd).map rawTap)
  (List.range taps).map fun n => if isOdd n then (rawTap n).mul ((F64.ofRat 0.5).div odd) else rawTap n

def nonzero : List (ℕ × F64) :=
  (halfBand.zipIdx.filter fun p => !p.1.peq (.fin 0)).map fun p => (p.2, p.1)

end

/-- A delay line with the newest sample at `pos`: `x[n − j]` is at `pos + j`. -/
structure Line where
  hist : List F64 := List.replicate taps (.fin 0)
  pos : ℕ := 0

namespace Line

def push (line : Line) (x : F64) : Line :=
  let pos := (line.pos + taps - 1) % taps
  { hist := line.hist.set pos x, pos }

def dot (line : Line) (coeffs : List (ℕ × F64)) : F64 :=
  sum (coeffs.map fun (j, h) => h.mul (line.hist[(line.pos + j) % taps]?.getD (.fin 0)))

end Line

/-- Stereo 2:1 decimator: the first input and every second after it yield an output. -/
structure Decimator2 where
  taps : List (ℕ × F64)
  lines : Line × Line := ({}, {})
  skip : Bool := false

namespace Decimator2

def new [Libm] : Decimator2 := { taps := nonzero }

def push (d : Decimator2) (l r : F64) : Decimator2 × Option (F64 × F64) :=
  let a := d.lines.1.push l
  let b := d.lines.2.push r
  ({ d with lines := (a, b), skip := !d.skip }, if d.skip then none else some (a.dot d.taps, b.dot d.taps))

end Decimator2

/-- Stereo frames of a media frame: 20 ms at 48 kHz. -/
def frame48k : ℕ := 960

/-- One outgoing frame: header and interleaved stereo samples. -/
abbrev Frame := MediaHeader × List F64

/-- `as_chunks::<2>().0`: a single sample at the end is left out. -/
def asPairs {α : Type} : List α → List (α × α)
  | l :: r :: rest => (l, r) :: asPairs rest
  | _ => []

/-- Pairs as interleaved samples. -/
def interleave {α : Type} (pairs : List (α × α)) : List α := pairs.flatMap fun p => [p.1, p.2]

/-- Decimates one tap's interleaved 96 kHz stereo into 960-frame 48 kHz frames. -/
structure TapFramer where
  stream : UInt8
  dec : Decimator2
  seq : UInt64 := 0
  buf : List F64 := []

namespace TapFramer

def new [Libm] (stream : UInt8) : TapFramer := { stream, dec := .new }

/-- One stereo sample in; `out` is what was emitted so far. -/
def push : TapFramer × List Frame → F64 × F64 → TapFramer × List Frame
  | (f, out), (l, r) =>
    match f.dec.push l r with
    | (dec, none) => ({ f with dec }, out)
    | (dec, some (a, b)) =>
      let buf := f.buf ++ [a.toSingle, b.toSingle]
      if 2 * frame48k ≤ buf.length then
        ({ f with dec, buf := [], seq := f.seq + 1 },
          out ++ [({ stream := f.stream, channels := 2, seq := f.seq, frames := .ofNat frame48k }, buf)])
      else ({ f with dec, buf }, out)

def feed (state : TapFramer × List Frame) (interleaved : List F64) : TapFramer × List Frame :=
  (asPairs interleaved).foldl push state

end TapFramer

/-- Samples a tap's ring holds: 200 ms. -/
def tapRing : ℕ := 2 * 19200

/-- The pairs that fit the RT thread's scratch buffer (`used / 2` of them). -/
def scratched (pairs : List (F64 × F64)) : List (F64 × F64) := pairs.take (2 * Rt.seg / 2)

/-- What `push_tap` offers the ring of a segment: its samples as singles, or as much silence. -/
def tapPairs (l r : List F64) (silent : Bool) : List (F64 × F64) :=
  scratched ((l.zip r).map fun (a, b) => if silent then (.fin 0, .fin 0) else (a.toSingle, b.toSingle))

/-- What `push_probe` offers: the test signal on both channels. -/
def probePairs (sine fade : List F64) : List (F64 × F64) :=
  scratched ((Rt.testSamples sine fade).map fun y => (y.toSingle, y.toSingle))

/-- One tap's ring with a thread at either end. `writing` are the samples a push found room
for and has not yet made visible, `taking` is how many a pop found and has not yet freed.
`offered` and `popped` tell what the pushes were given and the pops gave the framer. -/
structure Tap where
  ring : List F64 := []
  writing : Option (List F64) := none
  taking : Option ℕ := none
  overruns : ℕ := 0
  framer : TapFramer
  frames : List Frame := []
  offered : List (List (F64 × F64)) := []
  popped : List (List F64) := []

inductive Move where
  | pushTap (l r : List F64) (silent : Bool)
  | pushProbe (sine fade : List F64)
  /-- The push makes visible what it wrote. -/
  | pushed
  /-- The pump asks for as much as its buffer holds. -/
  | pop
  /-- The pump frees what it took and feeds it to the framer. -/
  | fed

namespace Tap

def new [Libm] (stream : UInt8) : Tap := { framer := .new stream }

/-- `push_partial_slice`: what does not fit is dropped, which counts as one overrun. -/
def push (t : Tap) (pairs : List (F64 × F64)) : Option Tap :=
  match t.writing with
  | some _ => none
  | none =>
    let room := tapRing - t.ring.length
    let slice := interleave pairs
    some { t with
      writing := some (slice.take room)
      overruns := if room < slice.length then t.overruns + 1 else t.overruns
      offered := t.offered ++ [pairs] }

/-- A move of either thread; none while it is elsewhere. -/
def move (t : Tap) : Move → Option Tap
  | .pushTap l r silent => t.push (tapPairs l r silent)
  | .pushProbe sine fade => t.push (probePairs sine fade)
  | .pushed => t.writing.map fun slice => { t with ring := t.ring ++ slice, writing := none }
  | .pop =>
    match t.taking with
    | some _ => none
    | none => some { t with taking := some (min tapRing t.ring.length) }
  | .fed => t.taking.map fun n =>
    let got := t.ring.take n
    let (framer, frames) := TapFramer.feed (t.framer, t.frames) got
    { t with ring := t.ring.drop n, taking := none, framer, frames, popped := t.popped ++ [got] }

end Tap

end IemMixer.Media
