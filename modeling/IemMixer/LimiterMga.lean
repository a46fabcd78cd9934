import Mathlib.Algebra.Order.Floor.Semiring
import Mathlib.Analysis.SpecialFunctions.Pow.Real
import IemMixer.Lib.Window

/-! The output limiter of every member bus: two staggered peak-hold windows of `sr/128`
samples per channel, an asymmetric stereo link, instant attack, exponential release and no
lookahead; enabling is instant, disabling fades over 10 ms. Numbers are exact, of any
ordered field with the functions the code calls. -/
namespace IemMixer.LimiterMga

/-- The functions of the reals the limiter calls. -/
class Elementary (K : Type) where
  exp : K → K
  sqrt : K → K
  /-- `10^x` -/
  pow10 : K → K

noncomputable instance realElementary : Elementary ℝ where
  exp := Real.exp
  sqrt := Real.sqrt
  pow10 x := 10 ^ x

/-- The four JSFX sliders. -/
structure Sliders (K : Type) where
  thresholdDb : K
  releaseMs : K
  linkPct : K
  ceilingDb : K

/-- One channel's detector: the windows' timers and peaks, and the envelope. -/
structure Channel (K : Type) where
  t1 : K
  t2 : K
  m1 : K
  m2 : K
  env : K

structure Mga (K : Type) where
  hold : K
  thresh : K
  volume : K
  r : K
  link : K
  left : Channel K
  right : Channel K
  grMeter : K
  grDecay : K

/-- iemmixer's limiter. `fade` samples of the disable fade are left. -/
structure Limiter (K : Type) where
  mga : Mga K
  sampleRate : K
  limitDb : K
  enabled : Bool
  fade : ℕ
  fadeLen : ℕ
  active : ℕ
  activeBelow : K

section
variable {K : Type} [Field K] [LinearOrder K]

namespace Channel

def new (hold : K) : Channel K where
  t1 := 0
  t2 := hold / 2
  m1 := 0
  m2 := 0
  env := 0

/-- The held peak of `|x|` over two windows staggered by half a window. -/
def heldPeak (c : Channel K) (x hold : K) : Channel K × K :=
  let a := |x|
  let c := { c with t1 := c.t1 + 1 }
  let c := if hold < c.t1 then { c with t1 := 0, m1 := 0 } else c
  let c := { c with m1 := max c.m1 a }
  let c := { c with t2 := c.t2 + 1 }
  let c := if hold < c.t2 then { c with t2 := 0, m2 := 0 } else c
  let c := { c with m2 := max c.m2 a }
  (c, max c.m1 c.m2)

/-- Envelopes below this are flushed to zero. -/
def denormal : K := 1 / 10 ^ 30

/-- Instant attack, release towards the held peak; and the gain reduction. -/
def gain (c : Channel K) (peak r thresh : K) : Channel K × K :=
  let env := if c.env < peak then peak else peak + r * (c.env - peak)
  let g := if thresh < env then thresh / env else 1
  ({ c with env := if env < denormal then 0 else env }, g)

end Channel

section
variable [Elementary K]
open Elementary

namespace Mga

/-- `@slider`. -/
def setSliders (m : Mga K) (sampleRate : K) (s : Sliders K) : Mga K :=
  let thresh := pow10 (s.thresholdDb / 20)
  let ceiling := pow10 (s.ceilingDb / 20)
  let release := s.releaseMs / 1000
  { m with
    thresh
    volume := ceiling / thresh
    r := exp (-3 / (sampleRate * max release (1 / 20)))
    link := sqrt (s.linkPct * (1 / 100)) }

def new (sampleRate : K) (sliders : Sliders K) : Mga K :=
  let hold := sampleRate / 128
  let m : Mga K := {
    hold
    thresh := 1
    volume := 1
    r := 0
    link := 0
    left := .new hold
    right := .new hold
    grMeter := 1
    grDecay := exp (1 / sampleRate) }
  m.setSliders sampleRate sliders

omit [Elementary K] in
/-- `@sample` up to the two gains. -/
def detect (m : Mga K) (xl xr : K) : Mga K × K × K :=
  let (left, pl) := m.left.heldPeak xl m.hold
  let (right, pr) := m.right.heldPeak xr m.hold
  -- The left channel reads the other's last envelope, the right one the new left envelope.
  let left := { left with env := max left.env (right.env * m.link) }
  let right := { right with env := max (left.env * m.link) right.env }
  let (left, gl) := left.gain pl m.r m.thresh
  let (right, gr) := right.gain pr m.r m.thresh
  let g := min gl gr
  let grMeter := if g < m.grMeter then g else min (m.grMeter * m.grDecay) 1
  ({ m with left, right, grMeter }, gl, gr)

/-- `@sample` for one stereo frame. -/
def tick (m : Mga K) (xl xr : K) : Mga K × K × K :=
  let (m, gl, gr) := m.detect xl xr
  (m, xl * (gl * m.volume), xr * (gr * m.volume))

end Mga

/-- Release 50 ms, link 75 %, threshold and ceiling the limit. -/
def productSliders (limitDb : K) : Sliders K where
  thresholdDb := limitDb
  releaseMs := 50
  linkPct := 75
  ceilingDb := limitDb

/-- −6…0 dB; a non-finite limit (`none`) is −6. -/
def clampLimit : Option K → K
  | some db => max (-6) (min db 0)
  | none => -6

namespace Limiter

/-- An enabled limiter. -/
def new [FloorSemiring K] (sampleRate : K) (limitDb : Option K) : Limiter K :=
  -- `as` saturates; at least one sample.
  let fadeLen := max (min ⌊10 * sampleRate / 1000 + 1 / 2⌋₊ (2 ^ 32 - 1)) 1
  { mga := .new sampleRate (productSliders (clampLimit limitDb))
    sampleRate
    limitDb := clampLimit limitDb
    enabled := true
    fade := fadeLen
    fadeLen
    active := 0
    activeBelow := pow10 (-1 / 20) }

/-- The new limit applies at the next sample. -/
def setLimitDb (l : Limiter K) (db : Option K) : Limiter K :=
  { l with
    limitDb := clampLimit db
    mga := l.mga.setSliders l.sampleRate (productSliders (clampLimit db)) }

omit [Elementary K] in
/-- Enabling is instant; disabling fades out. -/
def setEnabled (l : Limiter K) (on : Bool) : Limiter K :=
  { l with enabled := on, fade := if on then l.fadeLen else l.fade }

/-- One frame of a block. -/
def frame (l : Limiter K) (xl xr : K) : Limiter K × K × K :=
  let (mga, yl, yr) := l.mga.tick xl xr
  let l := { l with mga }
  let l := if l.enabled then
      if l.mga.grMeter < l.activeBelow then { l with active := l.active + 1 } else l
    else { l with fade := l.fade - 1 }
  if l.fade = l.fadeLen then (l, yl, yr)
  else
    let wet := (l.fade : K) / (l.fadeLen : K)
    (l, xl + wet * (yl - xl), xr + wet * (yr - xr))

/-- A block in place, as long as the shorter channel; the detector always runs. -/
def process (l : Limiter K) : List K → List K → Limiter K × List K × List K
  | xl :: left, xr :: right =>
    let (l, yl, yr) := l.frame xl xr
    let (l, left, right) := l.process left right
    (l, yl :: left, yr :: right)
  | left, right => (l, left, right)

end Limiter

/-- What is done to a limiter. -/
inductive Call (K : Type)
  | setLimitDb (db : Option K)
  | setEnabled (on : Bool)
  | process (left right : List K)

inductive Side
  | left
  | right

def Side.of {α : Type} : Side → α × α → α
  | left, x => x.1
  | right, x => x.2

/-- A frame that went through: every frame up to it, newest first, what came out, by which
gains, and the limiter after it. -/
structure Sample (K : Type) where
  input : K × K
  heard : List (K × K)
  output : K × K
  gains : K × K
  after : Limiter K

/-- `10^(dB/20)` of the limit in force. -/
def Limiter.limit (l : Limiter K) : K := pow10 (l.limitDb / 20)

omit [LinearOrder K] [Elementary K] [Field K] in
def Mga.channel (m : Mga K) : Side → Channel K
  | .left => m.left
  | .right => m.right

/-- The peak it holds. -/
def Channel.held (c : Channel K) : K := max c.m1 c.m2

omit [Elementary K] in
/-- The magnitudes a side heard, newest first. -/
def Sample.past (s : Sample K) (side : Side) : List K := s.heard.map fun x => |side.of x|

def Limiter.sample (l : Limiter K) (heard : List (K × K)) (x : K × K) : Sample K where
  input := x
  heard := x :: heard
  output := (l.frame x.1 x.2).2
  gains := (l.mga.detect x.1 x.2).2
  after := (l.frame x.1 x.2).1

/-- The frames of a block that came after `heard`. -/
def Limiter.samples (l : Limiter K) (heard : List (K × K)) : List (K × K) → List (Sample K)
  | [] => []
  | x :: frames =>
    let s := l.sample heard x
    s :: s.after.samples s.heard frames

def Limiter.call (l : Limiter K) : Call K → Limiter K
  | .setLimitDb db => l.setLimitDb db
  | .setEnabled on => l.setEnabled on
  | .process left right => (l.process left right).1

/-- The frames a block goes in with. -/
def Call.frames : Call K → List (K × K)
  | .process left right => left.zip right
  | _ => []

/-- The frames a block comes back with. -/
def Limiter.given (l : Limiter K) : Call K → List (K × K)
  | .process left right => (l.process left right).2.1.zip (l.process left right).2.2
  | _ => []

/-- What a sequence of calls gave back. -/
def Limiter.outputs (l : Limiter K) : List (Call K) → List (K × K)
  | [] => []
  | c :: calls => l.given c ++ (l.call c).outputs calls

/-- Every frame of a sequence of calls. -/
def Limiter.run (l : Limiter K) (heard : List (K × K)) : List (Call K) → List (Sample K)
  | [] => []
  | .setLimitDb db :: calls => (l.setLimitDb db).run heard calls
  | .setEnabled on :: calls => (l.setEnabled on).run heard calls
  | .process left right :: calls =>
    l.samples heard (left.zip right) ++
      (l.process left right).1.run ((left.zip right).reverse ++ heard) calls

end

end

end IemMixer.LimiterMga
