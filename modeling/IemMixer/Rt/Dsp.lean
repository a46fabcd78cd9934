import IemMixer.Params
import IemMixer.Topology

/-! The parameters the DSP stages move towards: ramps, a smoothed gain pair with its
pan law, the five-band EQ and a mix's limiter. What a stage does to samples, its
filters' coefficients and memory, is left out. -/
namespace IemMixer.Dsp
open Lib Proto

def gainMs : F64 := .fin 10
def muteMs : F64 := .fin 5
def eqMs : F64 := .fin 20
def fadeMs : F64 := .fin 50
/-- The limiter's disable fade and its raise. -/
def disableMs : F64 := .fin 10

/-- Samples in `ms` milliseconds at the engine's rate, rounded, at least 1. -/
def samples (ms : F64) : ℕ :=
  Nat.max (Nat.min ((ms.mul (.fin sampleRate)).div (.fin 1000)).round.toU64 (2 ^ 32 - 1)) 1

example : samples gainMs = 960 := by decide +kernel

structure Ramp where
  value : F64
  target : F64
  step : F64
  left : ℕ
  len : ℕ
  deriving DecidableEq

namespace Ramp

/-- A ramp resting at `value`; each change takes `len` samples (at least 1). -/
def new (value : F64) (len : ℕ) : Ramp where
  value := value
  target := value
  step := .fin 0
  left := 0
  len := if len = 0 then 1 else len

def isMoving (r : Ramp) : Bool := 0 < r.left

/-- Move towards `target` from the current value (restarts the full length). -/
def set (r : Ramp) (target : F64) : Ramp :=
  if target.peq r.target then r
  else { r with target, left := r.len, step := (target.sub r.value).div (.fin r.len) }

/-- Rest at `value` at once. -/
def jump (r : Ramp) (value : F64) : Ramp := new value r.len

end Ramp

/-- A switch as a ramp's value. -/
def onOff (on : Bool) : F64 := if on then .fin 1 else .fin 0

/-- √(gL² + gR²) at |p| = k/20. -/
def magnitudes : List F64 :=
  [.ofRat 1.4142135623730951, .ofRat 1.413442003770097, .ofRat 1.4111213638902695,
    .ofRat 1.407233637679557, .ofRat 1.4017484365850923, .ofRat 1.3946224041647768,
    .ofRat 1.3857983687078865, .ofRat 1.3752042016004387, .ofRat 1.3627513381348282,
    .ofRat 1.3483329027347901, .ofRat 1.3318213620807011, .ofRat 1.3130656059467758,
    .ofRat 1.2918873247387341, .ofRat 1.2680765120099933, .ofRat 1.2413858657590862,
    .ofRat 1.2115237885030046, .ofRat 1.1781455848733056, .ofRat 1.1408423148202314,
    .ofRat 1.0991265624823106, .ofRat 1.052414098036256, .fin 1]

/-- The ghost node past |p| = 1. -/
def ghost : F64 := .ofRat 0.947585901963744

def node (k : ℕ) : F64 := magnitudes[k]?.getD ghost

/-- Catmull-Rom between the nodes, for `a` = |p| in [0, 1]. -/
def magnitude (a : F64) : F64 :=
  let x := a.mul (.fin 20)
  let i := Nat.min x.toU64 20
  let t := x.sub (.fin i)
  let y0 := node (if i = 0 then 1 else i - 1)
  let y1 := node i
  let y2 := node (i + 1)
  let y3 := node (i + 2)
  let cubic := (((F64.fin 3).mul (y1.sub y2)).add y3).sub y0
  let square := (((((F64.fin 2).mul y0).sub ((F64.fin 5).mul y1)).add ((F64.fin 4).mul y2)).sub y3).add
    (t.mul cubic)
  y1.add (((F64.ofRat 0.5).mul t).mul ((y2.sub y0).add (t.mul square)))

def fracPi4 : F64 := .ofRat 0.7853981633974483

section
variable [Libm]

/-- Pan gains for pan `p` in [-1, 1] (clamped; non-finite is centre). -/
def gains (p : F64) : F64 × F64 :=
  let p := if p.isFinite then p.clamp (.fin (-1)) (.fin 1) else .fin 0
  let m := magnitude p.abs
  (m.mul (Libm.sin (((F64.fin 1).sub p).mul fracPi4)),
    m.mul (Libm.sin (((F64.fin 1).add p).mul fracPi4)))

def sendGains (vol : F64) (muted : Bool) (pan : F64) : F64 × F64 :=
  if muted then (.fin 0, .fin 0)
  else
    let (l, r) := gains pan
    (vol.mul l, vol.mul r)

end

/-- A smoothed gain pair: v·gains(p) and the mute. -/
structure StereoGain where
  l : Ramp
  r : Ramp
  on : Ramp
  deriving DecidableEq

namespace StereoGain
variable [Libm]

def new (vol : F64) (muted : Bool) (pan : F64) : StereoGain :=
  let (gl, gr) := sendGains vol false pan
  { l := .new gl (samples gainMs), r := .new gr (samples gainMs)
    on := .new (onOff !muted) (samples muteMs) }

def set (g : StereoGain) (vol : F64) (muted : Bool) (pan : F64) : StereoGain :=
  let (gl, gr) := sendGains vol false pan
  { l := g.l.set gl, r := g.r.set gr, on := g.on.set (onOff !muted) }

end StereoGain

def flatBand (kind : BandKind) (freqHz bwOct : F64) : Band :=
  { kind, enabled := false, freqHz, gainLin := .fin 1, bwOct }

/-- The standard layout, every band off and flat. -/
def standardFlat : EqParams where
  bands := #v[flatBand .highPass (.ofRat 80.20834168547682) (.fin 2),
    flatBand .lowShelf (.ofRat 200.3077623397404) (.fin 2),
    flatBand .peak (.ofRat 801.9398157380639) (.fin 1),
    flatBand .peak (.ofRat 2996.2342070275295) (.fin 1),
    flatBand .highShelf (.ofRat 8016.061124722856) (.fin 2)]
  globalGain := .fin 1

/-- One band: the band it moves to and its ramps, in log frequency, dB and log
bandwidth; `wet` crossfades the band in and out. -/
structure BandState where
  target : Band
  freq : Ramp
  gain : Ramp
  bw : Ramp
  wet : Ramp
  len : ℕ
  deriving DecidableEq

section
variable [Libm]

def freqKey (b : Band) : F64 := Libm.log2 (b.freqHz.max (.fin 20))

def rampDbMin : F64 := .fin (-120)

def gainKey (b : Band) : F64 :=
  if (F64.fin 0).lt b.gainLin then ((F64.fin 20).mul (Libm.log10 b.gainLin)).max rampDbMin
  else rampDbMin

def bwKey (b : Band) : F64 := Libm.log2 (b.bwOct.max (.ofRat 0.01))

namespace BandState

def new (b : Band) (len : ℕ) : BandState where
  target := b
  freq := .new (freqKey b) len
  gain := .new (gainKey b) len
  bw := .new (bwKey b) len
  wet := .new (onOff b.enabled) len
  len := len

omit [Libm] in
def bypassed (s : BandState) : Bool := s.wet.value.peq (.fin 0) && !s.wet.isMoving

/-- A bypassed band, or one that changes its kind, restarts at its new values. -/
def set (s : BandState) (b : Band) : BandState :=
  let moved := if b.kind ≠ s.target.kind ∨ s.bypassed then { new b s.len with wet := s.wet }
    else { s with
      target := b
      freq := s.freq.set (freqKey b)
      gain := s.gain.set (gainKey b)
      bw := s.bw.set (bwKey b) }
  { moved with wet := moved.wet.set (onOff b.enabled) }

end BandState
end

structure Equalizer where
  bands : Vector BandState 5
  global : Ramp
  deriving DecidableEq

namespace Equalizer
variable [Libm]

/-- An EQ resting at `params`; invalid bands start flat and off. -/
def new (params : EqParams) : Equalizer where
  bands := Vector.zipWith (fun flat b => .new (if b.isValid then b else flat) (samples eqMs))
    standardFlat.bands params.bands
  global := .new (if isGain params.globalGain then params.globalGain else .fin 1) (samples eqMs)

/-- New targets; invalid bands and an invalid global gain are ignored. -/
def set (e : Equalizer) (params : EqParams) : Equalizer where
  bands := Vector.zipWith (fun s b => if b.isValid then s.set b else s) e.bands params.bands
  global := if isGain params.globalGain then e.global.set params.globalGain else e.global

omit [Libm] in
/-- The current targets. -/
def params (e : Equalizer) : EqParams where
  bands := e.bands.map (·.target)
  globalGain := e.global.target

end Equalizer

/-- −6…0 dB; non-finite is −6. -/
def clampLimit (db : F64) : F64 := if db.isFinite then db.clamp (.fin (-6)) (.fin 0) else .fin (-6)

/-- A mix limiter: enabling and lowering instant, raising over 10 ms. `limitDb`
is the limit in force, `raise` leads it up; `active` and `base` count the samples it
worked, in this run and before it. -/
structure MixLimiter where
  enabled : Bool
  limitDb : F64
  raise : Ramp
  active : ℕ
  base : ℕ
  deriving DecidableEq

namespace MixLimiter

def new (enabled : Bool) (limitDb : F64) (base : ℕ) : MixLimiter where
  enabled := enabled
  limitDb := clampLimit limitDb
  raise := .new (clampLimit limitDb) (samples disableMs)
  active := 0
  base := base

def set (l : MixLimiter) (enabled : Bool) (limitDb : F64) : MixLimiter :=
  if limitDb.le l.limitDb then
    { l with enabled, raise := l.raise.jump limitDb, limitDb := clampLimit limitDb }
  else { l with enabled, raise := l.raise.set limitDb }

/-- The counters zeroed. -/
def resetStats (l : MixLimiter) : MixLimiter := { l with active := 0, base := 0 }

end MixLimiter

end IemMixer.Dsp
