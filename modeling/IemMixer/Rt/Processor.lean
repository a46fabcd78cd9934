import IemMixer.Core.State
import IemMixer.Rt.Dsp

/-! The RT processor's parameters: what each command from the control core sets.
Buffers, meters, rings and counters of the render are left out. -/
namespace IemMixer.Rt
open Lib Proto Dsp

/-- Output clamp while a test signal sounds. -/
def testCap : F64 := .ofRat 0.1

structure Options where
  fadeInMs : F64 := .fin 500
  hold : Bool := false

/-- The output fade from silence to full level; at once when `len` is 0. -/
def rise (len : ℕ) : Ramp :=
  let fade := Ramp.new (.fin 0) len
  if 0 < len then fade.set (.fin 1) else fade.jump (.fin 1)

structure InputRt where
  trim : Ramp
  /-- 1 = processed, 0 = dry. -/
  procMix : Ramp
  eq : Equalizer
  /-- 1 = open, 0 = muted. -/
  gate : Ramp
  deriving DecidableEq

structure GroupRt where
  eq : Equalizer
  fader : StereoGain
  deriving DecidableEq

/-- A shadowed mix's own output: a second instance of its output chain. -/
structure ShadowRt where
  eq : Equalizer
  limiter : MixLimiter
  fader : StereoGain
  deriving DecidableEq

structure MixRt where
  shadow : Option ShadowRt
  levels : List StereoGain
  groups : List GroupRt
  eq : Equalizer
  limiter : MixLimiter
  fader : StereoGain
  cap : F64
  deriving DecidableEq

/-- A running test signal: it replaces one input. -/
structure TestRt where
  input : ℕ
  phase : F64
  inc : F64
  amp : F64
  left : ℕ
  fade : Ramp
  finish : ℕ
  mask : Option HilMask
  listen : Bool
  deriving DecidableEq

structure Processor where
  inputs : List InputRt
  mixes : List MixRt
  listen : Vector (Option ℕ) 2
  test : Option TestRt
  fade : Ramp
  fadeIn : ℕ
  armed : Bool
  fadingOut : Bool
  time : ℕ

/-- `u64::saturating_add`. -/
def saturatingAdd (a b : ℕ) : ℕ := Nat.min (a + b) (2 ^ 64 - 1)

namespace Processor
variable [Libm]

/-- A processor at `state` (reconciled against the topology), with the limiters'
counters per mix; missing ones are 0. -/
def new (topo : Topology) (state : MixState) (counters : List ℕ) (opts : Options) : Processor :=
  let r := (reconcile topo state).1
  let fadeIn := if (F64.fin 0).lt opts.fadeInMs then samples opts.fadeInMs else 0
  { inputs := r.inputs.map fun s =>
      let p := inputParams s
      { trim := .new p.trim (samples gainMs)
        procMix := .new (onOff p.processing) (samples eqMs)
        eq := .new (eqParams s.eq)
        gate := .new (onOff !p.muted) (samples muteMs) }
    mixes := r.mixes.zipIdx.map fun (rec, m) =>
      let eq := Equalizer.new (eqParams rec.out.eq)
      let fader := StereoGain.new (dbToLin rec.out.volumeDb) rec.out.muted (.fin 0)
      let limiter := MixLimiter.new rec.out.limiter.enabled rec.out.limiter.limitDb
      { shadow := if topo.mixes[m]?.any (·.shadow) then some { eq, limiter := limiter 0, fader }
          else none
        levels := rec.levels.map fun l => .new (dbToLin l.gainDb) l.muted l.pan
        groups := rec.groups.map fun g =>
          { eq := .new (eqParams g.eq), fader := .new (dbToLin g.gainDb) g.muted (.fin 0) }
        eq, limiter := limiter (counters[m]?.getD 0), fader
        cap := .fin 1 }
    listen := .replicate 2 none
    test := none
    fade := if opts.hold then .new (.fin 0) 1 else rise fadeIn
    fadeIn
    armed := !opts.hold
    fadingOut := false
    time := 0 }

/-- An input's parameters. Re-entering from fully dry, trim and EQ restart from their
targets. -/
def setInput (n : InputRt) (p : InputParams) : InputRt :=
  let trim := n.trim.set p.trim
  let dry := !n.procMix.isMoving && n.procMix.value.peq (.fin 0)
  let n := { n with trim, gate := n.gate.set (onOff !p.muted) }
  let n := if p.processing && dry then
      { n with trim := trim.jump trim.target, eq := .new n.eq.params }
    else n
  { n with procMix := n.procMix.set (onOff p.processing) }

/-- A mix's volume, and its shadow's. -/
def setOut (n : MixRt) (volume : F64) (muted : Bool) : MixRt :=
  { n with
    fader := n.fader.set volume muted (.fin 0)
    shadow := n.shadow.map fun s => { s with fader := s.fader.set volume muted (.fin 0) } }

def setEq (n : MixRt) (eq : EqParams) : MixRt :=
  { n with eq := n.eq.set eq, shadow := n.shadow.map fun s => { s with eq := s.eq.set eq } }

def setLimiter (n : MixRt) (enabled : Bool) (limitDb : F64) : MixRt :=
  { n with
    limiter := n.limiter.set enabled limitDb
    shadow := n.shadow.map fun s => { s with limiter := s.limiter.set enabled limitDb } }

omit [Libm] in
/-- A sine replaces input `i` for `ttl` samples and then fades out; every TX is capped
meanwhile. -/
def startTest (p : Processor) (i : ℕ) (hz amp : F64) (ttl : ℕ) (mask : Option HilMask)
    (listen : Bool) : Processor :=
  let len := samples fadeMs
  { p with
    test := some
      { input := i, phase := .fin 0, inc := hz.div (.fin sampleRate), amp := amp.min testCap
        left := ttl, fade := (Ramp.new (.fin 0) len).set (.fin 1)
        finish := saturatingAdd (saturatingAdd p.time ttl) len, mask, listen }
    mixes := p.mixes.map fun n => { n with cap := testCap } }

/-- One command; `none`: the RT thread panicked. -/
def apply (p : Processor) : RtOp → Option Processor
  | .nop => some p
  | .input i params => some { p with inputs := p.inputs.modify i (setInput · params) }
  | .inputEq i eq => some { p with inputs := p.inputs.modify i fun n => { n with eq := n.eq.set eq } }
  | .mixOut m volume muted => some { p with mixes := p.mixes.modify m (setOut · volume muted) }
  | .mixEq m eq => some { p with mixes := p.mixes.modify m (setEq · eq) }
  | .limiter m enabled limitDb => some { p with mixes := p.mixes.modify m (setLimiter · enabled limitDb) }
  -- The mix's own counter only: a shadow's is never counted.
  | .resetLimiter m => some { p with
      mixes := p.mixes.modify m fun n => { n with limiter := n.limiter.resetStats } }
  | .level m k gain pan muted => some { p with
      mixes := p.mixes.modify m fun n => { n with levels := n.levels.modify k (·.set gain muted pan) } }
  | .group m g gain muted => some { p with
      mixes := p.mixes.modify m fun n => { n with
        groups := n.groups.modify g fun s => { s with fader := s.fader.set gain muted (.fin 0) } } }
  | .groupEq m g eq => some { p with
      mixes := p.mixes.modify m fun n => { n with
        groups := n.groups.modify g fun s => { s with eq := s.eq.set eq } } }
  | .listen slot mix => some { p with listen := p.listen.setIfInBounds slot mix }
  | .testSignal i hz amp ttl => some (p.startTest i hz amp ttl none false)
  | .hilTestSignal i hz amp ttl mask listen => some (p.startTest i hz amp ttl (some mask) listen)
  | .stopTestSignal =>
    let len := samples fadeMs
    some { p with test := p.test.map fun t => { t with
      left := 0, fade := (Ramp.new t.fade.value len).set (.fin 0), finish := saturatingAdd p.time len } }
  | .fadeOut => some { p with
      fade := (Ramp.new p.fade.value (samples fadeMs)).set (.fin 0), fadingOut := true }
  | .panic => none
  | .arm =>
    if p.armed then some p
    else some { p with armed := true, fade := if p.fadingOut then p.fade else rise p.fadeIn }

/-- Commands one after another. -/
def applyAll (p : Processor) (ops : List RtOp) : Option Processor := ops.foldlM apply p

end Processor
end IemMixer.Rt
