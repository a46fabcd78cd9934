import IemMixer.Rt.Processor
import IemMixer.Rt.Wire

/-! What the processor sends: a segment's samples on every card output, to the listen taps
and to their probes. How the strips sound is a parameter; the test signal, the output fade
and what is written where are the source's. -/
namespace IemMixer.Rt
open Lib Proto Dsp

/-- One sample on; also its value. -/
def tickRamp (r : Ramp) : F64 × Ramp :=
  if 0 < r.left then
    let left := r.left - 1
    let value := if left = 0 then r.target else r.value.add r.step
    (value, { r with left, value })
  else (r.value, r)

/-- The next `n` values. -/
def rampValues : Ramp → ℕ → List F64 × Ramp
  | r, 0 => ([], r)
  | r, n + 1 =>
    let (value, r) := tickRamp r
    let (rest, r) := rampValues r n
    (value :: rest, r)

def tau : F64 := .ofRat 6.283185307179586

section
variable [Libm]

namespace TestRt

/-- The sine of the next `n` samples: the fade-in, the level, the fade-out once the time ran
out. -/
def render : TestRt → ℕ → List F64 × TestRt
  | t, 0 => ([], t)
  | t, n + 1 =>
    let t := if t.left = 0 then { t with fade := t.fade.set (.fin 0) } else { t with left := t.left - 1 }
    let (level, fade) := tickRamp t.fade
    let sample := (t.amp.mul level).mul (Libm.sin (tau.mul t.phase))
    let (rest, t) := render { t with fade, phase := (t.phase.add t.inc).fract } n
    (sample :: rest, t)

end TestRt

/-- What a segment writes: to the card outputs (none where nothing is written), and what it
offers to the two listen taps and their probes. -/
structure Sent where
  card : ℕ → Option (List F64) := fun _ => none
  taps : Vector (List (F64 × F64)) 2 := #v[[], []]
  probes : Vector (List F64) 2 := #v[[], []]

/-- Nothing is written yet. -/
def Sent.nothing : Sent := {}

/-- What the strips make of a segment, with what they remember in `δ`: their parameters as
the ramps move (a mix's cap is not theirs to move), and each mix's two channels before its
fader, through the listen limiter, and after its safety limiter. -/
structure Rendered (δ : Type) where
  inputs : List InputRt
  mixes : List MixRt
  memory : δ
  plain : ℕ → List (F64 × F64)
  limited : ℕ → List (F64 × F64)
  safe : ℕ → List (F64 × F64)

/-- The inputs and the strips, given the test's sine and a number of samples. -/
abbrev Interior (δ : Type) := Processor → δ → List F64 → ℕ → Rendered δ

/-- The test signal as the spare outputs and the probes carry it. -/
def testSamples (sine fade : List F64) : List F64 :=
  List.zipWith (fun s f => (s.clamp testCap.opp testCap).mul f) sine fade

/-- One side of a mix's output, capped and faded. -/
def txSamples (cap : F64) (safe fade : List F64) : List F64 :=
  List.zipWith (fun y f => (y.clamp cap.opp cap).mul f) safe fade

/-- A listen tap's segment, or as much silence. -/
def pushTap (sound : List (F64 × F64)) (silent : Bool) : List (F64 × F64) :=
  sound.map fun pair => if silent then (.fin 0, .fin 0) else pair

/-- What one mix gives to listen tap `slot`, when it is listened to there. -/
def sendTap (p : Processor) (sine fade : List F64) (slot : Fin 2) (m : ℕ) (sound : List (F64 × F64))
    (out : Sent) : Sent :=
  let hil := p.test.any (·.mask.isSome)
  let probing := p.test.any fun t => t.mask.isSome && t.listen
  if p.listen[slot] = some m then
    { out with
      taps := out.taps.set slot (out.taps[slot] ++ pushTap sound hil)
      probes := if probing then out.probes.set slot (out.probes[slot] ++ testSamples sine fade) else out.probes }
  else out

/-- One side of a mix to its card output, or silence while a HIL signal runs. -/
def sendTx (hil : Bool) (n : ℕ) (out : Sent) : Option ℕ × List F64 → Sent
  | (none, _) => out
  | (some ch, samples) =>
    { out with card := Function.update out.card ch (some (if hil then List.replicate n (.fin 0) else samples)) }

/-- One mix's taps and card outputs. -/
def sendMix (topo : Topology) {δ : Type} (p : Processor) (r : Rendered δ) (sine fade : List F64) (n : ℕ)
    (out : Sent) (m : ℕ) : Sent :=
  match topo.mixes[m]?, p.mixes[m]? with
  | some spec, some mix =>
    let out := sendTap p sine fade Core.engineerTap m (r.plain m) out
    let out := sendTap p sine fade Core.otherTap m (r.limited m) out
    let left := txSamples mix.cap ((r.safe m).map (·.1)) fade
    let right := txSamples mix.cap ((r.safe m).map (·.2)) fade
    [(spec.tx.1, left), (spec.tx.2, right)].foldl (sendTx (p.test.any (·.mask.isSome)) n) out
  | _, _ => out

/-- HIL's spare outputs after the topology's: the masked ones carry the signal, the others
silence. -/
def sendHil (topo : Topology) (p : Processor) (sine fade : List F64) (n : ℕ) (out : Sent) (k : ℕ) : Sent :=
  let masked := (p.test.bind (·.mask)).any fun mask => mask[k]?.getD false
  { out with
    card := Function.update out.card (topo.tx.length + k)
      (some (if masked then testSamples sine fade else List.replicate n (.fin 0))) }

/-- A segment as it was sent. -/
structure Segment where
  time : ℕ
  frames : ℕ
  sent : Sent

/-- The processor and its strips' memory, nothing once a command panicked, and the segments
sent so far. -/
structure Card (δ : Type) where
  live : Option (Processor × δ)
  sent : List Segment := []

/-- The test is over: the caps lift. -/
def endTest (p : Processor) : Processor :=
  if p.test.any (·.finish ≤ p.time) then
    { p with test := none, mixes := p.mixes.map fun mix => { mix with cap := .fin 1 } }
  else p

/-- One segment of `n` samples; `spare` of the outputs are HIL's. -/
def Processor.render (topo : Topology) (spare : ℕ) {δ : Type} (interior : Interior δ) (p : Processor)
    (memory : δ) (n : ℕ) : Processor × δ × Sent :=
  let p := endTest p
  let (fade, ramp) := rampValues p.fade n
  let (sine, test) := match p.test with
    | some t =>
      let (sine, t) := t.render n
      (sine, some t)
    | none => ([], none)
  let p := { p with fade := ramp, test }
  let r := interior p memory sine n
  let out := topo.order.foldl (sendMix topo p r sine fade n) {}
  let out := (List.range spare).foldl (sendHil topo p sine fade n) out
  let mixes := List.zipWith (fun made mix => { made with cap := mix.cap }) r.mixes p.mixes
  ({ p with inputs := r.inputs, mixes, time := p.time + n }, r.memory, out)

/-- The processor at the RT callback's end of the ring. -/
def cardMachine (topo : Topology) (spare : ℕ) {δ : Type} (interior : Interior δ) : Machine (Card δ) where
  apply c op := { c with live := c.live.bind fun (p, memory) => (p.apply op).map (·, memory) }
  render c n :=
    match c.live with
    | none => c
    | some (p, memory) =>
      let (next, memory, sent) := p.render topo spare interior memory n
      { live := some (next, memory), sent := c.sent ++ [⟨p.time, n, sent⟩] }
  testEnd c := c.live.bind fun (p, _) => p.test.map (·.finish)

end

end IemMixer.Rt
