import IemMixer.Rt.Output

/-! The round-trip probe of the loopback: it is told when a test run starts, when the first
sample of the run leaves on a spare output and what every return carries, and measures the
delay from the one to the other. -/
namespace IemMixer.Rt
open Lib

/-- A sample at or above this magnitude counts as a signal's onset. -/
def onset : F64 := .ofRat 0.001

/-- The smallest round trip in samples: an earlier onset is no echo. -/
def minRoundTrip : ℕ := 16

/-- How long the return must have been quiet before the emit, in samples. -/
def quietBefore : ℕ := 9600

def isLoud (s : F64) : Bool := onset.le s.abs

structure LatencyProbe where
  emittedAt : Option ℕ := none
  arrivedAt : Option ℕ := none
  spoiled : Bool := false
  lastLoud : Option ℕ := none

namespace LatencyProbe

/-- A new run; what the return carried stays. -/
def reset (p : LatencyProbe) : LatencyProbe :=
  { p with emittedAt := none, arrivedAt := none, spoiled := false }

/-- The run's first sample leaves at `t`; later calls are ignored. -/
def emitted (p : LatencyProbe) (t : ℕ) : LatencyProbe :=
  if p.emittedAt.isSome then p
  else
    { p with
      emittedAt := some t
      spoiled := p.spoiled || p.lastLoud.any fun l => t ≤ saturatingAdd l quietBefore }

/-- A loud return sample at `t`. -/
def loud (p : LatencyProbe) (t : ℕ) : LatencyProbe :=
  let p := { p with lastLoud := some (p.lastLoud.elim t (max · t)) }
  match p.emittedAt with
  | none => p
  | some emit =>
    if p.spoiled then p
    else if t < saturatingAdd emit minRoundTrip then { p with spoiled := true, arrivedAt := none }
    else { p with arrivedAt := some (p.arrivedAt.elim t (min · t)) }

/-- One sample of a return, at its index past `base`. -/
def hear (base : ℕ) (p : LatencyProbe) (s : F64 × ℕ) : LatencyProbe :=
  if isLoud s.1 then p.loud (saturatingAdd base s.2) else p

/-- One block of one return; `base` is its first sample's index. -/
def feed (p : LatencyProbe) (ret : List F64) (base : ℕ) : LatencyProbe := ret.zipIdx.foldl (hear base) p

/-- The round trip in samples. -/
def samples (p : LatencyProbe) : Option ℕ :=
  match p.emittedAt, p.arrivedAt with
  | some e, some a => if e ≤ a then some (a - e) else none
  | _, _ => none

end LatencyProbe

/-- The spare outputs and the returns that are open: how many, and each one's sample at a time. -/
structure Loopback where
  hilTx : ℕ
  hilRx : ℕ
  out : ℕ → ℕ → F64
  ret : ℕ → ℕ → F64

/-- The processor's probe, its clock, and when the run that is measured began. -/
structure Measuring where
  probe : LatencyProbe := {}
  time : ℕ := 0
  since : ℕ := 0

/-- A HIL signal starts, or a segment of `frames` samples is rendered, its returns taken in
some order. -/
inductive ProbeEvent where
  | start
  | segment (frames : ℕ) (order : List ℕ)

namespace Loopback
variable (loop : Loopback)

/-- Samples `from` on of a signal. -/
def stretch (signal : ℕ → F64) (time frames : ℕ) : List F64 := (List.range frames).map fun i => signal (time + i)

/-- The first sample of a segment at which a spare output is loud. -/
def emit (time frames : ℕ) : Option ℕ :=
  (List.range loop.hilTx).foldl (fun emit k =>
    match (stretch (loop.out k) time frames).findIdx? isLoud with
    | some i => some (emit.elim i (min · i))
    | none => emit) none

/-- `Processor::probe_latency`. -/
def probeLatency (p : LatencyProbe) (time frames : ℕ) (order : List ℕ) : LatencyProbe :=
  if loop.hilRx = 0 then p
  else
    let p := (loop.emit time frames).elim p fun i => p.emitted (saturatingAdd time i)
    order.foldl (fun p j => p.feed (stretch (loop.ret j) time frames) time) p

def step (m : Measuring) : ProbeEvent → Measuring
  | .start => { m with probe := m.probe.reset, since := m.time }
  | .segment frames order =>
    { m with probe := loop.probeLatency m.probe m.time frames order, time := m.time + frames }

def run (events : List ProbeEvent) : Measuring := events.foldl loop.step {}

end Loopback

/-- Segments are at most `seg` long, and feed every return once. -/
def ProbeEvent.Fed (hilRx : ℕ) : ProbeEvent → Prop
  | .start => True
  | .segment frames order => frames ≤ seg ∧ order.Perm (List.range hilRx)

/-- The first loud sample from `start` on before `stop`. -/
def firstLoud (loud : ℕ → Bool) (start stop : ℕ) : Option ℕ := (List.range' start (stop - start)).find? loud

/-- The delay from the first loud sample sent since `since` to the first loud one that returned
`minRoundTrip` samples later or after, unless the return sounded from `quietBefore` samples before
that emit until then. -/
def measured (sent returned : ℕ → Bool) (since now : ℕ) : Option ℕ :=
  (firstLoud sent since now).bind fun e =>
    if (List.range now).any fun t => returned t && decide (e ≤ t + quietBefore) && decide (t < e + minRoundTrip) then
      none
    else (firstLoud returned (e + minRoundTrip) now).map (· - e)

/-- Whether one of the first `n` signals is loud at a time. -/
def anyLoud (n : ℕ) (signal : ℕ → ℕ → F64) (t : ℕ) : Bool := (List.range n).any fun k => isLoud (signal k t)

end IemMixer.Rt
