import IemMixer.Control.SavingProofs
import IemMixer.Lib.Runs
import IemMixer.Rt.Processor

/-! The control loop and the RT thread that counts what the limiters do: commands reach
the one in the order the other published them, and meter frames bring the counts back. -/
namespace IemMixer
open Lib Proto Rt Persist

namespace Dsp

/-- `active()`: what a meter frame says of the limiter. -/
def MixLimiter.total (l : MixLimiter) : ℕ := saturatingAdd l.base l.active

def MixLimiter.count (l : MixLimiter) (n : ℕ) : MixLimiter := { l with active := l.active + n }

end Dsp

namespace Rt.Processor

/-- What a meter frame says the limiters did. -/
def totals (p : Processor) : List ℕ := p.mixes.map fun node => node.limiter.total

/-- `n` samples limited at mix `m`. -/
def count (p : Processor) (m n : ℕ) : Processor :=
  { p with mixes := p.mixes.modify m fun node => { node with limiter := node.limiter.count n } }

end Rt.Processor

namespace Control

/-- The mixes whose limiter statistics a command resets. -/
def resetOf : Cmd → Option MixId
  | .resetLimiterStats mix => some mix
  | _ => none

def resetsOf : Cmd → List MixId
  | .batch ops => ops.filterMap resetOf
  | cmd => (resetOf cmd).toList

/-- A tick finds what the meters' buffer holds. -/
def Act.finding (frame : Option MeterFrame) : Act → Act
  | .tick pulse => .tick { pulse with meters := frame }
  | act => act

section
variable [Libm] (env : Outside)

/-- The mixes whose statistics a step resets. -/
def resets (l : Loop) : Act → List MixId
  | .frame id (.ok (.request _ _ cmd)) =>
    match l.control.peers[id]? with
    | none => []
    | some role =>
      match refusal role cmd, l.control.core.apply cmd with
      | none, .ok .. => resetsOf cmd
      | _, _ => []
  | _ => []

/-- The loop's state where a step asks the store for a save, on its way out or not. -/
def savesAt (l : Loop) : Act → Option Control
  | .tick p =>
    let c := l.control.flushRt env
    if p.faulted then some (c.broadcast env .status)
    else
      match p.ending with
      | some (.backend _) => some c
      | _ =>
        if (c.stopAsked p).shutdown then some (c.stopAsked p) else saveAt env l (.tick p)
  | act => saveAt env l act

end

/-- A tick the loop goes on after reads the meters. -/
def readsMeters (l : Loop) : Act → Bool
  | .tick p => !p.faulted && p.ending.isNone && !l.control.shutdown
  | _ => false

/-- `applied`: the commands the RT thread had applied when it wrote the frame. -/
structure Stamped extends MeterFrame where
  applied : ℕ

/-- What the store was given, and what had been counted since the resets by then. -/
structure Save where
  written : Persisted
  since : MixId → Option ℕ

/-- `applied`: how many published commands the RT thread applied. `frame`: the meter
frame the loop did not read yet. `read`: the commands applied before the frame its
counters come from. `since`: at a mix that was reset, what the RT thread counted after
it applied the last reset. -/
structure Halves where
  loop : Loop
  ended : Bool := false
  rt : Processor
  applied : ℕ := 0
  frame : Option Stamped := none
  read : ℕ := 0
  since : MixId → Option ℕ := fun _ => none
  saves : List Save := []

/-- A step of the loop, a command applied, `n` samples limited at mix `m`, a meter
frame published. -/
inductive Move where
  | loop (act : Act)
  | apply
  | count (m n : ℕ)
  | meter (trips : ℕ)

namespace Halves

/-- No reset of `mix` is among the commands after the first `applied`. -/
def Settled (s : Halves) (mix : MixId) (applied : ℕ) : Prop :=
  ∀ m ∈ s.loop.control.core.topo.mixIndex mix,
    RtOp.resetLimiter (ix m) ∉ s.loop.control.published.drop applied

instance (s : Halves) (mix : MixId) (applied : ℕ) : Decidable (s.Settled mix applied) :=
  inferInstanceAs (Decidable (∀ m ∈ s.loop.control.core.topo.mixIndex mix,
    RtOp.resetLimiter (ix m) ∉ s.loop.control.published.drop applied))

def finds (s : Halves) (act : Act) : Act := act.finding (s.frame.map (·.toMeterFrame))

def counted (s : Halves) (m n : ℕ) (mix : MixId) : Option ℕ :=
  if s.loop.control.core.topo.mixIndex mix = some m ∧ s.Settled mix s.applied then
    (s.since mix).map (· + n)
  else s.since mix

/-- The commands applied before the frame a step's save takes its counters from. -/
def readBy (s : Halves) (act : Act) : ℕ :=
  if readsMeters s.loop act then (s.frame.map (·.applied)).getD s.read else s.read

section
variable [Libm] (env : Outside)

/-- Both started with one state and its counters. -/
def new (core : Core) (state : MixState) (counters : List ℕ) (alarms : List Alarm) (settings : Settings)
    (now : ℕ) (opts : Options) : Halves where
  loop := { control := .new core counters alarms settings now }
  rt := .new core.topo state counters opts

def stepLoop (s : Halves) (act : Act) : Halves where
  loop := (s.loop.handle env act).1
  ended := (s.loop.handle env act).2.isSome
  rt := s.rt
  applied := s.applied
  frame := if readsMeters s.loop act then none else s.frame
  read := s.readBy act
  since mix := if mix ∈ resets s.loop act then some 0 else s.since mix
  saves := s.saves ++ ((savesAt env s.loop act).map fun c => ⟨c.persisted env, s.since⟩).toList

/-- The RT thread applies what reached its ring, and counts and meters at any time. -/
def move (s : Halves) : Move → Option Halves
  | .loop act =>
    if s.ended || !s.loop.takes (s.finds act) then none else some (s.stepLoop env (s.finds act))
  | .apply =>
    let c := s.loop.control
    if s.applied + c.pending.flatten.length < c.published.length then
      (c.published[s.applied]?).bind fun op =>
        (s.rt.apply op).map fun rt => { s with rt, applied := s.applied + 1 }
    else none
  | .count m n =>
    some { s with rt := s.rt.count m n, since := s.counted m n }
  | .meter trips =>
    some { s with frame := some { trips, active := s.rt.totals, applied := s.applied } }

/-- A save after a reset of `mix` takes its counters from a frame written after the RT
thread applied that reset. -/
def Fresh (mix : MixId) (s : Halves) : Move → Prop
  | .loop act =>
    (savesAt env s.loop (s.finds act)).isSome → (s.since mix).isSome →
      s.Settled mix (s.readBy (s.finds act))
  | _ => True

instance (mix : MixId) (s : Halves) : DecidablePred (s.Fresh env mix)
  | .loop act => inferInstanceAs (Decidable ((savesAt env s.loop (s.finds act)).isSome →
      (s.since mix).isSome → s.Settled mix (s.readBy (s.finds act))))
  | .apply | .count .. | .meter _ => inferInstanceAs (Decidable True)

end

/-- What a save holds for a mix that was reset was counted after the reset. -/
def Durable (mix : MixId) (s : Halves) : Prop :=
  ∀ save ∈ s.saves, ∀ n, save.since mix = some n → ∀ v, save.written.counters[mix]? = some v →
    v.toNat ≤ n

end Halves
end Control
end IemMixer
