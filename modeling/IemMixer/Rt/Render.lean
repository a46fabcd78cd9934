import Mathlib.Data.Finset.Basic
import IemMixer.Topology
import IemMixer.Lib.Schedule

/-! One segment of the processor's `render_mixes`, at the level of its buffers:
every mix's own sum and shadow first, then every mix in the topology's render
order. The strips are a parameter: a strip's EQ, limiter, fader and levels run
once a segment, so what each makes of its input is a function of that input. -/
namespace IemMixer.Rt
open Lib

/-- What the processor's strips make of a segment of sound `σ`. -/
structure Strips (σ : Type) where
  /-- A mix's ungrouped inputs and group strips at their levels. -/
  ownSum : ℕ → σ
  /-- A shadow's EQ → limiter → volume/mute. -/
  shadowChain : ℕ → σ → σ
  /-- A mix's level slot applied to a source and added. -/
  accumulate : ℕ → ℕ → σ → σ → σ
  /-- A mix's EQ → limiter → volume/mute. -/
  chain : ℕ → σ → σ

/-- Every mix's `own`, `shadow` and `sum` buffers. -/
structure Bank (σ : Type) where
  own : ℕ → σ
  shadow : ℕ → Option σ
  sum : ℕ → σ

/-- A shadow for each mix the topology gives one, as `Processor::new` makes them. -/
def Bank.Laid {σ : Type} (topo : Topology) (bank : Bank σ) : Prop :=
  ∀ m, (bank.shadow m).isSome = topo.mixes[m]?.any (·.shadow)

section
variable {σ : Type} (topo : Topology) (strips : Strips σ)

/-- Adds the sources from level slot `first` on, each read through `src`;
`Others::get` leaves out the mix itself and what is past the end. -/
def accumulateAll (m first : ℕ) (src : ℕ → σ) (sources : List ℕ) (acc : σ) : σ :=
  sources.zipIdx.foldl (fun acc (s, k) =>
    if s = m ∨ topo.mixes.length ≤ s then acc
    else strips.accumulate m (first + k) acc (src s)) acc

/-- A mix's sum before its strip: its own, the mixes it hears whole and its peers'
own outputs, a shadow's where there is one. -/
def mixIn (own : ℕ → σ) (shadow : ℕ → Option σ) (m : ℕ) (spec : MixNode) (sum : ℕ → σ) : σ :=
  let heardFrom := topo.inputs.length
  let acc := accumulateAll topo strips m heardFrom sum spec.mixes (own m)
  accumulateAll topo strips m (heardFrom + spec.mixes.length)
    (fun s => (shadow s).getD (sum s)) spec.peers acc

def renderMix (own : ℕ → σ) (shadow : ℕ → Option σ) (m : ℕ) (sum : ℕ → σ) : σ :=
  match topo.mixes[m]? with
  | none => sum m
  | some spec => strips.chain m (mixIn topo strips own shadow m spec sum)

def renderMixes (bank : Bank σ) : Bank σ :=
  let own := strips.ownSum
  let shadow := fun m => (bank.shadow m).map fun _ => strips.shadowChain m (own m)
  { own, shadow, sum := Schedule.run (renderMix topo strips own shadow) topo.order bank.sum }

/-- What mix `m` hears of the other mixes and itself, in a rendered bank. -/
def received (bank : Bank σ) (m : ℕ) : σ :=
  match topo.mixes[m]? with
  | none => bank.own m
  | some spec => mixIn topo strips bank.own bank.shadow m spec bank.sum

end

/-- Which mixes' outputs a sound holds: an own sum none, a rendered mix or shadow
its own. -/
def provenance : Strips (Finset ℕ) where
  ownSum _ := ∅
  shadowChain m sound := insert m sound
  accumulate _ _ acc src := acc ∪ src
  chain m sound := insert m sound

end IemMixer.Rt
