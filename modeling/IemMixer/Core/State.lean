import IemMixer.Topology

/-! The mix state against the topology: in topology order with every known id
capped and every missing one defaulted, back in the protocol's form, and the load
chain's muted defaults. -/
namespace IemMixer
open Lib Proto

/-- One mix in topology order: its output, its level slots (every input, then the
mixes it hears, then its peers) and its group strips. -/
structure MixRec where
  out : MixOut := {}
  levels : List Level
  groups : List MixGroup
  deriving DecidableEq

/-- The mix state in topology order. -/
structure Reconciled where
  inputs : List InputState
  mixes : List MixRec
  deriving DecidableEq

/-- One mix laid out in topology order. -/
def layMix (topo : Topology) (m : ℕ) (mix : Option Mix) : MixRec where
  out := (mix.map (·.out)).getD {}
  levels := (List.range (topo.levels m)).map fun k =>
    ((topo.source m k).bind fun source => mix.bind (·.level source)).getD {}
  groups := topo.groups.map fun g => (mix.bind (·.groups[g.id]?)).getD {}

/-- The state for this topology, shaped by the protocol's `reconcile`, and what
the topology does not have. -/
def reconcile (topo : Topology) (state : MixState) : Reconciled × List String :=
  let (shaped, dropped) := Proto.reconcile topo.info state
  ({ inputs := topo.inputs.map fun n => shaped.inputs[n.id]?.getD {}
     mixes := topo.mixes.zipIdx.map fun p => layMix topo p.2 shaped.mixes[p.1.id]? },
   dropped)

/-- The level of slot `p.2` put under the source that slot reads. -/
def putLevel (topo : Topology) (m : ℕ) (mix : Mix) (p : Level × ℕ) : Mix :=
  match topo.source m p.2 with
  | some (.input id) => { mix with inputs := mix.inputs.insert id p.1 }
  | some (.mix id) => { mix with mixes := mix.mixes.insert id p.1 }
  | none => mix

/-- One mix back in the protocol's form. -/
def toMix (topo : Topology) (m : ℕ) (rec : MixRec) : Mix :=
  { rec.levels.zipIdx.foldl (putLevel topo m) { out := rec.out } with
    groups := .collect ((topo.groups.zip rec.groups).map fun p => (p.1.id, p.2)) }

/-- The protocol form of a reconciled state. -/
def toState (topo : Topology) (r : Reconciled) : MixState where
  inputs := .collect ((topo.inputs.zip r.inputs).map fun p => (p.1.id, p.2))
  mixes := .collect ((topo.mixes.zip r.mixes).zipIdx.map fun p =>
    (p.1.1.id, toMix topo p.2 p.1.2))

/-- The end of the load chain: defaults with every mix muted. -/
def defaultsMuted (topo : Topology) : MixState :=
  let r := (reconcile topo {}).1
  toState topo { r with mixes := r.mixes.map fun rec => { rec with out := { rec.out with muted := true } } }

end IemMixer
