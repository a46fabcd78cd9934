import IemMixer.Proto.Msg

/-! A mix state shaped by a topology, as the engine holds it: every value capped
to its range, every slot the topology has present, what it lacks dropped and
named. -/
namespace IemMixer.Proto
open Lib

/-- An inclusive range. -/
structure Range where
  lo : F64
  hi : F64

namespace Range

def trimDb : Range := ⟨dbOff, .fin 24⟩
def faderDb : Range := ⟨dbOff, .fin 12⟩
def pan : Range := ⟨.fin (-1), .fin 1⟩
def eqFreq : Range := ⟨.fin 20, .fin 24000⟩
def eqGainDb : Range := ⟨dbOff, .ofRat 12.041199826559248⟩
def eqBw : Range := ⟨.ofRat 0.01, .fin 4⟩
def limitDb : Range := ⟨.fin (-6), .fin 0⟩

end Range

/-- `v` clamped into `r`; `none` when `v` is not finite. -/
def cap (v : F64) (r : Range) : Option F64 :=
  if v.isFinite then some (v.clamp r.lo r.hi) else none

def fix (v : F64) (r : Range) (default : F64) : F64 := (cap v r).getD default

/-- Every EQ value finite (commands reject the rest; loads replace it). -/
def eqIsFinite (e : EqState) : Bool :=
  e.gainDb.isFinite &&
    e.bands.toList.all fun b => b.freqHz.isFinite && b.gainDb.isFinite && b.bwOct.isFinite

def capBand (b : EqBand) : EqBand :=
  let d : EqBand := {}
  { b with
    freqHz := fix b.freqHz .eqFreq d.freqHz
    gainDb := fix b.gainDb .eqGainDb d.gainDb
    bwOct := fix b.bwOct .eqBw d.bwOct }

def capEq (e : EqState) : EqState :=
  { gainDb := fix e.gainDb .eqGainDb (.fin 0), bands := e.bands.map capBand }

def capInput (s : InputState) : InputState :=
  { s with trimDb := fix s.trimDb .trimDb (.fin 0), eq := capEq s.eq }

def capLevel (s : Level) : Level :=
  { s with gainDb := fix s.gainDb .faderDb dbOff, pan := fix s.pan .pan (.fin 0) }

def capGroup (s : MixGroup) : MixGroup :=
  { s with gainDb := fix s.gainDb .faderDb (.fin 0), eq := capEq s.eq }

def capOut (s : MixOut) : MixOut :=
  { s with
    volumeDb := fix s.volumeDb .faderDb (.fin 0)
    eq := capEq s.eq
    limiter := { s.limiter with limitDb := fix s.limiter.limitDb .limitDb Range.limitDb.lo } }

/-- The longest prefix of `cs` that takes at most `room` bytes. -/
def clipChars : ℕ → List Char → List Char
  | _, [] => []
  | room, c :: cs => if c.utf8Size ≤ room then c :: clipChars (room - c.utf8Size) cs else []

/-- An id cut to 64 bytes for a message, a char boundary kept. -/
def clip (s : String) : String := String.ofList (clipChars 64 s.toList)

/-- One topology mix shaped from what the state gave for it. -/
def shapeMix (topo : TopologyInfo) (node : MixInfo) (given : Option Mix) : Mix where
  out := (given.map fun x => capOut x.out).getD {}
  inputs := .collect (topo.inputs.map fun i =>
    (i.id, ((given.bind fun x => x.inputs[i.id]?).map capLevel).getD {}))
  groups := .collect (topo.groups.map fun g =>
    (g.id, ((given.bind fun x => x.groups[g.id]?).map capGroup).getD {}))
  -- The mixes it hears, then its peers: both are `Mix.mixes`.
  mixes := .collect ((node.mixes ++ node.peers).map fun h =>
    (h, ((given.bind fun x => x.mixes[h]?).map capLevel).getD {}))

/-- What the topology lacks of the mix the state gave for `node`, named. -/
def droppedOf (topo : TopologyInfo) (node : MixInfo) (x : Mix) : List String :=
  let name := clip node.id
  ((x.inputs.keys.filter fun id => !topo.inputs.any (·.id == id)).map fun id =>
      "mix " ++ name ++ " input " ++ clip id) ++
  ((x.groups.keys.filter fun id => !topo.groups.any (·.id == id)).map fun id =>
      "mix " ++ name ++ " group " ++ clip id) ++
  ((x.mixes.keys.filter fun id => !(node.mixes.contains id || node.peers.contains id)).map
    fun id => "mix " ++ name ++ " hearing " ++ clip id)

/-- `state` shaped by `topo`: every known value capped, every missing one
defaulted; returns what the topology does not have, named (inputs, then mix by
mix, then unknown mixes). -/
def reconcile (topo : TopologyInfo) (state : MixState) : MixState × List String :=
  let inputs := .collect (topo.inputs.map fun n =>
    (n.id, (state.inputs[n.id]?.map capInput).getD {}))
  let droppedInputs := (state.inputs.keys.filter fun id => !topo.inputs.any (·.id == id)).map
    fun id => "input " ++ clip id
  let mixes := .collect (topo.mixes.map fun node =>
    (node.id, shapeMix topo node state.mixes[node.id]?))
  let droppedInMixes := topo.mixes.flatMap fun node =>
    match state.mixes[node.id]? with
    | some x => droppedOf topo node x
    | none => []
  let droppedMixes := (state.mixes.keys.filter fun id => !topo.mixes.any (·.id == id)).map
    fun id => "mix " ++ clip id
  ({ inputs, mixes }, droppedInputs ++ droppedInMixes ++ droppedMixes)

end IemMixer.Proto
