import IemMixer.Proto.Msg

/-! The server's copy of the engine's state. It changes only through the engine's
messages; a gap in the revision asks for a resync. -/
namespace IemMixer
open Lib Proto

/-- `synced`: a `State` arrived since the last (re)connect. -/
structure Mirror where
  hello : Option Hello := none
  topology : Option TopologyInfo := none
  state : MixState := {}
  transient : Transient := {}
  rev : ℕ := 0
  synced : Bool := false

/-- What an engine message did to the mirror. -/
inductive MirrorEvent where
  | topology
  | reset
  | changed (origin : Option ℕ) (changes : List Change)
  | resync
  deriving DecidableEq

namespace Mirror

/-- Before any message. -/
def start : Mirror := {}

/-- The connection dropped: the state is forgotten. -/
def disconnected (m : Mirror) : Mirror := { m with synced := false }

/-- `entry(mix).or_default()` written through `f`. -/
def modifyMix (m : Mirror) (mix : MixId) (f : Mix → Mix) : Mirror :=
  { m with state := { m.state with mixes := m.state.mixes.update mix {} f } }

def change (m : Mirror) : Change → Mirror
  | .input id state => { m with state := { m.state with inputs := m.state.inputs.insert id state } }
  | .mixOut mix out => m.modifyMix mix fun x => { x with out }
  | .level mix (.input id) level => m.modifyMix mix fun x =>
    { x with inputs := x.inputs.insert id level }
  | .level mix (.mix id) level => m.modifyMix mix fun x => { x with mixes := x.mixes.insert id level }
  | .group mix group state => m.modifyMix mix fun x => { x with groups := x.groups.insert group state }
  | .solo mix sources =>
    let kept := m.transient.solo.filter fun s => s.mix != mix
    let solo := if sources.isEmpty then kept else kept ++ [{ mix, sources }]
    { m with transient := { m.transient with solo } }
  | .listen listen => { m with transient := { m.transient with listen } }
  | .testSignal signal => { m with transient := { m.transient with testSignal := signal } }
  | .limiterStatsReset _ => m

def apply (m : Mirror) : EngineMsg → Option MirrorEvent × Mirror
  | .hello h => (none, { m with hello := some h })
  | .topology t => (some .topology, { m with topology := some t })
  | .state rev state transient => (some .reset, { m with state, transient, rev, synced := true })
  | .delta rev origin changes =>
    if !m.synced || rev ≤ m.rev then (none, m)
    else if rev ≠ m.rev + 1 then (some .resync, { m with synced := false })
    else (some (.changed origin changes), { changes.foldl change m with rev })
  | _ => (none, m)

/-- The messages that arrived, in order. -/
def receive (m : Mirror) (msgs : List EngineMsg) : Mirror := msgs.foldl (fun m msg => (m.apply msg).2) m

end Mirror
end IemMixer
