import IemMixer.Server.RosterProblems

/-! What a roster is refused for against the site's topology. -/
namespace IemMixer.Server
open Lib Proto

/-- What the roster needs of one engine mix. -/
structure MixFact where
  id : String
  stereo : Bool
  /-- The mixes it hears whole, then its peers. -/
  hears : List String

structure TopologyFacts where
  mixes : List MixFact := []
  inputs : List String := []
  engineer : String := ""

/-- The facts of the engine's announced topology. -/
def TopologyFacts.ofInfo (topo : TopologyInfo) : TopologyFacts where
  mixes := topo.mixes.map fun m => { id := m.id, stereo := m.channels == 2, hears := m.mixes ++ m.peers }
  inputs := topo.inputs.map (·.id)
  engineer := topo.engineer

namespace TopologyFacts

def mix (facts : TopologyFacts) (id : String) : Option MixFact := facts.mixes.find? (·.id == id)

/-- The ids of the site's mixes, of what they hear and of its inputs. -/
def ids (facts : TopologyFacts) : List String :=
  facts.mixes.map (·.id) ++ facts.mixes.flatMap (·.hears) ++ facts.inputs

/-- A stereo mix other than the engineer's. -/
def isSet (facts : TopologyFacts) (id : String) : Bool :=
  (facts.mix id).any fun m => m.stereo && m.id != facts.engineer

end TopologyFacts

/-- `quoted` without the quotes. -/
def unquoted (value : String) (valid : Bool) (n : ℕ) : String := if valid then value else "#" ++ toString n

/-- The sets and inputs of `named` that are none of the site's. -/
def foreignProblems (facts : TopologyFacts) (named : String) (sets inputs : List String) : List String :=
  (sets.zipIdx.flatMap fun (set, j) =>
    if !facts.isSet set then
      [named ++ ": set " ++ quoted set (validId set) (j + 1) ++
        " is not a stereo mix of the site other than the engineer's"]
    else []) ++
  inputs.zipIdx.flatMap fun (input, k) =>
    if !facts.inputs.contains input then
      [named ++ ": input " ++ quoted input (validId input) (k + 1) ++ " is not an input of the site"]
    else []

/-- A leader's set that does not hear another of the lineup. -/
def leaderProblems (facts : TopologyFacts) (i : ℕ) (l : Lineup) : List String :=
  let line := if validLineupId l.id then l.id else "lineup #" ++ toString (i + 1)
  let sets := l.sets.keys
  l.leaders.zipIdx.flatMap fun (leader, k) => match l.setOf leader with
    | none => []
    | some set =>
      let who := unquoted leader (validPersonId leader) (k + 1)
      let own := unquoted set (validId set) ((sets.findIdx? (· == set)).getD 0 + 1)
      let hears := ((facts.mix set).map (·.hears)).getD []
      sets.zipIdx.flatMap fun (other, j) =>
        if other != set && !hears.contains other then
          ["leader " ++ who ++ " in " ++ line ++ ": set " ++ own ++ " does not hear " ++
            unquoted other (validId other) (j + 1) ++ "; the site needs peers (F30)"]
        else []

/-- Every problem of the roster against the site's topology. -/
def Roster.problemsAgainst (r : Roster) (facts : TopologyFacts) : List String :=
  (r.lineups.zipIdx.flatMap fun (l, i) =>
    foreignProblems facts ("lineup " ++ quoted l.id (validLineupId l.id) (i + 1)) l.sets.keys l.inputs.keys ++
      leaderProblems facts i l) ++
    (r.equipment.map fun e => foreignProblems facts "[equipment]" e.sets e.inputs).getD []

end IemMixer.Server
