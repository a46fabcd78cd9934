import IemMixer.Proto.Shape

/-! The roster: the lineups that place people on the site's sets, and what a lineup's
rules and a person's move make of a mix state. -/
namespace IemMixer.Server
open Lib Proto

/-- A person; `takesOver` is read by the one-time migration only. -/
structure Person where
  id : String
  name : String
  takesOver : Option String := none

/-- An input's label and owner in one lineup. -/
structure LineupInput where
  name : String
  owner : Option String := none

/-- A band: who wears which set (a mix), who leads it, whose input is which. -/
structure Lineup where
  id : String
  main : Bool := false
  leaders : List String := []
  sets : BTreeMap String String := ∅
  name : String := ""
  inputs : BTreeMap String LineupInput := ∅

/-- Which sets and inputs are people's. -/
structure Equipment where
  sets : List String
  inputs : List String

structure Roster where
  lineups : List Lineup
  people : List Person := []
  equipment : Option Equipment := none

namespace Lineup

/-- The set `person` wears. -/
def setOf (l : Lineup) (person : String) : Option String :=
  (l.sets.toList.find? fun p => p.2 == person).map (·.1)

/-- The person who wears `set`. -/
def personOn (l : Lineup) (set : String) : Option String := l.sets[set]?

def leads (l : Lineup) (person : String) : Bool := l.leaders.any (· == person)

/-- Whether `person` wears a set of it. -/
def plays (l : Lineup) (person : String) : Bool := (l.setOf person).isSome

end Lineup

namespace Equipment

def hasSet (e : Equipment) (id : String) : Bool := e.sets.any (· == id)

def hasInput (e : Equipment) (id : String) : Bool := e.inputs.any (· == id)

end Equipment

namespace Roster

def lineup (r : Roster) (id : String) : Option Lineup := r.lineups.find? (·.id == id)

def main (r : Roster) : Option Lineup := r.lineups.find? (·.main)

def person (r : Roster) (id : String) : Option Person := r.people.find? (·.id == id)

/-- Whether `person` leads any lineup. -/
def leadsAny (r : Roster) (person : String) : Bool := r.lineups.any (·.leads person)

/-- Every set of the roster: the mixes any lineup places people on. -/
def sets (r : Roster) : BTreeSet String :=
  Std.ExtTreeSet.ofList (r.lineups.flatMap (·.sets.keys)) compare

end Roster

/-- The roster in use and its active lineup. -/
structure RosterState where
  roster : Roster
  sha256 : String
  active : String

/-- The active lineup, or the main one should the roster lack it. -/
def RosterState.lineup (r : RosterState) : Option Lineup :=
  (r.roster.lineup r.active).or r.roster.main

/-- Who wears another set of `lineup` in `new` than in `old`: from set, to set. -/
def moves (old new : Roster) (lineup : String) : List (String × String) :=
  match old.lineup lineup, new.lineup lineup with
  | some before, some after => after.sets.toList.filterMap fun p =>
    (before.setOf p.2).bind fun set => if set ≠ p.1 then some (set, p.1) else none
  | _, _ => []

/-- A moved mix: the level `from` had of `to` becomes its level of `from`. -/
def movedMix (mix : Mix) (src dst : MixId) : Mix :=
  match mix.mixes[dst]? with
  | some heard => { mix with mixes := (mix.mixes.erase dst).insert src heard }
  | none => mix

/-- Each `(from, to)`: mix `to` becomes a copy of mix `from` as it was before any move. -/
def applyMoves (state : MixState) (shift : List (String × String)) : MixState :=
  let before := state.mixes
  shift.foldl (fun s p => match before[p.1]? with
    | some mix => { s with mixes := s.mixes.insert p.2 (movedMix mix p.1 p.2) }
    | none => s) state

/-- A set that takes a copy of another set's mix takes its record too. -/
def moveSilenced (silenced : BTreeSet String) (shift : List (String × String)) : BTreeSet String :=
  let before := silenced
  shift.foldl (fun s p => if p.1 ∈ before then s.insert p.2 else s.erase p.2) silenced

/-- `lineup`'s rules on one set: a set nobody wears is silent, and on the record when the
rules muted it; one on the record that someone wears is heard again; only a leader hears
another mix. -/
def fitSet (lineup : Lineup) (acc : MixState × BTreeSet String) (set : String) :
    MixState × BTreeSet String :=
  let (state, silenced) := acc
  let write (mix : Mix) : MixState := { state with mixes := state.mixes.insert set mix }
  match state.mixes[set]? with
  | none => acc
  | some mix =>
    match lineup.personOn set with
    | none =>
      if mix.out.muted then acc
      else (write { mix with out := { mix.out with muted := true } }, silenced.insert set)
    | some person =>
      let mix := if set ∈ silenced then { mix with out := { mix.out with muted := false } } else mix
      let mix := if lineup.leads person then mix
        else { mix with mixes := mix.mixes.map fun _ level => { level with muted := true } }
      (write mix, silenced.erase set)

def fitSets (state : MixState) (sets : BTreeSet String) (lineup : Lineup) (silenced : BTreeSet String) :
    MixState × BTreeSet String :=
  sets.toList.foldl (fitSet lineup) (state, silenced)

def fitRecorded (state : MixState) (roster : Roster) (lineup : Lineup) (silenced : BTreeSet String) :
    MixState × BTreeSet String :=
  fitSets state roster.sets lineup silenced

/-- `state` and its record made to follow `new`: who wears another set of `lineup` in
`new` than in `src` takes their mix along, then `lineup`'s rules hold on `sets`. -/
def follow (state : MixState) (silenced : BTreeSet String) (src : Option Roster) (new : Roster)
    (sets : BTreeSet String) (lineup : Lineup) (topology : Option TopologyInfo) :
    MixState × BTreeSet String :=
  let shift := (src.map fun f => moves f new lineup.id).getD []
  let state := applyMoves state shift
  let silenced := moveSilenced silenced shift
  let state := match topology with
    | some topology => (Proto.reconcile topology state).1
    | none => state
  fitSets state sets lineup silenced

/-- The mixes someone solos whose set has another wearer in `after` than in `before`. -/
def soloedChanging (transient : Transient) (before after : Lineup) : List MixId :=
  (transient.solo.filter fun s =>
    !s.sources.isEmpty && before.personOn s.mix != after.personOn s.mix).map (·.mix)

def everySolo (transient : Transient) : List MixId :=
  (transient.solo.filter fun s => !s.sources.isEmpty).map (·.mix)

/-- `mix` with every level and group strip it lacks taken from `cur`. -/
def keepMix (mix cur : Mix) : Mix :=
  { mix with
    inputs := cur.inputs ∪ mix.inputs
    mixes := cur.mixes ∪ mix.mixes
    groups := cur.groups ∪ mix.groups }

/-- `backup` with every input, mix, level and group strip it lacks taken from `current`. -/
def keepRunning (backup current : MixState) : MixState where
  inputs := current.inputs ∪ backup.inputs
  mixes := current.mixes.toList.foldl (fun s p => s.update p.1 p.2 fun mix => keepMix mix p.2)
    backup.mixes

/-- The state the engine takes when `lineup` starts to play: its stored one completed with
the running values, or the first time a copy of the running one, under its rules. -/
def targetStateRecorded (target : Option MixState) (current : MixState) (roster : Roster)
    (lineup : Lineup) (silenced : BTreeSet String) : MixState × BTreeSet String :=
  let state := match target with
    | some stored => keepRunning stored current
    | none => current
  fitRecorded state roster lineup silenced

end IemMixer.Server
