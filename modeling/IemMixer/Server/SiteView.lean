import IemMixer.Server.RosterProblems

/-! The site as the pages see it: the configured members and input labels, or in roster mode
the active lineup's, joined with the engine's topology. Ids the topology does not have are
reported and left out. -/
namespace IemMixer.Server
open Lib Proto

structure SiteMember where
  id : String
  name : String
  mix : String
  deriving DecidableEq

/-- How one engine input is shown. -/
structure SiteInputMeta where
  id : String
  name : String
  category : Option String := none
  owner : Option String := none

structure Config where
  members : List SiteMember := []
  inputs : List SiteInputMeta := []

def Config.member (cfg : Config) (id : String) : Option SiteMember := cfg.members.find? (·.id == id)

/-- The members before the topology filters them: the site's, or the active lineup's people
on their sets and then the site's engineer. -/
def siteMembers (cfg : Config) : Option RosterState → List SiteMember
  | none => cfg.members
  | some r =>
    let sets := (r.lineup.map (·.sets.toList)).getD []
    (sets.filterMap fun (set, person) =>
      (r.roster.person person).map fun p => { id := p.id, name := p.name, mix := set }) ++
      (cfg.member engineerId).toList

/-- Every person's set. -/
def personSets (cfg : Config) (roster : Roster) : List String := match roster.equipment with
  | some e => e.sets
  | none => ((cfg.members.filter (·.id != engineerId)).map (·.mix)) ++ roster.lineups.flatMap (·.sets.keys)

/-- Whom an input belongs to: the owners the lineups give it, and only when they give none
and the roster has no equipment the site's. -/
def inputOwners (cfg : Config) (roster : Roster) (id : String) : List String :=
  let lineups := roster.lineups.filterMap fun l => l.inputs[id]?.bind (·.owner)
  if lineups.isEmpty && roster.equipment.isNone then
    (cfg.inputs.filter (·.id == id)).filterMap (·.owner)
  else lineups

/-- Whether every page leaves the input out while `lineup` plays: it is a person's, and not
of the lineup. -/
def foreignInput (cfg : Config) (roster : Roster) (lineup : Lineup) (id : String) : Bool :=
  if lineup.inputs.contains id then false
  else match roster.equipment with
    | some e => e.hasInput id
    | none => (inputOwners cfg roster id).any fun o => o != engineerId && !lineup.plays o

structure InputView where
  id : InputId
  name : String
  category : String
  owner : Option String
  group : Option GroupId

structure MixView where
  id : MixId
  name : String
  member : Option String
  /-- The mixes it hears whole, then its peers. -/
  hears : List MixId
  mono : Bool

/-- A mixer page: a member's, or the engineer's of a mix without a member. -/
structure Page where
  id : String
  name : String
  mix : MixId
  member : Option String
  deriving DecidableEq

structure SiteView where
  members : List SiteMember := []
  inputs : List InputView := []
  mixes : List MixView := []
  group : Option GroupId := none
  engineerMix : Option MixId := none
  leaders : List String := []
  /-- People's sets nobody wears. -/
  vacant : List MixId := []
  /-- People's inputs the active lineup does not list. -/
  foreignInputs : List InputId := []

/-- `translator` is shown as `Translator`. -/
def title (id : String) : String := id.capitalize

namespace SiteView

section
variable (cfg : Config) (roster : Option RosterState) (topo : TopologyInfo)

/-- The members whose mix the engine has. -/
def knownMembers : List SiteMember :=
  (siteMembers cfg roster).filter fun m => topo.mixes.any (·.id == m.mix)

def inputView (i : InputInfo) : InputView :=
  let lineup := roster.bind (·.lineup)
  let given := cfg.inputs.find? (·.id == i.id)
  let listed := lineup.bind fun l => l.inputs[i.id]?
  let siteOwner := given.bind (·.owner)
  { id := i.id
    name := match listed, given with
      | some l, _ => l.name
      | none, some m => m.name
      | none, none => i.id.toUpper
    category := if i.group.isSome then "stems" else (given.bind (·.category)).getD "mics"
    owner := match lineup, listed with
      | none, _ => siteOwner
      | some _, some l => l.owner
      | some _, none => siteOwner.filter (· == engineerId)
    group := i.group }

def mixView (m : MixInfo) : MixView :=
  let member := (knownMembers cfg roster topo).find? (·.mix == m.id)
  { id := m.id
    name := (member.map (·.name)).getD (title m.id)
    member := member.map (·.id)
    hears := m.mixes ++ m.peers
    mono := m.channels == 1 }

/-- Who hears the other members' mixes: the lineup's leaders, or in legacy mode every member
whose mix hears another. -/
def leadersOf : List String := match roster.bind (·.lineup) with
  | some l => l.leaders
  | none => ((knownMembers cfg roster topo).filter fun m => m.id != engineerId &&
      topo.mixes.any fun x => x.id == m.mix && (!x.mixes.isEmpty || !x.peers.isEmpty)).map (·.id)

def vacantSets : List MixId := match roster, roster.bind (·.lineup) with
  | some r, some l => (topo.mixes.filter fun m =>
      (l.personOn m.id).isNone && (personSets cfg r.roster).contains m.id).map (·.id)
  | _, _ => []

def foreignOf : List InputId := match roster, roster.bind (·.lineup) with
  | some r, some l => (topo.inputs.filter fun i => foreignInput cfg r.roster l i.id).map (·.id)
  | _, _ => []

/-- Every mismatch between the site, the lineup and the topology. -/
def buildProblems : List String :=
  ((siteMembers cfg roster).filter fun m => !topo.mixes.any (·.id == m.mix)).map (fun m =>
      "member '" ++ m.id ++ "': the engine has no mix '" ++ m.mix ++ "'") ++
    (topo.inputs.filter fun i => !cfg.inputs.any (·.id == i.id)).map (fun i =>
      "input '" ++ i.id ++ "' has no [[inputs]] label") ++
    (cfg.inputs.filter fun m => !topo.inputs.any (·.id == m.id)).map (fun m =>
      "[[inputs]] '" ++ m.id ++ "' is not an engine input") ++
    match roster.bind (·.lineup) with
      | some l => (l.inputs.keys.filter fun id => !topo.inputs.any (·.id == id)).map fun id =>
          "lineup '" ++ l.id ++ "': input '" ++ id ++ "' is not an engine input"
      | none => []

/-- The site view over the topology, and every mismatch. -/
def buildWith : SiteView × List String :=
  ({ members := knownMembers cfg roster topo
     inputs := topo.inputs.map (inputView cfg roster)
     mixes := topo.mixes.map (mixView cfg roster topo)
     group := topo.groups.head?.map (·.id)
     engineerMix := some topo.engineer
     leaders := leadersOf cfg roster topo
     vacant := vacantSets cfg roster topo
     foreignInputs := foreignOf cfg roster topo }, buildProblems cfg roster topo)

end

variable (view : SiteView)

def foreignInput (id : String) : Bool := view.foreignInputs.any (· == id)

def member (id : String) : Option SiteMember := view.members.find? (·.id == id)

def mix (id : MixId) : Option MixView := view.mixes.find? (·.id == id)

def input (id : String) : Option InputView := view.inputs.find? (·.id == id)

/-- A member's page, or the one of a mix without a member that is no vacant set. -/
def page (id : String) : Option Page := match view.member id with
  | some m => some { id := m.id, name := m.name, mix := m.mix, member := some m.id }
  | none => (view.mixes.find? fun m => m.id == id && m.member.isNone && !view.vacant.contains m.id).map fun m =>
    { id := m.id, name := m.name, mix := m.id, member := none }

/-- Pages without a member. -/
def mixPages : List Page := (view.mixes.filter (·.member.isNone)).filterMap fun m => view.page m.id

/-- A member's name, else the capitalised id. -/
def mixName (id : MixId) : String := ((view.mix id).map (·.name)).getD (title id)

/-- The member's own channel: their first owned input. -/
def ownInput (member : String) : Option InputId := (view.inputs.find? (·.owner == some member)).map (·.id)

end SiteView

end IemMixer.Server
