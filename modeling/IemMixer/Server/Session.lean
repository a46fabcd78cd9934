import IemMixer.Server.Client
import IemMixer.Server.View

/-! A page's socket: what a session says when it opens, on each engine event, on meters and
when the band changes; and what the sessions share, the roster in use and the freeze. Alerts,
pins and hides, talkback and the tunnel's status are left out. -/
namespace IemMixer.Server
open Lib Proto

/-- `missed`: a person's page dropped an engine event while frozen. `settling`: the roster in
use has not reached the engine's state. -/
structure App where
  siteConfig : Config
  roster : Option RosterState := none
  frozen : Bool := false
  missed : Bool := false
  settling : Bool := false

namespace App

/-- The site view over the engine's topology, none before it announced one. -/
def site (s : App) (mirror : Mirror) : Option SiteView :=
  mirror.topology.map fun topo => (SiteView.buildWith s.siteConfig s.roster topo).1

/-- From the site view, or before it a member as the site or the active lineup places them. -/
def page (s : App) (mirror : Mirror) (id : String) : Option Page := match s.site mirror with
  | some view => view.page id
  | none => ((siteMembers s.siteConfig s.roster).find? (·.id == id)).map fun m =>
    { id := m.id, name := m.name, mix := m.mix, member := some m.id }

/-- Whether a change from `page` may reach the engine now. -/
def mayChange (s : App) (mirror : Mirror) (page : Page) : Except ViewError Unit :=
  if s.frozen || s.settling || s.page mirror page.id ≠ some page then .error .switching else .ok ()

/-- Whether the pages are frozen, for a person's page about to drop an engine event: one
dropped while frozen is noted for the thaw. -/
def frozenForPage (s : App) : Bool × App := (s.frozen, if s.frozen then { s with missed := true } else s)

/-- Freezes every page's changes, under the gate; whether they were frozen already. -/
def freezeGate (s : App) : Bool × App := (s.frozen, { s with frozen := true })

/-- Frees the pages' changes again, under the gate; whether the band is announced then. -/
def thawAfter (s : App) (changed : Bool) : Bool × App :=
  (s.frozen && (changed || s.missed), { s with frozen := false, missed := false })

end App

/-- A person's page, not the engineer's nor one without a member. -/
def Page.isPerson (page : Page) : Bool := page.member.any (· != engineerId)

/-- Peaks merged since the last send. `groups` is mix-major; `own` is what a mix's peers hear. -/
structure Merged where
  inputs : List (F64 × F64) := []
  mixes : List (F64 × F64) := []
  groups : List (F64 × F64) := []
  own : List (F64 × F64) := []

/-- The meters one page shows, by id. -/
def pageMeters (m : Merged) (topo : TopologyInfo) (page : Page) (group : Option GroupId) :
    BTreeMap String (F64 × F64) :=
  let out := (topo.inputs.zip m.inputs).foldl (fun out (info, v) => out.insert info.id v) ∅
  let out := (topo.mixes.zip m.mixes).foldl (fun out (info, v) => out.insert info.id v) out
  -- A peer's strip meters its own output, when the engine sends it.
  let peers := ((topo.mixes.find? (·.id == page.mix)).map (·.peers)).getD []
  let out := peers.foldl (fun out p =>
    match (topo.mixes.findIdx? (·.id == p)).bind fun i => m.own[i]? with
    | some v => out.insert p v
    | none => out) out
  let mix := topo.mixes.findIdx? (·.id == page.mix)
  let g := group.bind fun g => topo.groups.findIdx? (·.id == g)
  match mix, g, group with
  | some mix, some g, some group => match m.groups[mix * topo.groups.length + g]? with
    | some v => out.insert group v
    | none => out
  | _, _, _ => out

/-- What the client tells of the engine; `other`: meters, status and alarms. -/
inductive EngineEvent where
  | connected
  | disconnected
  | reset
  | changed (origin : Option ℕ) (changes : List Change)
  | other

/-- The console's updates of changed inputs. -/
def inputUpdates (site : SiteView) (changes : List Change) : List ServerMsg := changes.filterMap fun
  | .input id state => (site.input id).map fun i =>
    .inputUpdate id i.name (F64.max state.trimDb dbOff).toSingle state.muted state.processing
  | _ => none

/-- What a session hears back of its own change: nothing, except the mutes a solo shows. -/
def ownEchoSeen (site : SiteView) (mirror : Mirror) (page : Page) (viewer : Viewer) (changes : List Change) :
    List ServerMsg :=
  (updatesSeen site mirror page viewer (changes.filter fun c => match c with | .solo .. => true | _ => false)).filter
    fun m => match m with | .channelUpdate .. => true | _ => false

section
variable (s : App) (engine : Client) (page : Page) (viewer : Viewer)

/-- The page's full state now. -/
def fullState : ServerMsg := match s.site engine.mirror with
  | some site => stateMsg site engine.mirror page viewer engine.connected
  | none => .state [] false none none (some page.mix) none none none

/-- The page's solo as the viewer gets it; every id while there is no site view. -/
def soloSeenMsg : ServerMsg := match s.site engine.mirror with
  | some site => soloMsg site engine.mirror page viewer
  | none => .soloUpdate ((engine.mirror.solo page.mix).map Source.text)

/-- The band that plays; none in legacy mode. -/
def lineupMsg : Option ServerMsg := (s.roster.bind (·.lineup)).map fun l => .lineupChanged l.id l.name

/-- What a session sends first. -/
def opening : List ServerMsg := (lineupMsg s).toList ++ [fullState s engine page viewer, soloSeenMsg s engine page viewer]

/-- A person's page hears which band plays and closes; the others stay. -/
inductive OnLineup where
  | close (told : List ServerMsg)
  | refresh (msgs : List ServerMsg)

def onLineup : OnLineup :=
  if page.isPerson then .close (lineupMsg s).toList
  else .refresh ((lineupMsg s).toList ++ [fullState s engine page viewer])

/-- The meters the page shows the viewer: no input they do not see. -/
def metersMsg (merged : Merged) : Option ServerMsg := do
  let site ← s.site engine.mirror
  let topo ← engine.mirror.topology
  return .meters ((pageMeters merged topo page site.group).toList.filter fun (id, _) =>
    (site.input id).isNone || showsInput site viewer id)

/-- Whether a person's page hears nothing of the engine now: the pages are frozen, or the
active lineup no longer gives it as it is. -/
def closing : Bool × App :=
  if page.isPerson then
    let (frozen, noted) := s.frozenForPage
    (frozen || decide (s.page engine.mirror page.id ≠ some page), noted)
  else (false, s)

/-- What one engine event makes session number `session` say. -/
def engineEvent (session : ℕ) : EngineEvent → List ServerMsg × App
  | .connected => ([.connectionChanged true, fullState s engine page viewer], s)
  | .disconnected => ([.connectionChanged false], s)
  | .reset =>
    let (quiet, noted) := closing s engine page
    (if quiet then [] else [fullState s engine page viewer, soloSeenMsg s engine page viewer], noted)
  | .changed origin changes =>
    let (quiet, noted) := closing s engine page
    let out := match s.site engine.mirror with
      | none => []
      | some site =>
        (if origin = some session then ownEchoSeen site engine.mirror page viewer changes
          else updatesSeen site engine.mirror page viewer changes) ++
          if viewer.engineer then inputUpdates site changes else []
    (if quiet then [] else out, noted)
  | .other => ([], s)

/-- Engine events were lost: the full state. -/
def lagged : List ServerMsg := [fullState s engine page viewer, soloSeenMsg s engine page viewer]

/-- The EQ modal's data, or nothing when refused. -/
def getEqParams (target : String) : Option ServerMsg :=
  (s.site engine.mirror).bind fun site => (eqParamsMsg site engine.mirror page viewer target).toOption

end

/-- When a session speaks. -/
inductive Occasion where
  | opening
  | event (ev : EngineEvent)
  | lagged
  | lineup
  | meters (merged : Merged)
  | eqParams (target : String)

/-- What session number `session` says then. -/
def Occasion.msgs (s : App) (engine : Client) (page : Page) (viewer : Viewer) (session : ℕ) : Occasion → List ServerMsg
  | .opening => Server.opening s engine page viewer
  | .event ev => (engineEvent s engine page viewer session ev).1
  | .lagged => Server.lagged s engine page viewer
  | .lineup => match onLineup s engine page viewer with
    | .close told => told
    | .refresh msgs => msgs
  | .meters merged => (metersMsg s engine page viewer merged).toList
  | .eqParams target => (getEqParams s engine page viewer target).toList

end IemMixer.Server
