import IemMixer.Server.Session

/-! The freeze and the pages' sessions: who has the switching lock freezes and frees the pages
and puts rosters in use, while sessions open, hear the engine and read the announcements of
the band in any order. The lock's holders call as a switch, its replay and a reload do. -/
namespace IemMixer.Server
open Lib Proto

/-- An open session. `unread`: an announcement of the band waits in its queue. `dropped`: it
dropped a `Reset` or a `Changed` since it was opened. -/
structure Session where
  page : Page
  viewer : Viewer
  unread : Bool := false
  dropped : Bool := false

/-- Whoever has the switching lock; `was` is what their freeze found. -/
inductive Holder where
  | rest
  | freezing (was : Bool)
  | frozen (was : Bool)
  deriving DecidableEq

/-- `arriving`: sockets whose page was looked up, not yet subscribed. `owed`: a roster was put
in use and no page heard of it yet. -/
structure House where
  app : App
  engine : Client := {}
  arriving : BTreeMap ℕ (Page × Viewer) := ∅
  sessions : BTreeMap ℕ Session := ∅
  holder : Holder := .rest
  owed : Bool := false

/-- Whether a connection with these claims may open `page`. -/
def mayOpen (viewer : Viewer) (page : Page) : Bool := viewer.engineer || page.member == some viewer.sub

namespace House

inductive Move where
  /-- The engine and its client move. -/
  | engine (engine : Client)
  | lookUp (n : ℕ) (id : String) (viewer : Viewer)
  | subscribe (n : ℕ)
  | session (n : ℕ) (o : Occasion)
  | leave (n : ℕ)
  | freeze
  /-- The freeze's `Ping` came back, or did not. -/
  | barrier (ok : Bool)
  | thaw
  | thawUnchanged
  /-- The lock is let go with the pages frozen. -/
  | stay
  | setRoster (r : RosterState)
  | setSettling (settling : Bool)
  | announce

/-- Tells every session that the lineup or the roster changed; nothing in legacy mode. -/
def announce (h : House) : House :=
  if h.app.roster.isSome then
    { h with sessions := h.sessions.map fun _ x => { x with unread := true }, owed := false }
  else h

def thawAfter (h : House) (changed : Bool) : House :=
  let (tells, app) := h.app.thawAfter changed
  let h := { h with app, holder := .rest }
  if tells then h.announce else h

/-- One session on one occasion. -/
def speak (h : House) (n : ℕ) (x : Session) (o : Occasion) : Option House := match o with
  | .opening => none
  | .lineup =>
    if x.unread then
      some { h with
        sessions := if x.page.isPerson then h.sessions.erase n else h.sessions.insert n { x with unread := false } }
    else none
  | .event ev =>
    let quiet := match ev with
      | .reset | .changed .. => (closing h.app h.engine x.page).1
      | _ => false
    some { h with
      app := (engineEvent h.app h.engine x.page x.viewer n ev).2
      sessions := h.sessions.insert n { x with dropped := x.dropped || quiet } }
  | .lagged | .meters _ | .eqParams _ => some h

/-- A move, and what a session says at it. -/
def move (h : House) : Move → Option (House × List ServerMsg)
  | .engine engine => some ({ h with engine }, [])
  | .lookUp n id viewer =>
    (h.app.page h.engine.mirror id).bind fun page =>
      if mayOpen viewer page && !h.sessions.contains n then
        some ({ h with arriving := h.arriving.insert n (page, viewer) }, [])
      else none
  | .subscribe n => h.arriving[n]?.map fun (page, viewer) =>
    ({ h with arriving := h.arriving.erase n, sessions := h.sessions.insert n { page, viewer } },
      Occasion.opening.msgs h.app h.engine page viewer n)
  | .session n o => h.sessions[n]?.bind fun x =>
    (h.speak n x o).map fun after => (after, o.msgs h.app h.engine x.page x.viewer n)
  | .leave n => some ({ h with sessions := h.sessions.erase n }, [])
  | .freeze =>
    -- In roster mode only; a roster put in use between two freezes was announced.
    if h.holder = .rest ∧ h.app.roster.isSome ∧ (h.owed → h.app.frozen) then
      let (was, app) := h.app.freezeGate
      some ({ h with app, holder := .freezing was }, [])
    else none
  | .barrier ok => match h.holder with
    | .freezing was =>
      if ok then some ({ h with holder := .frozen was }, [])
      else if was then some ({ h with holder := .rest }, [])
      else some (h.thawAfter false, [])
    | _ => none
  | .thaw => match h.holder with
    | .freezing _ => none
    | _ => if h.owed → h.app.frozen then some (h.thawAfter true, []) else none
  | .thawUnchanged =>
    -- Whoever froze the pages themselves and put no roster in use.
    if h.holder = .frozen false ∧ !h.owed then some (h.thawAfter false, []) else none
  | .stay => match h.holder with
    | .frozen _ => some ({ h with holder := .rest }, [])
    | _ => none
  | .setRoster r => match h.holder with
    | .freezing _ => none
    | _ => some ({ h with app := { h.app with roster := some r }, owed := true }, [])
  | .setSettling settling => some ({ h with app := { h.app with settling } }, [])
  | .announce => match h.holder with
    | .freezing _ => none
    | _ => some (h.announce, [])

end House
end IemMixer.Server
