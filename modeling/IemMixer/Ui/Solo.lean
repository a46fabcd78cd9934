import IemMixer.Link
import IemMixer.Server.Session
import IemMixer.Ui.Phone

/-! The mutes a page remembers while a solo silences its channels, its mute and solo clicks,
and the page behind its socket: what it asks waits for the engine, the engine's changes for
the session, and the session's messages for the page. The socket and the engine's
connection stay up, and the band is not switched. -/
namespace IemMixer.Ui
open Lib Proto Server

/-- A page with the mutes its solo started from. -/
structure MixerState extends Phone where
  preSoloMutes : BTreeMap String Bool := ∅

/-- What a remote `SoloUpdate` changes locally. -/
inductive SoloChange where
  | unchanged
  | cleared
  | entered
  | switched
  deriving DecidableEq

def soloChange (current new : BTreeSet String) : SoloChange :=
  if new = current then .unchanged
  else if new.isEmpty then .cleared
  else if current.isEmpty then .entered
  else .switched

/-- What a mute click does. -/
inductive MuteClick where
  | toggle (muted : Bool)
  /-- Silenced by a solo on another channel: its own mute changes. -/
  | masked (muted : Bool)
  deriving DecidableEq

/-- The mute click on channel `id`, given the page's solo and the mutes it started from. -/
def muteClick (id : String) (shownMuted : Bool) (soloed : BTreeSet String) (preSoloMutes : BTreeMap String Bool) :
    MuteClick :=
  if !soloed.isEmpty && !soloed.contains id then .masked (!(preSoloMutes[id]?.getD false))
  else .toggle (!shownMuted)

def channelMutes (chs : List Channel) : BTreeMap String Bool :=
  chs.foldl (fun saved c => saved.insert c.id c.muted) ∅

/-- The first channel of an id, changed. -/
def modifyChannel (f : Channel → Channel) (id : String) : List Channel → List Channel
  | [] => []
  | c :: rest => if c.id = id then f c :: rest else c :: modifyChannel f id rest

namespace MixerState
variable (p : MixerState)

/-- One message from the server. -/
def take (msg : ServerMsg) : MixerState :=
  { p.toPhone.take msg with preSoloMutes := match msg with
      | .soloUpdate soloed => match soloChange p.soloed (Std.ExtTreeSet.ofList soloed compare) with
        | .cleared => ∅
        | .entered => channelMutes p.channels
        | .unchanged | .switched => p.preSoloMutes
      | _ => p.preSoloMutes }

/-- The mute a channel's strip shows. -/
def mutedSignal (id : String) : Bool := ((p.channels.find? (·.id == id)).map (·.muted)).getD false

/-- The mutes of before the solo, shown again. -/
def clearSolo : MixerState :=
  { p with
    channels := p.channels.map fun c => { c with muted := p.preSoloMutes[c.id]?.getD false }
    preSoloMutes := ∅
    soloed := ∅ }

/-! A click shows its effect at once and asks the server for it; without the engine's
connection it does nothing. -/

def onMuteClick (id : String) : MixerState × List ClientMsg :=
  if !p.connected then (p, [])
  else match muteClick id (p.mutedSignal id) p.soloed p.preSoloMutes with
    | .toggle muted =>
      ({ p with channels := modifyChannel (fun c => { c with muted }) id p.channels }, [.setMute id muted])
    | .masked muted => ({ p with preSoloMutes := p.preSoloMutes.insert id muted }, [.setMute id muted])

/-- The exclusive solo of a strip, or its end. -/
def onSoloClick (id : String) : MixerState × List ClientMsg :=
  if !p.connected then (p, [])
  else if p.soloed.contains id then (p.clearSolo, [.setSolo []])
  else
    ({ p with
      preSoloMutes := if p.soloed.isEmpty then channelMutes p.channels else p.preSoloMutes
      channels := p.channels.map fun c => { c with muted := c.id != id }
      soloed := Std.ExtTreeSet.ofList [id] compare }, [.setSolo [id]])

/-- The header's solo button. -/
def onClearSolo : MixerState × List ClientMsg :=
  if !p.connected then (p, []) else (p.clearSolo, [.setSolo []])

end MixerState

/-- `events`: said by the engine, not yet heard by the session. `wire`: sent by the session,
not yet taken by the page. `asked`: sent by the page, not yet served. -/
structure Socket where
  core : Core
  mirror : Mirror
  events : List EngineEvent := []
  wire : List ServerMsg := []
  asked : List ClientMsg := []
  page : MixerState := {}

/-- What can happen: the page's user, another client of the engine, and the messages on
their way. -/
inductive Move where
  | clickMute (id : String)
  | clickSolo (id : String)
  | clearSolo
  /-- Fingers on and off the faders. -/
  | touch (faders : String → Bool)
  /-- A level and a pan under the finger. -/
  | slide (id : String) (levelDb pan : F64)
  /-- Any other request of the page's. -/
  | ask (msg : ClientMsg)
  | serve
  | other (event : Core.Event) (origin : Option ℕ)
  | hear
  | take

/-- What the client tells of a mirror's event. -/
def told : MirrorEvent → Option EngineEvent
  | .reset => some .reset
  | .changed origin changes => some (.changed origin changes)
  | .topology | .resync => none

namespace Socket

/-- One engine message for the mirror. -/
def follow (d : Socket) (msg : EngineMsg) : Socket :=
  let (event, mirror) := d.mirror.apply msg
  { d with mirror, events := d.events ++ (event.bind told).toList }

/-- Where the page's strips are clicked. -/
def click (d : Socket) (did : MixerState × List ClientMsg) : Socket :=
  { d with page := did.1, asked := d.asked ++ did.2 }

section
variable [Libm] (s : App) (page : Page) (viewer : Viewer) (session : ℕ)

/-- The engine handles `event`, and the mirror takes what it says. -/
def meet (d : Socket) (event : Core.Event) (origin : Option ℕ) : Socket :=
  let (msgs, core) := d.core.tick (.event event origin)
  msgs.foldl follow { d with core }

/-- The page's next request. -/
def serve (d : Socket) : Socket := match d.asked with
  | [] => d
  | msg :: rest =>
    let d := { d with asked := rest }
    match s.site d.mirror with
    | none => d
    | some site => match command site d.mirror page viewer msg, s.mayChange d.mirror page with
      | .ok cmds, .ok () => cmds.foldl (fun d cmd => d.meet (.request cmd) (some session)) d
      | _, _ => d

end

section
variable (s : App) (page : Page) (viewer : Viewer) (session : ℕ)

/-- The server's client of a connected engine. -/
def client (mirror : Mirror) : Client := { mirror, connected := true }

/-- A page just opened. -/
def opened (core : Core) (mirror : Mirror) : Socket :=
  { core, mirror, wire := opening s (client mirror) page viewer }

/-- The session's next event. -/
def hear (d : Socket) : Socket := match d.events with
  | [] => d
  | event :: rest =>
    { d with events := rest, wire := d.wire ++ (engineEvent s (client d.mirror) page viewer session event).1 }

/-- The page's next message. -/
def take (d : Socket) : Socket := match d.wire with
  | [] => d
  | msg :: rest => { d with wire := rest, page := d.page.take msg }

/-- A strip of the page. -/
def strip (d : Socket) (id : String) : Bool := d.page.channels.any (·.id == id)

variable [Libm]

def step (d : Socket) : Move → Socket
  | .clickMute id => if d.strip id then d.click (d.page.onMuteClick id) else d
  | .clickSolo id => if d.strip id then d.click (d.page.onSoloClick id) else d
  -- The header shows its button during a solo only.
  | .clearSolo => if d.page.soloed.isEmpty then d else d.click d.page.onClearSolo
  | .touch faders => { d with page := { d.page with faderTouched := faders } }
  | .slide id levelDb pan =>
    { d with page := { d.page with channels := modifyChannel (fun c => { c with levelDb, pan }) id d.page.channels } }
  | .ask msg => { d with asked := d.asked ++ [msg] }
  | .serve => d.serve s page viewer session
  | .other event origin => d.meet event origin
  | .hear => d.hear s page viewer session
  | .take => d.take

def run (d : Socket) (moves : List Move) : Socket := moves.foldl (step s page viewer session) d

end

end Socket

end IemMixer.Ui
