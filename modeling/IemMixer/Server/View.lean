import IemMixer.Mirror
import IemMixer.Server.SiteView

/-! The pages' view of the engine: a page's channels from the mirror, the updates a change
produces for it, and the engine commands a page's command becomes, with the server's
permissions. -/
namespace IemMixer.Server
open Lib Proto

end IemMixer.Server

namespace IemMixer.Mirror
open Lib Proto

variable (m : Mirror)

/-- The engine's default when absent. -/
def level (mix : MixId) (source : Source) : Level := (m.state.mixes[mix]?.bind (·.level source)).getD {}

def group (mix : MixId) (group : GroupId) : MixGroup := (m.state.mixes[mix]?.bind (·.groups[group]?)).getD {}

def out (mix : MixId) : MixOut := (m.state.mixes[mix]?.map (·.out)).getD {}

def input (id : InputId) : InputState := m.state.inputs[id]?.getD {}

/-- The soloed sources of `mix`; none: no solo. -/
def solo (mix : MixId) : List Source := ((m.transient.solo.find? (·.mix == mix)).map (·.sources)).getD []

end IemMixer.Mirror

namespace IemMixer.Server
open Lib Proto

/-- One channel of a page. Levels and pans are singles. -/
structure Channel where
  id : String
  name : String
  levelDb : F64
  pan : F64
  /-- Muted, or silenced by a solo on another channel. -/
  muted : Bool
  category : String
  eq : Bool
  own : Bool
  deriving DecidableEq

/-- A band as the EQ modal shows it. -/
structure UiBand where
  bandType : String
  freqHz : F64
  gainDb : F64
  bw : F64
  enabled : Bool
  deriving DecidableEq

/-- What a page hears. -/
inductive ServerMsg where
  | state (channels : List Channel) (connected : Bool) (globalLevelDb : Option F64) (globalMuted : Option Bool)
      (mix : Option String) (stemsLevelDb : Option F64) (stemsMuted : Option Bool) (group : Option String)
  | channelUpdate (id : String) (levelDb : F64) (muted : Bool) (pan : F64)
  | globalVolumeUpdate (levelDb : F64) (muted : Bool)
  | stemsVolumeUpdate (levelDb : F64) (muted : Bool)
  | soloUpdate (soloed : List String)
  | eqParams (target trackName : String) (bands : List UiBand)
  | meters (meters : List (String × F64 × F64))
  | connectionChanged (connected : Bool)
  | lineupChanged (id name : String)
  /-- The engineer's input controls. -/
  | inputUpdate (id name : String) (trimDb : F64) (muted processing : Bool)
  deriving DecidableEq

end IemMixer.Server

namespace IemMixer.Ui
open Lib

/-- What a page asks for. -/
inductive ClientMsg where
  | setLevel (id : String) (levelDb : F64)
  | setMute (id : String) (muted : Bool)
  | setPan (id : String) (pan : F64)
  | setGlobalLevel (levelDb : F64)
  | setGlobalMute (muted : Bool)
  | setStemsLevel (levelDb : F64)
  | setStemsMute (muted : Bool)
  | updateCustomization (pinned hidden : List String)
  | setSolo (soloed : List String)
  | listenStart (memberId : String)
  | listenStop
  | getEqParams (target : String)
  | setEqBand (target : String) (band : ℕ) (param : String) (value : F64)
  | callEngineer
  | clearAlert
  | talkStart
  | talkStop
  | getLimiterParams
  | setLimiterParam (param : String) (value : F64)
  | setLimiterEnabled (enabled : Bool)
  | resetLimiterActivity
  | getConsole
  | setInput (input : String) (trimDb : Option F64) (muted processing : Option Bool)
  | resetLimiterStats (mix : String)

end IemMixer.Ui

namespace IemMixer.Server
open Lib Proto

/-- Who is looking. -/
structure Viewer where
  sub : String
  engineer : Bool
  deriving DecidableEq

inductive ViewError where
  | unknownId (id : String)
  | badValue (what : String)
  | forbidden (what : String)
  | noGroup
  | notACommand
  | switching
  deriving DecidableEq

/-- The fader's bottom, off in the engine, and its top. -/
def faderMinDb : F64 := .fin (-60)

def faderMaxDb : F64 := .fin 12

/-- At or below −60 is −60, capped at +12. -/
def uiDb (db : F64) : F64 := if F64.lt faderMinDb db then (F64.min db faderMaxDb).toSingle else faderMinDb

/-- −60 and below are off; `none` when not finite. -/
def engineDb (ui : F64) : Option F64 :=
  if !ui.isFinite then none
  else if F64.le ui faderMinDb then some dbOff
  else some (F64.min ui faderMaxDb)

/-- −1…1 as 0…1. -/
def uiPan (p : F64) : F64 := (((p.add (.fin 1)).div (.fin 2)).clamp (.fin 0) (.fin 1)).toSingle

def isValidUiPan (value : F64) : Bool := F64.le (.fin 0) value && F64.le value (.fin 1)

/-- 0…1 as −1…1. -/
def enginePan (u : F64) : Option F64 := if isValidUiPan u then some ((u.mul (.fin 2)).sub (.fin 1)) else none

def limitMinDb : F64 := .fin (-6)

/-- The slider's position 0…1 as a limit −6…0 dB. -/
def limitDb (norm : F64) : F64 := limitMinDb.add (norm.mul limitMinDb.opp)

namespace Viewer

/-- The page's own member, or the engineer on the pages that are theirs. -/
def ofPage (page : Page) : Viewer := match page.member with
  | some m => { sub := m, engineer := m == engineerId }
  | none => { sub := engineerId, engineer := true }

/-- Whether they hear and move the mixes a page's mix hears. -/
def leads (viewer : Viewer) (view : SiteView) : Bool := viewer.engineer || view.leaders.contains viewer.sub

end Viewer

section
variable (view : SiteView) (mirror : Mirror) (page : Page) (viewer : Viewer)

/-- The source a channel id names on the page: an input that is not foreign, or a mix the
page's mix hears that is no set nobody wears. -/
def source (id : String) : Option Source :=
  if (view.input id).isSome && !view.foreignInput id then some (.input id)
  else (view.mix page.mix).bind fun m => (m.hears.find? fun h => h == id && !view.vacant.contains h).map .mix

/-- Whoever the viewer is. -/
def showsInput (_ : Viewer) (id : String) : Bool := (view.input id).isSome && !view.foreignInput id

/-- The soloed ids as the viewer gets them. -/
def soloedSeen (sources : List Source) : List String :=
  (sources.filter fun s => match s with
    | .input id => showsInput view viewer id
    | .mix _ => true).map (·.text)

/-- The heard mixes the viewer sees and moves: a leader's or the engineer's, no vacant set. -/
def heard : List MixId :=
  if viewer.leads view then ((view.mix page.mix).map fun m => m.hears.filter (!view.vacant.contains ·)).getD []
  else []

/-- Whether a solo on the page's mix silences `s`. -/
def masked (s : Source) : Bool :=
  let solo := mirror.solo page.mix
  !solo.isEmpty && !solo.contains s

/-- Level, mute and pan as shown. -/
def channel (s : Source) : F64 × Bool × F64 :=
  let l := mirror.level page.mix s
  (uiDb l.gainDb, l.muted || masked mirror page s, uiPan l.pan)

/-- The inputs the viewer sees, in topology order, then the heard mixes they see. -/
def channels : List Channel :=
  let own := page.member.bind view.ownInput
  ((view.inputs.filter fun i => showsInput view viewer i.id).map fun i =>
    let (levelDb, muted, pan) := channel mirror page (.input i.id)
    { id := i.id, name := i.name, levelDb, pan, muted, category := i.category
      eq := viewer.engineer || i.owner == some viewer.sub
      own := own == some i.id }) ++
  (heard view page viewer).map fun h =>
    let (levelDb, muted, pan) := channel mirror page (.mix h)
    { id := h, name := view.mixName h, levelDb, pan, muted, category := "mixes", eq := viewer.engineer, own := false }

/-- The page's full state. -/
def stateMsg (connected : Bool) : ServerMsg :=
  let out := mirror.out page.mix
  let strip := view.group.map (mirror.group page.mix)
  .state (channels view mirror page viewer) connected (some (uiDb out.volumeDb)) (some out.muted) (some page.mix)
    (strip.map fun s => uiDb s.gainDb) (strip.map (·.muted)) view.group

/-- The page's solo, as sent. -/
def soloMsg : ServerMsg := .soloUpdate (soloedSeen view viewer (mirror.solo page.mix))

def shown : Source → Bool
  | .input id => showsInput view viewer id
  | .mix id => (heard view page viewer).contains id

def channelUpdateOf (c : Channel) : ServerMsg := .channelUpdate c.id c.levelDb c.muted c.pan

/-- The updates of one change, already in the mirror. -/
def updatesOf (c : Change) : List ServerMsg := match c with
  | .level mix source _ =>
    if mix = page.mix ∧ shown view page viewer source then
      let (levelDb, muted, pan) := channel mirror page source
      [.channelUpdate source.text levelDb muted pan]
    else []
  | .mixOut mix o => if mix = page.mix then [.globalVolumeUpdate (uiDb o.volumeDb) o.muted] else []
  | .group mix group state =>
    if mix = page.mix ∧ view.group = some group then [.stemsVolumeUpdate (uiDb state.gainDb) state.muted] else []
  | .solo mix sources =>
    -- The mask shows as each channel's mute: every channel is sent again.
    if mix = page.mix then
      .soloUpdate (soloedSeen view viewer sources) :: (channels view mirror page viewer).map channelUpdateOf
    else []
  | _ => []

/-- The updates `changes`, already in the mirror, produce for the page as `viewer` sees it. -/
def updatesSeen (changes : List Change) : List ServerMsg := changes.flatMap (updatesOf view mirror page viewer)

def db (v : F64) : Except ViewError F64 := match engineDb v with
  | some db => .ok db
  | none => .error (.badValue "dB")

/-- The EQ a target names on the page, if the viewer may edit it: the page's output, its
stems strip, an input of the viewer's, or for the engineer a heard mix's output. -/
def eqTarget (target : String) : Except ViewError (EqTarget × String) :=
  if target = page.mix then .ok (.mix page.mix, "IEM VOL")
  else if view.group = some target then .ok (.group page.mix target, "STEMS")
  else match (view.input target).filter fun _ => showsInput view viewer target with
    | some i =>
      if viewer.engineer || i.owner == some viewer.sub then .ok (.input i.id, i.name)
      else .error (.forbidden "an input's EQ is its owner's or the engineer's")
    | none => match source view page target with
      | some (.mix m) => if viewer.engineer then .ok (.mix m, view.mixName m)
        else .error (.forbidden "another mix's EQ is the engineer's")
      | some _ => .error (.forbidden "another mix's EQ is the engineer's")
      | none => .error (.unknownId target)

def currentEq : EqTarget → EqState
  | .input id => (mirror.input id).eq
  | .mix m => (mirror.out m).eq
  | .group mix group => (mirror.group mix group).eq

def kindName : BandKind → String
  | .highPass => "highpass"
  | .lowShelf => "lowshelf"
  | .peak => "band"
  | .highShelf => "highshelf"

def eqBands (eq : EqState) : List UiBand := eq.bands.toList.map fun b =>
  { bandType := kindName b.kind, freqHz := b.freqHz.toSingle, gainDb := (F64.max b.gainDb dbOff).toSingle
    bw := b.bwOct.toSingle, enabled := b.enabled }

/-- One band value set; a gain also switches a band on that has one. -/
def applyBand (eq : EqState) (band : ℕ) (param : String) (value : F64) : Except ViewError EqState :=
  if !value.isFinite then .error (.badValue param)
  else if there : band < 5 then
    let b := eq.bands[band]
    let set (b : EqBand) : Except ViewError EqState := .ok { eq with bands := eq.bands.set band b }
    if param = "freq_hz" then set { b with freqHz := value }
    else if param = "gain_db" then set { b with gainDb := value, enabled := b.enabled || b.kind != .highPass }
    else if param = "bw_oct" then set { b with bwOct := value }
    else if param = "enabled" then set { b with enabled := F64.le (F64.ofRat (1 / 2)) value }
    else .error (.badValue ("EQ parameter " ++ param))
  else .error (.badValue "band")

/-- The EQ modal's data. -/
def eqParamsMsg (target : String) : Except ViewError ServerMsg := do
  let (t, name) ← eqTarget view page viewer target
  return .eqParams target name (eqBands (currentEq mirror t))

/-- A source the viewer may move: a level of a heard mix is a leader's or the engineer's. -/
def movable (id : String) : Except ViewError Source := match source view page id with
  | none => .error (.unknownId id)
  | some (.mix m) => if viewer.leads view then .ok (.mix m)
    else .error (.forbidden "the mixes a set hears are its leader's")
  | some s => .ok s

def groupOf : Except ViewError GroupId := match view.group with
  | some g => .ok g
  | none => .error .noGroup

/-- The engine command a page's command becomes. -/
def command : Ui.ClientMsg → Except ViewError (List Cmd)
  | .setLevel id levelDb => do
    let src ← movable view page viewer id
    return [.setLevel page.mix src (some (← db levelDb)) none none]
  | .setMute id muted => do return [.setLevel page.mix (← movable view page viewer id) none none (some muted)]
  | .setPan id pan => do
    let src ← movable view page viewer id
    match enginePan pan with
    | some p => return [.setLevel page.mix src none (some p) none]
    | none => .error (.badValue "pan")
  | .setGlobalLevel levelDb => do return [.setMix page.mix (some (← db levelDb)) none]
  | .setGlobalMute muted => .ok [.setMix page.mix none (some muted)]
  | .setStemsLevel levelDb => do
    let group ← groupOf view
    return [.setGroup page.mix group (some (← db levelDb)) none]
  | .setStemsMute muted => do return [.setGroup page.mix (← groupOf view) none (some muted)]
  | .setSolo soloed => do return [.setSolo page.mix (← soloed.mapM (movable view page viewer))]
  | .setLimiterParam param value =>
    if param ≠ "limit" then .error (.badValue ("limiter parameter " ++ param))
    else if !isValidUiPan value then .error (.badValue "limit")
    else .ok [.setLimiter page.mix none (some (limitDb value))]
  | .setLimiterEnabled enabled => .ok [.setLimiter page.mix (some enabled) none]
  | .resetLimiterActivity => .ok [.resetLimiterStats page.mix]
  | .setEqBand target band param value => do
    let (target, _) ← eqTarget view page viewer target
    return [.setEq target (← applyBand (currentEq mirror target) band param value)]
  | .setInput input trimDb muted processing =>
    if !viewer.engineer then .error (.forbidden "input controls are the engineer's")
    else if (view.input input).isNone then .error (.unknownId input)
    else if trimDb.any (!·.isFinite) then .error (.badValue "trim")
    else .ok [.setInput input trimDb muted processing]
  | .resetLimiterStats mix =>
    if !viewer.engineer then .error (.forbidden "another mix's limiter is the engineer's")
    else if (view.mix mix).isNone then .error (.unknownId mix)
    else .ok [.resetLimiterStats mix]
  | _ => .error .notACommand

/-- Mute All: every level of the page's mix but the inputs the viewer does not see. -/
def muteAll : Cmd :=
  let heard := ((view.mix page.mix).map (·.hears)).getD []
  let sources := ((view.inputs.filter fun i => showsInput view viewer i.id).map fun i => Source.input i.id) ++
    heard.map .mix
  .batch (sources.map fun source => .setLevel page.mix source none none (some true))

end

end IemMixer.Server
