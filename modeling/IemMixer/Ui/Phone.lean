import IemMixer.Server.View

/-! A mixer page as a phone holds it, and what the server's messages make of it. A fader
under the user's finger keeps its value. The mutes remembered for the end of a solo are
left out. -/
namespace IemMixer.Ui
open Lib Server

structure Phone where
  channels : List Channel := []
  connected : Bool := false
  faderTouched : String → Bool := fun _ => false
  globalTouched : Bool := false
  stemsTouched : Bool := false
  globalLevel : F64 := .fin 0
  globalMuted : Bool := false
  stemsLevel : F64 := .fin 0
  stemsMuted : Bool := false
  stemsGroup : Option String := none
  pageMix : Option String := none
  soloed : BTreeSet String := ∅

/-- Writes a server's update into the matching channel. -/
def updateChannel : List Channel → String → F64 → Bool → F64 → List Channel
  | [], _, _, _, _ => []
  | c :: rest, id, levelDb, muted, pan =>
    if c.id = id then { c with levelDb, muted, pan } :: rest else c :: updateChannel rest id levelDb muted pan

/-- The incoming channels instead when the ids changed, else each one's values but for the
touched ones'. -/
def mergeOrReplaceChannels (existing incoming : List Channel) (touched : String → Bool) : List Channel :=
  let ids (chs : List Channel) : BTreeSet String := Std.ExtTreeSet.ofList (chs.map (·.id)) compare
  if existing.isEmpty || ids existing != ids incoming then incoming
  else incoming.foldl (fun chs new =>
    if touched new.id then chs
    else match chs.findIdx? (·.id == new.id) with
      | some i => chs.set i new
      | none => chs) existing

/-- Every channel outside `soloed` shows as muted. -/
def showExclusiveSolo (chs : List Channel) (soloed : BTreeSet String) : List Channel :=
  chs.map fun c => { c with muted := !soloed.contains c.id }

/-- One message from the server. -/
def Phone.take (p : Phone) : ServerMsg → Phone
  | .state channels connected globalLevelDb globalMuted mix stemsLevelDb stemsMuted group =>
    { p with
      channels := mergeOrReplaceChannels p.channels channels p.faderTouched
      connected
      globalLevel := globalLevelDb.getD p.globalLevel
      globalMuted := globalMuted.getD p.globalMuted
      stemsLevel := stemsLevelDb.getD p.stemsLevel
      stemsMuted := stemsMuted.getD p.stemsMuted
      stemsGroup := group
      pageMix := mix.or p.pageMix }
  | .channelUpdate id levelDb muted pan =>
    if p.faderTouched id then p else { p with channels := updateChannel p.channels id levelDb muted pan }
  | .globalVolumeUpdate levelDb muted =>
    if p.globalTouched then p else { p with globalLevel := levelDb, globalMuted := muted }
  | .stemsVolumeUpdate levelDb muted =>
    if p.stemsTouched then p else { p with stemsLevel := levelDb, stemsMuted := muted }
  | .soloUpdate soloed =>
    let new : BTreeSet String := Std.ExtTreeSet.ofList soloed compare
    -- A switched solo shows at once.
    let switched := new != p.soloed && !new.isEmpty && !p.soloed.isEmpty
    { p with channels := if switched then showExclusiveSolo p.channels new else p.channels, soloed := new }
  | .connectionChanged connected => { p with connected }
  | .eqParams .. | .meters .. | .lineupChanged .. | .inputUpdate .. => p

end IemMixer.Ui
