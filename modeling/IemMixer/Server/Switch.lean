import IemMixer.Server.Desk

/-! Switching the active lineup. The live state is stored as the active lineup's, then the
intent is written, then the target's state goes to the engine, then the target is recorded
active, then the intent goes; what a stop or a lost answer leaves is finished by the
replay, or the lineup before plays again. -/
namespace IemMixer.Server
open Lib Lib.Process Proto

/-- How a state is named in a record: the SHA-256 of its JSON. -/
class Sha256 where
  stateDigest : MixState → String

export Sha256 (stateDigest)

inductive SwitchError where
  | notConfigured
  | forbidden
  | busy
  | unknown (id : String)
  | same
  | notSynced
  | io (text : String)
  | engine (e : EngineError)
  /-- Not finished and not gone back, for the reason `e`. -/
  | pending (e : SwitchError)
  deriving DecidableEq

/-- Who asks for a switch. -/
structure AuthClaims where
  sub : String
  engineer : Bool := false

/-- The engineer, or a leader of any lineup. -/
def maySwitch (roster : Roster) (who : AuthClaims) : Bool := who.engineer || roster.leadsAny who.sub

section
variable [Libm] [Sha256]

/-- `running` with its pending import settled: it went in when the engine holds the state
sent. -/
def resolved (running : Running) (held : String) : Running :=
  match running.pending with
  | some p =>
    if p.digest = held then
      { lineup := running.lineup, follows := some p.follows, silenced := p.silenced, pending := none }
    else { running with pending := none }
  | none => running

/-- A failure is logged. -/
def noteRunning {ε : Type} (running : Running) : Proc ε Unit := do
  let _ ← attempt (Store.setRunning running)

/-- What the running state follows (one that cannot be read is not known); a pending import
is settled against the state the engine holds, and saved so. -/
def runningOf {ε : Type} (held : String) : Proc ε (Option Running) := do
  match ← attempt Store.readRunning with
  | .error _ => return none
  | .ok none => return none
  | .ok (some running) =>
    if running.pending.isNone then return some running
    let settled := resolved running held
    noteRunning settled
    return some settled

/-- The marker and the record of the running state when it is `lineup`'s. -/
def runningFor {ε : Type} (lineup held : String) : Proc ε (Option String × BTreeSet String) := do
  match ← runningOf held with
  | some r => return if r.lineup = lineup then (r.follows, r.silenced) else (none, ∅)
  | none => return (none, ∅)

/-- Ends the solo of each of `mixes` (a failure is logged). -/
def endSolos {ε : Type} (mixes : List MixId) : Proc ε Unit :=
  each mixes fun mix => do
    let _ ← attempt (requestApplied (.setSolo mix []) "")

/-- Frees the pages' changes. -/
def thaw {ε : Type} : Proc ε Unit := change fun w => { w with frozen := false }

/-- Freezes every page's changes: once the `Ping` is back, every change queued before is
in the mirror. Whether they were frozen already. -/
def freeze : Proc EngineError Bool := do
  let was ← look (·.frozen)
  change fun w => { w with frozen := true }
  match ← attempt (requestApplied .ping "") with
  | .error e =>
    if !was then thaw
    fail e
  | .ok () => return was

/-- Records `id` as the active lineup in the running server's roster. -/
def setActiveInUse {ε : Type} (id : String) : Proc ε Unit :=
  change fun w => { w with inUse := w.inUse.map fun r => { r with active := id } }

/-- The state `lineup` plays from and what it follows then: its stored state, or the
running one. -/
def targetOf (stored : Option MixerBackup) (current : MixState)
    (running : Option String × BTreeSet String) (roster : Roster) (lineup : Lineup) :
    MixState × Running :=
  let (src, follows, silenced) := match stored with
    | some b => (some b.state, b.follows, b.silenced)
    | none => (none, running.1, running.2)
  let (target, silenced) := targetStateRecorded src current roster lineup silenced
  (target, { lineup := lineup.id, follows, silenced })

/-- A failed step of the files, as the caller hears it. -/
def ioError (what kind : String) : SwitchError := .io (what ++ ": " ++ kind)

/-- The target's state to the engine, then the target recorded active and what the running
state follows now. -/
def forward (roster : Roster) (live : MixerBackup) (src : String) (dst : Lineup) :
    Proc SwitchError Unit := do
  let stored ← mapErr (ioError "the band's stored state is unreadable") (Store.state dst.id)
  let (target, running) := targetOf stored live.state (live.follows, live.silenced) roster dst
  let seen ← mirror
  let soloed := match roster.lineup src with
    | some before => soloedChanging seen.transient before dst
    | none => []
  mapErr .engine (requestApplied (.importState target) dst.id)
  mapErr (ioError "the band that plays was not recorded") (Store.setActive dst.id)
  noteRunning running
  endSolos soloed

/-- How a switch's steps failed. -/
inductive Failed where
  /-- The band that played plays on, recorded as before. -/
  | back (e : SwitchError)
  /-- The old band's state did not go back in either: the intent stays. -/
  | pending (e : SwitchError)

/-- A backup of the mirror's state, refused when a member's pins and hides cannot be
read. -/
def capture (mirror : Mirror) : Proc String MixerBackup :=
  fileStep .capture fun w => ({ rev := mirror.rev, state := mirror.state }, w)

/-- The switch's steps, the pages frozen. -/
def steps (roster : Roster) (src : String) (dst : Lineup) : Proc Failed Unit := do
  let seen ← mirror
  if !seen.synced then fail (.back .notSynced)
  let live ← mapErr (fun text => .back (.io text)) (capture seen)
  let (follows, silenced) ← runningFor src (stateDigest seen.state)
  let live := { live with lineup := some src, follows, silenced }
  mapErr (fun kind => .back (ioError "the band's state was not stored" kind))
    (Store.saveState src live)
  mapErr (fun kind => .back (ioError "the switch's intent was not written" kind))
    (Store.setIntent { src, dst := dst.id })
  match ← attempt (forward roster live src dst) with
  | .error e =>
    match ← attempt (requestApplied (.importState live.state) src) with
    | .error _ => fail (.pending e)
    | .ok () =>
      let _ ← attempt Store.clearIntent
      fail (.back e)
  | .ok () =>
    -- The switch happened; a start that finds the intent clears it.
    let _ ← attempt Store.clearIntent

/-- The switch under the lock. -/
def run (roster : Roster) (src : String) (dst : Lineup) : Proc SwitchError Unit := do
  let seen ← mirror
  if !seen.synced then fail .notSynced
  let was ← mapErr .engine freeze
  -- Frozen meanwhile by a switch a restart cut short: it is that one's.
  if was then fail .busy
  match ← attempt (steps roster src dst) with
  | .ok () => return
  | .error (.back e) =>
    thaw
    fail e
  | .error (.pending e) => fail (.pending e)

/-- Makes `dst` the band that plays. -/
def switchLineup (dst : String) (who : AuthClaims) : Proc SwitchError Unit := do
  let some use ← look (·.inUse) | fail .notConfigured
  if !maySwitch use.roster who then fail .forbidden
  let some src := use.lineup | fail .notConfigured
  let some target := use.roster.lineup dst | fail (.unknown dst)
  if target.id = src.id then fail .same
  if ← look (fun w => w.frozen || w.settling) then fail .busy
  let site ← look (·.desk.mirror.topology)
  if site.isNone then fail .notSynced
  run use.roster src.id target
  setActiveInUse target.id
  thaw

/-- Why a try to finish did not. -/
inductive PlayError where
  | notSynced
  | io (kind : String)
  | engine (e : EngineError)
  | noMain

/-- Imports `lineup`'s state and records it as the band that plays, on disk and in use,
with what the running state follows. -/
def play (roster : Roster) (lineup : Lineup) (stored : Option MixerBackup) (other : Option Lineup) :
    Proc PlayError Unit := do
  let seen ← mirror
  if !seen.synced then fail .notSynced
  let soloed := (other.map fun o => soloedChanging seen.transient o lineup).getD []
  let running := ((← runningOf (stateDigest seen.state)).map fun r => (r.follows, r.silenced)).getD (none, ∅)
  let (target, running) := targetOf stored seen.state running roster lineup
  mapErr .engine (requestApplied (.importState target) lineup.id)
  mapErr .io (Store.setActive lineup.id)
  noteRunning running
  endSolos soloed
  setActiveInUse lineup.id

/-- Finishes a switch the engine dropped or a restart cut short. -/
def replayIntent : Proc PlayError Unit := do
  let intent ← mapErr .io Store.readIntent
  match intent, ← look (·.inUse) with
  | some intent, some use =>
    let active ← mapErr .io Store.readActive
    let some lineup := (use.roster.lineup intent.dst).or use.lineup | fail .noMain
    let other := use.roster.lineup intent.src
    if active ≠ some intent.dst then
      let stored ← mapErr .io (Store.state lineup.id)
      play use.roster lineup stored other
    else match other with
      | some before =>
        let seen ← mirror
        endSolos (soloedChanging seen.transient before lineup)
      | none => pure ()
    mapErr .io Store.clearIntent
    thaw
  | _, _ => thaw

/-- Gives up an unfinished switch: the band it came from plays again. -/
def fallBack : Proc PlayError Unit := do
  let intent ← mapErr .io Store.readIntent
  match intent, ← look (·.inUse) with
  | some intent, some use =>
    let some lineup := (use.roster.lineup intent.src).or use.lineup | fail .noMain
    let stored := match ← attempt (Store.state lineup.id) with
      | .ok stored => stored
      | .error _ => none
    play use.roster lineup stored (use.roster.lineup intent.dst)
    mapErr .io Store.clearIntent
    thaw
  | _, _ => thaw

def maxReplays : ℕ := 3

/-- How the replay ended. -/
inductive Replayed where
  | nothing
  | finished
  | fellBack
  | gaveUp
  deriving DecidableEq

/-- `tries` tries of `m`, each once the mirror is synced; whether one succeeded. -/
def retry {ε : Type} (m : Proc PlayError Unit) : ℕ → Proc ε Bool
  | 0 => return false
  | tries + 1 => do
    waitSynced
    match ← attempt m with
    | .ok () => return true
    | .error _ => retry m tries

/-- Finishes a switch that was not finished, else the band before plays again, else the
pages are freed with the state the engine holds. -/
def replayWhenSynced : Proc Empty Replayed := do
  if !(← look (·.frozen)) then return .nothing
  if ← retry replayIntent maxReplays then return .finished
  if ← retry fallBack maxReplays then return .fellBack
  let _ ← attempt Store.clearIntent
  thaw
  return .gaveUp

end

end IemMixer.Server
