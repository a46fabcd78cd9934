import IemMixer.Server.Switch

/-! A roster's way into the states: every other lineup's stored state and the active one's
running state go over to following it. Each state says which roster it follows, so a try that
was cut short and made again moves nobody twice; an import whose answer is lost is waited out. -/
namespace IemMixer.Server
open Lib Lib.Process Proto

/-- A step of the lineups' files and the engine, or the file of a kept roster. -/
inductive RosterOp where
  | op (op : Op)
  | readKept (sha256 : String)

abbrev RosterProc (ε α : Type) := ProcM RosterOp Fate World ε α

/-- The lineups' own steps. -/
def lineups {ε α : Type} (m : Proc ε α) : RosterProc ε α := relabel .op m

/-- A roster the states may follow, with the SHA-256 of its file. -/
structure Base where
  roster : Roster
  sha256 : String

/-- `known`: by the marker of a state. `unmarked`: what a state without a marker follows. -/
structure Follows where
  known : List Base
  unmarked : Option Base

namespace Follows

/-- The roster a state with this marker moves people's mixes from: none when it follows
`newSha` already, or one that is not known. -/
def baseOf (f : Follows) (marker : Option String) (newSha : String) : Option Roster :=
  match marker with
  | some sha => if sha = newSha then none else (f.known.find? (·.sha256 == sha)).map (·.roster)
  | none => f.unmarked.map (·.roster)

/-- Every set the rosters known so far list. -/
def sets (f : Follows) : List String := (f.known ++ f.unmarked.toList).flatMap fun b => b.roster.sets.toList

section
variable [Libm]

/-- The kept roster of a name; none that is kept, or that does not parse, is not known. -/
def keptRoster (sha256 : String) : RosterProc String (Option Roster) :=
  -- Its own step, whatever the inner name.
  relabel (fun _ => .readKept sha256) (fileStep .readRunning fun w => (w.store.rosters[sha256]?, w))

/-- Learns the roster a marker names, when it is not known yet. -/
def learn {ε : Type} (f : Follows) (marker : Option String) : RosterProc ε Follows := do
  let some sha256 := marker | return f
  if f.known.any (·.sha256 == sha256) then return f
  match ← attempt (keptRoster sha256) with
  | .ok (some roster) => return { f with known := f.known ++ [{ roster, sha256 }] }
  | _ => return f

end
end Follows

inductive Reason where
  | missingActive (active : String)
  | unfinishedSwitch
  | notSynced
  | notRecorded
  | unreadable (lineup kind : String)
  | unwritten (lineup kind : String)
  | engine (active : String) (e : EngineError)

/-- `refused`: the roster before stays. `deferred`: it is tried again. -/
inductive Untaken where
  | refused (why : Reason)
  | deferred (why : Reason)

/-- A refusal is the roster's; no engine or no answer is the moment's. -/
def EngineError.untaken (active : String) : EngineError → Untaken
  | .refused body => .refused (.engine active (.refused body))
  | e => .deferred (.engine active e)

/-- A derived `PartialEq` on what of a stored state is modelled. -/
def MixerBackup.peq (a b : MixerBackup) : Bool :=
  a.rev == b.rev && a.state.peq b.state && a.lineup == b.lineup && a.follows == b.follows &&
    decide (a.silenced = b.silenced)

/-- A stored state a transition writes. -/
structure Planned where
  id : String
  original : MixerBackup
  next : MixerBackup

section
variable [Libm] [Sha256]

/-- Writes back what was written (best effort). -/
def undo {ε : Type} (written : List Planned) : RosterProc ε Unit :=
  each written fun p => do
    let _ ← attempt (lineups (Store.saveState p.id p.original))

/-- Writes the planned states; on a failure puts back those written. -/
def writePlanned (written : List Planned) : List Planned → RosterProc Untaken Unit
  | [] => pure ()
  | p :: rest => do
    match ← attempt (lineups (Store.saveState p.id p.next)) with
    | .ok () => writePlanned (written ++ [p]) rest
    | .error kind =>
      undo written
      fail (.refused (.unwritten p.id kind))

/-- The stored states of `ls`, each marker's roster learned. -/
def storedStates (f : Follows) : List Lineup → RosterProc Untaken (Follows × List (Lineup × MixerBackup))
  | [] => return (f, [])
  | l :: rest => do
    match ← mapErr (fun kind => .refused (.unreadable l.id kind)) (lineups (Store.state l.id)) with
    | some stored =>
      let f ← f.learn stored.follows
      let (f, more) ← storedStates f rest
      return (f, (l, stored) :: more)
    | none => storedStates f rest

/-- A stored state made to follow `new`, where that changes it. -/
def plan (f : Follows) (new : Roster) (newSha : String) (sets : BTreeSet String) (l : Lineup)
    (stored : MixerBackup) : Option Planned :=
  let (state, silenced) := follow stored.state stored.silenced (f.baseOf stored.follows newSha) new sets l none
  let next := { stored with state, silenced, follows := some newSha }
  if next.peq stored then none else some { id := l.id, original := stored, next }

/-- Whether the engine took `sent`, whose answer was lost: known once it answers a `Ping`. One
that never answers is waited for until the server stops. -/
def landed {ε : Type} (sent : MixState) : ℕ → RosterProc ε Bool
  | 0 => fun _ w => .error .stopped w
  | tries + 1 => do
    lineups waitSynced
    match ← attempt (lineups (requestApplied .ping "")) with
    | .ok () => return (← lineups mirror).state.peq sent
    | .error _ => landed sent tries

/-- The import of `next`: taken, or why not. -/
def sendImport (tries : ℕ) (active : String) (next : MixState) : RosterProc Untaken Unit := do
  match ← attempt (lineups (requestApplied (.importState next) active)) with
  | .ok () => return
  | .error (.refused body) => fail (EngineError.untaken active (.refused body))
  | .error e => if !(← landed next tries) then fail (e.untaken active)

/-- The running state goes over to `next`. What it follows then is on disk before, as pending;
where the import did not go in, what it followed before is on disk again. -/
def bring (tries : ℕ) (newSha : String) (next : MixState) (prior running : Running) : RosterProc Untaken Running := do
  let pending : Pending := { follows := newSha, silenced := running.silenced, digest := stateDigest next }
  match ← attempt (lineups (Store.setRunning { prior with pending := some pending })) with
  | .error _ => fail (.deferred .notRecorded)
  | .ok () => match ← attempt (sendImport tries prior.lineup next) with
    | .ok () => return running
    | .error not =>
      lineups (noteRunning prior)
      fail not

/-- `moved`: how many moved to another set of the active lineup. `frozen`: what a freeze found
that the caller has to end. -/
structure Transition where
  moved : ℕ
  frozen : Option Bool

/-- The states go over to following `new`, whose lineup `active` plays. Where the running state
changes the pages are frozen before any file is written, and stay so for the caller. -/
def transition (tries : ℕ) (follows : Follows) (new : Roster) (newSha active : String) :
    RosterProc Untaken Transition := do
  let some lineup := new.lineup active | fail (.refused (.missingActive active))
  -- A switch a restart cut short, between its replay's tries.
  if ← look (·.frozen) then fail (.deferred .unfinishedSwitch)
  let seen ← lineups mirror
  let some topology := seen.topology.filter fun _ => seen.synced | fail (.deferred .notSynced)
  let sets := Std.ExtTreeSet.ofList (follows.sets ++ new.sets.toList) compare
  let seen ← lineups mirror
  let (marker, recorded) ← lineups (runningFor active (stateDigest seen.state))
  let follows ← follows.learn marker
  let (follows, stored) ← storedStates follows (new.lineups.filter (·.id != active))
  let planned := stored.filterMap fun p => plan follows new newSha sets p.1 p.2
  let src := follows.baseOf marker newSha
  let moved := (src.map fun f => (moves f new active).length).getD 0
  let nextOf (current : MixState) : MixState × Running :=
    let (next, silenced) := follow current recorded src new sets lineup (some topology)
    (next, { lineup := active, follows := some newSha, silenced })
  let same (current : MixState) : Bool := (nextOf current).1.peq (Proto.reconcile topology current).1
  let soloed (t : Transient) : List MixId :=
    if marker = some newSha then []
    else match src.bind (·.lineup active) with
      | some before => soloedChanging t before lineup
      | none => everySolo t
  let seen ← lineups mirror
  if same seen.state && (soloed seen.transient).isEmpty then
    writePlanned [] planned
    lineups (noteRunning (nextOf seen.state).2)
    return { moved, frozen := none }
  -- No page's change lands between the state read next and the import.
  let was ← mapErr (EngineError.untaken active) (lineups freeze)
  match ← attempt (writePlanned [] planned) with
  | .error not =>
    if !was then lineups thaw
    fail not
  | .ok () =>
    let seen ← lineups mirror
    let (next, running) := nextOf seen.state
    let prior : Running := { lineup := active, follows := marker, silenced := recorded }
    let taken ← attempt do
      if !seen.synced then fail (.deferred .notSynced)
      if same seen.state then return running
      bring tries newSha next prior running
    match taken with
    | .ok running =>
      lineups (noteRunning running)
      lineups (endSolos (soloed seen.transient))
      return { moved, frozen := some was }
    | .error not =>
      undo planned
      if !was then lineups thaw
      fail not

end

end IemMixer.Server
