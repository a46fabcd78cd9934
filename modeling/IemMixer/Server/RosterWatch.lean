import IemMixer.Lib.Runs
import IemMixer.Server.FollowPeople
import IemMixer.Server.LineupStore
import IemMixer.Server.RosterFacts
import IemMixer.Server.Transition

/-! The roster file at the server's start and while it runs: which roster a start takes, what a
poll of a changed file puts into use, refuses or tries again, what the status file says of it, and
whose data goes. What becomes of each step, and what is done to the file meanwhile, is an oracle's. -/
namespace IemMixer.Server.RosterWatch
open Lib Lib.Process Proto

/-- SHA-256 of a file's bytes, in lower-case hex. -/
class FileSha256 where
  sha256Hex : ByteArray → String

export FileSha256 (sha256Hex)

/-- `roster.toml`, and when it was last written. -/
structure RosterFile where
  bytes : ByteArray
  modified : ℕ

/-- What is done to `roster.toml`. -/
inductive Edit where
  | write (bytes : ByteArray)
  | remove

/-- Length and modification time; `none` without a file. -/
abbrev Stamp := Option (ℕ × ℕ)

def RosterFile.stamp (f : RosterFile) : ℕ × ℕ := (f.bytes.size, f.modified)

/-- A problem in words, or why a roster did not reach the states. -/
inductive Why where
  | text (problem : String)
  | reason (why : Reason)

/-- `roster.status.json`. -/
structure Status where
  sha256 : String
  ok : Bool
  applied : Bool
  problems : List Why
  added : List String
  removed : List String

def Status.used (sha256 : String) (added removed problems : List String) : Status :=
  { sha256, ok := problems.isEmpty, applied := true, problems := problems.map .text, added, removed }

def Status.refused (sha256 : String) (problems : List Why) : Status :=
  { sha256, ok := false, applied := false, problems, added := [], removed := [] }

/-- The roster in use has not reached the states yet: they follow `base`. -/
structure Unsettled where
  base : Option Base
  refusing : Bool := true

/-- The lineups' files with the engine and the roster in use, the people's data, and the files of
the roster itself. `clock`: of the file system. `legacy`: there is a migration to make or to
finish. The last three are the running server's own. -/
structure Host (β : Type) where
  world : World
  site : Removal.Site β
  file : Option RosterFile := none
  clock : ℕ := 0
  recorded : Option String := none
  status : Option Status := none
  legacy : Bool := false
  unsettled : Option Unsettled := none
  fallback : Bool := false
  unrecorded : ℕ := 0

/-- A migration that is made or finished, as it turns out: what it returns, and what it leaves. -/
structure Migrated (β : Type) where
  report : Except String (List String)
  site : Removal.Site β
  committed : Bool

inductive WatchStep where
  | lineups (op : RosterOp)
  | people (op : Removal.SiteStep)
  | stamp
  | readRoster
  | readRecorded
  | record
  | keep
  | writeStatus
  | migrate

/-- `edits`: what was done to the roster file before the step. -/
structure WatchFate (β : Type) where
  edits : List Edit := []
  engine : Fate := {}
  file : Removal.Fate := .done
  migrated : Option (Migrated β) := none

abbrev WatchM (β ε α : Type) := ProcM WatchStep (WatchFate β) (Host β) ε α

section
variable {β ε α : Type}

namespace Host

def withWorld (h : Host β) (w : World) : Host β := { h with world := w }

def withSite (h : Host β) (s : Removal.Site β) : Host β := { h with site := s }

/-- A file written anew has a time of its own. -/
def edit (h : Host β) : Edit → Host β
  | .write bytes => { h with file := some ⟨bytes, h.clock⟩, clock := h.clock + 1 }
  | .remove => { h with file := none }

def edits (h : Host β) (es : List Edit) : Host β := es.foldl edit h

def settle (h : Host β) (u : Option Unsettled) : Host β :=
  { h with unsettled := u, world := { h.world with settling := u.any (·.refusing) } }

def use (h : Host β) (r : Option RosterState) : Host β := { h with world := { h.world with inUse := r } }

/-- What a migration leaves; one that was committed has recorded the main lineup, unless a lineup
was recorded. -/
def migrated (h : Host β) (m : Migrated β) (main : String) : Host β :=
  { h with
    world := { h.world with store := { h.world.store with
      active := if m.committed then some (h.world.store.active.getD main) else h.world.store.active } }
    site := m.site }

end Host

/-- One step on the files: `act` when it is done. -/
def fileStep (op : WatchStep) (act : Host β → α × Host β) : WatchM β String α := step op fun fate h =>
  let h := h.edits fate.edits
  match fate.file with
  | .done => (.ok (act h).1, (act h).2)
  | .failed text => (.error (.error text), h)
  | .stopped happened => (.error .stopped, if happened then (act h).2 else h)

/-- The steps of the lineups, the engine and the states. -/
def inStates (m : RosterProc ε α) : WatchM β ε α :=
  focus Host.world Host.withWorld (among WatchStep.lineups WatchFate.engine m)

/-- The steps of the people's data. -/
def inSite (m : Removal.SiteM β ε α) : WatchM β ε α :=
  focus Host.site Host.withSite (among WatchStep.people WatchFate.file m)

/-- The people's data follows `roster`; what goes wrong is among the problems. -/
def followPeople (roster : Roster) (removed : List String) : WatchM β ε People :=
  mapErr Empty.elim (inSite (Removal.followPeople roster removed))

/-- The roster file's bytes; `none` when there is none. -/
def readRoster : WatchM β String (Option ByteArray) := fileStep .readRoster fun h => (h.file.map (·.bytes), h)

/-- The roster applied last. -/
def appliedRoster : WatchM β String (Option String) := fileStep .readRecorded fun h => (h.recorded, h)

/-- Records `text` as the roster the states follow; a failure is logged. -/
def record (text : String) : WatchM β ε Unit := do
  let _ ← attempt (fileStep .record fun h => ((), { h with recorded := some text }))

/-- Keeps the roster among those a state may follow, unless it is kept; a failure is logged. -/
def keep (sha256 : String) (roster : Roster) : WatchM β ε Unit := do
  let _ ← attempt (fileStep .keep fun h =>
    ((), h.withWorld { h.world with
      store := { h.world.store with rosters := h.world.store.rosters.insertIfNew sha256 roster } }))

/-- Writes the status file; a failure is logged. -/
def note (status : Status) : WatchM β ε Unit := do
  let _ ← attempt (fileStep .writeStatus fun h => ((), { h with status := some status }))

def notUtf8 : String := "roster file: not UTF-8 text"

def notFound : String := "roster file: not found"

def everyoneRemoved : String :=
  "the roster keeps none of the people of the roster in use: it would remove them all"

/-- The last problem of a start on the roster applied last. -/
def standsIn : String := "in use instead: the roster applied last"

def missingActive (active : String) : String :=
  "the roster has no lineup '" ++ active ++ "', which plays: switch to a lineup it keeps first"

/-- Whether `new` keeps none of the people of `old`, which has some. -/
def removesEveryone (old new : Roster) : Bool :=
  !old.people.isEmpty && old.people.all fun p => (new.person p.id).isNone

/-- The people of `new` that `old` lacks, and those of `old` that `new` lacks. -/
def peopleDiff (old new : Roster) : List String × List String :=
  let missing (listed other : Roster) := (listed.people.filter fun p => (other.person p.id).isNone).map (·.id)
  (missing new old, missing old new)

variable [RosterText] [Libm]

omit [Libm] in
/-- The roster of `text`, or every reason it cannot be used. -/
def validate (text : String) (facts : Option TopologyFacts) : Except (List String) Roster :=
  match RosterText.parse text with
  | .error e => .error [e]
  | .ok roster =>
    let problems := roster.problems ++ (facts.map roster.problemsAgainst).getD []
    if problems.isEmpty then .ok roster else .error problems

/-- The legacy layout migrated, or a committed migration finished; whom that removed. -/
def migrateLegacy (roster : Roster) : WatchM β String (List String) := step .migrate fun fate h =>
  let h := h.edits fate.edits
  let main := (roster.main.map (·.id)).getD ""
  match fate.file, h.legacy, fate.migrated with
  | .failed text, _, _ => (.error (.error text), h)
  | .done, true, some m => (m.report.mapError .error, { h.migrated m main with legacy := m.report.toOption.isNone })
  | .done, true, none => (.ok [], { h with legacy := false })
  | .done, false, _ => (.ok [], h)
  | .stopped _, true, some m => (.error .stopped, h.migrated m main)
  | .stopped _, _, _ => (.error .stopped, h)

/-- Puts the roster into use on the files' side: it holds the lineup that plays, and who is nobody
of it is removed unless `remove` is false. -/
def adopt (roster : Roster) (sha256 : String) (remove : Bool) : WatchM β (List String) (RosterState × People) := do
  let migrated ← mapErr (fun e => [e]) (migrateLegacy roster)
  let recorded ← mapErr (fun e => [e]) (inStates (lineups Store.readActive))
  let active := recorded.getD ((roster.main.map (·.id)).getD "")
  if (roster.lineup active).isNone then fail [missingActive active]
  let people ← if remove then followPeople roster [] else pure {}
  return ({ roster, sha256, active }, { people with removed := migrated ++ people.removed })

/-- What a start takes: `roster.toml`, beside the roster applied last when there is one, or that. -/
inductive Start where
  | file (base : Option Roster)
  | fallback

def Start.base : Start → Option Roster
  | .file base => base
  | .fallback => none

def Start.removes : Start → Bool
  | .file _ => true
  | .fallback => false

variable [FileSha256]

/-- The roster of `bytes`, validated and adopted. -/
def take (bytes : ByteArray) (facts : Option TopologyFacts) (start : Start) :
    WatchM β (List String) (RosterState × People) := do
  let some text := String.fromUTF8? bytes | fail [notUtf8]
  match validate text facts with
  | .error problems => fail problems
  | .ok roster =>
    if start.base.any (removesEveryone · roster) then fail [everyoneRemoved]
    adopt roster (sha256Hex bytes) start.removes

/-- The roster a start runs on; `fallback`: the one applied last stands in for the file. -/
structure Loaded where
  roster : RosterState
  fallback : Bool

def rosterToml : String := "roster.toml"

/-- A start without a roster to run on: refused beside a file, without one the legacy mode. -/
def refuse (file : Option ByteArray) (sha256 : String) (problems : List String) : WatchM β String (Option Loaded) := do
  if file.isNone then return none
  note (.refused sha256 (problems.map .text))
  fail (rosterToml ++ ": " ++ "; ".intercalate problems)

/-- The roster applied last in place of a file that cannot be used. -/
def standIn (file : Option ByteArray) (recorded : Option String) (facts : Option TopologyFacts) (sha256 : String)
    (problems : List String) : WatchM β String (Option Loaded) := do
  let some text := recorded | refuse file sha256 problems
  match ← attempt (take text.toUTF8 facts .fallback) with
  | .ok (state, _) =>
    keep state.sha256 state.roster
    note (.refused sha256 ((problems ++ [standsIn]).map .text))
    return some { roster := state, fallback := true }
  | .error _ => refuse file sha256 problems

/-- The roster at the start; none of a server without one. -/
def load (facts : Option TopologyFacts) : WatchM β String (Option Loaded) := do
  let file ← readRoster
  let recorded := (← attempt appliedRoster).toOption.join
  let base := recorded.bind fun text => (RosterText.parse text).toOption
  match file with
  | none => standIn file recorded facts "" [notFound]
  | some bytes => match ← attempt (take bytes facts (.file base)) with
    | .ok (state, people) =>
      keep state.sha256 state.roster
      note (.used state.sha256 [] people.removed people.problems)
      return some { roster := state, fallback := false }
    | .error problems => standIn file recorded facts (sha256Hex bytes) problems

/-- What the states follow at the start. -/
def appliedBase : WatchM β ε (Option Base) := do
  let some text := (← attempt appliedRoster).toOption.join | return none
  return (RosterText.parse text).toOption.map fun roster => { roster, sha256 := sha256Hex text.toUTF8 }

/-- The server starts: a switch that was cut short keeps the pages from changing anything, and so
does the roster until it has reached the states. -/
def start (facts : Option TopologyFacts) : WatchM β String Unit := do
  match ← load facts with
  | none => change fun h => h.use none
  | some loaded =>
    let cutShort := (← inStates (lineups Store.readIntent)).isSome
    let base ← appliedBase
    change fun h => { (h.use (some loaded.roster)).settle (some { base }) with fallback := loaded.fallback }
    change fun h => h.withWorld { h.world with frozen := cutShort }

def noTarget (dst : String) : String :=
  "the roster has no lineup '" ++ dst ++ "', which a switch a restart cut short goes to"

/-- The problems of a roster file for a site, with the topology of its site file or why that has
none, and whom it removes of the roster applied last. It only reads. -/
def checkProblems (bytes : ByteArray) (site : Except String TopologyFacts) :
    WatchM β ε (List String × Option (List String)) := do
  let some text := String.fromUTF8? bytes | return ([notUtf8], none)
  match site, RosterText.parse text with
  | .error e, _ => return ([e], none)
  | .ok _, .error e => return ([e], none)
  | .ok facts, .ok roster =>
    let migrated ← look (·.world.store.active.isSome)
    let own := if migrated then roster.problems else migrationProblems roster
    let active ← attempt (inStates (lineups Store.readActive))
    let intent ← attempt (inStates (lineups Store.readIntent))
    let recorded := (← attempt appliedRoster).toOption.join
    let base := recorded.bind fun text => (RosterText.parse text).toOption
    let playing := match active with
      | .ok (some active) => if (roster.lineup active).isNone then [missingActive active] else []
      | .ok none => []
      | .error kind => ["lineups/active.json: " ++ kind]
    let cutShort := match intent with
      | .ok (some intent) => if (roster.lineup intent.dst).isNone then [noTarget intent.dst] else []
      | .ok none => []
      | .error kind => ["lineups/switch.json: " ++ kind]
    let everyone := if base.any (removesEveryone · roster) then [everyoneRemoved] else []
    return (own ++ roster.problemsAgainst facts ++ playing ++ cutShort ++ everyone,
      base.map fun base => (peopleDiff base roster).2)

structure CheckReport where
  ok : Bool
  problems : List String
  sha256 : String
  removes : Option (List String)

/-- The report on a roster file, read or not. -/
def checkCli (file : Except String ByteArray) (site : Except String TopologyFacts) : WatchM β ε CheckReport := do
  match file with
  | .error kind => return { ok := false, problems := ["roster file: " ++ kind], sha256 := "", removes := none }
  | .ok bytes =>
    let (problems, removes) ← checkProblems bytes site
    return { ok := problems.isEmpty, problems, sha256 := sha256Hex bytes, removes }

/-- What a roster file did to the server. -/
inductive Applied where
  | unchanged
  | applied (added removed problems : List String)
  | refused (why : List Why)
  | deferred (why : Reason)

def Applied.ofUntaken : Untaken → Applied
  | .refused why => .refused [.reason why]
  | .deferred why => .deferred why

/-- A transition that imported nothing because its pending record could not be written. -/
def unrecorded : Untaken → Bool
  | .deferred .notRecorded => true
  | _ => false

/-- Counts those in a row; at `maxSettles` the engineer's devices hear of it. -/
def countUnrecorded (why : Untaken) : WatchM β ε Unit := do
  if unrecorded why then change fun h => { h with unrecorded := h.unrecorded + 1 }

/-- A running legacy server takes its first roster. -/
def adoptLive (roster : Roster) (sha256 : String) : WatchM β ε Applied := do
  match ← attempt (adopt roster sha256 true) with
  | .error problems => return .refused (problems.map .text)
  | .ok (state, people) =>
    keep sha256 roster
    -- Before the roster: no page changes a mix until it is settled.
    change fun h => (h.settle (some { base := none })).use (some state)
    return .applied [] people.removed people.problems

variable [Sha256] (tries : ℕ)

/-- A new roster in place of `old`: the states go over from what they follow, then it is in use and
recorded, and whoever it took out is removed. -/
def reload (old : RosterState) (new : Roster) (text sha256 : String) : WatchM β ε Applied := do
  if removesEveryone old.roster new then return .refused [.text everyoneRemoved]
  let active := (old.lineup.map (·.id)).getD ""
  keep sha256 new
  let unsettled ← look (·.unsettled)
  let oldBase : Base := { roster := old.roster, sha256 := old.sha256 }
  let base := unsettled.bind (·.base)
  let follows : Follows :=
    { known := oldBase :: base.toList, unmarked := if unsettled.isSome then base else some oldBase }
  match ← attempt (inStates (transition tries follows new sha256 active)) with
  | .error why =>
    countUnrecorded why
    return .ofUntaken why
  | .ok done =>
    change fun h => { h with unrecorded := 0 }
    let (added, removed) := peopleDiff old.roster new
    change fun h => (h.use (some { roster := new, sha256, active })).settle none
    record text
    -- Only now: a page of the roster before must not change a mix that moved.
    if done.frozen = some false then inStates (lineups thaw)
    let people ← followPeople new removed
    return .applied added (people.removed.foldl (fun out id => if out.contains id then out else out ++ [id]) removed)
      people.problems

/-- Applies the roster of a file to the running server. -/
def applyText (text sha256 : String) : WatchM β ε Applied := do
  let current ← look (·.world.inUse)
  if current.any (·.sha256 == sha256) then return .unchanged
  let facts ← look fun h => h.world.desk.mirror.topology.map .ofInfo
  match validate text facts with
  | .error problems => return .refused (problems.map .text)
  | .ok roster => match current with
    | none => adoptLive roster sha256
    | some old => reload tries old roster text sha256

/-- The removals a start on the roster applied last held back. -/
def heldBack : WatchM β ε People := do
  let some r ← look (·.world.inUse) | return {}
  followPeople r.roster []

/-- What a file came to goes into the status file, and the fall-back ends with a file in use. -/
def conclude (sha256 : String) : Applied → WatchM β ε Unit
  | .unchanged => do
    if ← look (·.fallback) then
      change fun h => { h with fallback := false }
      let people ← heldBack
      note (.used sha256 [] people.removed people.problems)
  | .applied added removed problems => do
    change fun h => { h with fallback := false }
    note (.used sha256 added removed problems)
  | .refused problems => do
    let fallback ← look (·.fallback)
    note (.refused sha256 (if fallback then problems ++ [.text standsIn] else problems))
  | .deferred _ => pure ()

/-- Reads `roster.toml` once and applies it; `none` when it cannot be read. -/
def checkFile : WatchM β ε (Option Applied) := do
  let .ok (some bytes) ← attempt readRoster | return none
  let sha256 := sha256Hex bytes
  let applied ← match String.fromUTF8? bytes with
    | some text => applyText tries text sha256
    | none => pure (.refused [.text notUtf8])
  conclude sha256 applied
  return some applied

/-- The file's stamp; one that cannot be had is none. -/
def stamp : WatchM β ε Stamp := do
  return (← attempt (fileStep .stamp fun h => (h.file.map (·.stamp), h))).toOption.join

/-- One poll: the file is read when its stamp is not the one seen. What the next compares with. -/
def poll (seen : Stamp) : WatchM β ε Stamp := do
  let now ← stamp
  if now = seen then return seen
  match ← checkFile tries with
  | some (.deferred _) => return none
  | _ => return now

/-- Records the roster file in use, read again. -/
def recordInUse (sha256 : String) : WatchM β ε Unit := do
  let .ok (some bytes) ← attempt readRoster | return
  if sha256Hex bytes = sha256 then
    match String.fromUTF8? bytes with
    | some text => record text
    | none => pure ()

/-- Puts the roster in use into the states when it has not reached them. -/
def settle : WatchM β Untaken Unit := do
  let some unsettled ← look (·.unsettled) | return
  match ← look (·.world.inUse) with
  | none => change (·.settle none)
  | some r =>
    let active := (r.lineup.map (·.id)).getD ""
    let follows : Follows := { known := unsettled.base.toList, unmarked := unsettled.base }
    let done ← inStates (transition tries follows r.roster r.sha256 active)
    change (·.settle none)
    recordInUse r.sha256
    if done.frozen = some false then inStates (lineups thaw)

def maxSettles : ℕ := 3

/-- A settle that gave up: the pages are free, what the states follow stays. -/
def giveUp : WatchM β ε Unit :=
  change fun h => h.settle (h.unsettled.map ({ · with refusing := false }))

/-- A roster that waits for the engine rather than being refused. -/
def waits : Untaken → Bool
  | .deferred why => !unrecorded (.deferred why)
  | .refused _ => false

/-- A turn of the task that settles, after `refusals`; how many there are then, `none` when it is
done. -/
def settleTurn (refusals : ℕ) : WatchM β ε (Option ℕ) := do
  if !(← look (·.world.settling)) then return none
  inStates (lineups waitSynced)
  match ← attempt (settle tries) with
  | .ok () => return none
  | .error why =>
    if waits why then return some refusals
    if refusals + 1 = maxSettles then
      giveUp
      return none
    return some (refusals + 1)

end

/-- A server that is up, with the stamp its watcher saw last, or down. -/
structure Machine (β : Type) where
  host : Host β
  up : Bool := false
  seen : Stamp := none

/-- What happens next; `settle` is a turn of a settling task after some refusals. -/
inductive Move (β : Type) where
  | edit (e : Edit)
  | drift (d : Drift)
  | stop
  | start (o : Oracle WatchStep (WatchFate β))
  | poll (o : Oracle WatchStep (WatchFate β))
  | settle (refusals : ℕ) (o : Oracle WatchStep (WatchFate β))
  | switch (dst : String) (who : AuthClaims) (o : Oracle WatchStep (WatchFate β))
  | replay (o : Oracle WatchStep (WatchFate β))

section
variable {β : Type}

/-- The process is no more. -/
def Host.stopped [Libm] (h : Host β) : Host β :=
  { h with
    world := { h.world with desk := h.world.desk.drift .lose, inUse := none, frozen := false, settling := false }
    site := h.site.withWorld h.site.world.restart
    unsettled := none, fallback := false, unrecorded := 0 }

namespace Machine

def down [Libm] (h : Host β) : Machine β := { host := h.stopped }

/-- Where a program leaves the server: up, unless the process stopped in it. -/
def after [Libm] {ε α : Type} (s : Machine β) (o : Oracle WatchStep (WatchFate β)) (m : WatchM β ε α)
    (seen : α → Stamp) : Machine β :=
  match m o ⟨s.host, 0⟩ with
  | .ok a cut => { host := cut.world, up := true, seen := seen a }
  | .error .stopped cut => down cut.world
  | .error (.error _) cut => { s with host := cut.world }

variable [RosterText] [FileSha256] [Libm] [Sha256] (facts : Option TopologyFacts) (tries : ℕ)

def move (s : Machine β) : Move β → Option (Machine β)
  | .edit e => some { s with host := s.host.edit e }
  | .drift d => some { s with host := s.host.withWorld (s.host.world.drift d) }
  | .stop => some (down s.host)
  | .start o => if s.up then none else some (match start facts o ⟨s.host, 0⟩ with
    | .ok () cut => { host := cut.world, up := true }
    | .error _ cut => down cut.world)
  | .poll o => if s.up then some (s.after o (poll (ε := Empty) tries s.seen) id) else none
  | .settle refusals o => if s.up then some (s.after o (settleTurn (ε := Empty) tries refusals) fun _ => s.seen)
    else none
  | .switch dst who o =>
    if s.up then some (s.after o (inStates (lineups (switchLineup dst who))) fun _ => s.seen) else none
  | .replay o => if s.up then some (s.after o (inStates (lineups replayWhenSynced)) fun _ => s.seen) else none

end Machine
end

end IemMixer.Server.RosterWatch
