import IemMixer.Lib.Process
import IemMixer.Server.RosterProblems

/-! The one-time migration of the legacy layout: every legacy member's files, and the
engineer's, become the main lineup's, and the members who are no person are removed. Files
are of any content `β`. What becomes of each step of the disk is an oracle's. -/
namespace IemMixer.Server.Migration
open Lib Proto Lib.Process

/-- The band store's per-person files, one directory each. -/
inductive Kind where
  | presets
  | snapshots
  | customizations
  deriving DecidableEq

def kinds : List Kind := [.presets, .snapshots, .customizations]

/-- Files of each kind, one per id. -/
abbrev Files (β : Type) := Kind → String → Option β

def Files.put (files : Files β) (kind : Kind) (id : String) (content : Option β) : Files β := fun k i =>
  if k = kind ∧ i = id then content else files k i

/-- The work a committed migration still has to do. -/
structure Pending where
  format : String
  /-- Ids whose legacy files are copies now. -/
  delete : List String
  /-- Former members who are no person. -/
  remove : List String
  deriving DecidableEq

def pendingFormat : String := "iemmixer-migration"

/-- A `lineups/` directory: the migration's pending work, the active lineup with the time
since, and each lineup's files. -/
structure Tree (β : Type) where
  pending : Option Pending := none
  active : Option (String × ℕ) := none
  lineups : BTreeMap String (Files β) := ∅

def Tree.file (t : Tree β) (lineup : String) (kind : Kind) (id : String) : Option β :=
  t.lineups[lineup]?.bind fun files => files kind id

def Tree.put (t : Tree β) (lineup : String) (kind : Kind) (id : String) (content : Option β) : Tree β :=
  { t with lineups := t.lineups.update lineup (fun _ _ => none) (Files.put · kind id content) }

/-- The config directory: the legacy files, the photos, the PIN hashes, and the staged and
the live `lineups/`. -/
structure Disk (β : Type) where
  legacy : Files β
  photos : String → Bool
  pins : String → Option String
  staging : Option (Tree β) := none
  live : Option (Tree β) := none

/-- The disk, and the PIN hashes as the process holds them. -/
structure World (β : Type) where
  disk : Disk β
  pins : String → Option String

inductive Step where
  | look
  | stage
  | commit
  | delete
  | savePins

/-- What becomes of a step: a failed one, or the last before the process ends, leaves
anything in the staging directory when it was at work there; the last one of another kind
may have happened. -/
inductive Fate (β : Type) where
  | done
  | failed (text : String) (left : Option (Tree β))
  | stopped (happened : Bool) (left : Option (Tree β))

inductive Trouble where
  | io (text : String)
  /-- Refused with the roster's problems. -/
  | refused (problems : List String)
  | invalid (text : String)

abbrev MigM (β : Type) := ProcM Step (Fate β) (World β) Trouble

section
variable {β : Type}

def onDisk (f : Disk β → Disk β) (w : World β) : World β := { w with disk := f w.disk }

/-- A read of the disk, a listing or a look whether something exists. -/
def look (see : Disk β → α) : MigM β α := step .look fun fate w => match fate with
  | .done => (.ok (see w.disk), w)
  | .failed text _ => (.error (.error (.io text)), w)
  | .stopped .. => (.error .stopped, w)

/-- Work in the staging directory. -/
def stage (f : Disk β → Option (Tree β)) : MigM β Unit := step .stage fun fate w => match fate with
  | .done => (.ok (), onDisk (fun d => { d with staging := f d }) w)
  | .failed text left => (.error (.error (.io text)), onDisk ({ · with staging := left }) w)
  | .stopped _ left => (.error .stopped, onDisk ({ · with staging := left }) w)

/-- A step that happens whole or not at all. -/
def whole (op : Step) (f : World β → World β) : MigM β Unit := step op fun fate w => match fate with
  | .done => (.ok (), f w)
  | .failed text _ => (.error (.error (.io text)), w)
  | .stopped happened _ => (.error .stopped, if happened then f w else w)

def delete (f : Disk β → Disk β) : MigM β Unit := whole .delete (onDisk f)

/-- The staging directory renamed to `lineups/`. -/
def commit : MigM β Unit := whole .commit (onDisk fun d => { d with live := d.staging, staging := none })

/-- A staged file's change; the directories are made as needed. -/
def stageTree (f : Disk β → Tree β → Tree β) : MigM β Unit := stage fun d => some (f d (d.staging.getD {}))

/-- Copies a legacy file into the staged lineup `main` unless that has one or there is none;
`true` when it copied. -/
def copyDurable (main : String) (kind : Kind) (src dst : String) : MigM β Bool := do
  if !(← look fun d => (d.legacy kind src).isSome) then return false
  if ← look fun d => ((d.staging.getD {}).file main kind dst).isSome then return false
  -- The directories, the copy and its sync.
  stageTree fun _ t => t
  stageTree fun d t => t.put main kind dst (d.legacy kind src)
  stageTree fun _ t => t
  return true

/-- What the migration did, in ids only. -/
structure Report where
  moved : List String := []
  takenOver : List (String × String) := []
  removed : List String := []
  deriving DecidableEq

variable (roster : Roster)

/-- The engineer and the people stay. -/
def stays (id : String) : Bool := id == engineerId || (roster.person id).isSome

/-- Who takes over whose files. -/
def takers : List (String × String) := roster.people.filterMap fun p => p.takesOver.map fun x => (p.id, x)

/-- The legacy members, and the engineer. -/
def legacyMembers (members : List String) : List String := members.filter (· ≠ engineerId) ++ [engineerId]

/-- A member's own files under their own id. -/
def copyOwn (main : String) (moved : List String) (id : String) : MigM β (List String) := do
  if !stays roster id && (takers roster).any (·.2 == id) then return moved
  let copied ← kinds.foldlM (fun copied kind => do return (← copyDurable main kind id id) || copied) false
  return if copied && stays roster id then moved ++ [id] else moved

/-- Taken-over files under the taker's id; one the taker already has stays the former
member's. -/
def takeOver (main : String) (taken : List (String × String)) (taker : String × String) :
    MigM β (List (String × String)) := do
  let copied ← kinds.foldlM (fun copied kind => do
    if ← copyDurable main kind taker.2 taker.1 then return true
    let _ ← copyDurable main kind taker.2 taker.2
    return copied) false
  return if copied then taken ++ [taker] else taken

/-- Deletes `id`'s PIN hash. -/
def removeMember (id : String) : MigM β Bool := do
  let held ← Process.look (·.pins)
  if (held id).isNone then return false
  change fun w => { w with pins := Function.update w.pins id none }
  match ← (attempt (whole .savePins fun w => { w with disk := { w.disk with pins := w.pins } }) :
      MigM β (Except Trouble Unit)) with
  | .ok () => return true
  | .error e =>
    change fun w => { w with pins := Function.update w.pins id (held id) }
    fail e

def removePhoto (id : String) : MigM β Bool := do
  if !(← look fun d => d.photos id) then return false
  delete fun d => { d with photos := Function.update d.photos id false }
  return true

/-- Every file of `id` in the live lineups. -/
def filesOf (id : String) : MigM β (List (String × Kind)) := do
  let dirs ← look fun d => ((d.live.getD {}).lineups.keys).filter validLineupId
  dirs.foldlM (fun found dir => kinds.foldlM (fun found kind => do
    return if ← look fun d => ((d.live.getD {}).file dir kind id).isSome then found ++ [(dir, kind)] else found)
    found) []

/-- Deletes each file; counts them, and keeps the first error. -/
def deleteFiles (id : String) (failed : Option Trouble) (files : List (String × Kind)) :
    MigM β (ℕ × Option Trouble) :=
  files.foldlM (fun acc file => do
    match ← (attempt (delete fun d => { d with live := d.live.map (·.put file.1 file.2 id none) }) :
        MigM β (Except Trouble Unit)) with
    | .ok () => return (acc.1 + 1, acc.2)
    | .error e => return (acc.1, acc.2.or (some e))) (0, failed)

/-- The PIN hash first, then the photo and every lineup's files; what cannot be deleted is
passed over and the first such error returned at the end. -/
def removePerson (id : String) : MigM β Bool := do
  if !validPersonId id then fail (.invalid "a removal takes a lower-case person id only")
  if id == engineerId then fail (.invalid "the engineer PIN is stored with set_engineer_hash")
  let pin ← removeMember id
  let removed ← (attempt (removePhoto id) : MigM β (Except Trouble Bool))
  let photo := removed.toOption.getD false
  let failed := match removed with
    | .ok _ => none
    | .error e => some e
  let (files, failed) ← deleteFiles id failed (← filesOf id)
  match failed with
  | some e => fail e
  | none => return pin || photo || 0 < files

/-- Finishes a committed migration's pending work: deletes the legacy copies, removes the
former members who are no person, then the record of the work. -/
def finish : MigM β (List String) := do
  match ← look fun d => d.live.bind (·.pending) with
  | none => return []
  | some pending =>
    if pending.format ≠ pendingFormat then
      fail (.invalid ("format " ++ pending.format ++ " is not " ++ pendingFormat))
    if !(pending.delete ++ pending.remove).all validMemberId then fail (.invalid "a member id")
    each pending.delete fun id => each kinds fun kind =>
      delete fun d => { d with legacy := Files.put d.legacy kind id none }
    let removed ← pending.remove.foldlM (fun removed id =>
      if (roster.person id).isNone then do return if ← removePerson id then removed ++ [id] else removed
      else return removed) []
    delete fun d => { d with live := d.live.map ({ · with pending := none }) }
    return removed

/-- Moves the legacy layout into the main lineup, once; at `now`. -/
def migrateLegacy (members : List String) (now : ℕ) : MigM β Report := do
  if ← look fun d => (d.live.bind (·.active)).isSome then
    return { removed := ← finish roster }
  let problems := migrationProblems roster
  if !problems.isEmpty then fail (.refused problems)
  if ← look fun d => d.live.isSome then
    fail (.invalid "lineups exists without active.json: no migration commits over it (move it aside)")
  let legacy := legacyMembers members
  if ← look fun d => d.staging.isSome then stage fun _ => none
  let main := (roster.main.map (·.id)).getD ""
  let moved ← legacy.foldlM (copyOwn roster main) []
  let takenOver ← (takers roster).foldlM (takeOver main) []
  let former := legacy ++ (takers roster).map (·.2)
  let pending : Pending := { format := pendingFormat, delete := former, remove := former.filter (!stays roster ·) }
  stageTree fun _ t => { t with pending := some pending }
  stageTree fun _ t => { t with active := some (main, now) }
  commit
  return { moved, takenOver, removed := ← finish roster }

end

end IemMixer.Server.Migration
