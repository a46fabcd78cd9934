import IemMixer.Lib.Process
import IemMixer.Persist.Names
import IemMixer.Server.Migration
import IemMixer.Server.PinStore

/-! The removal of one person's data from the config directory: the PIN hash, the photo and
every lineup's files, and the look through the disk for what a removal left. Files are of any
content `β`. What becomes of each step of the disk is an oracle's. -/
namespace IemMixer.Server

/-- What the file holds once it is written. -/
def PinStore.written (s : PinStore) : PinStore := { s with disk := { s.file with archived := ∅ } }

/-- The store a process loads from the file. -/
def PinStore.load (file : PinFile) : PinStore := ⟨file, file⟩

namespace Removal
open Lib Lib.Process
open Migration (Kind kinds)

/-- What there is in `lineups/`: a file, or a directory with one of each kind. -/
inductive Entry (β : Type) where
  | file (content : β)
  | dir (files : Kind → BTreeMap String β)

/-- The config directory's `photos/` and `lineups/`, by names. -/
structure Disk (β : Type) where
  photos : BTreeMap String β := ∅
  lineups : BTreeMap String (Entry β) := ∅

inductive Path where
  | photo (name : String)
  | file (lineup : String) (kind : Kind) (name : String)
  /-- A file in `lineups/` itself. -/
  | loose (name : String)
  deriving DecidableEq

section
variable {β : Type}

namespace Disk

def isDir (d : Disk β) (name : String) : Bool := match d.lineups[name]? with
  | some (.dir _) => true
  | _ => false

def folder (d : Disk β) (lineup : String) (kind : Kind) : BTreeMap String β := match d.lineups[lineup]? with
  | some (.dir files) => files kind
  | _ => ∅

def content (d : Disk β) : Path → Option β
  | .photo name => d.photos[name]?
  | .file lineup kind name => (d.folder lineup kind)[name]?
  | .loose name => match d.lineups[name]? with
    | some (.file content) => some content
    | _ => none

def has (d : Disk β) (path : Path) : Bool := (d.content path).isSome

/-- `remove_file`. -/
def erase (d : Disk β) : Path → Disk β
  | .photo name => { d with photos := d.photos.erase name }
  | .file lineup kind name => match d.lineups[lineup]? with
    | some (.dir files) =>
      { d with lineups := d.lineups.insert lineup (.dir (Function.update files kind ((files kind).erase name))) }
    | _ => d
  | .loose name => match d.lineups[name]? with
    | some (.file _) => { d with lineups := d.lineups.erase name }
    | _ => d

end Disk

/-- The disk, and the PIN hashes with their file. -/
structure World (β : Type) where
  disk : Disk β
  pins : PinStore

inductive Step where
  | look
  | delete
  | savePins

/-- What becomes of a step; the last one before the process ends may have happened. -/
inductive Fate where
  | done
  | failed (text : String)
  | stopped (happened : Bool)

abbrev RemovalM (β : Type) := ProcM Step Fate (World β) PinError

/-- A read of the disk: a listing with its entries, or a look whether a file exists. -/
def look {α : Type} (see : Disk β → α) : RemovalM β α := step .look fun fate w => match fate with
  | .done => (.ok (see w.disk), w)
  | .failed text => (.error (.error (.io text)), w)
  | .stopped _ => (.error .stopped, w)

/-- A step that happens whole or not at all. -/
def whole (op : Step) (f : World β → World β) : RemovalM β Unit := step op fun fate w => match fate with
  | .done => (.ok (), f w)
  | .failed text => (.error (.error (.io text)), w)
  | .stopped happened => (.error .stopped, if happened then f w else w)

def delete (path : Path) : RemovalM β Unit := whole .delete fun w => { w with disk := w.disk.erase path }

def savePins : RemovalM β Unit := whole .savePins fun w => { w with pins := w.pins.written }

/-- The directories named like a lineup, in order. -/
def lineupDirs : RemovalM β (List String) :=
  look fun d => d.lineups.keys.filter fun name => validLineupId name && d.isDir name

def photoExt : String := "jpg"

def photoOf (id : String) : String := id ++ "." ++ photoExt

def fileOf (id : String) : String := id ++ ".json"

/-- The lower-case person id a file with the extension `ext` is named after. -/
def stemOf (ext name : String) : Option String := do
  let dotted ← Persist.stripTail ext.toList name.toList
  let stem ← Persist.stripTail ['.'] dotted
  if validPersonId (String.ofList stem) then some (String.ofList stem) else none

/-- Adds the ids the files of a directory are named after. -/
def stems (list : Disk β → List String) (ext : String) (out : BTreeSet String) : RemovalM β (BTreeSet String) := do
  let names ← look list
  return (names.filterMap (stemOf ext)).foldl (·.insert ·) out

/-- Every id with a photo or a lineup's file. -/
def heldIds : RemovalM β (BTreeSet String) := do
  let out ← stems (·.photos.keys) photoExt ∅
  (← lineupDirs).foldlM (fun out lineup => kinds.foldlM (fun out kind =>
    stems (fun d => (d.folder lineup kind).keys) "json" out) out) out

/-- Every file of `id` in the lineups. -/
def filesOf (id : String) : RemovalM β (List (String × Kind)) := do
  (← lineupDirs).foldlM (fun out lineup => kinds.foldlM (fun out kind => do
    return if ← look (·.has (.file lineup kind (fileOf id))) then out ++ [(lineup, kind)] else out) out) []

/-- Deletes a member's hash; `false` when there is none. -/
def removeMember (id : String) : RemovalM β Bool := do
  match checkMember id with
  | .error e => fail e
  | .ok () =>
    let pins ← Process.look (·.pins)
    match pins.memberHash id with
    | none => return false
    | some old =>
      change fun w => { w with pins := w.pins.withMember id none }
      match ← (attempt savePins : RemovalM β (Except PinError Unit)) with
      | .ok () => return true
      | .error e =>
        change fun w => { w with pins := w.pins.withMember id (some old) }
        fail e

/-- A photo's path, or an error for an id that is no member id. -/
def checkedPath (id : String) : Except PinError Path :=
  if validMemberId id then .ok (.photo (photoOf id))
  else .error (.invalidInput (if id = "" then "member_id cannot be empty"
    else s!"member_id '{id}' contains invalid characters (only a-z, A-Z, 0-9, _, - allowed)"))

/-- Deletes the photo; `false` when there is none. -/
def removePhoto (id : String) : RemovalM β Bool := do
  match checkedPath id with
  | .error e => fail e
  | .ok path =>
    if !(← look (·.has path)) then return false
    delete path
    return true

/-- Deletes each file; counts them, and keeps the first error. -/
def deleteFiles (id : String) (failed : Option PinError) (files : List (String × Kind)) :
    RemovalM β (ℕ × Option PinError) :=
  files.foldlM (fun acc file => do
    match ← (attempt (delete (.file file.1 file.2 (fileOf id))) : RemovalM β (Except PinError Unit)) with
    | .ok () => return (acc.1 + 1, acc.2)
    | .error e => return (acc.1, acc.2.or (some e))) (0, failed)

/-- The PIN hash first, then the photo and every lineup's files; what cannot be deleted is
passed over and the first such error returned at the end. `false` when there was nothing. -/
def removePerson (id : String) : RemovalM β Bool := do
  if !validPersonId id then fail (.invalidInput "a removal takes a lower-case person id only")
  let pin ← removeMember id
  let removed ← (attempt (removePhoto id) : RemovalM β (Except PinError Bool))
  let photo := removed.toOption.getD false
  let failed := match removed with
    | .ok _ => none
    | .error e => some e
  let (files, failed) ← deleteFiles id failed (← filesOf id)
  match failed with
  | some e => fail e
  | none => return pin || photo || 0 < files

/-- The next process, from the disk alone. -/
def World.restart (w : World β) : World β := { w with pins := .load w.pins.disk }

/-- A try to remove `id`: what it returned, `none` when the process stopped in it and the next
one started. -/
def World.remove (id : String) (o : Oracle Step Fate) (w : World β) : Option (Except PinError Bool) × World β :=
  match removePerson id o ⟨w, 0⟩ with
  | .ok any after => (some (.ok any), after.world)
  | .error (.error e) after => (some (.error e), after.world)
  | .error .stopped after => (none, after.world.restart)

/-- Where the removals of any people, whatever failed in them, lead from a config directory. -/
inductive Reached (disk : Disk β) (file : PinFile) : World β → Prop
  | start : Reached disk file ⟨disk, .load file⟩
  | remove {w : World β} (before : Reached disk file w) (id : String) (o : Oracle Step Fate) :
    Reached disk file (w.remove id o).2
  | restart {w : World β} (before : Reached disk file w) : Reached disk file w.restart

end

end Removal

end IemMixer.Server
