import IemMixer.Server.Removal

/-! The people's data follows a roster: whoever holds a PIN hash, a photo or a lineup's file and
is nobody of it is removed, and what an older server archived of people is deleted. A failure is
named and the rest still runs. -/
namespace IemMixer.Server

/-- `ErrorKind`, as it is shown. -/
def PinError.kind : PinError → String
  | .invalidData _ => "invalid data"
  | .invalidInput _ => "invalid input parameter"
  | .io kind => kind

namespace Removal
open Lib Lib.Process

/-- The config directory: the people's data, and whether there is an `archive/` folder. -/
structure Site (β : Type) where
  world : World β
  archive : Bool := false

inductive SiteStep where
  | person (op : Step)
  | seeArchive
  | dropArchive

abbrev SiteM (β ε : Type) := ProcM SiteStep Fate (Site β) ε

section
variable {β ε α : Type}

def Site.withWorld (s : Site β) (w : World β) : Site β := { s with world := w }

/-- The steps of one person's data, an error of theirs taken as a value. -/
def people (m : RemovalM β α) : SiteM β ε (Except PinError α) :=
  attempt (focus Site.world Site.withWorld (relabel SiteStep.person m))

/-- Whether there is the folder; a look that fails says there is none. -/
def archiveIsDir : SiteM β ε Bool := step .seeArchive fun fate s => match fate with
  | .done => (.ok s.archive, s)
  | .failed _ => (.ok false, s)
  | .stopped _ => (.error .stopped, s)

/-- Deletes the folder, whatever it holds; `false` when there is none. -/
def dropArchive : SiteM β PinError Bool := do
  if !(← archiveIsDir) then return false
  step .dropArchive fun fate s => match fate with
    | .done => (.ok true, { s with archive := false })
    | .failed text => (.error (.error (.io text)), s)
    | .stopped happened => (.error .stopped, if happened then { s with archive := false } else s)

/-- Deletes the hashes an older server archived; their ids. -/
def dropArchived : RemovalM β (List String) := do
  let pins ← Process.look (·.pins)
  if pins.file.archived.isEmpty then return []
  change fun w => { w with pins := { w.pins with file := { w.pins.file with archived := ∅ } } }
  match ← (attempt savePins : RemovalM β (Except PinError Unit)) with
  | .ok () => return pins.file.archived.keys
  | .error e =>
    change fun w => { w with pins := { w.pins with file := { w.pins.file with archived := pins.file.archived } } }
    fail e

def archivedKept (e : PinError) : String := s!"the PIN hashes an older server archived were not deleted: {e.kind}"

def archiveKept (e : PinError) : String := s!"the archive an older server wrote was not deleted: {e.kind}"

def notLookedThrough (e : PinError) : String :=
  s!"the people's photos and files were not looked through: {e.kind}"

def notRemoved (id : String) (e : PinError) : String := s!"person '{id}' was not removed: {e.kind}"

/-- The problem of what went wrong, if anything did. -/
def problemOf (problem : PinError → String) : Except PinError α → List String
  | .ok _ => []
  | .error e => [problem e]

/-- One id of those looked through. -/
def followPerson (roster : Roster) (out : People) (id : String) : SiteM β ε People := do
  if id = engineerId ∨ (roster.person id).isSome then return out
  if !validPersonId id then return { out with problems := out.problems ++ [notAPersonId] }
  match ← people (removePerson id) with
  | .ok any => return { out with
    removed := if any then out.removed ++ [id] else out.removed, gone := out.gone ++ [id] }
  | .error e => return { out with problems := out.problems ++ [notRemoved id e] }

/-- The people's data follows `roster`: those it took out, and whoever else has a hash, a photo
or a file, are removed where they are nobody of it. -/
def followPeople (roster : Roster) (removed : List String) : SiteM β ε People := do
  let archived ← people dropArchived
  let archive ← attempt dropArchive
  let looked ← people heldIds
  let held := match looked with
    | .ok held => held.toList
    | .error _ => []
  let problems := problemOf archivedKept archived ++ problemOf archiveKept archive ++ problemOf notLookedThrough looked
  let pins ← Process.look (·.world.pins)
  (lookedThrough removed pins.memberIds held).foldlM (followPerson roster) { problems }

/-- The people's data follows `roster`: what it returned, `none` when the process stopped in it
and the next one started. -/
def Site.follow (roster : Roster) (removed : List String) (o : Oracle SiteStep Fate) (s : Site β) :
    Option People × Site β :=
  match (followPeople roster removed : SiteM β Empty People) o ⟨s, 0⟩ with
  | .ok out after => (some out, after.world)
  | .error _ after => (none, after.world.withWorld after.world.world.restart)

/-- Where following the rosters of `rs` in turn leads, whatever failed and whenever a process
stopped. -/
inductive Followed (s₀ : Site β) : List Roster → Site β → Prop
  | start : Followed s₀ [] s₀
  | follow {rs : List Roster} {s : Site β} (before : Followed s₀ rs s) (roster : Roster) (removed : List String)
    (o : Oracle SiteStep Fate) : Followed s₀ (rs ++ [roster]) (s.follow roster removed o).2
  | restart {rs : List Roster} {s : Site β} (before : Followed s₀ rs s) :
    Followed s₀ rs (s.withWorld s.world.restart)

end

end Removal

end IemMixer.Server
