import IemMixer.Server.RosterProblems

/-! The PIN hashes, in memory and in their file, and the removal of the people a roster no
longer holds. What becomes of each write and of each deletion is given. -/
namespace IemMixer.Server
open Lib

structure PinFile where
  engineer : Option String := none
  members : BTreeMap String String := ∅
  /-- Hashes an older server kept of people it archived; never written back. -/
  archived : BTreeMap String String := ∅

inductive PinError where
  | invalidData (text : String)
  | invalidInput (text : String)
  | io (text : String)
  deriving DecidableEq

/-- The hashes in use, and what the file holds. -/
structure PinStore where
  file : PinFile := {}
  disk : PinFile := {}

/-- What becomes of a write: nothing, or why it failed. -/
abbrev Write := Except String Unit

def argon2id : String := "$argon2id$"

def checkPhc (owner phc : String) : Except PinError Unit :=
  if argon2id.toList.isPrefixOf phc.toList then .ok ()
  else .error (.invalidData s!"the PIN entry for {owner} is not an argon2id hash")

def checkMember (id : String) : Except PinError Unit :=
  if !validMemberId id then
    .error (.invalidInput (if id = "" then "member_id cannot be empty"
      else s!"member_id '{id}' contains invalid characters (only a-z, A-Z, 0-9, _, - allowed)"))
  else if id = engineerId then .error (.invalidInput "the engineer PIN is stored with set_engineer_hash")
  else .ok ()

namespace PinStore

/-- Writes the file; a write that fails leaves the old one. -/
def save (s : PinStore) (write : Write) : Except PinError PinStore :=
  match write with
  | .ok () => .ok { s with disk := { s.file with archived := ∅ } }
  | .error text => .error (.io text)

def memberHash (s : PinStore) (id : String) : Option String := s.file.members[id]?

def memberIds (s : PinStore) : List String := s.file.members.keys

/-- A member's hash, or none, put in place. -/
def withMember (s : PinStore) (id : String) (phc : Option String) : PinStore :=
  { s with file := { s.file with members := match phc with
    | some phc => s.file.members.insert id phc
    | none => s.file.members.erase id } }

/-- Deletes a member's hash; `false` when there is none. -/
def removeMember (s : PinStore) (id : String) (write : Write) : Except PinError Bool × PinStore :=
  match checkMember id with
  | .error e => (.error e, s)
  | .ok () => match s.memberHash id with
    | none => (.ok false, s)
    | some old =>
      let removed := s.withMember id none
      match removed.save write with
      | .ok saved => (.ok true, saved)
      | .error e => (.error e, removed.withMember id (some old))

def setMemberHash (s : PinStore) (id phc : String) (write : Write) : Except PinError Unit × PinStore :=
  match (do checkMember id; checkPhc id phc) with
  | .error e => (.error e, s)
  | .ok () =>
    let set := s.withMember id (some phc)
    match set.save write with
    | .ok saved => (.ok (), saved)
    | .error e => (.error e, set.withMember id (s.memberHash id))

def setEngineerHash (s : PinStore) (phc : String) (write : Write) : Except PinError Unit × PinStore :=
  match checkPhc engineerId phc with
  | .error e => (.error e, s)
  | .ok () =>
    let set := { s with file := { s.file with engineer := some phc } }
    match set.save write with
    | .ok saved => (.ok (), saved)
    | .error e => (.error e, { set with file := { set.file with engineer := s.file.engineer } })

/-- Deletes the hashes an older server archived; their ids. -/
def dropArchived (s : PinStore) (write : Write) : Except PinError (List String) × PinStore :=
  if s.file.archived.isEmpty then (.ok [], s)
  else
    let dropped := { s with file := { s.file with archived := ∅ } }
    match dropped.save write with
    | .ok saved => (.ok s.file.archived.keys, saved)
    | .error e => (.error e, { dropped with file := { dropped.file with archived := s.file.archived } })

end PinStore

/-- What becomes of a removal: of the PIN file's write, and of the photo and the files of
theirs, of which there were any or not. -/
structure Deletion where
  write : Write := .ok ()
  files : Except String Bool := .ok false

/-- Removes `id`: their PIN hash first, then all else of theirs. `false` when there was
nothing. -/
def removePerson (pins : PinStore) (id : String) (d : Deletion) : Except PinError Bool × PinStore :=
  if !validPersonId id then (.error (.invalidInput "a removal takes a lower-case person id only"), pins)
  else match pins.removeMember id d.write with
    | (.error e, pins) => (.error e, pins)
    | (.ok pin, pins) => match d.files with
      | .error text => (.error (.io text), pins)
      | .ok found => (.ok (pin || found), pins)

/-- What a removal of people did: whom it removed, what went wrong, and whose removal ended
well, whether or not anything of theirs was left. -/
structure People where
  removed : List String := []
  problems : List String := []
  gone : List String := []

def notAPersonId : String := "a PIN hash whose id is no lower-case person id was not removed"

/-- What becomes of the work on the disk: the archived hashes' write, the archive folder, the
look through photos and files, and each deletion. -/
structure Work where
  archived : Write := .ok ()
  archive : Write := .ok ()
  held : Except String (List String) := .ok []
  deletion : String → Deletion := fun _ => {}

/-- One id of those looked through. -/
def followPerson (roster : Roster) (work : Work) (done : People × PinStore) (id : String) : People × PinStore :=
  let (out, pins) := done
  if id = engineerId ∨ (roster.person id).isSome then (out, pins)
  else if !validPersonId id then ({ out with problems := out.problems ++ [notAPersonId] }, pins)
  else match removePerson pins id (work.deletion id) with
    | (.ok any, pins) =>
      ({ out with removed := if any then out.removed ++ [id] else out.removed, gone := out.gone ++ [id] }, pins)
    | (.error _, pins) => ({ out with problems := out.problems ++ [s!"person '{id}' was not removed"] }, pins)

/-- The ids to look through: those the roster took out, then whoever has a hash, a photo or a
file. -/
def lookedThrough (removed pinned held : List String) : List String :=
  (pinned ++ held).foldl (fun gone id => if gone.contains id then gone else gone ++ [id]) removed

/-- The people's data follows `roster`. -/
def followPeople (roster : Roster) (pins : PinStore) (removed : List String) (work : Work) : People × PinStore :=
  let (dropped, pins) := pins.dropArchived work.archived
  let problems := match dropped with
    | .ok _ => []
    | .error _ => ["the PIN hashes an older server archived were not deleted"]
  let problems := problems ++ match work.archive with
    | .ok () => []
    | .error e => [s!"the archive an older server wrote was not deleted: {e}"]
  let (held, problems) := match work.held with
    | .ok held => (held, problems)
    | .error e => ([], problems ++ [s!"the people's photos and files were not looked through: {e}"])
  (lookedThrough removed pins.memberIds held).foldl (followPerson roster work) ({ problems }, pins)

end IemMixer.Server
