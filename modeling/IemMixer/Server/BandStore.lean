import IemMixer.Lib.Process
import IemMixer.Lib.Shed
import IemMixer.Server.Migration
import IemMixer.Server.Ramp
import Mathlib.Data.List.Sort

/-! The band store: a member's presets and history, a file each, replaced whole. Its files'
text is the `Serde` class; what becomes of each step on the disk is an oracle's. -/
namespace IemMixer.Server

deriving instance DecidableEq for MixSend

end IemMixer.Server

namespace IemMixer.Server.BandStore
open Lib Proto Lib.Process
open Migration (Kind Files)

def schema : UInt32 := 3

def presetsFormat : String := "iemmixer-presets"

def snapshotsFormat : String := "iemmixer-snapshots"

/-- Presets per member. -/
def maxPresets : ℕ := 20

/-- History entries per member; the oldest unpinned ones are pruned. -/
def maxSnapshots : ℕ := 50

/-- What a preset or snapshot holds of a page's mix. -/
structure Captured where
  sends : List MixSend := []
  /-- The member's group strips, in dB. -/
  groups : BTreeMap GroupId F64 := ∅
  /-- Input EQ saved with it: never applied. -/
  inputEq : BTreeMap InputId EqState := ∅
  deriving DecidableEq

/-- Its numbers are finite: JSON has no others. -/
def Captured.finite (c : Captured) : Bool :=
  c.sends.all (fun s => s.gainDb.isFinite && s.pan.isFinite) && c.groups.toList.all (·.2.isFinite) &&
    c.inputEq.toList.all (·.2.finite)

structure Preset extends Captured where
  name : String := ""
  createdAt : Int64 := 0
  updatedAt : Int64 := 0
  /-- Imported from a renamed member: read-only. -/
  archived : Bool := false
  legacyMember : Option String := none
  deriving DecidableEq

structure Snapshot extends Captured where
  timestamp : Int64 := 0
  label : String := ""
  pinned : Bool := false
  archived : Bool := false
  legacyMember : Option String := none
  deriving DecidableEq

structure PresetFile where
  format : String := ""
  schema : UInt32 := 0
  member : String := ""
  presets : List Preset := []
  deriving DecidableEq

structure SnapshotFile where
  format : String := ""
  schema : UInt32 := 0
  member : String := ""
  snapshots : List Snapshot := []
  deriving DecidableEq

/-- Header fields every band file carries. -/
class BandFile (F : Type) where
  kind : Kind
  format : String
  header : F → String × UInt32
  newFor : String → F
  finite : F → Bool

instance : BandFile PresetFile where
  kind := .presets
  format := presetsFormat
  header f := (f.format, f.schema)
  newFor member := ⟨presetsFormat, schema, member, []⟩
  finite f := f.presets.all (·.finite)

instance : BandFile SnapshotFile where
  kind := .snapshots
  format := snapshotsFormat
  header f := (f.format, f.schema)
  newFor member := ⟨snapshotsFormat, schema, member, []⟩
  finite f := f.snapshots.all (·.finite)

/-- A file's text, `serde_json`. -/
class Serde (β F : Type) where
  fromStr : β → Except String F
  toStringPretty : F → Except String β

/-- A file of finite numbers has a text and reads back from it as it was, and no text gives
other numbers. -/
class LawfulSerde (β F : Type) [BandFile F] [Serde β F] : Prop where
  text : ∀ f : F, ∃ b : β, Serde.toStringPretty f = .ok b
  back : ∀ (f : F) (b : β), BandFile.finite f = true → Serde.toStringPretty f = .ok b → Serde.fromStr b = .ok f
  finite : ∀ (b : β) (f : F), Serde.fromStr b = .ok f → BandFile.finite f = true

/-- Texts that are a file itself: a codec to evaluate with. -/
inductive PlainText where
  | presets (file : PresetFile)
  | snapshots (file : SnapshotFile)

instance : Serde PlainText PresetFile where
  fromStr
    | .presets file => if BandFile.finite file then .ok file else .error "number out of range"
    | .snapshots _ => .error "not presets"
  toStringPretty file := .ok (.presets file)

instance : Serde PlainText SnapshotFile where
  fromStr
    | .snapshots file => if BandFile.finite file then .ok file else .error "number out of range"
    | .presets _ => .error "not a history"
  toStringPretty file := .ok (.snapshots file)

instance : LawfulSerde PlainText PresetFile where
  text file := ⟨.presets file, rfl⟩
  back := by rintro file _ finite ⟨⟩; exact if_pos finite
  finite := by
    rintro (text | text) file parsed
    · change (if BandFile.finite text then Except.ok text else .error _) = .ok file at parsed
      split at parsed
      · cases parsed; assumption
      · cases parsed
    · cases parsed

instance : LawfulSerde PlainText SnapshotFile where
  text file := ⟨.snapshots file, rfl⟩
  back := by rintro file _ finite ⟨⟩; exact if_pos finite
  finite := by
    rintro (text | text) file parsed
    · cases parsed
    · change (if BandFile.finite text then Except.ok text else .error _) = .ok file at parsed
      split at parsed
      · cases parsed; assumption
      · cases parsed

/-- The data directory: the files, and the new ones on their way to a name. -/
structure Disk (β : Type) where
  files : Files β
  tmp : Files β := fun _ _ => none

inductive Step where
  | read (kind : Kind) (member : String)
  | createDirs
  | writeTmp
  | syncTmp
  | rename
  | syncDir

/-- What becomes of a step: one that does not end leaves anything in the file it was writing,
and the last before the process ends may have happened. -/
inductive Fate (β : Type) where
  | done
  | failed (text : String) (torn : Option β)
  | stopped (happened : Bool) (torn : Option β)

inductive StoreError where
  | io (text : String)
  | corrupt (path text : String)
  | full
  | archived
  | badMember (text : String)
  deriving DecidableEq

def StoreError.message : StoreError → String
  | .io text => text
  | .corrupt path text => s!"{path} is not a band schema-3 file: {text}"
  | .full => s!"maximum {maxPresets} presets reached"
  | .archived => "archived entries are read-only"
  | .badMember text => s!"member id: {text}"

abbrev BandM (β : Type) := ProcM Step (Fate β) (Disk β) StoreError

section
variable {β α : Type}

def lift (x : Except StoreError α) : BandM β α :=
  match x with
  | .ok a => pure a
  | .error e => fail e

/-- A look at the disk. -/
def see (path : String) (op : Step) (f : Disk β → α) : BandM β α := step op fun fate d => match fate with
  | .done => (.ok (f d), d)
  | .failed text _ => (.error (.error (.io s!"{path}: {text}")), d)
  | .stopped .. => (.error .stopped, d)

/-- A step that happens whole or not at all. -/
def whole (path : String) (op : Step) (f : Disk β → Disk β) : BandM β Unit := step op fun fate d => match fate with
  | .done => (.ok (), f d)
  | .failed text _ => (.error (.error (.io s!"{path}: {text}")), d)
  | .stopped happened _ => (.error .stopped, if happened then f d else d)

/-- `create` and `write_all` of the file next to the one it is to replace. -/
def writeTmp (path : String) (kind : Kind) (member : String) (text : β) : BandM β Unit :=
  step .writeTmp fun fate d => match fate with
    | .done => (.ok (), { d with tmp := d.tmp.put kind member (some text) })
    | .failed e torn => (.error (.error (.io s!"{path}: {e}")), { d with tmp := d.tmp.put kind member torn })
    | .stopped _ torn => (.error .stopped, { d with tmp := d.tmp.put kind member torn })

/-- The written file takes the name. -/
def Disk.renamed (kind : Kind) (member : String) (d : Disk β) : Disk β :=
  { files := d.files.put kind member (d.tmp kind member), tmp := d.tmp.put kind member none }

/-- The data reaches the disk before the file takes the name, and the name before this returns. -/
def atomicWrite (path : String) (kind : Kind) (member : String) (text : β) : BandM β Unit := do
  writeTmp path kind member text
  whole path .syncTmp id
  whole path .rename (Disk.renamed kind member)
  whole path .syncDir id

def kindName : Kind → String
  | .presets => "presets"
  | .snapshots => "snapshots"
  | .customizations => "customizations"

/-- Why the id is no member's. -/
def memberProblem (member : String) : String :=
  if member = "" then "member_id cannot be empty"
  else s!"member_id '{member}' contains invalid characters (only a-z, A-Z, 0-9, _, - allowed)"

/-- A store over a data directory. -/
structure Store where
  dir : String

variable (s : Store)

/-- The path the store keeps a member's file at. -/
def Store.path (kind : Kind) (member : String) : Except StoreError String :=
  if validMemberId member then .ok s!"{s.dir}/{kindName kind}/{member}.json" else .error (.badMember (memberProblem member))

section
variable {F : Type} [BandFile F] [Serde β F]

/-- What the text at `path` is taken for: another format's or schema's is an error. -/
def accept (path member : String) : Option β → Except StoreError F
  | none => .ok (BandFile.newFor member)
  | some text =>
    match Serde.fromStr text with
    | .error e => .error (.corrupt path e)
    | .ok file =>
      let (format, version) := BandFile.header file
      if format ≠ BandFile.format F ∨ version ≠ schema then
        .error (.corrupt path s!"format {format.quote}, schema {version}")
      else .ok file

/-- What a read that ends gives. -/
def Store.held (d : Disk β) (member : String) : Except StoreError F := do
  let path ← s.path (BandFile.kind F) member
  accept path member (d.files (BandFile.kind F) member)

def Store.read (member : String) : BandM β F := do
  let path ← lift (s.path (BandFile.kind F) member)
  let text ← see path (.read (BandFile.kind F) member) fun d => d.files (BandFile.kind F) member
  lift (accept path member text)

def Store.write (member : String) (file : F) : BandM β Unit := do
  let path ← lift (s.path (BandFile.kind F) member)
  whole path .createDirs id
  let json ← lift ((Serde.toStringPretty file).mapError .io)
  atomicWrite path (BandFile.kind F) member json

end

/-- The first that fits, with its position. -/
def position (fits : α → Bool) (list : List α) : Option (ℕ × α) :=
  (list.findIdx? fits).bind fun i => list[i]?.map (i, ·)

section
variable [Serde β PresetFile]

/-- Presets, newest update first. -/
def Store.presets (member : String) : BandM β (List Preset) := do
  let file : PresetFile ← s.read member
  return file.presets.insertionSort fun a b => b.updatedAt ≤ a.updatedAt

def Store.preset (member name : String) : BandM β (Option Preset) := do
  let list ← s.presets member
  return list.find? (·.name == name)

/-- Saves (or overwrites) `name` with this content at `now`. -/
def Store.savePreset (member name : String) (content : Captured) (now : Int64) : BandM β Preset := do
  let file : PresetFile ← s.read member
  let existing := position (·.name == name) file.presets
  let createdAt ← lift (match existing with
    | some (_, p) => if p.archived then .error .archived else .ok p.createdAt
    | none => if maxPresets ≤ file.presets.length then .error .full else .ok now)
  let preset : Preset := { toCaptured := content, name, createdAt, updatedAt := now }
  let presets := match existing with
    | some (i, _) => file.presets.set i preset
    | none => file.presets ++ [preset]
  s.write member { file with presets }
  return preset

def Store.deletePreset (member name : String) : BandM β Bool := do
  let file : PresetFile ← s.read member
  match position (·.name == name) file.presets with
  | none => return false
  | some (i, p) =>
    if p.archived then fail .archived
    s.write member { file with presets := file.presets.eraseIdx i }
    return true

end

/-- Steps over the seconds that are taken, as long as they follow each other. -/
def walk : List Int64 → Int64 → Int64
  | [], t => t
  | next :: rest, t => if next ≠ t then t else walk rest (t + 1)

/-- The second an entry of `t` is stored under. -/
def freeSecond (list : List Snapshot) (t : Int64) : Int64 :=
  let taken : BTreeSet Int64 := .ofList (list.map (·.timestamp))
  walk (taken.toList.filter (t ≤ ·)) t

/-- Not younger. -/
abbrev Older (a b : Snapshot) : Prop := a.timestamp ≤ b.timestamp

/-- Oldest unpinned first out until at most 50 remain. -/
def prune (list : List Snapshot) : List Snapshot := Shed.shed maxSnapshots (!·.pinned) (list.insertionSort Older)

section
variable [Serde β SnapshotFile]

/-- History, newest first. -/
def Store.snapshots (member : String) : BandM β (List Snapshot) := do
  let file : SnapshotFile ← s.read member
  return file.snapshots.insertionSort fun a b => Older b a

def Store.snapshot (member : String) (ts : Int64) : BandM β (Option Snapshot) := do
  let list ← s.snapshots member
  return list.find? (·.timestamp == ts)

/-- Adds a snapshot and prunes; returns the timestamp it is stored under, its id. -/
def Store.addSnapshot (member : String) (snapshot : Snapshot) : BandM β Int64 := do
  let file : SnapshotFile ← s.read member
  let id := freeSecond file.snapshots snapshot.timestamp
  s.write member { file with snapshots := prune (file.snapshots ++ [{ snapshot with timestamp := id }]) }
  return id

def Store.editSnapshot (member : String) (ts : Int64) (f : List Snapshot → ℕ → List Snapshot) : BandM β Bool := do
  let file : SnapshotFile ← s.read member
  match position (·.timestamp == ts) file.snapshots with
  | none => return false
  | some (i, x) =>
    if x.archived then fail .archived
    s.write member { file with snapshots := f file.snapshots i }
    return true

def Store.deleteSnapshot (member : String) (ts : Int64) : BandM β Bool :=
  s.editSnapshot member ts fun list i => list.eraseIdx i

/-- Pins (with a label) or unpins a snapshot. -/
def Store.pinSnapshot (member : String) (ts : Int64) (pinned : Bool) (label : Option String) : BandM β Bool :=
  s.editSnapshot member ts fun list i => list.modify i fun x => { x with pinned, label := label.getD x.label }

end

/-- The calls that change a file. -/
inductive Call where
  | savePreset (member name : String) (content : Captured) (now : Int64)
  | deletePreset (member name : String)
  | addSnapshot (member : String) (snapshot : Snapshot)
  | deleteSnapshot (member : String) (ts : Int64)
  | pinSnapshot (member : String) (ts : Int64) (pinned : Bool) (label : Option String)

inductive Answer where
  | preset (preset : Preset)
  | id (ts : Int64)
  /-- Whether there was one. -/
  | found (was : Bool)
  deriving DecidableEq

variable [Serde β PresetFile] [Serde β SnapshotFile]

def Call.run (call : Call) : BandM β Answer :=
  match call with
  | .savePreset member name content now => do return .preset (← s.savePreset member name content now)
  | .deletePreset member name => do return .found (← s.deletePreset member name)
  | .addSnapshot member snapshot => do return .id (← s.addSnapshot member snapshot)
  | .deleteSnapshot member ts => do return .found (← s.deleteSnapshot member ts)
  | .pinSnapshot member ts pinned label => do return .found (← s.pinSnapshot member ts pinned label)

/-- What a call answered (nothing when the process ended), and the disk it left. -/
def Call.answered (call : Call) (o : Oracle Step (Fate β)) (w : Clocked (Disk β)) :
    Except (Halt StoreError) Answer × Clocked (Disk β) :=
  match call.run s o w with
  | .ok a w' => (.ok a, w')
  | .error e w' => (.error e, w')

end

end IemMixer.Server.BandStore
