import IemMixer.Lib.Files
import IemMixer.Server.Desk
import IemMixer.Server.RosterProblems

/-! The files of `lineups/`: the active lineup, a running switch, what the running state follows,
each lineup's stored state and every roster a state may follow. A write is a synced temporary file
renamed over the old one. -/
namespace IemMixer.Server
open Lib Proto

/-- A file of the directory. -/
inductive LineupFile where
  | active
  | switch
  | applied
  | running
  | state (id : String)
  | kept (sha256 : String)
  deriving DecidableEq

namespace LineupFile

/-- Its path without the extension, and the extension. -/
def parts : LineupFile → String × String
  | active => ("active", ".json")
  | switch => ("switch", ".json")
  | applied => ("applied-roster", ".toml")
  | running => ("running", ".json")
  | state id => (id ++ "/state", ".json")
  | kept sha256 => ("rosters.kept/" ++ sha256, ".toml")

def path (f : LineupFile) : String := f.parts.1 ++ f.parts.2

/-- `with_extension("tmp")`. -/
def tmp (f : LineupFile) : String := f.parts.1 ++ ".tmp"

end LineupFile

/-- A file's bytes: of a text, and their text when they are UTF-8. -/
class TextFile (β : Type) where
  bytes : String → β
  text : β → Except String String

/-- `serde_json` on `τ`. -/
class Serde (τ : Type) where
  toText : τ → Except String String
  ofText : String → Except String τ

/-- `Roster::parse`. -/
class RosterText where
  parse : String → Except String Roster

/-- A file reads back as it was written. -/
class LawfulText (β : Type) [TextFile β] : Prop where
  text : ∀ t : String, TextFile.text (TextFile.bytes t : β) = .ok t

def activeFormat : String := "iemmixer-active-lineup"

structure ActiveFile where
  format : String
  lineup : String
  since : ℤ

def backupFormat : String := "iemmixer-backup"

def backupVersion : ℕ := 2

/-- What a backup says it is: `""` and 0 where it does not say. -/
structure BackupHead where
  format : String
  version : ℕ

/-- Reads a backup file; the predecessor's version-1 files and foreign JSON are refused with the
reason. -/
def MixerBackup.parse [Serde BackupHead] [Serde MixerBackup] (text : String) : Except String MixerBackup := do
  let head : BackupHead ← (Serde.ofText text).mapError ("not JSON: " ++ ·)
  if head.format ≠ backupFormat then
    throw ("not an iemmixer backup (format " ++ head.format.quote ++ ")")
  if head.version ≠ backupVersion then
    throw ("backup version " ++ toString head.version ++ " is not supported (this server reads version " ++
      toString backupVersion ++ ")")
  (Serde.ofText text).mapError ("not JSON: " ++ ·)

/-- The `lineups/` directory of a config directory. -/
structure LineupStore where
  dir : String

/-- A computation on the files; the store itself remembers nothing. -/
abbrev LineupM (β : Type) := Files.FileM β Unit

def invalid (what : String) : Files.IoError := ⟨.other, what⟩

namespace LineupStore

section
variable {β : Type}

def checkId (id : String) : LineupM β Unit :=
  if validLineupId id then pure () else Files.fail (invalid ("'" ++ id ++ "' is not a lineup id"))

/-- `map_err(io::Error::other)`. -/
def other {α : Type} (x : Except String α) : LineupM β α :=
  match x with
  | .ok a => pure a
  | .error e => Files.fail ⟨.other, e⟩

def display (s : LineupStore) (f : LineupFile) : String := s.dir ++ "/" ++ f.path

/-- What `path` shows of an error. -/
def named {α : Type} (s : LineupStore) (f : LineupFile) (m : LineupM β α) : LineupM β α :=
  Files.mapErr (fun e => { e with text := s.display f ++ ": " ++ e.text }) m

/-- What a text decodes to; one that does not is invalid data. -/
def parsed {α : Type} (s : LineupStore) (f : LineupFile) (x : Except String α) : LineupM β α :=
  match x with
  | .ok a => pure a
  | .error e => Files.fail (invalid (s.display f ++ ": " ++ e))

variable [TextFile β]

/-- The file's text; `None` when it does not exist. -/
def readOptional (s : LineupStore) (f : LineupFile) : LineupM β (Option String) := do
  match ← Files.attempt (Files.read f.path) with
  | .ok bytes => return some (← parsed s f (TextFile.text bytes))
  | .error e =>
    if e.kind = .notFound then return none
    named s f (Files.fail e)

/-- Writes `data` through a synced temporary file renamed over the file. -/
def writeDurable (f : LineupFile) (data : String) : LineupM β Unit := do
  -- A folder that cannot be created is a write that fails.
  Files.write f.tmp (TextFile.bytes data)
  Files.syncFile f.tmp
  Files.rename f.tmp f.path

section
variable [Serde ActiveFile]

/-- The active lineup; `None` before any was recorded. -/
def active (s : LineupStore) : LineupM β (Option String) := do
  let some text ← s.readOptional .active | return none
  let file : ActiveFile ← s.parsed .active (Serde.ofText text)
  if file.format ≠ activeFormat then
    s.parsed .active (.error ("format " ++ file.format.quote ++ " is not " ++ activeFormat.quote))
  s.named .active (checkId file.lineup)
  return some file.lineup

/-- Records `id` as the active lineup since `since` (Unix seconds). -/
def setActive (id : String) (since : ℤ) : LineupM β Unit := do
  checkId id
  let json ← other (Serde.toText { format := activeFormat, lineup := id, since : ActiveFile })
  writeDurable .active json

end

section
variable [Serde BackupHead] [Serde MixerBackup]

/-- The lineup's stored state; `None` when it has none yet. -/
def state (s : LineupStore) (id : String) : LineupM β (Option MixerBackup) := do
  checkId id
  let some text ← s.readOptional (.state id) | return none
  return some (← s.parsed (.state id) (MixerBackup.parse text))

def saveState (id : String) (backup : MixerBackup) : LineupM β Unit := do
  checkId id
  let json ← other (Serde.toText backup)
  writeDurable (.state id) json

end

section
variable [Serde Running]

/-- What the running state follows; `None` before it was recorded. -/
def running (s : LineupStore) : LineupM β (Option Running) := do
  let some text ← s.readOptional .running | return none
  let running : Running ← s.parsed .running (Serde.ofText text)
  s.named .running (checkId running.lineup)
  return some running

def setRunning (running : Running) : LineupM β Unit := do
  checkId running.lineup
  let json ← other (Serde.toText running)
  writeDurable .running json

end

/-- Whether `sha256` is one. -/
def isSha256 (sha256 : String) : Bool :=
  sha256.utf8ByteSize == 64 && sha256.toList.all fun c => c.isDigit || ('a' ≤ c && c ≤ 'f')

/-- Keeps `text` as a roster a state may follow; one kept already is not written again. -/
def keepRoster (sha256 text : String) : LineupM β Unit := do
  if !isSha256 sha256 then Files.fail (invalid ("'" ++ sha256 ++ "' is no SHA-256"))
  if ← Files.isThere (LineupFile.kept sha256).path then return
  writeDurable (.kept sha256) text

/-- The kept roster whose SHA-256 is `sha256`. -/
def keptRoster (s : LineupStore) (sha256 : String) : LineupM β (Option String) :=
  if isSha256 sha256 then s.readOptional (.kept sha256) else pure none

/-- The roster the states follow; `None` before one was recorded. -/
def appliedRoster (s : LineupStore) : LineupM β (Option String) := s.readOptional .applied

def setAppliedRoster (text : String) : LineupM β Unit := writeDurable .applied text

section
variable [Serde SwitchIntent]

/-- The running switch's intent; `None` when no switch runs. -/
def intent (s : LineupStore) : LineupM β (Option SwitchIntent) := do
  let some text ← s.readOptional .switch | return none
  let intent : SwitchIntent ← s.parsed .switch (Serde.ofText text)
  s.named .switch (checkId intent.src)
  s.named .switch (checkId intent.dst)
  return some intent

def setIntent (i : SwitchIntent) : LineupM β Unit := do
  checkId i.src
  checkId i.dst
  let json ← other (Serde.toText i)
  writeDurable .switch json

end

/-- Ends a switch: its intent is gone (none is fine). -/
def clearIntent : LineupM β Unit := do
  match ← Files.attempt (Files.remove LineupFile.switch.path) with
  | .ok () => return
  | .error e => if e.kind ≠ .notFound then Files.fail e

end

end LineupStore

/-- What the directory holds: the lineups' store, and the text of the roster the states follow. -/
structure LineupFiles where
  store : Store := {}
  applied : Option String := none

/-- A write to the directory. -/
inductive LineupCall where
  | setActive (id : String) (since : ℤ)
  | setIntent (i : SwitchIntent)
  | clearIntent
  | setRunning (r : Running)
  | saveState (id : String) (b : MixerBackup)
  | keepRoster (sha256 text : String)
  | setAppliedRoster (text : String)

namespace LineupCall

/-- On the files. -/
def run {β : Type} [TextFile β] [Serde ActiveFile] [Serde SwitchIntent] [Serde Running] [Serde MixerBackup] :
    LineupCall → LineupM β Unit
  | setActive id since => LineupStore.setActive id since
  | setIntent i => LineupStore.setIntent i
  | clearIntent => LineupStore.clearIntent
  | setRunning r => LineupStore.setRunning r
  | saveState id b => LineupStore.saveState id b
  | keepRoster sha256 text => LineupStore.keepRoster sha256 text
  | setAppliedRoster text => LineupStore.setAppliedRoster text

/-- What it is for. -/
def does [RosterText] : LineupCall → LineupFiles → LineupFiles
  | setActive id _, s => { s with store := { s.store with active := some id } }
  | setIntent i, s => { s with store := { s.store with intent := some i } }
  | clearIntent, s => { s with store := { s.store with intent := none } }
  | setRunning r, s => { s with store := { s.store with running := some r } }
  | saveState id b, s => { s with store := { s.store with states := s.store.states.insert id b } }
  | keepRoster sha256 text, s => match RosterText.parse text with
    | .ok r =>
      if s.store.rosters.contains sha256 then s
      else { s with store := { s.store with rosters := s.store.rosters.insert sha256 r } }
    | .error _ => s
  | setAppliedRoster text, s => { s with applied := some text }

end LineupCall

end IemMixer.Server
