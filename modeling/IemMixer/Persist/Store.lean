import IemMixer.Lib.Files
import IemMixer.Persist.Names
import IemMixer.Core.State

/-! Persistence: checksummed state files in one directory, and a save by whole
renames. A save is written to `save.new`, renamed over `save.tmp`, and committed:
`current.json` becomes the next generation, the marker shows the new revision and
`save.tmp` becomes `current.json`. JSON and SHA-256 are the `Json` class; files are
addressed by their names in the directory. -/
namespace IemMixer.Persist
open Lib Lib.Files Proto

def formatName : String := "iemmixer-state"

/-- The state model's schema. -/
def schemaVersion : UInt32 := 2

/-- What a state file carries. -/
structure Persisted where
  rev : UInt64 := 0
  topologyHash : String := ""
  savedUnixMs : UInt64 := 0
  state : MixState := {}
  /-- Limiter-active samples per mix. -/
  counters : BTreeMap MixId UInt64 := ∅
  deriving DecidableEq

/-- A state file around its payload's raw text. -/
structure StateFile (τ : Type) where
  format : String
  schema : UInt32
  sha256 : String
  payload : τ
  deriving DecidableEq

/-- What the program takes from `serde_json` and `sha2`: the payload's text, the
file's bytes and the digest (lower-case hex) of a text. -/
class Json (β : Type) where
  Text : Type
  toText : Persisted → Except String Text
  fromText : Text → Except String Persisted
  toVec : StateFile Text → Except String β
  fromSlice : β → Except String (StateFile Text)
  digest : Text → String
  /-- `b""`. -/
  nothing : β

section
variable {β : Type} [Json β]

def encode (p : Persisted) : Except IoError β := do
  let payload : Json.Text β ← (Json.toText p).mapError (IoError.mk .other)
  (Json.toVec ⟨formatName, schemaVersion, Json.digest payload, payload⟩).mapError (IoError.mk .other)

def decode (bytes : β) : Except String Persisted := do
  let file ← (Json.fromSlice bytes).mapError fun e => s!"not a state file: {e}"
  if file.format ≠ formatName then
    throw s!"format {(String.ofList (file.format.toList.take 40)).quote} is not {formatName}"
  if file.schema < schemaVersion then
    throw s!"schema {file.schema} predates the engine model (schema {schemaVersion})"
  if Json.digest file.payload ≠ file.sha256 then
    throw "checksum mismatch"
  (Json.fromText file.payload).mapError fun e => s!"payload: {e}"

/-- What the program relies on: every state has a text, a file reads back as it was
written, a revision too, and a state of finite numbers whole (JSON has no others). -/
class LawfulJson (β : Type) [Json β] : Prop where
  text : ∀ p, ∃ t : Json.Text β, Json.toText p = .ok t
  file : ∀ f : StateFile (Json.Text β), ∃ b : β, Json.toVec f = .ok b ∧ Json.fromSlice b = .ok f
  rev : ∀ (p q : Persisted) (t : Json.Text β),
    Json.toText p = .ok t → Json.fromText t = .ok q → q.rev = p.rev
  state : ∀ (p : Persisted) (t : Json.Text β),
    p.state.Finite → Json.toText p = .ok t → Json.fromText t = .ok p

/-- Bytes that are a state file itself, or nothing: a codec to evaluate with. -/
abbrev PlainBytes := Option (StateFile Persisted)

instance plainJson : Json PlainBytes where
  Text := Persisted
  toText p := .ok p
  fromText p := .ok p
  toVec f := .ok (some f)
  fromSlice
    | some f => .ok f
    | none => .error "EOF while parsing a value at line 1 column 0"
  digest p := toString p.rev
  nothing := none

instance : LawfulJson PlainBytes where
  text p := ⟨p, rfl⟩
  file f := ⟨some f, rfl, rfl⟩
  rev := by rintro p _ _ ⟨⟩ ⟨⟩; rfl
  state := by rintro p _ - ⟨⟩; rfl

/-- The state directory; the process remembers whether a `save.tmp` in it is its
own to replace (`tmp_own`). -/
structure Store where
  dir : String

abbrev StoreM (β : Type) := FileM β Bool

/-- A file's path, as it is shown. -/
def Store.path (s : Store) (name : String) : String := s.dir ++ "/" ++ name

def lift (x : Except IoError α) : StoreM β α :=
  match x with
  | .ok a => pure a
  | .error e => fail e

/-- Writes a file and flushes it. -/
def writeSynced (name : String) (bytes : β) : StoreM β Unit := do
  write name bytes
  syncFile name

/-- What the state directory's names show. -/
def Store.list (_ : Store) : StoreM β Listing := do
  let names ← Files.list
  return listing names

/-- Generation files, oldest first. -/
def Store.generations (s : Store) : StoreM β (List (UInt64 × String)) := do
  let listed ← s.list
  return listed.generations

/-- A save that reached `current.json`. -/
structure Committed where
  /-- The generation the previous `current.json` became (0: there was none). -/
  generation : UInt64
  /-- Why old generations were not removed: the save itself stands. -/
  pruning : Option String
  /-- Where a `save.tmp` this store did not write was moved aside to. -/
  orphaned : Option String
  deriving DecidableEq

/-- An error naming where the save moved `save.tmp` aside before it failed. -/
def Store.namingOrphan (s : Store) (orphaned : Option String) (e : IoError) : IoError :=
  match orphaned with
  | some aside => ⟨e.kind, s!"{e.text} ({saveTmp} was moved aside to {s.path aside} first)"⟩
  | none => e

/-- Names tried for a file moved aside. -/
def quarantineNames : ℕ := 1000

/-- `move_aside` with `left` names still to try. -/
def Store.moveAsideFrom (s : Store) (name tag : String) :
    ℕ → StoreM β (String × Except IoError Unit)
  | 0 => fail ⟨.other, s!"{quarantineNames} copies of {name} are aside already"⟩
  | left + 1 => do
    let aside := asideName name tag (quarantineNames - left)
    let taken ← isThere aside
    if taken then s.moveAsideFrom name tag left
    else
      rename name aside
      let synced ← attempt syncDir
      return (aside, synced)

/-- Renames a file to the first free `<name>.<tag>-<n>`: where it went, and how the
directory sync after it went. An error only when it was not moved. -/
def Store.moveAside (s : Store) (name tag : String) : StoreM β (String × Except IoError Unit) :=
  s.moveAsideFrom name tag quarantineNames

/-- Moves a `save.tmp` that is not this store's own aside and flushes the
directory; either failing fails the save with nothing replaced. -/
def Store.orphanTmp (s : Store) : StoreM β (Option String) := do
  let own ← recalled
  if own then return none
  else
    let there ← isThere saveTmp
    if !there then return none
    else
      let (aside, synced) ← s.moveAside saveTmp "orphan"
      match synced with
      | .ok () => return some aside
      | .error e => fail ⟨e.kind, s!"{saveTmp} was moved aside to {s.path aside}, but the " ++
            s!"directory sync failed: {e.text}"⟩

/-- Renames the marker `old` to show `rev`, or creates it. -/
def mark (old : Option String) (rev : UInt64) : StoreM β Unit :=
  match old with
  | some old => if old = markName rev then pure () else rename old (markName rev)
  | none => write (markName rev) (Json.nothing : β)

def removeAll : List String → StoreM β Unit
  | [] => pure ()
  | name :: rest => do
    remove name
    removeAll rest

/-- Removes the oldest generations beyond `generationsKept`. -/
def Store.prune (s : Store) : StoreM β Unit := do
  let gens ← s.generations
  let excess := gens.length - generationsKept
  removeAll ((gens.take excess).map (·.2))

/-- The previous `current.json` becomes the newest generation, named with the
revision the last marker shows. -/
def rotate (listed : Listing) : StoreM β UInt64 := do
  let there ← isThere currentJson
  if there then
    let generation := (listed.generations.getLast?.map (·.1)).getD 0 + 1
    let held := listed.marks.getLast?.map (·.1)
    rename currentJson (generationName generation held)
    return generation
  else return 0

/-- The renames that end a save of revision `rev`, which `save.tmp` holds. -/
def Store.commitTmp (s : Store) (rev : UInt64) : StoreM β Committed := do
  let listed ← s.list
  let generation ← rotate listed
  mark (listed.marks.getLast?.map (·.2)) rev
  rename saveTmp currentJson
  syncDir
  let pruned ← attempt s.prune
  return {
    generation
    pruning := match pruned with
      | .ok () => none
      | .error e => some e.text
    orphaned := none }

/-- The steps of a save up to the rename that puts the new state in `save.tmp`:
where a `save.tmp` not this store's own went. -/
def Store.place (s : Store) (p : Persisted) : StoreM β (Option String) := do
  let bytes ← lift (encode p)
  writeSynced saveNew bytes
  let orphaned ← s.orphanTmp
  mapErr (s.namingOrphan orphaned) (rename saveNew saveTmp)
  remember true
  return orphaned

/-- Saves atomically: `save.tmp` is only ever a complete save. -/
def Store.save (s : Store) (p : Persisted) : StoreM β Committed := do
  let orphaned ← s.place p
  let committed ← mapErr (s.namingOrphan orphaned) (s.commitTmp p.rev)
  return { committed with orphaned }

end

end IemMixer.Persist
