import IemMixer.Lib.Text
import Mathlib.Data.List.Infix
import Mathlib.Data.List.Lex
import Mathlib.Data.List.Sort
import Mathlib.Data.Nat.Digits.Defs

/-! Backup files: `backups/YYYYMMDD_HHMMSS_mmm.json`, with `_2`, `_3`, … when the name is taken.
Identity, age and order are in the name. -/
namespace IemMixer.Server
open Lib Text

/-- What the store takes of a backup: its timestamp, its JSON, which reads back, and the counts
it lists. -/
class Backup (B : Type) where
  timestamp : B → List Char
  /-- `to_string_pretty` -/
  write : B → Option String
  /-- `MixerBackup::parse` -/
  parse : String → Option B
  parse_write : ∀ b text, write b = some text → parse text = some b
  levelCount : B → ℕ
  mixCount : B → ℕ

namespace BackupStore

abbrev Name := List Char

def json : Name := "json".toList
def tmp : Name := "tmp".toList

/-- `2026-09-27T13:00:00.123Z` as `20260927_130000_123.json`, the milliseconds only when the
timestamp has them. -/
def timestampToFilename (timestamp : List Char) : Name :=
  let ts := ((splitAt 19 timestamp).map Prod.fst).getD timestamp
  let stem := (ts.filter fun c => c ≠ '-' ∧ c ≠ ':').map fun c => if c = 'T' then '_' else c
  let ms := (splitAt 19 timestamp).bind fun (_, rest) => match rest with
    | '.' :: rest =>
      if rest.getLast? = some 'Z' ∧ rest.dropLast ≠ [] ∧ rest.dropLast.all Char.isDigit then some rest.dropLast
      else none
    | _ => none
  let stem := match ms with
    | some ms => stem ++ '_' :: ms
    | none => stem
  stem ++ '.' :: json

/-- The `n`-th name for a backup whose own is `first`. -/
def numbered (first : Name) (n : ℕ) : Name :=
  if n = 1 then first
  else
    let stem := if ('.' :: json).isSuffixOf first then first.take (first.length - 5) else first
    stem ++ '_' :: Nat.toDigits 10 n ++ '.' :: json

/-- The stem and the extension of a file name: around its last dot, if one stands after the
first character. -/
def splitExtension (name : Name) : Option (Name × Name) :=
  match rsplitOnce '.' name with
  | some ([], _) => none
  | split => split

def fileStem (name : Name) : Name := ((splitExtension name).map Prod.fst).getD name

def isJson (name : Name) : Bool := (splitExtension name).map Prod.snd == some json

def withExtension (name ext : Name) : Name := fileStem name ++ '.' :: ext

/-- The `YYYYMMDD_HHMMSS` a backup's stem starts with; `none` for any other file. -/
def backupTime (stem : Name) : Option Name :=
  (splitAt 15 stem).bind fun (time, rest) =>
    if time.contains '_' && (rest.isEmpty || rest.head? == some '_') then some time else none

/-- A directory's files and what they hold. -/
abbrev Dir := List (Name × String)

namespace Dir

def has (dir : Dir) (name : Name) : Bool := dir.any (·.1 == name)

def get (dir : Dir) (name : Name) : Option String := (dir.find? (·.1 == name)).map Prod.snd

def remove (dir : Dir) (name : Name) : Dir := dir.filter (·.1 != name)

/-- The file is there, with these contents. -/
def put (dir : Dir) (name : Name) (text : String) : Dir :=
  if dir.has name then dir.map fun f => if f.1 = name then (name, text) else f else dir ++ [(name, text)]

end Dir

/-- What becomes of a write. -/
inductive Written where
  | done
  /-- Cut short before the rename; the temporary file may hold anything. -/
  | cut (left : Option String)
  /-- Renamed, and the directory not synced. -/
  | unsynced

/-- The text under a name of its own first, then renamed; whether all of it was done. -/
def atomicWrite (dir : Dir) (name : Name) (text : String) : Written → Bool × Dir
  | .done => (true, (dir.remove (withExtension name tmp)).put name text)
  | .cut none => (false, dir)
  | .cut (some left) => (false, dir.put (withExtension name tmp) left)
  | .unsynced => (false, (dir.remove (withExtension name tmp)).put name text)

/-- What becomes of a save's steps; removing a file always succeeds. -/
structure Fate where
  /-- The folder is there or was made. -/
  folder : Bool := true
  /-- Whether a name can be claimed when no file has it. -/
  claims : Name → Bool := fun _ => true
  written : Written := .done

inductive SaveError where
  | io
  /-- 1000 backups named so exist already. -/
  | exhausted (first : Name)

/-- Names one timestamp may take. -/
def maxSameName : ℕ := 1000

/-- The first free name of `numbers`, claimed before it is written. -/
def claim (first : Name) (text : String) (fate : Fate) (dir : Dir) : List ℕ → Except SaveError Name × Dir
  | [] => (.error (.exhausted first), dir)
  | n :: numbers =>
    let filename := numbered first n
    if dir.has filename then claim first text fate dir numbers
    else if !fate.claims filename then (.error .io, dir)
    else match atomicWrite (dir ++ [(filename, "")]) filename text fate.written with
      | (true, dir) => (.ok filename, dir)
      | (false, dir) => (.error .io, dir.remove filename)

section
variable {B : Type} [Backup B]

/-- Writes the backup under a name of its own, and gives it. -/
def save (dir : Dir) (backup : B) (fate : Fate) : Except SaveError Name × Dir :=
  if !fate.folder then (.error .io, dir)
  else match Backup.write backup with
    | some text =>
      claim (timestampToFilename (Backup.timestamp backup)) text fate dir (List.range' 1 maxSameName)
    | none => (.error .io, dir)

structure BackupInfo where
  filename : Name
  timestamp : List Char
  sizeBytes : ℕ
  sendCount : ℕ
  trackCount : ℕ

def info (name : Name) (text : String) (backup : B) : BackupInfo :=
  { filename := name, timestamp := Backup.timestamp backup, sizeBytes := text.utf8ByteSize
    sendCount := Backup.levelCount backup, trackCount := Backup.mixCount backup }

variable (B) in
/-- The readable backups of the directory's entries, by name, the last first. -/
def list (entries : Dir) : List BackupInfo :=
  ((entries.filter fun f => isJson f.1).filterMap fun (name, text) =>
    (Backup.parse text : Option B).map (info name text)).mergeSort fun a b => b.filename ≤ a.filename

inductive LoadError where
  | filename
  | read
  | parse

/-- One backup by its file's name. -/
def load (dir : Dir) (filename : Name) : Except LoadError B :=
  if filename.contains '/' || filename.contains '\\' || decide (['.', '.'] <:+: filename) then .error .filename
  else match dir.get filename with
    | none => .error .read
    | some text => match Backup.parse text with
      | some backup => .ok backup
      | none => .error .parse

end

/-- The backups older than `cutoff` deleted. -/
def pruneBefore (dir : Dir) (cutoff : List Char) : Dir :=
  dir.filter fun f => !(isJson f.1 && (backupTime (fileStem f.1)).any (· < cutoff))

/-- A moment as the server's timestamps have it, to the second or to the millisecond. -/
structure Stamp where
  year : List Char
  month : List Char
  day : List Char
  hour : List Char
  minute : List Char
  second : List Char
  ms : Option (Fin 1000)
  widths : year.length = 4 ∧ month.length = 2 ∧ day.length = 2 ∧ hour.length = 2 ∧ minute.length = 2 ∧ second.length = 2
  digits : ∀ c ∈ year ++ month ++ day ++ hour ++ minute ++ second, c.isDigit = true

namespace Stamp

/-- `%.3f` -/
def three (m : Fin 1000) : List Char :=
  [Nat.digitChar (m / 100), Nat.digitChar (m / 10 % 10), Nat.digitChar (m % 10)]

def text (s : Stamp) : List Char :=
  (s.year ++ '-' :: s.month ++ '-' :: s.day ++ 'T' :: s.hour ++ ':' :: s.minute ++ ':' :: s.second) ++
    match s.ms with
    | some m => '.' :: three m ++ ['Z']
    | none => ['Z']

/-- The second, as names have it. -/
def base (s : Stamp) : Name := s.year ++ s.month ++ s.day ++ '_' :: s.hour ++ s.minute ++ s.second

/-- No later. -/
def le (s t : Stamp) : Prop := s.base < t.base ∨ s.base = t.base ∧ s.ms.getD 0 ≤ t.ms.getD 0

end Stamp

section
variable {B : Type} [Backup B]

/-- A backup and the moment its timestamp is of. -/
structure Dated (B : Type) [Backup B] where
  backup : B
  stamp : Stamp
  dated : Backup.timestamp backup = stamp.text

inductive Op (B : Type) [Backup B] where
  | save (dated : Dated B) (fate : Fate)
  | prune (cutoff : List Char)

/-- The directory; and the backups there should be, in the order they were saved, by the names
their saves gave. -/
structure World (B : Type) [Backup B] where
  dir : Dir := []
  kept : List (Name × Dated B) := []

def step (w : World B) : Op B → World B
  | .save dated fate => match save w.dir dated.backup fate with
    | (.ok name, dir) => { dir, kept := w.kept ++ [(name, dated)] }
    | (.error _, dir) => { w with dir }
  | .prune cutoff =>
    { dir := pruneBefore w.dir cutoff, kept := w.kept.filter fun k => !decide (k.2.stamp.base < cutoff) }

def run (ops : List (Op B)) : World B := ops.foldl step {}

/-- The moments of the saves. -/
def stamps (ops : List (Op B)) : List Stamp := ops.filterMap fun op => match op with
  | .save dated _ => some dated.stamp
  | .prune _ => none

/-- The saves are dated no earlier than those before them. -/
def InOrder (ops : List (Op B)) : Prop := (stamps ops).Pairwise Stamp.le

/-- Kept backups of the second, with these milliseconds. -/
def count (kept : List (Name × Dated B)) (base : Name) (ms : Option (Fin 1000)) : ℕ :=
  kept.countP fun k => k.2.stamp.base = base ∧ k.2.stamp.ms = ms

/-- Fewer than nine kept backups are of the same timestamp. Where it has no milliseconds, the
first of its second to have none finds none with them. Where it has some, those of its second
without are one at most, or no more than its hundreds of milliseconds. -/
def Room (kept : List (Name × Dated B)) (s : Stamp) : Prop :=
  count kept s.base s.ms < 9 ∧
  match s.ms with
  | none => count kept s.base none = 0 → ∀ k ∈ kept, k.2.stamp.base = s.base → k.2.stamp.ms = none
  | some m => count kept s.base none ≤ 1 ∨ 100 * count kept s.base none ≤ m

/-- Every save that was kept found room. -/
def Roomy (ops : List (Op B)) : Prop :=
  ∀ before dated fate after, ops = before ++ .save dated fate :: after →
    (run (before ++ [.save dated fate])).kept ≠ (run before).kept → Room (run before).kept dated.stamp

end

end BackupStore
end IemMixer.Server
