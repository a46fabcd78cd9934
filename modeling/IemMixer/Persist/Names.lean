import IemMixer.Lib.OrdMap
import Mathlib.Data.List.Sort
import Mathlib.Data.String.Basic

/-! The names of the state files: how a generation, the marker and a file moved
aside are named, what each name shows, and a directory's listing by the names
alone. -/
namespace IemMixer.Persist
open Lib

def generationsKept : ℕ := 20
def currentJson : String := "current.json"
def baselineJson : String := "baseline.json"
def saveTmp : String := "save.tmp"
def saveNew : String := "save.new"

/-- The name of a `save.tmp` moved aside, before its number. -/
def orphanStem : String := "save.tmp.orphan-"

/-- The marker's name before the revision `current.json` holds. -/
def markStem : String := "current.json.rev-"

/-- `strip_prefix`. -/
def stripHead (head s : List Char) : Option (List Char) :=
  if head.isPrefixOf s then some (s.drop head.length) else none

/-- `strip_suffix`. -/
def stripTail (tail s : List Char) : Option (List Char) :=
  (stripHead tail.reverse s.reverse).map List.reverse

/-- `split_once`: around the first `sep`. -/
def splitOnce (sep : List Char) : List Char → Option (List Char × List Char)
  | [] => if sep.isEmpty then some ([], []) else none
  | c :: cs =>
    if sep.isPrefixOf (c :: cs) then some ([], (c :: cs).drop sep.length)
    else (splitOnce sep cs).map fun p => (c :: p.1, p.2)

/-- A number's digits: a `+` may stand before them. -/
def unsigned : List Char → List Char
  | '+' :: digits => digits
  | digits => digits

/-- `parse` of an unsigned number below `bound`. -/
def parseUnsigned (bound : ℕ) (s : List Char) : Option ℕ :=
  let digits := unsigned s
  if digits.isEmpty || !digits.all Char.isDigit then none
  else
    let n := Nat.ofDigitChars 10 digits 0
    if n < bound then some n else none

def parseU64 (s : List Char) : Option UInt64 := (parseUnsigned (2 ^ 64) s).map UInt64.ofNat

def parseU32 (s : List Char) : Option UInt32 := (parseUnsigned (2 ^ 32) s).map UInt32.ofNat

/-- `{n:010}`: at least ten digits. -/
def padded (n : ℕ) : String :=
  let digits := Nat.toDigits 10 n
  String.ofList (List.replicate (10 - digits.length) '0' ++ digits)

/-- A generation's file name, with the revision it holds when that is known. -/
def generationName (seq : UInt64) : Option UInt64 → String
  | some rev => "gen-" ++ padded seq.toNat ++ "-r" ++ rev.toNat.repr ++ ".json"
  | none => "gen-" ++ padded seq.toNat ++ ".json"

/-- A generation file name's seq and the revision it shows. -/
def generationParts (name : String) : Option (UInt64 × Option UInt64) := do
  let stem ← stripTail ".json".toList (← stripHead "gen-".toList name.toList)
  match splitOnce "-r".toList stem with
  | some (seq, rev) => return (← parseU64 seq, some (← parseU64 rev))
  | none => return (← parseU64 stem, none)

def markName (rev : UInt64) : String := markStem ++ rev.toNat.repr

/-- The revision a marker's name shows. -/
def markRev (name : String) : Option UInt64 :=
  (stripHead markStem.toList name.toList).bind parseU64

/-- The number of a `save.tmp` moved aside. -/
def orphanNumber (name : String) : Option UInt32 :=
  (stripHead orphanStem.toList name.toList).bind parseU32

/-- `<name>.<tag>-<n>`. -/
def asideName (name tag : String) (n : ℕ) : String := name ++ "." ++ tag ++ "-" ++ n.repr

/-- What a listing of the state directory shows by the names alone: the
generations, the markers and the orphans by their numbers, and the highest
revision any name shows. -/
structure Listing where
  generations : List (UInt64 × String) := []
  marks : List (UInt64 × String) := []
  orphans : List (UInt32 × String) := []
  floor : Option UInt64 := none

/-- `Option::max`, `None` below everything. -/
def maxRev : Option UInt64 → Option UInt64 → Option UInt64
  | some a, some b => some (if a < b then b else a)
  | none, b => b
  | a, none => a

/-- One name put where it belongs. -/
def Listing.add (listed : Listing) (name : String) : Listing :=
  match generationParts name with
  | some (seq, rev) =>
    { listed with
      generations := listed.generations ++ [(seq, name)], floor := maxRev listed.floor rev }
  | none => match markRev name with
    | some rev =>
      { listed with marks := listed.marks ++ [(rev, name)], floor := maxRev listed.floor (some rev) }
    | none => match orphanNumber name with
      | some n => { listed with orphans := listed.orphans ++ [(n, name)] }
      | none => listed

/-- The order of numbered names: by the number, then the name. -/
def Before (num : ν → ℕ) (a b : ν × String) : Prop :=
  num a.1 < num b.1 ∨ num a.1 = num b.1 ∧ a.2 ≤ b.2

instance (num : ν → ℕ) : DecidableRel (Before num) :=
  fun a b => inferInstanceAs (Decidable (num a.1 < num b.1 ∨ num a.1 = num b.1 ∧ a.2 ≤ b.2))

/-- A directory's names sorted by what they show. -/
def listing (names : List String) : Listing :=
  let listed := names.foldl Listing.add {}
  { listed with
    generations := listed.generations.insertionSort (Before UInt64.toNat)
    marks := listed.marks.insertionSort (Before UInt64.toNat)
    orphans := listed.orphans.insertionSort (Before UInt32.toNat) }

end IemMixer.Persist
