import IemMixer.Server.Roster

/-! What a roster file is refused for, in ids and positions only. -/
namespace IemMixer.Server
open Lib Proto

/-- The engineer's login: never a person. -/
def engineerId : String := "engineer"

def maxLineupId : ℕ := 32

def isMemberChar (c : Char) : Bool := c.isAlphanum || c == '_' || c == '-'

/-- A member id: letters, digits, `_` and `-`, at least one. -/
def validMemberId (id : String) : Bool := !id.toList.isEmpty && id.toList.all isMemberChar

/-- A member id without upper-case letters. -/
def validPersonId (id : String) : Bool := validMemberId id && !id.toList.any (·.isUpper)

def validLineupId (id : String) : Bool :=
  !id.toList.isEmpty && id.utf8ByteSize ≤ maxLineupId &&
    id.toList.all fun c => c.isLower || c.isDigit || c == '_' || c == '-'

/-- Unicode white space. -/
def isSpace (c : Char) : Bool :=
  (9 ≤ c.toNat && c.toNat ≤ 13) || c.toNat == 32 || c.toNat == 0x85 || c.toNat == 0xA0 || c.toNat == 0x1680 ||
    (0x2000 ≤ c.toNat && c.toNat ≤ 0x200A) || c.toNat == 0x2028 || c.toNat == 0x2029 || c.toNat == 0x202F ||
    c.toNat == 0x205F || c.toNat == 0x3000

/-- Nothing left of the name once trimmed. -/
def nameless (name : String) : Bool := name.toList.all isSpace

/-- How a problem names a value: quoted when it is a valid id, else its position from 1. -/
def quoted (value : String) (valid : Bool) (n : ℕ) : String :=
  if valid then "'" ++ value ++ "'" else "#" ++ toString n

def someone (id fallback : String) : String := if validPersonId id then "'" ++ id ++ "'" else fallback

/-- The ids of `before` and the problems of what follows, item by item. -/
def walk (problems : ℕ → List String → α → List String) (key : α → Option String) :
    ℕ → List String → List α → List String
  | _, _, [] => []
  | i, seen, x :: rest => problems i seen x ++ walk problems key (i + 1) (seen ++ (key x).toList) rest

/-- Each item of a walk without problems has none, whatever was seen before it. -/
theorem walk_each {α : Type} {problems : ℕ → List String → α → List String} {key : α → Option String} {n : ℕ}
    {seen : List String} {xs : List α} (clean : walk problems key n seen xs = []) {x : α} (member : x ∈ xs) :
    ∃ i before, problems i before x = [] := by
  induction xs generalizing n seen with
  | nil => cases member
  | cons y rest ih =>
    obtain ⟨first, later⟩ := List.append_eq_nil_iff.mp clean
    rcases List.mem_cons.mp member with rfl | inside
    · exact ⟨n, seen, first⟩
    · exact ih later inside

/-- Where a key seen before is a problem, a walk without problems meets each key once. -/
theorem walk_distinct {α : Type} {problems : ℕ → List String → α → List String} (key : α → Option String)
    (caught : ∀ i before x k, key x = some k → k ∈ before → problems i before x ≠ []) {n : ℕ} {seen : List String}
    {xs : List α} (clean : walk problems key n seen xs = []) :
    (xs.filterMap key).Nodup ∧ ∀ k ∈ xs.filterMap key, k ∉ seen := by
  induction xs generalizing n seen with
  | nil => simp
  | cons x rest ih =>
    obtain ⟨first, later⟩ := List.append_eq_nil_iff.mp clean
    obtain ⟨distinct, fresh⟩ := ih later
    cases named : key x with
    | none =>
      rw [List.filterMap_cons_none named]
      exact ⟨distinct, fun k member before => fresh k member (List.mem_append_left _ before)⟩
    | some k =>
      rw [List.filterMap_cons_some named]
      refine ⟨List.nodup_cons.mpr ⟨fun again => fresh k again (by simp [named]), distinct⟩, ?_⟩
      intro other member before
      rcases List.mem_cons.mp member with rfl | inside
      · exact caught n seen x other named before first
      · exact fresh other inside (List.mem_append_left _ before)

/-- One person's own problems, after people of the ids `seen`. -/
def personProblems (i : ℕ) (seen : List String) (p : Person) : List String :=
  let who := "person " ++ quoted p.id (validPersonId p.id) (i + 1)
  (if !validPersonId p.id then [who ++ ": the id must be lower-case a-z 0-9 _ -, at least one"] else []) ++
    (if p.id == engineerId then [who ++ " is the engineer's id, never a person's"] else []) ++
    (if seen.contains p.id then [who ++ " is listed twice"] else []) ++
    (if nameless p.name then [who ++ " has no name"] else [])

/-- Whom a person may take over: another member, by a lower-case id. -/
def takeable (p : Person) (x : String) : Bool := validPersonId x && x != p.id && x != engineerId

/-- The problems of what the person at `i` takes over, after those who took over `claimed`. -/
def takeOverProblems (i : ℕ) (claimed : List (String × String)) (p : Person) : List String :=
  match p.takesOver with
  | none => []
  | some x =>
    let who := "person " ++ quoted p.id (validPersonId p.id) (i + 1)
    if !takeable p x then [who ++ ": takes_over must be another member's lower-case id"]
    else match claimed.lookup x with
      | some first => ["takes_over '" ++ x ++ "' is claimed by both " ++ first ++ " and " ++ who]
      | none => []

/-- The last to claim an id is the one named next. -/
def takeOvers : ℕ → List (String × String) → List Person → List String
  | _, _, [] => []
  | i, claimed, p :: rest =>
    let who := "person " ++ quoted p.id (validPersonId p.id) (i + 1)
    let claim := (p.takesOver.filter (takeable p)).map fun x => (x, who)
    takeOverProblems i claimed p ++ takeOvers (i + 1) (claim.toList ++ claimed) rest

namespace Equipment

/-- What a lineup places outside the equipment. -/
def lineupProblems (e : Equipment) (lineup : String) (l : Lineup) : List String :=
  (l.sets.keys.zipIdx.flatMap fun (set, j) =>
    if !e.hasSet set then
      [lineup ++ ": set " ++ quoted set (validId set) (j + 1) ++ " is not in [equipment] sets"]
    else []) ++
  l.inputs.toList.zipIdx.flatMap fun ((input, i), k) =>
    if i.owner.isSome && !e.hasInput input then
      [lineup ++ ": input " ++ quoted input (validId input) (k + 1) ++
        " has an owner and is not in [equipment] inputs"]
    else []

/-- A list's own problems. -/
def listProblems (what : String) (ids : List String) : List String :=
  walk (fun n seen id =>
    let named := "[equipment]: " ++ what ++ " " ++ quoted id (validId id) (n + 1)
    if !validId id then [named ++ " is no valid id"]
    else if seen.contains id then [named ++ " is listed twice"] else [])
    (fun id => if validId id then some id else none) 0 [] ids

def ownProblems (e : Equipment) : List String := listProblems "set" e.sets ++ listProblems "input" e.inputs

end Equipment

/-- One lineup's problems, after lineups of the ids `seen`; `ids` are the people's. -/
def lineupProblems (ids : List String) (equipment : Option Equipment) (i : ℕ) (seen : List String) (l : Lineup) :
    List String :=
  let lineup := "lineup " ++ quoted l.id (validLineupId l.id) (i + 1)
  let placed := l.sets.toList.map (·.2)
  (if !validLineupId l.id then
    [lineup ++ ": the id must be 1 to " ++ toString maxLineupId ++ " of a-z 0-9 _ -"] else []) ++
  (if seen.contains l.id then [lineup ++ " is listed twice"] else []) ++
  (if nameless l.name then [lineup ++ " has no name"] else []) ++
  (if l.main && l.sets.toList.isEmpty then [lineup ++ " is main and has no sets"] else []) ++
  walk (fun j before (p : String × String) =>
    let set := "set " ++ quoted p.1 (validId p.1) (j + 1)
    let wearer := someone p.2 "its wearer"
    (if !ids.contains p.2 then [lineup ++ ": " ++ set ++ ": " ++ wearer ++ " is not a person"] else []) ++
    (if before.contains p.2 then [lineup ++ ": " ++ set ++ ": " ++ wearer ++ " wears another set too"] else []))
    (some ·.2) 0 [] l.sets.toList ++
  (l.leaders.zipIdx.flatMap fun (leader, k) =>
    if !placed.contains leader then
      [lineup ++ ": leader " ++ quoted leader (validPersonId leader) (k + 1) ++ " wears no set of it"]
    else []) ++
  (l.inputs.toList.zipIdx.flatMap fun ((id, input), k) =>
    let named := "input " ++ quoted id (validId id) (k + 1)
    (if nameless input.name then [lineup ++ ": " ++ named ++ " has no name"] else []) ++
    match input.owner with
    | some o => if !placed.contains o then
        [lineup ++ ": " ++ named ++ ": owner " ++ someone o "its owner" ++ " wears no set of it"]
      else []
    | none => []) ++
  ((equipment.map fun e => e.lineupProblems lineup l).getD [])

namespace Roster

/-- Every problem of the roster on its own. -/
def problems (r : Roster) : List String :=
  let ids := r.people.map (·.id)
  let mains := (r.lineups.filter (·.main)).length
  (if r.people.isEmpty then ["the roster has no people"] else []) ++
    walk personProblems (some ·.id) 0 [] r.people ++
    takeOvers 0 [] r.people ++
    walk (lineupProblems ids r.equipment) (some ·.id) 0 [] r.lineups ++
    (if mains != 1 then ["exactly one lineup must be main, not " ++ toString mains] else []) ++
    (r.equipment.map (·.ownProblems)).getD []

end Roster

/-- Why a roster cannot migrate the legacy files. -/
def migrationProblems (r : Roster) : List String :=
  r.problems ++ r.people.zipIdx.flatMap fun (p, i) => match p.takesOver with
    | some x => if (r.person x).isSome then
        ["person #" ++ toString (i + 1) ++ ": takes_over names a person, whose files are their own"]
      else []
    | none => []

end IemMixer.Server
