import IemMixer.Server.Redact
import IemMixer.Server.RosterFacts
import Mathlib.Data.List.Forall2
import Mathlib.Data.Option.Basic
import Mathlib.Data.Set.Function

/-! A roster's problems keep its names: display names and whatever stands in an id field and is no
valid id change no line of them. -/
namespace IemMixer.Server
open Lib Proto

/-- Whose id values become which: what is equal stays equal, what differs stays apart. -/
structure Disguise where
  values : Set String
  rename : String → String
  apart : Set.InjOn rename values

namespace Disguise
variable (d : Disguise)

/-- An id field in both rosters: kept, or no valid id in either. -/
structure Hides (valid : String → Bool) (v v' : String) : Prop where
  known : v ∈ d.values
  renamed : v' = d.rename v
  hidden : v' = v ∨ (valid v = false ∧ valid v' = false)

structure People (p p' : Person) : Prop where
  id : d.Hides validPersonId p.id p'.id
  name : nameless p.name = nameless p'.name
  takesOver : Option.Rel (d.Hides validPersonId) p.takesOver p'.takesOver

/-- A set and who wears it. -/
structure Worn (e e' : String × String) : Prop where
  set : d.Hides validId e.1 e'.1
  wearer : d.Hides validPersonId e.2 e'.2

structure Labelled (e e' : String × LineupInput) : Prop where
  input : d.Hides validId e.1 e'.1
  name : nameless e.2.name = nameless e'.2.name
  owner : Option.Rel (d.Hides validPersonId) e.2.owner e'.2.owner

/-- The maps in the order of their keys. -/
structure Lineups (l l' : Lineup) : Prop where
  id : d.Hides validLineupId l.id l'.id
  name : nameless l.name = nameless l'.name
  main : l.main = l'.main
  leaders : List.Forall₂ (d.Hides validPersonId) l.leaders l'.leaders
  sets : List.Forall₂ d.Worn l.sets.toList l'.sets.toList
  inputs : List.Forall₂ d.Labelled l.inputs.toList l'.inputs.toList

structure Equipped (e e' : Equipment) : Prop where
  sets : List.Forall₂ (d.Hides validId) e.sets e'.sets
  inputs : List.Forall₂ (d.Hides validId) e.inputs e'.inputs

structure Rosters (r r' : Roster) : Prop where
  people : List.Forall₂ d.People r.people r'.people
  lineups : List.Forall₂ d.Lineups r.lineups r'.lineups
  equipment : Option.Rel d.Equipped r.equipment r'.equipment

section
variable {d} {valid valid' : String → Bool} {v v' w w' : String} (hides : d.Hides valid v v')
include hides

theorem Hides.same : valid v = valid v' := by
  rcases hides.hidden with rfl | ⟨no, no'⟩
  · rfl
  · rw [no, no']

theorem Hides.kept (ok : valid v = true) : v' = v := by
  rcases hides.hidden with kept | ⟨no, -⟩
  · exact kept
  · rw [no] at ok
    cases ok

theorem Hides.quoted (n : ℕ) : Server.quoted v (valid v) n = Server.quoted v' (valid v') n := by
  rcases hides.hidden with rfl | ⟨no, no'⟩
  · rfl
  · rw [no, no']
    rfl

theorem Hides.unquoted (n : ℕ) : Server.unquoted v (valid v) n = Server.unquoted v' (valid v') n := by
  rcases hides.hidden with rfl | ⟨no, no'⟩
  · rfl
  · rw [no, no']
    rfl

theorem Hides.beq (other : d.Hides valid' w w') : (v == w) = (v' == w') := by
  rw [Bool.eq_iff_iff, beq_iff_eq, beq_iff_eq, hides.renamed, other.renamed]
  exact (d.apart.eq_iff hides.known other.known).symm

/-- A valid id is not hidden, whoever it is. -/
theorem Hides.beq_valid (ok : valid w = true) : (v == w) = (v' == w) := by
  rcases hides.hidden with rfl | ⟨no, no'⟩
  · rfl
  · have apart : v ≠ w := by
      rintro rfl
      rw [no] at ok
      cases ok
    have apart' : v' ≠ w := by
      rintro rfl
      rw [no'] at ok
      cases ok
    rw [beq_false_of_ne apart, beq_false_of_ne apart']

theorem Hides.contains {ws ws' : List String} (others : List.Forall₂ (d.Hides valid') ws ws') :
    ws.contains v = ws'.contains v' := by
  induction others with
  | nil => rfl
  | cons first rest ih => rw [List.contains_cons, List.contains_cons, hides.beq first, ih]

theorem Hides.any {ws ws' : List String} (others : List.Forall₂ (d.Hides valid') ws ws') :
    ws.any (· == v) = ws'.any (· == v') := by
  induction others with
  | nil => rfl
  | cons first rest ih => rw [List.any_cons, List.any_cons, first.beq hides, ih]

end

theorem someone_hides {d : Disguise} {v v' : String} (hides : d.Hides validPersonId v v') (fallback : String) :
    someone v fallback = someone v' fallback := by
  rcases hides.hidden with rfl | ⟨no, no'⟩
  · rfl
  · simp [someone, no, no']

section
variable {α β γ : Type} {R : α → β → Prop} {xs : List α} {ys : List β}

theorem flatMap_zipIdx {f : α × ℕ → List γ} {g : β × ℕ → List γ} (items : List.Forall₂ R xs ys)
    (same : ∀ i x y, R x y → f (x, i) = g (y, i)) : xs.zipIdx.flatMap f = ys.zipIdx.flatMap g := by
  have any : ∀ n, (xs.zipIdx n).flatMap f = (ys.zipIdx n).flatMap g := by
    induction items with
    | nil => exact fun _ => rfl
    | cons first rest ih =>
      intro n
      rw [List.zipIdx_cons, List.zipIdx_cons, List.flatMap_cons, List.flatMap_cons, same n _ _ first, ih]
  exact any 0

theorem find_rel {p : α → Bool} {q : β → Bool} (items : List.Forall₂ R xs ys) (same : ∀ x y, R x y → p x = q y) :
    Option.Rel R (xs.find? p) (ys.find? q) := by
  induction items with
  | nil => exact .none
  | @cons x y _ _ first rest ih =>
    rw [List.find?_cons, List.find?_cons, ← same _ _ first]
    cases p x with
    | true => exact .some first
    | false => exact ih

theorem findIdx_rel {p : α → Bool} {q : β → Bool} (items : List.Forall₂ R xs ys)
    (same : ∀ x y, R x y → p x = q y) : xs.findIdx? p = ys.findIdx? q := by
  induction items with
  | nil => rfl
  | @cons x y _ _ first rest ih => rw [List.findIdx?_cons, List.findIdx?_cons, ← same _ _ first, ih]

theorem isSome_rel {x : Option α} {y : Option β} (both : Option.Rel R x y) : x.isSome = y.isSome := by
  cases both <;> rfl

theorem isEmpty_rel (items : List.Forall₂ R xs ys) : xs.isEmpty = ys.isEmpty := by
  cases items <;> rfl

/-- A walk goes alike over lists of one shape, having seen keys of one shape. -/
theorem walk_rel {K : String → String → Prop} {problems : ℕ → List String → α → List String}
    {problems' : ℕ → List String → β → List String} {key : α → Option String} {key' : β → Option String}
    (keys : ∀ x y, R x y → List.Forall₂ K (key x).toList (key' y).toList)
    (same : ∀ i seen seen' x y, List.Forall₂ K seen seen' → R x y → problems i seen x = problems' i seen' y)
    (items : List.Forall₂ R xs ys) : walk problems key 0 [] xs = walk problems' key' 0 [] ys := by
  have any : ∀ i seen seen', List.Forall₂ K seen seen' →
      walk problems key i seen xs = walk problems' key' i seen' ys := by
    induction items with
    | nil => exact fun _ _ _ _ => rfl
    | cons first rest ih =>
      intro i seen seen' before
      unfold walk
      rw [same i seen seen' _ _ before first, ih _ _ _ (List.rel_append before (keys _ _ first))]
  exact any 0 [] [] .nil

end

section
variable {d : Disguise}

theorem keys_people (p p' : Person) (people : d.People p p') :
    List.Forall₂ (d.Hides validPersonId) (some p.id).toList (some p'.id).toList :=
  .cons people.id .nil

theorem personProblems_people (i : ℕ) (seen seen' : List String) (p p' : Person)
    (before : List.Forall₂ (d.Hides validPersonId) seen seen') (people : d.People p p') :
    personProblems i seen p = personProblems i seen' p' := by
  have login : (p.id == engineerId) = (p'.id == engineerId) := people.id.beq_valid (by decide)
  simp only [personProblems, people.id.quoted]
  simp only [people.id.same, login, people.id.contains before, people.name]

theorem takeable_people {p p' : Person} (people : d.People p p') {x x' : String}
    (hides : d.Hides validPersonId x x') : takeable p x = takeable p' x' := by
  have own : (x != p.id) = (x' != p'.id) := congrArg (!·) (hides.beq people.id)
  have login : (x != engineerId) = (x' != engineerId) := congrArg (!·) (hides.beq_valid (by decide))
  simp only [takeable, hides.same, own, login]

/-- Who takes over whom is refused alike: what counts as claimed is a valid id. -/
theorem takeOvers_people {xs ys : List Person} (items : List.Forall₂ d.People xs ys) (i : ℕ)
    (claimed : List (String × String)) : takeOvers i claimed xs = takeOvers i claimed ys := by
  induction items generalizing i claimed with
  | nil => rfl
  | @cons p p' _ _ people rest ih =>
    have taken := people.takesOver
    simp only [takeOvers, takeOverProblems, people.id.quoted, ih]
    generalize p.takesOver = t, p'.takesOver = t' at taken ⊢
    cases taken with
    | none => rfl
    | @some x x' hides =>
      cases fine : takeable p' x' with
      | false => simp [Option.filter, takeable_people people hides, fine]
      | true =>
        have ok : validPersonId x = true := by
          rw [hides.same]
          simp only [takeable, Bool.and_eq_true] at fine
          exact fine.1.1
        simp only [Option.filter, takeable_people people hides, hides.kept ok]

end

section
variable {d : Disguise} {l l' : Lineup} (lineups : d.Lineups l l')
include lineups

theorem Lineups.keys : List.Forall₂ (d.Hides validId) l.sets.keys l'.sets.keys := by
  rw [← Std.ExtTreeMap.map_fst_toList_eq_keys, ← Std.ExtTreeMap.map_fst_toList_eq_keys, List.forall₂_map_left_iff,
    List.forall₂_map_right_iff]
  exact lineups.sets.imp fun e e' worn => worn.set

theorem Lineups.placed :
    List.Forall₂ (d.Hides validPersonId) (l.sets.toList.map (·.2)) (l'.sets.toList.map (·.2)) := by
  rw [List.forall₂_map_left_iff, List.forall₂_map_right_iff]
  exact lineups.sets.imp fun e e' worn => worn.wearer

theorem Lineups.inputKeys : List.Forall₂ (d.Hides validId) l.inputs.keys l'.inputs.keys := by
  rw [← Std.ExtTreeMap.map_fst_toList_eq_keys, ← Std.ExtTreeMap.map_fst_toList_eq_keys, List.forall₂_map_left_iff,
    List.forall₂_map_right_iff]
  exact lineups.inputs.imp fun e e' labelled => labelled.input

/-- What a lineup places outside the equipment. -/
theorem Lineups.equipment {e e' : Equipment} (equipped : d.Equipped e e') (lineup : String) :
    e.lineupProblems lineup l = e'.lineupProblems lineup l' := by
  refine congrArg₂ (· ++ ·) (flatMap_zipIdx lineups.keys fun j set set' hides => ?_)
    (flatMap_zipIdx lineups.inputs fun k x y labelled => ?_)
  · have listed : e.hasSet set = e'.hasSet set' := hides.any equipped.sets
    simp only [listed, hides.quoted]
  · have listed : e.hasInput x.1 = e'.hasInput y.1 := labelled.input.any equipped.inputs
    simp only [listed, labelled.input.quoted, isSome_rel labelled.owner]

/-- A lineup's problems, after lineups of one shape. -/
theorem Lineups.problems {ids ids' seen seen' : List String} {e e' : Option Equipment}
    (known : List.Forall₂ (d.Hides validPersonId) ids ids') (equipped : Option.Rel d.Equipped e e')
    (before : List.Forall₂ (d.Hides validLineupId) seen seen') (i : ℕ) :
    lineupProblems ids e i seen l = lineupProblems ids' e' i seen' l' := by
  unfold lineupProblems
  simp only [lineups.id.quoted]
  refine congrArg₂ (· ++ ·) (congrArg₂ (· ++ ·) (congrArg₂ (· ++ ·) (congrArg₂ (· ++ ·) ?own ?worn) ?leads)
    ?labels) ?outside
  case own =>
    simp only [lineups.id.same, lineups.id.contains before, lineups.name, lineups.main, isEmpty_rel lineups.sets]
  case worn =>
    refine walk_rel (R := d.Worn) (K := d.Hides validPersonId) (fun x y worn => .cons worn.wearer .nil) ?_ lineups.sets
    intro j placed placed' x y earlier worn
    simp only [worn.set.quoted, someone_hides worn.wearer, worn.wearer.contains known, worn.wearer.contains earlier]
  case leads =>
    refine flatMap_zipIdx lineups.leaders fun k leader leader' hides => ?_
    simp only [hides.contains lineups.placed, hides.quoted]
  case labels =>
    refine flatMap_zipIdx lineups.inputs fun k x y labelled => ?_
    have owner := labelled.owner
    simp only [labelled.input.quoted, labelled.name]
    generalize x.2.owner = o, y.2.owner = o' at owner ⊢
    cases owner with
    | none => rfl
    | some hides => simp only [hides.contains lineups.placed, someone_hides hides]
  case outside =>
    cases equipped with
    | none => rfl
    | some equipped => exact lineups.equipment equipped _

end

section
variable {d : Disguise}

theorem listProblems_rel (what : String) {ids ids' : List String} (items : List.Forall₂ (d.Hides validId) ids ids') :
    Equipment.listProblems what ids = Equipment.listProblems what ids' := by
  refine walk_rel (K := d.Hides validId) (fun v v' hides => ?_) (fun n seen seen' v v' before hides => ?_) items
  · rw [hides.same]
    split
    · exact .cons hides .nil
    · exact .nil
  · simp only [hides.quoted]
    simp only [hides.same, hides.contains before]

theorem ids_people {xs ys : List Person} (items : List.Forall₂ d.People xs ys) :
    List.Forall₂ (d.Hides validPersonId) (xs.map (·.id)) (ys.map (·.id)) := by
  rw [List.forall₂_map_left_iff, List.forall₂_map_right_iff]
  exact items.imp fun p p' people => people.id

theorem mains_rel {xs ys : List Lineup} (items : List.Forall₂ d.Lineups xs ys) :
    (xs.filter (·.main)).length = (ys.filter (·.main)).length := by
  induction items with
  | nil => rfl
  | @cons l l' _ _ first rest ih =>
    rw [List.filter_cons, List.filter_cons, first.main]
    split
    · rw [List.length_cons, List.length_cons, ih]
    · exact ih

/-- A roster's own problems tell nothing of what is hidden. -/
theorem problems_rel {r r' : Roster} (rosters : d.Rosters r r') : r.problems = r'.problems := by
  unfold Roster.problems
  refine congrArg₂ (· ++ ·) (congrArg₂ (· ++ ·) (congrArg₂ (· ++ ·) (congrArg₂ (· ++ ·) (congrArg₂ (· ++ ·)
    ?none ?people) ?takeOvers) ?lineups) ?mains) ?equipment
  case none => rw [isEmpty_rel rosters.people]
  case people => exact walk_rel keys_people personProblems_people rosters.people
  case takeOvers => exact takeOvers_people rosters.people 0 []
  case lineups =>
    refine walk_rel (K := d.Hides validLineupId) (fun l l' lineups => .cons lineups.id .nil) ?_ rosters.lineups
    exact fun i seen seen' l l' before lineups =>
      lineups.problems (ids_people rosters.people) rosters.equipment before i
  case mains => rw [mains_rel rosters.lineups]
  case equipment =>
    have equipment := rosters.equipment
    generalize r.equipment = e, r'.equipment = e' at equipment ⊢
    cases equipment with
    | none => rfl
    | some equipped =>
      exact congrArg₂ (· ++ ·) (listProblems_rel "set" equipped.sets) (listProblems_rel "input" equipped.inputs)

end

/-- No id of the site is a hidden value. -/
structure Unseen (d : Disguise) (facts : TopologyFacts) : Prop where
  here : ∀ v v', d.Hides validId v v' → v' ≠ v → v ∉ facts.ids
  there : ∀ v v', d.Hides validId v v' → v' ≠ v → v' ∉ facts.ids

/-- A site of valid ids shows nothing hidden. -/
theorem unseen_of_valid {facts : TopologyFacts} (valid : ∀ v ∈ facts.ids, validId v = true) : d.Unseen facts := by
  constructor
  all_goals
    intro v v' hides apart member
    rcases hides.hidden with same | ⟨no, no'⟩
    · exact apart same
    · simp_all

theorem hears_site (facts : TopologyFacts) (set : String) : ((facts.mix set).map (·.hears)).getD [] ⊆ facts.ids := by
  cases found : facts.mix set with
  | none => simp
  | some m =>
    intro heard member
    simp only [TopologyFacts.ids, List.mem_append, List.mem_flatMap]
    exact .inl (.inr ⟨m, List.mem_of_find?_eq_some found, member⟩)

section
variable {d : Disguise} {facts : TopologyFacts} (unseen : d.Unseen facts)
include unseen

theorem Unseen.mem_iff {v v' : String} (hides : d.Hides validId v v') {ids : List String} (site : ids ⊆ facts.ids) :
    ids.contains v = ids.contains v' := by
  by_cases same : v' = v
  · rw [same]
  · have here : v ∉ ids := fun member => unseen.here v v' hides same (site member)
    have there : v' ∉ ids := fun member => unseen.there v v' hides same (site member)
    simp [here, there]

theorem Unseen.mix {v v' : String} (hides : d.Hides validId v v') : facts.mix v = facts.mix v' := by
  by_cases same : v' = v
  · rw [same]
  · have none : ∀ w, w ∉ facts.ids → facts.mix w = none := by
      intro w absent
      refine List.find?_eq_none.mpr fun m member named => absent ?_
      simp only [TopologyFacts.ids, List.mem_append, List.mem_map]
      exact .inl (.inl ⟨m, member, by simpa using named⟩)
    rw [none v (unseen.here v v' hides same), none v' (unseen.there v v' hides same)]

theorem foreignProblems_rel {named : String} {sets sets' inputs inputs' : List String}
    (worn : List.Forall₂ (d.Hides validId) sets sets') (listed : List.Forall₂ (d.Hides validId) inputs inputs') :
    foreignProblems facts named sets inputs = foreignProblems facts named sets' inputs' := by
  refine congrArg₂ (· ++ ·) (flatMap_zipIdx worn fun j set set' hides => ?_)
    (flatMap_zipIdx listed fun k input input' hides => ?_)
  · have isSet : facts.isSet set = facts.isSet set' := by
      simp only [TopologyFacts.isSet, unseen.mix hides]
    simp only [isSet, hides.quoted]
  · have site : facts.inputs ⊆ facts.ids := fun v member => by simp [TopologyFacts.ids, member]
    simp only [unseen.mem_iff hides site, hides.quoted]

end

theorem setOf_rel {d : Disguise} {l l' : Lineup} (lineups : d.Lineups l l') {who who' : String}
    (hides : d.Hides validPersonId who who') : Option.Rel (d.Hides validId) (l.setOf who) (l'.setOf who') := by
  have found := find_rel lineups.sets (p := fun e => e.2 == who) (q := fun e => e.2 == who')
    fun x y worn => worn.wearer.beq hides
  unfold Lineup.setOf
  generalize l.sets.toList.find? (fun e => e.2 == who) = x, l'.sets.toList.find? (fun e => e.2 == who') = y at found ⊢
  cases found with
  | none => exact .none
  | some worn => exact .some worn.set

theorem leaderProblems_rel {d : Disguise} {facts : TopologyFacts} (unseen : d.Unseen facts) {l l' : Lineup}
    (lineups : d.Lineups l l') (i : ℕ) : leaderProblems facts i l = leaderProblems facts i l' := by
  unfold leaderProblems
  refine flatMap_zipIdx lineups.leaders fun k leader leader' hides => ?_
  have worn := setOf_rel lineups hides
  have line : (if validLineupId l.id then l.id else "lineup #" ++ toString (i + 1)) =
      if validLineupId l'.id then l'.id else "lineup #" ++ toString (i + 1) := by
    rcases lineups.id.hidden with same | ⟨no, no'⟩
    · rw [same]
    · rw [no, no']
      rfl
  dsimp only
  generalize l.setOf leader = x, l'.setOf leader' = y at worn ⊢
  cases worn with
  | none => rfl
  | @some set set' own =>
    have place : l.sets.keys.findIdx? (· == set) = l'.sets.keys.findIdx? (· == set') :=
      findIdx_rel lineups.keys fun other other' hides => hides.beq own
    refine flatMap_zipIdx lineups.keys fun j other other' hides' => ?_
    have apart : (other != set) = (other' != set') := congrArg (!·) (hides'.beq own)
    have heard := unseen.mem_iff hides' (hears_site facts set')
    simp only [hides.unquoted, own.unquoted, hides'.unquoted, place, apart, heard, unseen.mix own, line]

/-- Nor do its problems against a site none of whose ids is hidden. -/
theorem problemsAgainst_rel {d : Disguise} {facts : TopologyFacts} (unseen : d.Unseen facts) {r r' : Roster}
    (rosters : d.Rosters r r') : r.problemsAgainst facts = r'.problemsAgainst facts := by
  refine congrArg₂ (· ++ ·) (flatMap_zipIdx rosters.lineups fun i l l' lineups => ?_) ?_
  · simp only [lineups.id.quoted, leaderProblems_rel unseen lineups,
      foreignProblems_rel unseen lineups.keys lineups.inputKeys]
  · have equipment := rosters.equipment
    generalize r.equipment = e, r'.equipment = e' at equipment ⊢
    cases equipment with
    | none => rfl
    | some equipped => exact foreignProblems_rel unseen equipped.sets equipped.inputs

/-- Problems tell nothing of names or of what is no valid id, and a redacted message nothing of what
its spans hold. -/
theorem problems_keep_names :
    (∀ (d : Disguise) (r r' : Roster), d.Rosters r r' → r.problems = r'.problems ∧
      ∀ facts, d.Unseen facts → r.problemsAgainst facts = r'.problemsAgainst facts) ∧
    (∀ message : String, ∃ ps, Redact.Reads message.toList ps) ∧
    ∀ (message message' : String) (ps ps' : List Redact.Piece), Redact.Reads message.toList ps →
      Redact.Reads message'.toList ps' → ps.map (·.cut) = ps'.map (·.cut) → redact message = redact message' := by
  refine ⟨fun d r r' rosters => ⟨problems_rel rosters, fun facts unseen => problemsAgainst_rel unseen rosters⟩,
    fun message => Redact.reads_exists _, fun message message' ps ps' reads reads' same => ?_⟩
  rw [Redact.redact_eq reads, Redact.redact_eq reads', same]

/-- One person, and a band that labels the input `mic`. -/
def micRoster (mic : String) : Roster where
  lineups := [{
    id := "band"
    main := true
    name := "Band"
    inputs := (∅ : BTreeMap String LineupInput).insert mic { name := "Voice" } }]
  people := [⟨"anna", "Anna", none⟩]

def otherMic : Disguise where
  values := {v | v ∈ ["anna", "band", "Mic 1"]}
  rename v := if v = "Mic 1" then "Mic 2" else v
  apart := by
    simp only [Set.InjOn, Set.mem_ofPred_eq]
    decide

theorem otherMic_rosters : otherMic.Rosters (micRoster "Mic 1") (micRoster "Mic 2") where
  people := .cons ⟨⟨by simp [otherMic], by decide, .inl rfl⟩, rfl, .none⟩ .nil
  lineups := by
    have input : otherMic.Hides validId "Mic 1" "Mic 2" :=
      ⟨by simp [otherMic], by decide, .inr ⟨by decide, by decide⟩⟩
    exact .cons ⟨⟨by simp [otherMic], by decide, .inl rfl⟩, rfl, rfl, .nil, .nil, .cons ⟨input, rfl, .none⟩ .nil⟩ .nil
  equipment := .none

theorem problems_keep_names_mic :
    (micRoster "Mic 1").problems = (micRoster "Mic 2").problems ∧
      (micRoster "Mic 1").problemsAgainst { inputs := ["voice"] } =
        (micRoster "Mic 2").problemsAgainst { inputs := ["voice"] } ∧
      redact "`Anna`" = redact "`Bo`" := by
  obtain ⟨rosters, -, redacted⟩ := problems_keep_names
  obtain ⟨own, against⟩ := rosters otherMic _ _ otherMic_rosters
  have quoted : ∀ held : List Char, held.all (fun c => c != Char.ofNat 0x60 && !isBackslash c) = true →
      Redact.Reads (Char.ofNat 0x60 :: (held ++ [Char.ofNat 0x60])) [.span (Char.ofNat 0x60) held] :=
    fun held plain => .span (by decide) (Redact.held_plain plain) .nil
  have anna : Redact.Reads "`Anna`".toList [.span (Char.ofNat 0x60) ['A', 'n', 'n', 'a']] := by
    rw [show "`Anna`".toList = Char.ofNat 0x60 :: (['A', 'n', 'n', 'a'] ++ [Char.ofNat 0x60]) by decide]
    exact quoted ['A', 'n', 'n', 'a'] (by decide)
  have bo : Redact.Reads "`Bo`".toList [.span (Char.ofNat 0x60) ['B', 'o']] := by
    rw [show "`Bo`".toList = Char.ofNat 0x60 :: (['B', 'o'] ++ [Char.ofNat 0x60]) by decide]
    exact quoted ['B', 'o'] (by decide)
  exact ⟨own, against _ (unseen_of_valid _ (by decide)), redacted _ _ _ _ anna bo rfl⟩

/-- A site file may name an input by no valid id: the roster's input is then told from another. -/
theorem site_names_the_input :
    otherMic.Rosters (micRoster "Mic 1") (micRoster "Mic 2") ∧
      (micRoster "Mic 1").problemsAgainst { inputs := ["Mic 1"] } = [] ∧
      (micRoster "Mic 2").problemsAgainst { inputs := ["Mic 1"] } =
        ["lineup 'band': input #1 is not an input of the site"] :=
  ⟨otherMic_rosters, by decide +kernel, by decide +kernel⟩

end Disguise

end IemMixer.Server
