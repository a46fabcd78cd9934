import IemMixer.Server.Migration

/-! What the migration makes of the legacy files: whose copies end in the main lineup, as
functions of the files alone. -/
namespace IemMixer.Server.Migration
open Lib Proto Lib.Process

/-! ### A roster without problems -/

/-- People are listed once each. -/
theorem people_once {i : ℕ} {seen : List String} {people : List Person}
    (none : walk personProblems (some ·.id) i seen people = []) :
    (people.map (·.id)).Nodup ∧ ∀ p ∈ people, p.id ∉ seen := by
  have caught : ∀ j before (p : Person) k, some p.id = some k → k ∈ before → personProblems j before p ≠ [] := by
    intro j before p k named again
    cases named
    simp [personProblems, again]
  obtain ⟨distinct, fresh⟩ := walk_distinct (fun p : Person => some p.id) caught none
  rw [List.filterMap_eq_map'] at distinct fresh
  exact ⟨distinct, fun p member => fresh p.id (List.mem_map_of_mem member)⟩

/-- Whoever is taken over is taken over once, by a lower-case id that is not the taker's. -/
theorem takeOvers_nil {i : ℕ} {claimed : List (String × String)} {people : List Person}
    (none : takeOvers i claimed people = []) :
    (people.filterMap (·.takesOver)).Nodup ∧
      ∀ p ∈ people, ∀ x ∈ p.takesOver, takeable p x = true ∧ claimed.lookup x = Option.none := by
  induction people generalizing i claimed with
  | nil => simp
  | cons p rest ih =>
    obtain ⟨here, later⟩ := List.append_eq_nil_iff.mp none
    obtain ⟨distinct, fresh⟩ := ih later
    have own : ∀ x ∈ p.takesOver, takeable p x = true ∧ claimed.lookup x = Option.none := by
      intro x takes
      rw [Option.mem_def] at takes
      simp only [takeOverProblems, takes] at here
      split at here
      · cases here
      · rename_i fine
        refine ⟨by simpa using fine, ?_⟩
        cases first : claimed.lookup x with
        | none => rfl
        | some who =>
          rw [first] at here
          cases here
    have before : ∀ q ∈ rest, ∀ y ∈ q.takesOver, claimed.lookup y = Option.none ∧ p.takesOver ≠ some y := by
      intro q member y takes
      have unclaimed := (fresh q member y takes).2
      cases mine : p.takesOver with
      | none =>
        simp only [mine, Option.filter_none, Option.map_none, Option.toList_none, List.nil_append] at unclaimed
        exact ⟨unclaimed, by simp⟩
      | some x =>
        have fine := (own x mine).1
        simp only [mine, Option.filter_some, fine, if_true, Option.map_some, Option.toList_some, List.cons_append,
          List.nil_append, List.lookup_cons] at unclaimed
        by_cases same : y = x
        · subst same
          simp at unclaimed
        · simp only [beq_eq_false_iff_ne.mpr same] at unclaimed
          exact ⟨unclaimed, fun he => same (Option.some.inj he).symm⟩
    refine ⟨?_, fun q member x takes => ?_⟩
    · cases mine : p.takesOver with
      | none => simpa [mine] using distinct
      | some x =>
        rw [List.filterMap_cons_some mine, List.nodup_cons]
        refine ⟨fun again => ?_, distinct⟩
        obtain ⟨q, member, takes⟩ := List.mem_filterMap.mp again
        exact (before q member x takes).2 mine
    · rcases List.mem_cons.mp member with rfl | inside
      · exact own x takes
      · exact ⟨(fresh q inside x takes).1, (before q inside x takes).1⟩

/-- A roster without problems, as the migration reads it. -/
structure Fit (roster : Roster) : Prop where
  once : (roster.people.map (·.id)).Nodup
  human : ∀ p ∈ roster.people, p.id ≠ engineerId
  apart : (roster.people.filterMap (·.takesOver)).Nodup
  gone : ∀ p ∈ roster.people, ∀ x ∈ p.takesOver, stays roster x = false
  main : ∃ l, roster.main = some l ∧ validLineupId l.id = true

theorem not_engineer {i : ℕ} {seen : List String} {p : Person} (none : personProblems i seen p = []) :
    p.id ≠ engineerId := by
  intro same
  simp [personProblems, same] at none

theorem fit {roster : Roster} (none : migrationProblems roster = []) : Fit roster := by
  obtain ⟨sound, free⟩ := List.append_eq_nil_iff.mp none
  simp only [Roster.problems, List.append_eq_nil_iff] at sound
  obtain ⟨⟨⟨⟨⟨-, people⟩, overs⟩, lineups⟩, mains⟩, -⟩ := sound
  refine ⟨(people_once people).1, fun p member => ?_, (takeOvers_nil overs).1, fun p member x takes => ?_, ?_⟩
  · obtain ⟨i, seen, own⟩ := walk_each people member
    exact not_engineer own
  · have fine := ((takeOvers_nil overs).2 p member x takes).1
    simp only [takeable, Bool.and_eq_true, bne_iff_ne] at fine
    obtain ⟨i, bound, rfl⟩ := List.getElem_of_mem member
    have no := List.flatMap_eq_nil_iff.mp free (roster.people[i], i)
      (List.mk_mem_zipIdx_iff_getElem?.mpr (List.getElem?_eq_getElem bound))
    simp only [Option.mem_def.mp takes] at no
    split at no
    · cases no
    · rename_i noone
      simp only [Option.isSome_iff_ne_none, ne_eq, not_not] at noone
      simp [stays, fine.2, noone]
  · have single : (roster.lineups.filter (·.main)).length = 1 := by
      by_contra other
      simp [other] at mains
    cases found : roster.main with
    | none =>
      have unset := List.find?_eq_none.mp (show roster.lineups.find? (·.main) = Option.none from found)
      rw [List.filter_eq_nil_iff.mpr unset] at single
      cases single
    | some l =>
      refine ⟨l, rfl, ?_⟩
      obtain ⟨i, seen, own⟩ := walk_each lineups (List.mem_of_find?_eq_some found)
      by_contra bad
      simp [lineupProblems, bad] at own

/-! ### The copies -/

section
variable {β : Type} (legacy : Files β) (roster : Roster) (members : List String)

def copies (files : Files β) (kind : Kind) (src dst : String) : Bool :=
  (legacy kind src).isSome && (files kind dst).isNone

def copyIn (files : Files β) (kind : Kind) (src dst : String) : Files β :=
  if copies legacy files kind src dst then files.put kind dst (legacy kind src) else files

/-- Another's files that nobody's id keeps: somebody else takes them over. -/
def handedOver (id : String) : Bool := !stays roster id && (takers roster).any (·.2 == id)

def ownIn (files : Files β) (id : String) : Files β :=
  if handedOver roster id then files else kinds.foldl (fun files kind => copyIn legacy files kind id id) files

def takeIn (files : Files β) (taker : String × String) : Files β :=
  kinds.foldl (fun files kind => if copies legacy files kind taker.2 taker.1 then copyIn legacy files kind taker.2 taker.1
    else copyIn legacy files kind taker.2 taker.2) files

/-- The files of the staged main lineup. -/
def staged : Files β :=
  (takers roster).foldl (takeIn legacy) ((legacyMembers members).foldl (ownIn legacy roster) fun _ _ => none)

/-! One kind's row at a time: no kind's copies read another's. -/

def ownRow (old : String → Option β) (row : String → Option β) (id : String) : String → Option β :=
  if handedOver roster id then row else Function.update row id ((row id).or (old id))

def takeRow (old : String → Option β) (row : String → Option β) (taker : String × String) : String → Option β :=
  if (old taker.2).isSome && (row taker.1).isNone then Function.update row taker.1 (old taker.2)
  else Function.update row taker.2 ((row taker.2).or (old taker.2))

variable {legacy roster members} {files : Files β} {kind k : Kind}

theorem kinds_apart : (kinds.map id).Nodup := by decide

theorem mem_kinds (kind : Kind) : kind ∈ kinds := by
  cases kind <;> simp [kinds]

theorem copyIn_there (src dst : String) : copyIn legacy files kind src dst kind =
    Function.update (files kind) dst ((files kind dst).or (legacy kind src)) := by
  funext i
  by_cases same : i = dst
  · subst same
    cases source : legacy kind src <;> cases held : files kind i <;> simp [copyIn, copies, Files.put, source, held]
  · by_cases does : copies legacy files kind src dst <;> simp [copyIn, Files.put, does, same]

theorem copyIn_elsewhere (src dst : String) (other : kind ≠ k) :
    copyIn legacy files kind src dst k = files k := by
  funext i
  by_cases does : copies legacy files kind src dst <;> simp [copyIn, Files.put, does, Ne.symm other]

theorem ownIn_row (id : String) : ownIn legacy roster files id k = ownRow roster (legacy k) (files k) id := by
  unfold ownIn ownRow
  split
  · rfl
  · exact foldl_there (fun kind => kind) (fun (f : Files β) kind => f kind)
      (fun kind row => Function.update row id ((row id).or (legacy kind id)))
      (fun _ _ _ other => copyIn_elsewhere id id other) (fun _ _ => copyIn_there id id) kinds_apart (mem_kinds k) files

theorem takeIn_row (taker : String × String) :
    takeIn legacy files taker k = takeRow (legacy k) (files k) taker := by
  refine foldl_there (fun kind => kind) (fun (f : Files β) kind => f kind)
    (fun kind row => takeRow (legacy kind) row taker) ?_ ?_ kinds_apart (mem_kinds k) files
  · intro f kind k' other
    split
    · exact copyIn_elsewhere _ _ other
    · exact copyIn_elsewhere _ _ other
  · intro f kind
    cases does : copies legacy f kind taker.2 taker.1 with
    | true =>
      have fresh : f kind taker.1 = none := by
        simp only [copies, Bool.and_eq_true, Option.isNone_iff_eq_none] at does
        exact does.2
      have there : (legacy kind taker.2).isSome = true := by
        simp only [copies, Bool.and_eq_true] at does
        exact does.1
      simp [takeRow, there, fresh, copyIn_there]
    | false =>
      simp only [copies] at does
      simp [takeRow, does, copyIn_there]

theorem staged_row (kind : Kind) : staged legacy roster members kind =
    (takers roster).foldl (takeRow (legacy kind))
      ((legacyMembers members).foldl (ownRow roster (legacy kind)) fun _ => none) := by
  unfold staged
  rw [← List.foldl_hom (fun f : Files β => f kind) (fun _ _ => (takeIn_row ..).symm),
    ← List.foldl_hom (fun f : Files β => f kind) (fun _ _ => (ownIn_row ..).symm)]

variable {old row : String → Option β} {id : String}

/-- What a member's own files are of those already there. -/
theorem foldl_ownRow (keeps : handedOver roster id = false) (ids : List String) (row : String → Option β) :
    ids.foldl (ownRow roster old) row id = (row id).or (if id ∈ ids then old id else none) := by
  induction ids generalizing row with
  | nil => simp
  | cons first rest ih =>
    rw [List.foldl_cons, ih]
    by_cases same : id = first
    · subst same
      simp only [ownRow, keeps, List.mem_cons, true_or, if_true]
      cases row id <;> cases old id <;> simp
    · have elsewhere : ownRow roster old row first id = row id := by
        unfold ownRow
        split
        · rfl
        · exact Function.update_of_ne same ..
      simp [elsewhere, same]

/-- Who stays has their own files, and after them those of whom they take over. -/
theorem foldl_takeRow {takers : List (String × String)} (once : (takers.map Prod.fst).Nodup)
    (free : ∀ t ∈ takers, t.2 ≠ id) (row : String → Option β) :
    takers.foldl (takeRow old) row id = (row id).or ((takers.lookup id).bind old) := by
  induction takers generalizing row with
  | nil => simp
  | cons t rest ih =>
    obtain ⟨fresh, once⟩ := List.nodup_cons.mp (List.map_cons ▸ once)
    rw [List.foldl_cons, ih once fun t' member => free t' (List.mem_cons_of_mem _ member)]
    have other := free t List.mem_cons_self
    by_cases same : id = t.1
    · have absent : rest.lookup id = none := by
        rw [List.lookup_eq_none_iff]
        intro p member
        simp only [bne_iff_ne]
        rintro rfl
        exact fresh (same ▸ List.mem_map_of_mem member)
      rw [absent, List.lookup_cons, beq_iff_eq.mpr same]
      subst same
      cases source : old t.2 <;> cases held : row t.1 <;> simp [takeRow, source, held, Ne.symm other]
    · have elsewhere : takeRow old row t id = row id := by
        unfold takeRow
        split
        · exact Function.update_of_ne same ..
        · exact Function.update_of_ne (Ne.symm other) ..
      rw [elsewhere, List.lookup_cons, beq_eq_false_iff_ne.mpr same]

theorem takers_sublist (people : List Person) :
    ((people.filterMap fun p => p.takesOver.map fun x => (p.id, x)).map Prod.fst).Sublist (people.map (·.id)) := by
  induction people with
  | nil => simp
  | cons p rest ih =>
    cases takes : p.takesOver with
    | none => simpa [takes] using ih.cons p.id
    | some x => simpa [takes] using ih.cons_cons p.id

theorem lookup_absent {people : List Person} {id : String} (absent : id ∉ people.map (·.id)) :
    (people.filterMap fun p => p.takesOver.map fun x => (p.id, x)).lookup id = none := by
  rw [List.lookup_eq_none_iff]
  intro taker member
  simp only [bne_iff_ne]
  rintro rfl
  exact absent ((takers_sublist people).subset (List.mem_map_of_mem member))

theorem lookup_takers {people : List Person} (once : (people.map (·.id)).Nodup) {p : Person} (member : p ∈ people) :
    (people.filterMap fun p => p.takesOver.map fun x => (p.id, x)).lookup p.id = p.takesOver := by
  induction people with
  | nil => cases member
  | cons q rest ih =>
    rw [List.map_cons, List.nodup_cons] at once
    rcases List.mem_cons.mp member with rfl | later
    · cases takes : p.takesOver with
      | none =>
        rw [List.filterMap_cons_none (by simp [takes])]
        exact lookup_absent once.1
      | some x =>
        rw [List.filterMap_cons_some (by rw [takes, Option.map_some])]
        simp
    · have apart : p.id ≠ q.id := fun same => once.1 (same ▸ List.mem_map_of_mem later)
      cases takes : q.takesOver with
      | none =>
        rw [List.filterMap_cons_none (by simp [takes])]
        exact ih once.2 later
      | some x =>
        rw [List.filterMap_cons_some (by rw [takes, Option.map_some]), List.lookup_cons, beq_eq_false_iff_ne.mpr apart]
        exact ih once.2 later

/-- A legacy member's own files. -/
def own (legacy : Files β) (members : List String) (kind : Kind) (id : String) : Option β :=
  if id ∈ legacyMembers members then legacy kind id else none

/-- Who stays has their own files in the main lineup, and of the kinds they have none of the
files of whom they take over. -/
theorem staged_stays (fit : Fit roster) (kind : Kind) {id : String} (stay : stays roster id = true) :
    staged legacy roster members kind id =
      (own legacy members kind id).or (((takers roster).lookup id).bind (legacy kind)) := by
  rw [staged_row, foldl_takeRow, foldl_ownRow, Option.none_or]
  · rfl
  · simp [handedOver, stay]
  · exact fit.once.sublist (takers_sublist roster.people)
  · intro taker member same
    obtain ⟨p, person, taken⟩ := List.mem_filterMap.mp member
    obtain ⟨x, takes, rfl⟩ := Option.map_eq_some_iff.mp taken
    rw [← same, fit.gone p person x takes] at stay
    cases stay

end

end IemMixer.Server.Migration
