import IemMixer.Server.RosterProblems
import Mathlib.Data.Set.Function

/-! A roster's moves happen at once: every source is read before any target is written,
and the record of silenced sets goes along. -/
namespace IemMixer.Server
open Lib Proto

theorem placed_once {l : Lineup} {ids : List String} {equipment : Option Equipment} {i : ℕ} {seen : List String}
    (none : lineupProblems ids equipment i seen l = []) : (l.sets.toList.map (·.2)).Nodup := by
  simp only [lineupProblems, List.append_eq_nil_iff] at none
  have once := (walk_distinct (fun p : String × String => some p.2) ?_ none.1.1.1.2).1
  · rwa [List.filterMap_eq_map'] at once
  · intro j seen p k named again
    cases named
    simp [again]

/-- In a roster without problems nobody wears two sets of a lineup. -/
theorem wearers_nodup {r : Roster} (sound : r.problems = []) {id : String} {l : Lineup}
    (held : r.lineup id = some l) : (l.sets.toList.map (·.2)).Nodup := by
  have member : l ∈ r.lineups := List.mem_of_find?_eq_some held
  unfold Roster.problems at sound
  simp only [List.append_eq_nil_iff] at sound
  obtain ⟨i, before, none⟩ := walk_each sound.1.1.2 member
  exact placed_once none

theorem setOf_iff {l : Lineup} (apart : (l.sets.toList.map (·.2)).Nodup) (person set : String) :
    l.setOf person = some set ↔ l.sets[set]? = some person := by
  rw [← Std.ExtTreeMap.mem_toList_iff_getElem?_eq_some]
  unfold Lineup.setOf
  constructor
  · intro found
    obtain ⟨⟨s, p⟩, first, rfl⟩ := Option.map_eq_some_iff.mp found
    have same : p = person := by simpa using List.find?_some first
    exact same ▸ List.mem_of_find?_eq_some first
  · intro member
    cases found : l.sets.toList.find? fun p => p.2 == person with
    | none => simpa using List.find?_eq_none.mp found _ member
    | some first =>
      have same : first.2 = person := by simpa using List.find?_some found
      have one := List.inj_on_of_nodup_map apart (List.mem_of_find?_eq_some found) member same
      rw [one]
      rfl

/-- Moves of one person each: no set is left twice, none is taken twice, each is to another. -/
structure Apart (shift : List (String × String)) : Prop where
  left : (shift.map (·.1)).Nodup
  taken : (shift.map (·.2)).Nodup
  real : ∀ p ∈ shift, p.1 ≠ p.2

section
variable {old new : Roster} (sound : old.problems = []) (sound' : new.problems = []) {id : String}
include sound

/-- Who moves in a lineup: whoever wears one set in `old` and another in `new`. -/
theorem mem_moves_iff {src dst : String} : (src, dst) ∈ moves old new id ↔
    ∃ before after person, old.lineup id = some before ∧ new.lineup id = some after ∧
      before.sets[src]? = some person ∧ after.sets[dst]? = some person ∧ src ≠ dst := by
  unfold moves
  cases was : old.lineup id with
  | none => simp
  | some before =>
    cases now : new.lineup id with
    | none => simp
    | some after =>
      simp only [List.mem_filterMap, Option.bind_eq_some_iff, Option.some.injEq]
      constructor
      · rintro ⟨⟨set, person⟩, member, leaves, wore, moved⟩
        split at moved
        · rename_i apart
          obtain ⟨rfl, rfl⟩ := Prod.mk.inj (Option.some.inj moved)
          exact ⟨before, after, person, rfl, rfl, (setOf_iff (wearers_nodup sound was) person leaves).mp wore,
            Std.ExtTreeMap.mem_toList_iff_getElem?_eq_some.mp member, apart⟩
        · cases moved
      · rintro ⟨_, _, person, rfl, rfl, wore, wears, apart⟩
        refine ⟨(dst, person), Std.ExtTreeMap.mem_toList_iff_getElem?_eq_some.mpr wears, src, ?_, if_pos apart⟩
        exact (setOf_iff (wearers_nodup sound was) person src).mpr wore

include sound'

/-- The moves back. -/
theorem mem_moves_back {src dst : String} : (src, dst) ∈ moves new old id ↔ (dst, src) ∈ moves old new id := by
  rw [mem_moves_iff sound', mem_moves_iff sound]
  constructor
  · rintro ⟨before, after, person, was, now, wore, wears, apart⟩
    exact ⟨after, before, person, now, was, wears, wore, apart.symm⟩
  · rintro ⟨before, after, person, was, now, wore, wears, apart⟩
    exact ⟨after, before, person, now, was, wears, wore, apart.symm⟩

theorem moves_apart : Apart (moves old new id) := by
  have real : ∀ p ∈ moves old new id, p.1 ≠ p.2 := by
    rintro ⟨src, dst⟩ member
    obtain ⟨-, -, -, -, -, -, -, apart⟩ := (mem_moves_iff sound).mp member
    exact apart
  unfold moves at real ⊢
  cases was : old.lineup id with
  | none => exact ⟨.nil, .nil, by simp⟩
  | some before =>
    cases now : new.lineup id with
    | none => exact ⟨.nil, .nil, by simp⟩
    | some after =>
      have worn := wearers_nodup sound was
      have persons := wearers_nodup sound' now
      simp only [was, now] at real
      refine ⟨?_, ?_, real⟩
      · rw [List.nodup_iff_pairwise_ne, List.pairwise_map, List.pairwise_filterMap]
        rw [List.nodup_iff_pairwise_ne, List.pairwise_map] at persons
        refine persons.imp fun {a a'} differ b from_a b' from_a' same => differ ?_
        simp only [Option.bind_eq_some_iff] at from_a from_a'
        obtain ⟨s, wore, moved⟩ := from_a
        obtain ⟨s', wore', moved'⟩ := from_a'
        split at moved <;> cases moved
        split at moved' <;> cases moved'
        subst same
        have first := (setOf_iff worn a.2 s).mp wore
        rw [(setOf_iff worn a'.2 s).mp wore'] at first
        exact (Option.some.inj first).symm
      · have keys := BTreeMap.nodup_keys_toList after.sets
        rw [List.nodup_iff_pairwise_ne, List.pairwise_map] at keys
        rw [List.nodup_iff_pairwise_ne, List.pairwise_map, List.pairwise_filterMap]
        refine keys.imp fun {a a'} differ b from_a b' from_a' same => differ ?_
        simp only [Option.bind_eq_some_iff] at from_a from_a'
        obtain ⟨s, -, moved⟩ := from_a
        obtain ⟨s', -, moved'⟩ := from_a'
        split at moved <;> cases moved
        split at moved' <;> cases moved'
        exact same

end

/-- `moved` is `mix`, but for the level it had of `dst`, now its level of `src`. -/
structure Carried (mix moved : Mix) (src dst : MixId) : Prop where
  out : moved.out = mix.out
  inputs : moved.inputs = mix.inputs
  groups : moved.groups = mix.groups
  mixes : ∀ heard : MixId, moved.mixes[heard]? =
    if heard = src then mix.mixes[dst]? else if heard = dst then none else mix.mixes[heard]?

/-- No mix holds a level of itself. -/
def Deaf (state : MixState) : Prop :=
  ∀ (set : MixId) (mix : Mix), state.mixes[set]? = some mix → mix.mixes[set]? = none

theorem movedMix_carried {mix : Mix} {src dst : MixId} (deaf : mix.mixes[src]? = none) :
    Carried mix (movedMix mix src dst) src dst := by
  unfold movedMix
  cases heard : mix.mixes[dst]? with
  | none =>
    refine ⟨rfl, rfl, rfl, fun other => ?_⟩
    by_cases here : other = src
    · rw [if_pos here, here, deaf, heard]
    · by_cases there : other = dst
      · rw [if_neg here, if_pos there, there, heard]
      · rw [if_neg here, if_neg there]
  | some level =>
    refine ⟨rfl, rfl, rfl, fun other => ?_⟩
    simp only [BTreeMap.getElem?_insert_eq, BTreeMap.getElem?_erase_eq]
    simp only [eq_comm (a := src), eq_comm (a := dst), heard]

/-- A mix that went and came back. -/
theorem Carried.back {mix moved again : Mix} {src dst : MixId} (there : Carried mix moved src dst)
    (back : Carried moved again dst src) (deaf : mix.mixes[src]? = none) : again = mix := by
  apply Mix.ext
  · rw [back.out, there.out]
  · rw [back.inputs, there.inputs]
  · rw [back.groups, there.groups]
  · apply Std.ExtTreeMap.ext_getElem?
    intro heard
    rw [back.mixes, there.mixes, there.mixes, if_pos rfl]
    by_cases new : heard = dst
    · rw [if_pos new, new]
    · rw [if_neg new]
      by_cases own : heard = src
      · rw [if_pos own, own, deaf]
      · rw [if_neg own, if_neg own, if_neg new]

section
variable {state : MixState} {shift : List (String × String)}

theorem applyMoves_inputs (state : MixState) (shift : List (String × String)) :
    (applyMoves state shift).inputs = state.inputs := by
  unfold applyMoves
  refine List.foldlRecOn (motive := fun s : MixState => s.inputs = state.inputs) shift _ rfl ?_
  intro s same p _
  split <;> exact same

/-- A set nobody takes keeps its mix. -/
theorem applyMoves_elsewhere {set : MixId} (absent : set ∉ shift.map (·.2)) :
    (applyMoves state shift).mixes[set]? = state.mixes[set]? := by
  unfold applyMoves
  refine foldl_elsewhere (·.2) (fun (s : MixState) (k : String) => s.mixes[k]?) (fun s p k apart => ?_) absent state
  split
  · exact (BTreeMap.getElem?_insert_eq _ _ _ _).trans (if_neg apart)
  · rfl

theorem applyMoves_there (apart : Apart shift) {src dst : MixId} (member : (src, dst) ∈ shift) {mix : Mix}
    (held : state.mixes[src]? = some mix) :
    (applyMoves state shift).mixes[dst]? = some (movedMix mix src dst) := by
  unfold applyMoves
  refine (foldl_there (·.2) (fun (s : MixState) (k : String) => s.mixes[k]?)
    (fun p v => ((state.mixes[p.1]?).map fun mix => movedMix mix p.1 p.2).or v)
    (fun s p k apart => ?_) (fun s p => ?_) apart.taken member state).trans ?_
  · split
    · exact (BTreeMap.getElem?_insert_eq _ _ _ _).trans (if_neg apart)
    · rfl
  · split
    · rename_i mix found
      simp only [found, Option.map_some, Option.some_or]
      exact (BTreeMap.getElem?_insert_eq _ _ _ _).trans (if_pos rfl)
    · rename_i absent
      simp only [absent, Option.map_none, Option.none_or]
  · simp only [held, Option.map_some, Option.some_or]

theorem mem_moveSilenced_elsewhere {silenced : BTreeSet String} {set : String} (absent : set ∉ shift.map (·.2)) :
    set ∈ moveSilenced silenced shift ↔ set ∈ silenced := by
  unfold moveSilenced
  have same := foldl_elsewhere (·.2) (fun (s : BTreeSet String) (k : String) => k ∈ s)
    (f := fun s (p : String × String) => if p.1 ∈ silenced then s.insert p.2 else s.erase p.2)
    (fun s p k apart => by split <;> simp [apart]) absent silenced
  exact iff_of_eq same

theorem mem_moveSilenced_there (apart : Apart shift) {silenced : BTreeSet String} {src dst : String}
    (member : (src, dst) ∈ shift) : dst ∈ moveSilenced silenced shift ↔ src ∈ silenced := by
  unfold moveSilenced
  have there := foldl_there (·.2) (fun (s : BTreeSet String) (k : String) => k ∈ s)
    (f := fun s (p : String × String) => if p.1 ∈ silenced then s.insert p.2 else s.erase p.2)
    (fun p _ => p.1 ∈ silenced) (fun s p k apart => by split <;> simp [apart])
    (fun s p => by split <;> simp [*]) apart.taken member silenced
  exact iff_of_eq there

end

/-- The moves permute the sets they name. -/
def Permutes (shift : List (String × String)) : Prop := ∀ set, set ∈ shift.map (·.1) ↔ set ∈ shift.map (·.2)

section
variable {state : MixState} {shift : List (String × String)} (apart : Apart shift)
  (held : ∀ p ∈ shift, (state.mixes[p.1]?).isSome)
include apart held

theorem applyMoves_carried (deaf : Deaf state) {src dst : MixId} (member : (src, dst) ∈ shift) :
    ∃ mix moved, state.mixes[src]? = some mix ∧ (applyMoves state shift).mixes[dst]? = some moved ∧
      Carried mix moved src dst := by
  obtain ⟨mix, there⟩ := Option.isSome_iff_exists.mp (held _ member)
  exact ⟨mix, _, there, applyMoves_there apart member there, movedMix_carried (deaf src mix there)⟩

/-- Whatever a set holds after the moves is a moved mix, or its own as before. -/
theorem applyMoves_deaf (deaf : Deaf state) : Deaf (applyMoves state shift) := by
  intro set mix there
  by_cases taken : set ∈ shift.map (·.2)
  · obtain ⟨⟨src, dst⟩, member, rfl⟩ := List.mem_map.mp taken
    obtain ⟨old, moved, was, now, carried⟩ := applyMoves_carried apart held deaf member
    rw [now] at there
    cases there
    rw [carried.mixes, if_neg (Ne.symm (apart.real _ member)), if_pos rfl]
  · rw [applyMoves_elsewhere taken] at there
    exact deaf set mix there

/-- Moves that permute sets are a bijection of them, every mix carried along. -/
theorem applyMoves_permuted (deaf : Deaf state) (permutes : Permutes shift) :
    ∃ dest : MixId → MixId, Set.BijOn dest {set | set ∈ shift.map (·.1)} {set | set ∈ shift.map (·.1)} ∧
      ∀ src ∈ shift.map (·.1), ∃ mix moved, state.mixes[src]? = some mix ∧
        (applyMoves state shift).mixes[dest src]? = some moved ∧ Carried mix moved src (dest src) := by
  have goes : ∀ src ∈ shift.map (·.1), ∃ dst, (src, dst) ∈ shift := by
    intro src member
    obtain ⟨⟨s, dst⟩, inside, rfl⟩ := List.mem_map.mp member
    exact ⟨dst, inside⟩
  choose! dest moved using goes
  refine ⟨dest, ⟨?_, ?_, ?_⟩, fun src member => applyMoves_carried apart held deaf (moved src member)⟩
  · intro src member
    exact (permutes _).mpr (List.mem_map_of_mem (moved src member))
  · intro src member src' member' same
    have first := moved src member
    have second := moved src' member'
    have one := List.inj_on_of_nodup_map apart.taken first second same
    exact (Prod.mk.inj one).1
  · intro dst member
    obtain ⟨⟨src, d⟩, inside, rfl⟩ := List.mem_map.mp ((permutes dst).mp member)
    have left : src ∈ shift.map (·.1) := List.mem_map_of_mem inside
    have one := List.inj_on_of_nodup_map apart.left (moved src left) inside rfl
    exact ⟨src, left, (Prod.mk.inj one).2⟩

/-- Moves that permute sets, then the moves back. -/
theorem applyMoves_back (deaf : Deaf state) (permutes : Permutes shift) {back : List (String × String)}
    (apart' : Apart back) (reverse : ∀ src dst, (src, dst) ∈ back ↔ (dst, src) ∈ shift) :
    applyMoves (applyMoves state shift) back = state := by
  apply MixState.ext
  · rw [applyMoves_inputs, applyMoves_inputs]
  apply Std.ExtTreeMap.ext_getElem?
  intro set
  by_cases left : set ∈ shift.map (·.1)
  · obtain ⟨⟨src, dst⟩, member, rfl⟩ := List.mem_map.mp left
    obtain ⟨mix, moved, was, now, carried⟩ := applyMoves_carried apart held deaf member
    have deafened := applyMoves_deaf apart held deaf dst moved now
    have home := applyMoves_there apart' ((reverse dst src).mpr member) now
    rw [home, carried.back (movedMix_carried deafened) (deaf src mix was), was]
  · have stays : set ∉ back.map (·.2) := by
      intro taken
      obtain ⟨⟨dst, src⟩, member, rfl⟩ := List.mem_map.mp taken
      exact left (List.mem_map_of_mem ((reverse dst src).mp member))
    rw [applyMoves_elsewhere stays, applyMoves_elsewhere fun taken => left ((permutes set).mpr taken)]

end

/-- A roster's moves happen at once, and the moves back undo a permutation. -/
theorem moves_at_once {old new : Roster} (sound : old.problems = []) (sound' : new.problems = []) (id : String)
    (state : MixState) (silenced : BTreeSet String)
    (held : ∀ p ∈ moves old new id, (state.mixes[p.1]?).isSome ∧ (state.mixes[p.2]?).isSome) (deaf : Deaf state) :
    let shift := moves old new id
    let after := applyMoves state shift
    (∀ before now person src dst, old.lineup id = some before → new.lineup id = some now →
      before.setOf person = some src → now.setOf person = some dst → src ≠ dst →
        ∃ mix moved, state.mixes[src]? = some mix ∧ after.mixes[dst]? = some moved ∧ Carried mix moved src dst) ∧
    (after.inputs = state.inputs ∧ ∀ set ∉ shift.map (·.2), after.mixes[set]? = state.mixes[set]?) ∧
    Deaf after ∧
    (Permutes shift →
      (∃ dest : MixId → MixId, Set.BijOn dest {set | set ∈ shift.map (·.1)} {set | set ∈ shift.map (·.1)} ∧
        ∀ src ∈ shift.map (·.1), ∃ mix moved, state.mixes[src]? = some mix ∧ after.mixes[dest src]? = some moved ∧
          Carried mix moved src (dest src)) ∧
      applyMoves after (moves new old id) = state) ∧
    (∀ src dst, (src, dst) ∈ shift → (dst ∈ moveSilenced silenced shift ↔ src ∈ silenced)) ∧
    ∀ set ∉ shift.map (·.2), set ∈ moveSilenced silenced shift ↔ set ∈ silenced := by
  intro shift after
  have apart : Apart shift := moves_apart sound sound'
  have sources : ∀ p ∈ shift, (state.mixes[p.1]?).isSome := fun p member => (held p member).1
  refine ⟨?_, ⟨applyMoves_inputs state shift, fun set absent => applyMoves_elsewhere absent⟩,
    applyMoves_deaf apart sources deaf, ?_, ?_, ?_⟩
  · intro before now person src dst was is wore wears differ
    apply applyMoves_carried apart sources deaf
    have worn := (setOf_iff (wearers_nodup sound was) person src).mp wore
    have wearing := (setOf_iff (wearers_nodup sound' is) person dst).mp wears
    exact (mem_moves_iff sound).mpr ⟨before, now, person, was, is, worn, wearing, differ⟩
  · intro permutes
    refine ⟨applyMoves_permuted apart sources deaf permutes, ?_⟩
    exact applyMoves_back apart sources deaf permutes (moves_apart sound' sound)
      fun src dst => mem_moves_back sound sound'
  · exact fun src dst member => mem_moveSilenced_there apart member
  · exact fun set absent => mem_moveSilenced_elsewhere absent

/-- Anna, Ben and Cid on three sets in some order. -/
def trio (left middle right : String) : Roster where
  lineups := [{ id := "choir", main := true, name := "Choir"
                sets := .ofList [("left", left), ("middle", middle), ("right", right)] }]
  people := [{ id := "anna", name := "Anna" }, { id := "ben", name := "Ben" }, { id := "cid", name := "Cid" }]

/-- The mix of the left set hears the middle one's. -/
def trioState : MixState where
  mixes := .ofList [("left", { mixes := (∅ : BTreeMap MixId Level).insert "middle" { muted := true } }), ("middle", {}),
    ("right", ({} : Mix))]

/-- Everyone takes the next set: the level of the middle set is one of the left set then, and
the way back undoes it. -/
theorem moves_at_once_trio :
    let there := moves (trio "anna" "ben" "cid") (trio "cid" "anna" "ben") "choir"
    let back := moves (trio "cid" "anna" "ben") (trio "anna" "ben" "cid") "choir"
    (∃ moved, (applyMoves trioState there).mixes["middle"]? = some moved ∧
      moved.mixes["left"]? = some { muted := true }) ∧ applyMoves (applyMoves trioState there) back = trioState := by
  have deaf : Deaf trioState := by
    intro set mix there
    have entry := Std.ExtTreeMap.mem_toList_iff_getElem?_eq_some.mpr there
    have all : ∀ p ∈ trioState.mixes.toList, p.2.mixes[p.1]? = none := by decide +kernel
    exact all _ entry
  obtain ⟨carries, -, -, returns, -⟩ := moves_at_once
    (by decide +kernel : (trio "anna" "ben" "cid").problems = [])
    (by decide +kernel : (trio "cid" "anna" "ben").problems = []) "choir" trioState ∅ (by decide +kernel) deaf
  refine ⟨?_, (returns fun set => ?_).2⟩
  · obtain ⟨mix, moved, was, now, carried⟩ := carries _ _ "anna" "left" "middle" rfl rfl (by decide +kernel)
      (by decide +kernel) (by decide)
    refine ⟨moved, now, ?_⟩
    rw [carried.mixes, if_pos rfl]
    have level : (trioState.mixes["left"]?.bind fun mix => mix.mixes["middle"]?) = some { muted := true } := by
      decide +kernel
    rw [was] at level
    exact level
  · have same : ((moves (trio "anna" "ben" "cid") (trio "cid" "anna" "ben") "choir").map (·.1)).Perm
        ((moves (trio "anna" "ben" "cid") (trio "cid" "anna" "ben") "choir").map (·.2)) := by decide +kernel
    exact same.mem_iff

end IemMixer.Server
