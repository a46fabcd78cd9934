import IemMixer.Server.TransitionSteps

/-! What a transition reads and writes of the states: the record of the running one, the rosters
the markers name, and the stored states with what becomes of each. -/
namespace IemMixer.Server
open Lib Lib.Process Proto IemMixer.Core

/-! ### The running record -/

section
variable [Libm] [Sha256]

/-- The record tells `known` of the state `s`. -/
def Tells (j : Job) (s : MixState) (known : Option String × BTreeSet String) (r : Option Running) : Prop :=
  told j.active s r = known

variable {j : Job} {s n : MixState} {known : Option String × BTreeSet String}
  {stored : BTreeMap String MixerBackup → Prop} {frozen : Bool}

section
variable {o : Oracle Op Fate} {ε : Type} {E : Halt ε → Assertion World} (awake : Awake o)
  (legible : ∀ t kind, (o t .readRunning).ending ≠ .failed kind)
include awake legible

/-- What is known of the running state; its record is settled on the way. -/
theorem at_runningFor (stop : ∀ w, At j s (Tells j s known) stored frozen w → E .stopped w) :
    Triple o (At j s (Tells j s known) stored frozen) (runningFor j.active (stateDigest s))
      (fun k w => k = known ∧ At j s (Tells j s known) stored frozen w) E := by
  unfold runningFor runningOf
  refine triple_bind (Q := fun r w => knownOf j.active r = known ∧ At j s (Tells j s known) stored frozen w) ?_ ?_
  · refine triple_bind (triple_attempt (E := fun e w => e = .stopped ∧ At j s (Tells j s known) stored frozen w)
      (Q := fun r w => Tells j s known r ∧ At j s (Tells j s known) stored frozen w) ?_ fun w halted => stop w halted.2) ?_
    · exact lasting_file awake (lasting_at j s (Tells j s known) stored frozen)
        (fun w here => ⟨here.2.record, here⟩) (fun t kind failed => absurd failed (legible t kind))
        fun w here => ⟨rfl, here⟩
    · intro read
      cases read with
      | error kind => exact fun w halted => absurd halted.1 (by simp)
      | ok r =>
        cases r with
        | none => exact triple_pure fun w read => read
        | some r =>
          refine triple_fact fun tells => ?_
          simp only
          split
          · next plain =>
            refine triple_pure fun w here => ⟨?_, here⟩
            have same : settledBy s (some r) = some r := congrArg some (resolved_plain plain _)
            rw [← same]
            exact tells
          · have settled : Tells j s known (settledBy s (some r)) := (told_settled _ _ _).trans tells
            refine triple_bind (at_noteRunning awake (fun _ => id) settled stop) fun _ => ?_
            exact triple_pure fun w here => ⟨tells, here⟩
  · intro r
    refine triple_fact fun tells => ?_
    cases r with
    | none => exact triple_pure fun w here => ⟨tells, here⟩
    | some r =>
      simp only
      simp only [knownOf] at tells
      split
      · next mine =>
        rw [if_pos mine] at tells
        exact triple_pure fun w here => ⟨tells, here⟩
      · next other =>
        rw [if_neg other] at tells
        exact triple_pure fun w here => ⟨tells, here⟩

end

end

/-! ### What the markers name -/

namespace Follows

def find (f : Follows) (sha256 : String) : Option Roster := (f.known.find? (·.sha256 == sha256)).map (·.roster)

theorem find_append (f : Follows) (b : Base) (sha256 : String) :
    find { f with known := f.known ++ [b] } sha256 =
      (f.find sha256).or (if b.sha256 = sha256 then some b.roster else none) := by
  unfold find
  simp only [List.find?_append, List.find?_singleton, beq_iff_eq]
  cases f.known.find? (·.sha256 == sha256) with
  | some b' => rfl
  | none => split <;> rfl

theorem baseOf_some (f : Follows) (sha256 newSha : String) :
    f.baseOf (some sha256) newSha = if sha256 = newSha then none else f.find sha256 := rfl

end Follows

/-- What a try knows of the rosters: of each marker what there is to know, or nothing yet. -/
structure Learns (j : Job) (f : Follows) : Prop where
  unmarked : f.unmarked = j.follows.unmarked
  found : ∀ sha256, f.find sha256 = (j.follows.find sha256).or j.kept[sha256]? ∨
    f.find sha256 = none ∧ j.follows.find sha256 = none

/-- What there is to know of the marker is known. -/
def Covers (j : Job) (f : Follows) (marker : Option String) : Prop := f.baseOf marker j.newSha = j.base marker

section
variable {j : Job} {f f' : Follows} {marker : Option String}

theorem learns_start (j : Job) : Learns j j.follows where
  unmarked := rfl
  found sha256 := by
    cases known : j.follows.find sha256 with
    | none => exact .inr ⟨rfl, rfl⟩
    | some r => exact .inl rfl

theorem base_some (j : Job) (sha256 : String) : j.base (some sha256) =
    if sha256 = j.newSha then none else (j.follows.find sha256).or j.kept[sha256]? := rfl

theorem Learns.covers_none (learns : Learns j f) : Covers j f none :=
  congrArg (Option.map Base.roster) learns.unmarked

theorem covers_some {sha256 : String} (found : f.find sha256 = (j.follows.find sha256).or j.kept[sha256]?) :
    Covers j f (some sha256) := by
  unfold Covers
  rw [Follows.baseOf_some, base_some, found]

/-- Of a marker nobody knew, the kept roster. -/
theorem Learns.append (learns : Learns j f) {sha256 : String} {roster : Roster} (fresh : f.find sha256 = none)
    (kept : j.kept[sha256]? = some roster) :
    Learns j { f with known := f.known ++ [{ roster, sha256 }] } ∧
      Covers j { f with known := f.known ++ [{ roster, sha256 }] } (some sha256) ∧
      ∀ m, Covers j f m → Covers j { f with known := f.known ++ [{ roster, sha256 }] } m := by
  have unknown : j.follows.find sha256 = none := by
    rcases learns.found sha256 with found | ⟨-, none⟩
    · rw [fresh] at found
      cases known : j.follows.find sha256 with
      | none => rfl
      | some r => rw [known] at found; cases found
    · exact none
  have here : Follows.find { f with known := f.known ++ [{ roster, sha256 }] } sha256 =
      (j.follows.find sha256).or j.kept[sha256]? := by
    rw [Follows.find_append, fresh, unknown, kept]
    simp
  have apart : ∀ other, other ≠ sha256 →
      Follows.find { f with known := f.known ++ [{ roster, sha256 }] } other = f.find other := by
    intro other distinct
    rw [Follows.find_append, if_neg (Ne.symm distinct), Option.or_none]
  refine ⟨⟨learns.unmarked, fun other => ?_⟩, covers_some here, ?_⟩
  · by_cases same : other = sha256
    · exact .inl (same ▸ here)
    · rw [apart other same]
      exact learns.found other
  · intro m covers
    cases m with
    | none => exact covers
    | some other =>
      by_cases same : other = sha256
      · subst same
        exact covers_some here
      · unfold Covers at covers ⊢
        rw [Follows.baseOf_some] at covers ⊢
        rw [apart other same]
        exact covers

section
variable [Libm]
variable {o : Oracle RosterOp Fate} (legible : Legible o) {ε : Type} {E : Halt ε → Assertion World} {P : Assertion World}
include legible

/-- A marker's roster is learned; the world stays. -/
theorem triple_learn (learns : Learns j f) (lasting : Lasting P) (kept : ∀ w, P w → w.store.rosters = j.kept)
    (stop : ∀ w, P w → E .stopped w) :
    Triple o P (f.learn marker) (fun f' w =>
      (Learns j f' ∧ Covers j f' marker ∧ ∀ m, Covers j f m → Covers j f' m) ∧ P w) E := by
  unfold Follows.learn
  cases marker with
  | none => exact triple_pure fun w here => ⟨⟨learns, learns.covers_none, fun _ => id⟩, here⟩
  | some sha256 =>
    simp only
    by_cases known : f.known.any (·.sha256 == sha256)
    · simp only [known, if_true]
      refine triple_pure fun w here => ⟨⟨learns, ?_, fun _ => id⟩, here⟩
      rcases learns.found sha256 with found | ⟨none, -⟩
      · exact covers_some found
      · obtain ⟨b, member, same⟩ := List.any_eq_true.mp known
        have gone := Option.map_eq_none_iff.mp none
        exact absurd same (List.find?_eq_none.mp gone b member)
    · simp only [known, Bool.false_eq_true, if_false]
      have fresh : f.find sha256 = none := by
        refine Option.map_eq_none_iff.mpr (List.find?_eq_none.mpr fun b member same => ?_)
        exact known (List.any_eq_true.mpr ⟨b, member, same⟩)
      refine triple_bind (triple_attempt (E := fun e w => e = .stopped ∧ P w)
        (Q := fun r w => r = j.kept[sha256]? ∧ P w) ?_ fun w halted => stop w halted.2) ?_
      · refine triple_relabel (lasting_file (legible.keptAwake sha256) lasting ?_ ?_ fun w here => ⟨rfl, here⟩)
        · exact fun w here => ⟨by rw [kept w here], here⟩
        · exact fun t kind failed => absurd failed (legible.kept t sha256 kind)
      · intro read
        cases read with
        | error kind => exact fun w halted => absurd halted.1 (by simp)
        | ok r =>
          refine triple_fact fun same => ?_
          cases r with
          | some roster => exact triple_pure fun w here => ⟨learns.append fresh same.symm, here⟩
          | none =>
            refine triple_pure fun w here => ⟨⟨learns, ?_, fun _ => id⟩, here⟩
            rcases learns.found sha256 with found | ⟨-, none⟩
            · exact covers_some found
            · refine covers_some ?_
              rw [fresh, none, ← same]
              rfl

/-- The stored states of `ls`, and the rosters they follow. -/
theorem triple_storedStates {states : BTreeMap String MixerBackup} (lasting : Lasting P)
    (kept : ∀ w, P w → w.store.rosters = j.kept) (stored : ∀ w, P w → w.store.states = states) (ls : List Lineup)
    (learns : Learns j f) :
    Triple o P (storedStates f ls) (fun r w => (Learns j r.1 ∧ (∀ m, Covers j f m → Covers j r.1 m) ∧
      (∀ p ∈ r.2, Covers j r.1 p.2.follows) ∧ r.2 = ls.filterMap fun l => (states[l.id]?).map (l, ·)) ∧ P w)
      fun _ => P := by
  induction ls generalizing f with
  | nil => exact triple_pure fun w here => ⟨⟨learns, fun _ => id, fun p member => absurd member List.not_mem_nil, rfl⟩, here⟩
  | cons l rest ih =>
    unfold storedStates
    refine triple_bind (Q := fun b w => b = states[l.id]? ∧ P w) ?_ fun b => triple_fact fun found => ?_
    · refine triple_mapErr (E := fun _ => P) _ (triple_relabel (lasting_file legible.awake lasting ?_ (fun _ _ _ _ => id) fun _ => id))
        (fun _ => id) fun _ _ => id
      exact fun w here => ⟨by rw [stored w here], here⟩
    · cases b with
      | none =>
        simp only [List.filterMap_cons, ← found, Option.map_none]
        exact ih learns
      | some b =>
        simp only [List.filterMap_cons, ← found, Option.map_some]
        refine triple_bind (triple_learn legible learns lasting kept fun _ => id) fun f₁ => triple_fact fun learned => ?_
        obtain ⟨learns₁, here₁, more₁⟩ := learned
        refine triple_bind (ih learns₁) fun r => triple_fact fun later => ?_
        obtain ⟨learns₂, more₂, covered, all⟩ := later
        refine triple_pure fun w here => ⟨⟨learns₂, fun m covers => more₂ m (more₁ m covers), ?_, ?_⟩, here⟩
        · intro p member
          rcases List.mem_cons.mp member with rfl | later
          · exact more₂ _ here₁
          · exact covered p later
        · exact congrArg ((l, b) :: ·) all

end

end

/-! ### What becomes of the stored states -/

section

/-- A stored state once it follows the roster. -/
def Job.goes (j : Job) (id : String) (b : MixerBackup) : MixerBackup :=
  match j.others.find? (·.id == id) with
  | some l => if (j.carry l b).peq b then b else j.carry l b
  | none => b

/-- The stored states of which some went along. -/
def Mixed (j : Job) (m m' : BTreeMap String MixerBackup) : Prop :=
  ∀ id, m'[id]? = m[id]? ∨ m'[id]? = (m[id]?).map (j.goes id)

/-- All of them did. -/
def Went (j : Job) (m m' : BTreeMap String MixerBackup) : Prop := ∀ id, m'[id]? = (m[id]?).map (j.goes id)

/-- As they were, but for those whose file could not be written. -/
def Restored (o : Oracle RosterOp Fate) (j : Job) (m m' : BTreeMap String MixerBackup) : Prop :=
  ∀ id, m'[id]? = m[id]? ∨
    m'[id]? = (m[id]?).map (j.goes id) ∧ ∃ t kind, (o t (.op (.writeState id))).ending = .failed kind

theorem others_distinct (j : Job) : (j.others.map (·.id)).Nodup :=
  j.distinct.sublist (List.filter_sublist.map _)

/-- One lineup goes by each id. -/
theorem find_id {ls : List Lineup} (distinct : (ls.map (·.id)).Nodup) {l : Lineup} (member : l ∈ ls) :
    ls.find? (·.id == l.id) = some l := by
  induction ls with
  | nil => exact absurd member List.not_mem_nil
  | cons x rest ih =>
    obtain ⟨apart, distinct⟩ := List.nodup_cons.mp distinct
    rcases List.mem_cons.mp member with rfl | later
    · simp
    · have other : x.id ≠ l.id := fun same => apart (List.mem_map.mpr ⟨l, later, same.symm⟩)
      rw [List.find?_cons_of_neg (by simpa using other)]
      exact ih distinct later

/-- A stored state that follows the roster is marked with it and keeps its rules. -/
theorem goes_rules (j : Job) {l : Lineup} (other : l ∈ j.others) (b : MixerBackup) :
    (j.goes l.id b).follows = some j.newSha ∧ Proper j.sets l (j.goes l.id b).state := by
  have ruled : Ruled j.sets l ((j.carry l b).state, (j.carry l b).silenced) := ruled_follow b.state b.silenced _ none
  unfold Job.goes
  rw [find_id (others_distinct j) other]
  simp only
  split
  · next same =>
    simp only [MixerBackup.peq, Bool.and_eq_true, beq_iff_eq] at same
    obtain ⟨⟨⟨⟨-, state⟩, -⟩, follows⟩, -⟩ := same
    exact ⟨follows.symm, (ruled.peq state).proper⟩
  · exact ⟨rfl, ruled.proper⟩

/-- The planned states `ps` are written. -/
def Wrote (m : BTreeMap String MixerBackup) (ps : List Planned) (m' : BTreeMap String MixerBackup) : Prop :=
  ∀ id, m'[id]? = ((ps.find? (·.id == id)).map (·.next)).or m[id]?

variable {j : Job} {m m' : BTreeMap String MixerBackup}

/-- Nobody is moved twice. -/
theorem goes_again (j : Job) (id : String) (b : MixerBackup) : j.goes id (j.goes id b) = j.goes id b := by
  unfold Job.goes
  cases j.others.find? (·.id == id) with
  | none => rfl
  | some l =>
    simp only
    by_cases same : (j.carry l b).peq b = true
    · simp only [same, if_true]
    · simp only [same, Bool.false_eq_true, if_false, Job.carry_again, ite_self]

theorem Mixed.trans {m'' : BTreeMap String MixerBackup} (first : Mixed j m m') (later : Mixed j m' m'') :
    Mixed j m m'' := by
  intro id
  rcases first id, later id with ⟨same | gone, still | goes⟩
  · exact .inl (still.trans same)
  · exact .inr (goes.trans (by rw [same]))
  · exact .inr (still.trans gone)
  · refine .inr (goes.trans ?_)
    rw [gone, Option.map_map]
    exact congrArg (Option.map · _) (funext (goes_again j id))

theorem Mixed.went {m'' : BTreeMap String MixerBackup} (first : Mixed j m m') (later : Went j m' m'') : Went j m m'' := by
  intro id
  rw [later id]
  rcases first id with same | gone
  · rw [same]
  · rw [gone, Option.map_map]
    exact congrArg (Option.map · _) (funext (goes_again j id))

/-- A planned state is a stored one and what becomes of it. -/
theorem planned_mem {p : Planned} (member : p ∈ j.planned m) :
    m[p.id]? = some p.original ∧ p.next = j.goes p.id p.original := by
  obtain ⟨l, other, made⟩ := List.mem_filterMap.mp member
  obtain ⟨b, found, made⟩ := Option.bind_eq_some_iff.mp made
  split at made
  · cases made
  · next changes =>
    cases made
    refine ⟨found, ?_⟩
    unfold Job.goes
    rw [find_id (others_distinct j) other]
    simp only [changes, Bool.false_eq_true, if_false]

theorem planned_id {l : Lineup} {p : Planned} (made : j.plannedOf m l = some p) : p.id = l.id := by
  obtain ⟨b, -, made⟩ := Option.bind_eq_some_iff.mp made
  split at made
  · cases made
  · cases made
    rfl

theorem planned_distinct (j : Job) (m : BTreeMap String MixerBackup) : ((j.planned m).map (·.id)).Nodup := by
  have sub : ∀ ls : List Lineup, ((ls.filterMap (j.plannedOf m)).map (·.id)).Sublist (ls.map (·.id)) := by
    intro ls
    induction ls with
    | nil => exact List.Sublist.refl _
    | cons l rest ih =>
      cases made : j.plannedOf m l with
      | none =>
        rw [List.filterMap_cons_none made]
        exact ih.cons _
      | some p =>
        rw [List.filterMap_cons_some made]
        simp only [List.map_cons, planned_id made]
        exact ih.cons_cons _
  exact (others_distinct j).sublist (sub j.others)

/-- All that is planned written, every stored state went along. -/
theorem Wrote.went (wrote : Wrote m (j.planned m) m') : Went j m m' := by
  intro id
  rw [wrote id]
  cases planned : (j.planned m).find? (·.id == id) with
  | some p =>
    have named : p.id = id := by simpa using List.find?_some planned
    obtain ⟨found, next⟩ := planned_mem (List.mem_of_find?_eq_some planned)
    rw [← named, found]
    simp [next]
  | none =>
    cases found : m[id]? with
    | none => rfl
    | some b =>
      have still : j.goes id b = b := by
        unfold Job.goes
        cases other : j.others.find? (·.id == id) with
        | none => rfl
        | some l =>
          have named : l.id = id := by simpa using List.find?_some other
          simp only
          split
          · rfl
          · next changes =>
            have written : { id := l.id, original := b, next := j.carry l b } ∈ j.planned m := by
              refine List.mem_filterMap.mpr ⟨l, List.mem_of_find?_eq_some other, ?_⟩
              simp [Job.plannedOf, named, found, changes]
            exact absurd (List.find?_eq_none.mp planned _ written) (by simp [named])
      simp [still]

theorem Wrote.mixed {ps rest : List Planned} (whole : j.planned m = ps ++ rest) (wrote : Wrote m ps m') :
    Mixed j m m' := by
  intro id
  rw [wrote id]
  cases planned : ps.find? (·.id == id) with
  | none => exact .inl rfl
  | some p =>
    have named : p.id = id := by simpa using List.find?_some planned
    have member : p ∈ j.planned m := by
      rw [whole]
      exact List.mem_append_left _ (List.mem_of_find?_eq_some planned)
    obtain ⟨found, next⟩ := planned_mem member
    refine .inr ?_
    rw [← named, found]
    simp [next]

/-- What is written after `ps`. -/
theorem Wrote.insert {ps rest : List Planned} {p : Planned} (whole : j.planned m = ps ++ p :: rest)
    (wrote : Wrote m ps m') : Wrote m (ps ++ [p]) (m'.insert p.id p.next) := by
  have distinct := planned_distinct j m
  rw [whole, List.map_append, List.map_cons] at distinct
  have fresh : p.id ∉ ps.map (·.id) := fun before =>
    (List.disjoint_of_nodup_append distinct) before List.mem_cons_self
  intro id
  rw [Std.ExtTreeMap.getElem?_insert, List.find?_append, wrote id]
  by_cases same : p.id = id
  · have none : ps.find? (·.id == id) = none := by
      refine List.find?_eq_none.mpr fun q member named => ?_
      exact fresh (same ▸ List.mem_map.mpr ⟨q, member, by simpa using named⟩)
    simp [same, none]
  · have apart : compare p.id id ≠ .eq := fun equal => same (Std.LawfulEqCmp.eq_of_compare equal)
    simp [same, apart]

/-- What is planned, of the stored states read. -/
theorem planned_read {f : Follows} {read : List (Lineup × MixerBackup)}
    (covered : ∀ p ∈ read, Covers j f p.2.follows) (all : read = j.others.filterMap fun l => (m[l.id]?).map (l, ·)) :
    read.filterMap (fun p => plan f j.new j.newSha j.sets p.1 p.2) = j.planned m := by
  have same : ∀ p ∈ read, plan f j.new j.newSha j.sets p.1 p.2 =
      if (j.carry p.1 p.2).peq p.2 then none
      else some { id := p.1.id, original := p.2, next := j.carry p.1 p.2 } := by
    intro p member
    unfold plan Job.carry
    rw [show f.baseOf p.2.follows j.newSha = j.base p.2.follows from covered p member]
  rw [List.filterMap_congr same, all, List.filterMap_filterMap]
  refine List.filterMap_congr fun l _ => ?_
  unfold Job.plannedOf
  cases m[l.id]? <;> rfl

/-- Of what was written, that not put back yet. -/
def Half (o : Oracle RosterOp Fate) (j : Job) (m : BTreeMap String MixerBackup) (ps done : List Planned)
    (m' : BTreeMap String MixerBackup) : Prop :=
  ∀ id, m'[id]? = m[id]? ∨ m'[id]? = (m[id]?).map (j.goes id) ∧
    ((∃ p ∈ ps, p.id = id ∧ p ∉ done) ∨ ∃ t kind, (o t (.op (.writeState id))).ending = .failed kind)

variable {o : Oracle RosterOp Fate} {ps rest : List Planned}

theorem Wrote.half (whole : j.planned m = ps ++ rest) (wrote : Wrote m ps m') : Half o j m ps [] m' := by
  intro id
  rcases wrote.mixed whole id with before | after
  · exact .inl before
  · rw [wrote id]
    cases planned : ps.find? (·.id == id) with
    | none => exact .inl rfl
    | some p =>
      have named : p.id = id := by simpa using List.find?_some planned
      refine .inr ⟨?_, .inl ⟨p, List.mem_of_find?_eq_some planned, named, List.not_mem_nil⟩⟩
      rw [← after, wrote id, planned]

theorem Half.mixed {done : List Planned} (half : Half o j m ps done m') : Mixed j m m' :=
  fun id => (half id).imp_right And.left

theorem Half.restored (half : Half o j m ps ps m') : Restored o j m m' := by
  intro id
  rcases half id with before | ⟨after, ⟨p, member, -, gone⟩ | failed⟩
  · exact .inl before
  · exact absurd member gone
  · exact .inr ⟨after, failed⟩

theorem Restored.mixed (restored : Restored o j m m') : Mixed j m m' := fun id => (restored id).imp_right And.left

/-- The next of them is put back. -/
theorem Half.back {done : List Planned} {p : Planned} (half : Half o j m ps done m') (found : m[p.id]? = some p.original) :
    Half o j m ps (done ++ [p]) (m'.insert p.id p.original) := by
  intro id
  rw [Std.ExtTreeMap.getElem?_insert]
  by_cases same : p.id = id
  · simp only [same, Std.ReflCmp.compare_self, if_true]
    exact .inl (same ▸ found).symm
  · have apart : compare p.id id ≠ .eq := fun equal => same (Std.LawfulEqCmp.eq_of_compare equal)
    simp only [apart, if_false]
    rcases half id with before | ⟨after, ⟨q, member, named, undone⟩ | failed⟩
    · exact .inl before
    · refine .inr ⟨after, .inl ⟨q, member, named, fun now => ?_⟩⟩
      rcases List.mem_append.mp now with earlier | last
      · exact undone earlier
      · exact same ((List.mem_singleton.mp last) ▸ named)
    · exact .inr ⟨after, .inr failed⟩

/-- It could not be. -/
theorem Half.stuck {done : List Planned} {p : Planned} (half : Half o j m ps done m')
    (failed : ∃ t kind, (o t (.op (.writeState p.id))).ending = .failed kind) : Half o j m ps (done ++ [p]) m' := by
  intro id
  rcases half id with before | ⟨after, ⟨q, member, named, undone⟩ | failed⟩
  · exact .inl before
  · by_cases same : q = p
    · subst same
      exact .inr ⟨after, .inr (named ▸ failed)⟩
    · refine .inr ⟨after, .inl ⟨q, member, named, fun now => ?_⟩⟩
      rcases List.mem_append.mp now with earlier | last
      · exact undone earlier
      · exact same (List.mem_singleton.mp last)
  · exact .inr ⟨after, .inr failed⟩

end

section
variable [Libm]
variable {j : Job} {m : BTreeMap String MixerBackup} {s : MixState} {record : Option Running → Prop} {frozen : Bool}
  {o : Oracle RosterOp Fate} {ps rest : List Planned} (legible : Legible o)
include legible

theorem at_undo {ε : Type} {E : Halt ε → Assertion World} (whole : j.planned m = ps ++ rest)
    (stop : ∀ w, At j s record (Mixed j m) frozen w → E .stopped w) :
    Triple o (At j s record (Wrote m ps) frozen) (undo ps) (fun _ => At j s record (Restored o j m) frozen) E := by
  unfold undo
  refine triple_conseq (P := At j s record (Half o j m ps []) frozen)
    (Q := fun _ => At j s record (Half o j m ps ps) frozen)
    (triple_each_done (I := fun done => At j s record (Half o j m ps done) frozen) ?_)
    (fun w here => here.restate fun _ wrote => wrote.half whole) (fun _ w here => here.restate fun _ => Half.restored)
    fun _ _ => id
  intro done p later among
  have member : p ∈ j.planned m := by
    rw [whole]
    exact List.mem_append_left _ (among ▸ List.mem_append_right _ List.mem_cons_self)
  refine triple_bind (triple_attempt (E := fun e w => match e with
      | .stopped => At j s record (Mixed j m) frozen w
      | .error _ => At j s record (Half o j m ps (done ++ [p])) frozen w)
    (Q := fun _ => At j s record (Half o j m ps (done ++ [p])) frozen) ?_ stop) fun result => ?_
  · refine triple_relabel (lasting_file legible.awake (lasting_at j s record (Half o j m ps done) frozen) ?_ ?_ ?_)
    · intro w ⟨plays, files⟩
      exact ⟨plays, files.rosters, files.stored.back (planned_mem member).1, files.record, files.intent, files.frozen⟩
    · exact fun t kind failed w here => here.restate fun _ half => half.stuck ⟨t, kind, failed⟩
    · exact fun w here => here.restate fun _ => Half.mixed
  · cases result with
    | ok _ => exact triple_pure fun _ => id
    | error _ => exact triple_pure fun _ => id

/-- All that is planned is written, or what was is put back. -/
theorem at_writePlanned (whole : j.planned m = ps ++ rest) :
    Triple o (At j s record (Wrote m ps) frozen) (writePlanned ps rest)
      (fun _ => At j s record (Wrote m (j.planned m)) frozen) fun e w => match e with
        | .stopped => At j s record (Mixed j m) frozen w
        | .error _ => At j s record (Restored o j m) frozen w := by
  induction rest generalizing ps with
  | nil =>
    rw [List.append_nil] at whole
    exact triple_pure fun w here => whole ▸ here
  | cons p rest ih =>
    unfold writePlanned
    refine triple_bind (triple_attempt (E := fun e w => match e with
        | .stopped => At j s record (Mixed j m) frozen w
        | .error _ => At j s record (Wrote m ps) frozen w)
      (Q := fun _ => At j s record (Wrote m (ps ++ [p])) frozen) ?_ fun _ => id) fun result => ?_
    · refine triple_relabel (lasting_file legible.awake (lasting_at j s record (Wrote m ps) frozen) ?_ ?_ ?_)
      · intro w ⟨plays, files⟩
        exact ⟨plays, files.rosters, files.stored.insert whole, files.record, files.intent, files.frozen⟩
      · exact fun _ _ _ _ => id
      · exact fun w here => here.restate fun _ wrote => wrote.mixed whole
    · cases result with
      | ok _ => exact ih (by rw [whole]; simp)
      | error kind => exact triple_bind (at_undo legible whole fun _ => id) fun _ => triple_fail fun _ => id

end

end IemMixer.Server
