import IemMixer.Server.EntryProofs
import IemMixer.Server.Preview

/-! What the lists of a restore's preview hold, of what the backup, the view and the running state
have. -/
namespace IemMixer.Server
open Lib Proto

namespace Preview

/-! ### Fields -/

namespace Field

def entry : Field → Entry
  | .trim id | .processing id | .inputMute id | .inputEq id => .input id
  | .volume mix | .volumeMute mix | .volumeEq mix | .limiter mix => .out mix
  | .level mix source => .level mix source
  | .strip mix g | .stripEq mix g => .group mix g

/-- How the field of a value reads. -/
def read : Field → Value → String
  | .trim _, .input s => db s.trimDb
  | .processing _, .input s => on s.processing
  | .inputMute _, .input s => on s.muted
  | .inputEq _, .input s => eqSummary s.eq
  | .volume _, .out o => db o.volumeDb
  | .volumeMute _, .out o => on o.muted
  | .volumeEq _, .out o => eqSummary o.eq
  | .limiter _, .out o => Preview.limiter o.limiter
  | .level .., .level l => Preview.level l
  | .strip .., .group s => Preview.strip s
  | .stripEq .., .group s => eqSummary s.eq
  | _, _ => ""

def eq : Field → Value → Option EqState
  | .inputEq _, .input s => some s.eq
  | .volumeEq _, .out o => some o.eq
  | .stripEq .., .group s => some s.eq
  | _, _ => none

/-- EQs are compared by their values, everything else by its text. -/
def Differs (f : Field) (cur new : Value) : Prop := match f.eq cur, f.eq new with
  | some a, some b => a.peq b = false
  | _, _ => f.read cur ≠ f.read new

/-- A line for the field reads `x` and `y`. -/
def Listed (f : Field) (cur new : Value) (x y : String) : Prop := f.Differs cur new ∧ x = f.read cur ∧ y = f.read new

/-- The backup's value reads the same in its ranges; and where it is an EQ, it equals the running
one just when both read the same. -/
def Faithful (f : Field) (cur new : Value) : Prop := match f.eq cur, f.eq new with
  | some a, some b =>
    if a.peq b then f.read cur = f.read new.cap else f.read new = f.read new.cap ∧ f.read cur ≠ f.read new
  | _, _ => f.read new = f.read new.cap

theorem listed_iff {f : Field} {cur new : Value} : (∀ x y, f.Listed cur new x y ↔
    x = f.read cur ∧ y = f.read new.cap ∧ x ≠ y) ↔ f.Faithful cur new := by
  have lists : (∀ x y, f.Listed cur new x y ↔ x = f.read cur ∧ y = f.read new.cap ∧ x ≠ y) ↔
      (f.Differs cur new ↔ f.read cur ≠ f.read new.cap) ∧ (f.Differs cur new → f.read new = f.read new.cap) := by
    unfold Listed
    constructor
    · intro all
      have shown := all (f.read cur) (f.read new)
      have after := all (f.read cur) (f.read new.cap)
      grind
    · grind
  rw [lists]
  unfold Differs Faithful
  split
  · rename_i a b _ _
    cases a.peq b <;> grind
  · grind

end Field

/-! ### The lists -/

section
variable (view : SiteView) (current : MixState) (customizations : String → Option Customization)
  (backup : MixState) (held : BTreeMap String Customization)

/-- Whether the preview takes an entry for one of the topology's. -/
def seen : Entry → Bool
  | .input id => (view.input id).isSome
  | .out mix => (view.mix mix).isSome
  | .level mix source => (view.mix mix).isSome && match source with
    | .input i => (view.input i).isSome
    | .mix m => (view.mix m).isSome
  | .group mix g => (view.mix mix).isSome && view.group == some g

variable {view current customizations backup held} {f : Field} {x y : String}

theorem mem_value {what : Field} {cur new : String} :
    (⟨.state f, x, y⟩ : Line) ∈ (Diff.value what cur new).changes ↔ f = what ∧ cur ≠ new ∧ x = cur ∧ y = new := by
  unfold Diff.value
  split
  · simp [*]
  · simp [*]

theorem mem_eq {what : Field} {cur new : EqState} : (⟨.state f, x, y⟩ : Line) ∈ (Diff.eq what cur new).changes ↔
    f = what ∧ cur.peq new = false ∧ x = eqSummary cur ∧ y = eqSummary new := by
  unfold Diff.eq
  split
  · simp [*]
  · simp [*]

theorem mem_all {l : Line} {pieces : List Diff} : l ∈ (Diff.all pieces).changes ↔ ∃ d ∈ pieces, l ∈ d.changes :=
  List.mem_flatMap

theorem mem_all_map {α : Type} {l : Line} {xs : List α} {g : α → Diff} :
    l ∈ (Diff.all (xs.map g)).changes ↔ ∃ a ∈ xs, l ∈ (g a).changes := by
  simp [mem_all]

theorem mem_inputPart {id : InputId} {new : InputState} :
    (⟨.state f, x, y⟩ : Line) ∈ (inputPart view current id new).changes ↔
      f.entry = .input id ∧ seen view f.entry = true ∧ f.Listed (f.entry.value current) (.input new) x y := by
  unfold inputPart
  split
  · rename_i absent
    simp only [Diff.skip, List.not_mem_nil, false_iff]
    rintro ⟨entry, there, -⟩
    rw [entry, seen, Option.isNone_iff_eq_none.mp absent] at there
    cases there
  · rename_i known
    have there : seen view (.input id) = true := by simpa [seen, Option.isSome_iff_ne_none] using known
    simp only [inputDiff, mem_all, List.mem_cons, List.not_mem_nil, or_false, exists_eq_or_imp, exists_eq_left,
      mem_value, mem_eq]
    constructor
    · rintro (⟨rfl, apart, rfl, rfl⟩ | ⟨rfl, apart, rfl, rfl⟩ | ⟨rfl, apart, rfl, rfl⟩ | ⟨rfl, apart, rfl, rfl⟩)
      all_goals exact ⟨rfl, there, apart, rfl, rfl⟩
    · rintro ⟨entry, -, apart, rfl, rfl⟩
      cases f <;> simp only [Field.entry, Entry.input.injEq, reduceCtorEq] at entry <;> subst entry
      · exact .inl ⟨rfl, apart, rfl, rfl⟩
      · exact .inr (.inl ⟨rfl, apart, rfl, rfl⟩)
      · exact .inr (.inr (.inl ⟨rfl, apart, rfl, rfl⟩))
      · exact .inr (.inr (.inr ⟨rfl, apart, rfl, rfl⟩))

/-- What a mix holds of an entry. -/
def within (mix : MixId) (x : Mix) : Entry → Option Value
  | .input _ => none
  | .out m => if m = mix then some (.out x.out) else none
  | .level m source => if m = mix then (x.level source).map .level else none
  | .group m g => if m = mix then x.groups[g]?.map .group else none

theorem mem_levelPart {mix : MixId} (known : (view.mix mix).isSome = true) {src : Source} {l : Level} :
    (⟨.state f, x, y⟩ : Line) ∈ (levelPart view mix (current.mixes[mix]?.getD {}) src l).changes ↔
      f.entry = .level mix src ∧ seen view f.entry = true ∧ f.Listed (f.entry.value current) (.level l) x y := by
  have named : f.entry = .level mix src ↔ f = .level mix src := by cases f <;> simp [Field.entry]
  have part : levelPart view mix (current.mixes[mix]?.getD {}) src l = if seen view (.level mix src) then
      .value (.level mix src) (level (((current.mixes[mix]?.getD {}).level src).getD {})) (level l)
      else .skip (.state (.level mix src)) := by
    cases src <;> simp [levelPart, seen, known]
  rw [part, named]
  split
  · rename_i there
    rw [mem_value]
    constructor
    · rintro ⟨rfl, apart, rfl, rfl⟩
      exact ⟨rfl, there, apart, rfl, rfl⟩
    · rintro ⟨rfl, -, apart, rfl, rfl⟩
      exact ⟨rfl, apart, rfl, rfl⟩
  · rename_i unseen
    simp only [Diff.skip, List.not_mem_nil, false_iff]
    rintro ⟨rfl, there, -⟩
    exact unseen there

theorem mem_stripPart {mix : MixId} (known : (view.mix mix).isSome = true) {g : GroupId} {new : MixGroup} :
    (⟨.state f, x, y⟩ : Line) ∈ (stripPart view mix (current.mixes[mix]?.getD {}) g new).changes ↔
      f.entry = .group mix g ∧ seen view f.entry = true ∧ f.Listed (f.entry.value current) (.group new) x y := by
  unfold stripPart
  split
  · rename_i other
    simp only [Diff.skip, List.not_mem_nil, false_iff]
    rintro ⟨entry, there, -⟩
    rw [entry] at there
    simp [seen, other] at there
  · rename_i first
    have there : seen view (.group mix g) = true := by simpa [seen, known] using first
    simp only [mem_all, List.mem_cons, List.not_mem_nil, or_false, exists_eq_or_imp, exists_eq_left, mem_value, mem_eq]
    constructor
    · rintro (⟨rfl, apart, rfl, rfl⟩ | ⟨rfl, apart, rfl, rfl⟩)
      · exact ⟨rfl, there, apart, rfl, rfl⟩
      · exact ⟨rfl, there, apart, rfl, rfl⟩
    · rintro ⟨entry, -, apart, rfl, rfl⟩
      cases f <;> simp only [Field.entry, Entry.group.injEq, reduceCtorEq] at entry <;> obtain ⟨rfl, rfl⟩ := entry
      · exact .inl ⟨rfl, apart, rfl, rfl⟩
      · exact .inr ⟨rfl, apart, rfl, rfl⟩

/-- The output's four lines. -/
theorem mem_outPart {mix : MixId} (known : (view.mix mix).isSome = true) {new : Mix} :
    ((⟨.state f, x, y⟩ : Line) ∈ (Diff.all [
      .value (.volume mix) (db (current.mixes[mix]?.getD {}).out.volumeDb) (db new.out.volumeDb),
      .value (.volumeMute mix) (on (current.mixes[mix]?.getD {}).out.muted) (on new.out.muted),
      .eq (.volumeEq mix) (current.mixes[mix]?.getD {}).out.eq new.out.eq,
      .value (.limiter mix) (limiter (current.mixes[mix]?.getD {}).out.limiter) (limiter new.out.limiter)]).changes) ↔
      f.entry = .out mix ∧ seen view f.entry = true ∧ f.Listed (f.entry.value current) (.out new.out) x y := by
  have there : seen view (.out mix) = true := known
  simp only [mem_all, List.mem_cons, List.not_mem_nil, or_false, exists_eq_or_imp, exists_eq_left, mem_value, mem_eq]
  constructor
  · rintro (⟨rfl, apart, rfl, rfl⟩ | ⟨rfl, apart, rfl, rfl⟩ | ⟨rfl, apart, rfl, rfl⟩ | ⟨rfl, apart, rfl, rfl⟩)
    all_goals exact ⟨rfl, there, apart, rfl, rfl⟩
  · rintro ⟨entry, -, apart, rfl, rfl⟩
    cases f <;> simp only [Field.entry, Entry.out.injEq, reduceCtorEq] at entry <;> subst entry
    · exact .inl ⟨rfl, apart, rfl, rfl⟩
    · exact .inr (.inl ⟨rfl, apart, rfl, rfl⟩)
    · exact .inr (.inr (.inl ⟨rfl, apart, rfl, rfl⟩))
    · exact .inr (.inr (.inr ⟨rfl, apart, rfl, rfl⟩))

theorem mem_mixPart {mix : MixId} {new : Mix} : (⟨.state f, x, y⟩ : Line) ∈ (mixPart view current mix new).changes ↔
    ∃ raw, within mix new f.entry = some raw ∧ seen view f.entry = true ∧ f.Listed (f.entry.value current) raw x y := by
  unfold mixPart
  split
  · rename_i absent
    simp only [Diff.skip, List.not_mem_nil, false_iff]
    rintro ⟨raw, inside, there, -⟩
    have same : ∀ {m}, m = mix → (view.mix m).isSome = true → False := by
      rintro m rfl known
      simp [Option.isNone_iff_eq_none.mp absent] at known
    cases entry : f.entry with
    | input id => simp [entry, within] at inside
    | out m =>
      simp only [entry, within, Option.ite_none_right_eq_some] at inside
      exact same inside.1 (by simpa [entry, seen] using there)
    | level m source =>
      simp only [entry, within, Option.ite_none_right_eq_some] at inside
      simp only [entry, seen, Bool.and_eq_true] at there
      exact same inside.1 there.1
    | group m g =>
      simp only [entry, within, Option.ite_none_right_eq_some] at inside
      simp only [entry, seen, Bool.and_eq_true] at there
      exact same inside.1 there.1
  · rename_i known
    have known : (view.mix mix).isSome = true := by simpa [Option.isSome_iff_ne_none] using known
    have parts (a b c d i m g : Diff) : (Diff.all [a, b, c, d, i, m, g]).changes =
        (Diff.all [a, b, c, d]).changes ++ (i.changes ++ (m.changes ++ g.changes)) := by simp [Diff.all]
    simp only [parts, List.mem_append, mem_outPart known]
    simp only [mem_all_map, Prod.exists, mem_levelPart known, mem_stripPart known,
      Std.ExtTreeMap.mem_toList_iff_getElem?_eq_some]
    constructor
    · rintro (⟨entry, line⟩ | ⟨i, l, there, entry, line⟩ | ⟨m, l, there, entry, line⟩ | ⟨g, new, there, entry, line⟩)
      · exact ⟨_, by simp [entry, within], line⟩
      · exact ⟨_, by simp [entry, within, Mix.level, there], line⟩
      · exact ⟨_, by simp [entry, within, Mix.level, there], line⟩
      · exact ⟨_, by simp [entry, within, there], line⟩
    · rintro ⟨raw, inside, line⟩
      cases entry : f.entry with
      | input id => simp [entry, within] at inside
      | out m =>
        simp only [entry, within, Option.ite_none_right_eq_some, Option.some.injEq] at inside
        obtain ⟨rfl, rfl⟩ := inside
        exact .inl ⟨rfl, by rwa [entry] at line⟩
      | level m source =>
        simp only [entry, within, Option.ite_none_right_eq_some, Option.map_eq_some_iff] at inside
        obtain ⟨rfl, l, there, rfl⟩ := inside
        rw [entry] at line
        cases source with
        | input i => exact .inr (.inl ⟨i, l, there, rfl, line⟩)
        | mix h => exact .inr (.inr (.inl ⟨h, l, there, rfl, line⟩))
      | group m g =>
        simp only [entry, within, Option.ite_none_right_eq_some, Option.map_eq_some_iff] at inside
        obtain ⟨rfl, new, there, rfl⟩ := inside
        rw [entry] at line
        exact .inr (.inr (.inr ⟨g, new, there, rfl, line⟩))

theorem find_iff {s : MixState} {e : Entry} {raw : Value} : e.find s = some raw ↔
    (∃ id v, s.inputs[id]? = some v ∧ e = .input id ∧ raw = .input v) ∨
      ∃ mix x, s.mixes[mix]? = some x ∧ within mix x e = some raw := by
  cases e with
  | input id => simp [Entry.find, within, eq_comm]
  | out mix => simp [Entry.find, within]
  | level mix source =>
    cases there : s.mixes[mix]? <;> simp [Entry.find, within, there]
  | group mix g =>
    cases there : s.mixes[mix]? <;> simp [Entry.find, within, there]

/-- Only what the backup lacks is in it. -/
structure Silent (d : Diff) : Prop where
  changes : d.changes = []
  skipped : d.skipped = []

theorem all_silent {pieces : List Diff} (silent : ∀ d ∈ pieces, Silent d) : Silent (.all pieces) :=
  ⟨List.flatMap_eq_nil_iff.mpr fun d member => (silent d member).changes,
    List.flatMap_eq_nil_iff.mpr fun d member => (silent d member).skipped⟩

theorem notInBackup_silent (current backup : MixState) : Silent (notInBackup current backup) := by
  have keeps {α : Type} (xs : List α) (e : α → Entry) : Silent (.all (xs.map fun x => .keep (e x))) := by
    refine all_silent fun d member => ?_
    obtain ⟨x, -, rfl⟩ := List.mem_map.mp member
    exact ⟨rfl, rfl⟩
  refine all_silent ?_
  simp only [List.mem_cons, List.not_mem_nil, or_false, forall_eq_or_imp, forall_eq, keeps, true_and]
  refine all_silent fun d member => ?_
  obtain ⟨p, -, rfl⟩ := List.mem_map.mp member
  cases backup.mixes[p.1]? with
  | none => exact ⟨rfl, rfl⟩
  | some old =>
    refine all_silent ?_
    simp only [List.mem_cons, List.not_mem_nil, or_false, forall_eq_or_imp, forall_eq, keeps, and_self]

/-- The lines are of what the backup holds and the view shows. -/
theorem mem_changes : (⟨.state f, x, y⟩ : Line) ∈ (diff view current customizations backup held).changes ↔
    ∃ raw, f.entry.find backup = some raw ∧ seen view f.entry = true ∧ f.Listed (f.entry.value current) raw x y := by
  have noCustomization : ∀ p ∈ held.toList,
      (⟨.state f, x, y⟩ : Line) ∉ (customizationPart view customizations p.1 p.2).changes := by
    intro p _ line
    unfold customizationPart at line
    split at line
    · cases line
    · dsimp only at line
      split at line
      · cases line
      · simp at line
  have parts (a b c d : Diff) : (Diff.all [a, b, c, d]).changes =
      a.changes ++ (b.changes ++ (c.changes ++ d.changes)) := by simp [Diff.all]
  simp only [diff, parts, List.mem_append, mem_all_map,
    (notInBackup_silent current backup).changes, List.not_mem_nil, or_false]
  constructor
  · rintro (⟨p, there, line⟩ | ⟨p, there, line⟩ | ⟨p, there, line⟩)
    · obtain ⟨entry, line⟩ := mem_inputPart.mp line
      have stored := Std.ExtTreeMap.mem_toList_iff_getElem?_eq_some.mp there
      exact ⟨_, find_iff.mpr (.inl ⟨p.1, p.2, stored, entry, rfl⟩), line⟩
    · obtain ⟨raw, inside, line⟩ := mem_mixPart.mp line
      have stored := Std.ExtTreeMap.mem_toList_iff_getElem?_eq_some.mp there
      exact ⟨raw, find_iff.mpr (.inr ⟨p.1, p.2, stored, inside⟩), line⟩
    · exact absurd line (noCustomization p there)
  · rintro ⟨raw, found, line⟩
    rcases find_iff.mp found with ⟨id, v, there, entry, rfl⟩ | ⟨mix, new, there, inside⟩
    · exact .inl ⟨(id, v), Std.ExtTreeMap.mem_toList_iff_getElem?_eq_some.mpr there, mem_inputPart.mpr ⟨entry, line⟩⟩
    · exact .inr (.inl ⟨(mix, new), Std.ExtTreeMap.mem_toList_iff_getElem?_eq_some.mpr there,
        mem_mixPart.mpr ⟨raw, inside, line⟩⟩)

/-! ### What is skipped -/

/-- Whether the view has the entry's mix, where that is another entry. -/
def placed (view : SiteView) : Entry → Bool
  | .level mix _ | .group mix _ => (view.mix mix).isSome
  | _ => true

variable {e : Entry}

@[simp] theorem skipped_value (what : Field) (cur new : String) : (Diff.value what cur new).skipped = [] := by
  unfold Diff.value
  split <;> rfl

@[simp] theorem skipped_eq (what : Field) (cur new : EqState) : (Diff.eq what cur new).skipped = [] := by
  unfold Diff.eq
  split <;> rfl

theorem skipped_all_cons (d : Diff) (ds : List Diff) :
    (Diff.all (d :: ds)).skipped = d.skipped ++ (Diff.all ds).skipped := rfl

theorem skipped_all_nil : (Diff.all []).skipped = [] := rfl

theorem skipped_all_map {α : Type} {part : Part Entry} {xs : List α} {g : α → Diff} :
    part ∈ (Diff.all (xs.map g)).skipped ↔ ∃ a ∈ xs, part ∈ (g a).skipped := by
  simp [Diff.all]

theorem skipped_inputPart {id : InputId} {new : InputState} :
    .state e ∈ (inputPart view current id new).skipped ↔ e = .input id ∧ seen view e = false := by
  unfold inputPart
  split
  · rename_i absent
    have unseen : seen view (.input id) = false := by simpa [seen] using absent
    simp only [Diff.skip, List.mem_singleton, Part.state.injEq]
    exact ⟨fun same => ⟨same, same ▸ unseen⟩, fun both => both.1⟩
  · rename_i known
    have there : seen view (.input id) = true := by simpa [seen, Option.isSome_iff_ne_none] using known
    simp only [inputDiff, Diff.all, List.flatMap_cons, List.flatMap_nil, skipped_value, skipped_eq, List.append_nil,
      List.not_mem_nil, false_iff]
    rintro ⟨rfl, unseen⟩
    exact Bool.false_ne_true (unseen.symm.trans there)

theorem skipped_levelPart {mix : MixId} (known : (view.mix mix).isSome = true) {cur : Mix} {src : Source} {l : Level} :
    .state e ∈ (levelPart view mix cur src l).skipped ↔ e = .level mix src ∧ seen view e = false := by
  have part : (levelPart view mix cur src l).skipped = if seen view (.level mix src) then [] else
      [.state (.level mix src)] := by
    cases src <;> simp only [levelPart, seen, known, Bool.true_and] <;> split <;> simp [Diff.skip]
  rw [part]
  cases there : seen view (.level mix src) with
  | true =>
    simp only [if_true, List.not_mem_nil, false_iff]
    rintro ⟨rfl, unseen⟩
    exact Bool.false_ne_true (unseen.symm.trans there)
  | false =>
    simp only [Bool.false_eq_true, if_false, List.mem_singleton, Part.state.injEq]
    exact ⟨fun same => ⟨same, same ▸ there⟩, fun both => both.1⟩

theorem skipped_stripPart {mix : MixId} (known : (view.mix mix).isSome = true) {cur : Mix} {g : GroupId}
    {new : MixGroup} : .state e ∈ (stripPart view mix cur g new).skipped ↔ e = .group mix g ∧ seen view e = false := by
  unfold stripPart
  split
  · rename_i other
    have unseen : seen view (.group mix g) = false := by simp [seen, other]
    simp only [Diff.skip, List.mem_singleton, Part.state.injEq]
    exact ⟨fun same => ⟨same, same ▸ unseen⟩, fun both => both.1⟩
  · rename_i first
    have there : seen view (.group mix g) = true := by simpa [seen, known] using first
    simp only [Diff.all, List.flatMap_cons, List.flatMap_nil, skipped_value, skipped_eq, List.append_nil,
      List.not_mem_nil, false_iff]
    rintro ⟨rfl, unseen⟩
    exact Bool.false_ne_true (unseen.symm.trans there)

theorem skipped_mixPart {mix : MixId} {new : Mix} : .state e ∈ (mixPart view current mix new).skipped ↔
    (within mix new e).isSome = true ∧ seen view e = false ∧ placed view e = true := by
  unfold mixPart
  split
  · rename_i absent
    have absent : (view.mix mix).isSome = false := by simpa using absent
    simp only [Diff.skip, List.mem_singleton, Part.state.injEq]
    cases e with
    | input id => simp [within]
    | out m =>
      simp only [within, seen, placed, and_true, Entry.out.injEq]
      split <;> simp_all
    | level m source =>
      simp only [within, placed, reduceCtorEq, false_iff]
      split <;> simp_all
    | group m g =>
      simp only [within, placed, reduceCtorEq, false_iff]
      split <;> simp_all
  · rename_i known
    have known : (view.mix mix).isSome = true := by simpa [Option.isSome_iff_ne_none] using known
    simp only [skipped_all_cons, skipped_all_nil, skipped_value, skipped_eq, List.nil_append, List.append_nil,
      List.mem_append, skipped_all_map, Prod.exists, skipped_levelPart known, skipped_stripPart known,
      Std.ExtTreeMap.mem_toList_iff_getElem?_eq_some]
    constructor
    · rintro (⟨i, l, there, rfl, unseen⟩ | ⟨m, l, there, rfl, unseen⟩ | ⟨g, strip, there, rfl, unseen⟩)
      · exact ⟨by simp [within, Mix.level, there], unseen, known⟩
      · exact ⟨by simp [within, Mix.level, there], unseen, known⟩
      · exact ⟨by simp [within, there], unseen, known⟩
    · rintro ⟨inside, unseen, there⟩
      obtain ⟨raw, inside⟩ := Option.isSome_iff_exists.mp inside
      cases e with
      | input id => simp [within] at inside
      | out m =>
        simp only [within, Option.ite_none_right_eq_some] at inside
        simp [seen, inside.1, known] at unseen
      | level m source =>
        simp only [within, Option.ite_none_right_eq_some, Option.map_eq_some_iff] at inside
        obtain ⟨rfl, l, there, rfl⟩ := inside
        cases source with
        | input i => exact .inl ⟨i, l, there, rfl, unseen⟩
        | mix h => exact .inr (.inl ⟨h, l, there, rfl, unseen⟩)
      | group m g =>
        simp only [within, Option.ite_none_right_eq_some, Option.map_eq_some_iff] at inside
        obtain ⟨rfl, strip, there, rfl⟩ := inside
        exact .inr (.inr ⟨g, strip, there, rfl, unseen⟩)

theorem holds_iff {s : MixState} : e.holds s = true ↔ ∃ raw, e.find s = some raw := by
  rw [← Option.isSome_iff_exists]
  cases e with
  | input id => simp [Entry.holds, Entry.find]
  | out mix => simp [Entry.holds, Entry.find]
  | level mix source => cases there : s.mixes[mix]? <;> simp [Entry.holds, Entry.find, there]
  | group mix g => cases there : s.mixes[mix]? <;> simp [Entry.holds, Entry.find, there]

/-- What the backup holds and the view does not show, a mix's as its mix. -/
theorem mem_skipped : .state e ∈ (diff view current customizations backup held).skipped ↔
    e.holds backup = true ∧ seen view e = false ∧ placed view e = true := by
  have noCustomization : ∀ p ∈ held.toList, .state e ∉ (customizationPart view customizations p.1 p.2).skipped := by
    intro p _ line
    unfold customizationPart at line
    split at line
    · simp [Diff.skip] at line
    · dsimp only at line
      split at line <;> cases line
  simp only [diff, skipped_all_cons, skipped_all_nil, List.append_nil, List.mem_append, skipped_all_map,
    (notInBackup_silent current backup).skipped, holds_iff]
  constructor
  · rintro (⟨p, there, line⟩ | ⟨p, there, line⟩ | ⟨p, there, line⟩)
    · obtain ⟨rfl, unseen⟩ := skipped_inputPart.mp line
      have stored := Std.ExtTreeMap.mem_toList_iff_getElem?_eq_some.mp there
      exact ⟨⟨_, find_iff.mpr (.inl ⟨p.1, p.2, stored, rfl, rfl⟩)⟩, unseen, rfl⟩
    · obtain ⟨inside, line⟩ := skipped_mixPart.mp line
      obtain ⟨raw, inside⟩ := Option.isSome_iff_exists.mp inside
      have stored := Std.ExtTreeMap.mem_toList_iff_getElem?_eq_some.mp there
      exact ⟨⟨raw, find_iff.mpr (.inr ⟨p.1, p.2, stored, inside⟩)⟩, line⟩
    · exact absurd line (noCustomization p there)
  · rintro ⟨⟨raw, found⟩, line⟩
    rcases find_iff.mp found with ⟨id, v, there, rfl, rfl⟩ | ⟨mix, new, there, inside⟩
    · exact .inl ⟨(id, v), Std.ExtTreeMap.mem_toList_iff_getElem?_eq_some.mpr there,
        skipped_inputPart.mpr ⟨rfl, line.1⟩⟩
    · exact .inr (.inl ⟨(mix, new), Std.ExtTreeMap.mem_toList_iff_getElem?_eq_some.mpr there,
        skipped_mixPart.mpr ⟨by simp [inside], line⟩⟩)

/-! ### What the backup lacks -/

@[simp] theorem kept_value (what : Field) (cur new : String) : (Diff.value what cur new).notInBackup = [] := by
  unfold Diff.value
  split <;> rfl

@[simp] theorem kept_eq (what : Field) (cur new : EqState) : (Diff.eq what cur new).notInBackup = [] := by
  unfold Diff.eq
  split <;> rfl

theorem kept_all_map {α : Type} {xs : List α} {g : α → Diff} :
    e ∈ (Diff.all (xs.map g)).notInBackup ↔ ∃ a ∈ xs, e ∈ (g a).notInBackup := by
  simp [Diff.all]

theorem kept_all_cons (d : Diff) (ds : List Diff) :
    (Diff.all (d :: ds)).notInBackup = d.notInBackup ++ (Diff.all ds).notInBackup := rfl

theorem kept_all_nil : (Diff.all []).notInBackup = [] := rfl

theorem kept_none {α : Type} {xs : List α} {g : α → Diff} (none : ∀ a, (g a).notInBackup = []) :
    (Diff.all (xs.map g)).notInBackup = [] := by
  refine List.eq_nil_iff_forall_not_mem.mpr fun e member => ?_
  obtain ⟨a, -, inside⟩ := kept_all_map.mp member
  rw [none a] at inside
  cases inside

theorem kept_parts (view : SiteView) (current : MixState) (customizations : String → Option Customization) :
    (∀ id new, (inputPart view current id new).notInBackup = []) ∧
    (∀ mix new, (mixPart view current mix new).notInBackup = []) ∧
    ∀ member c, (customizationPart view customizations member c).notInBackup = [] := by
  have levels : ∀ mix cur src l, (levelPart view mix cur src l).notInBackup = [] := by
    intro mix cur src l
    cases src <;> unfold levelPart <;> dsimp only <;> split
    all_goals first | exact kept_value .. | rfl
  have strips : ∀ mix cur g new, (stripPart view mix cur g new).notInBackup = [] := by
    intro mix cur g new
    unfold stripPart
    split
    · rfl
    · simp [kept_all_cons, kept_all_nil]
  refine ⟨fun id new => ?_, fun mix new => ?_, fun member c => ?_⟩
  · unfold inputPart
    split
    · rfl
    · simp [inputDiff, kept_all_cons, kept_all_nil]
  · unfold mixPart
    split
    · rfl
    · simp [kept_all_cons, kept_all_nil, kept_none, levels, strips]
  · unfold customizationPart
    split
    · rfl
    · dsimp only
      split <;> rfl

/-- Whether the backup knows what the entry is in, so that it is an entry of its own to it. -/
def known (backup : MixState) : Entry → Bool
  | .level mix source => (Entry.out mix).holds backup && match source with
    | .input i => (Entry.input i).holds backup
    | .mix m => (Entry.out m).holds backup
  | .group mix _ => (Entry.out mix).holds backup
  | _ => true

private theorem lacks_iff {V : Type} {m : BTreeMap String V} {k : String} : m.contains k = false ↔ m[k]? = none := by
  rw [Std.ExtTreeMap.contains_eq_isSome_getElem?, Option.isSome_eq_false_iff, Option.isNone_iff_eq_none]

theorem mem_notInBackup : e ∈ (diff view current customizations backup held).notInBackup ↔
    e.holds current = true ∧ e.holds backup = false ∧ known backup e = true := by
  obtain ⟨inputs, mixes, members⟩ := kept_parts view current customizations
  have only : (diff view current customizations backup held).notInBackup =
      (notInBackup current backup).notInBackup := by
    simp only [diff, kept_all_cons, kept_all_nil, kept_none fun p : _ × _ => inputs p.1 p.2,
      kept_none fun p : _ × _ => mixes p.1 p.2, kept_none fun p : _ × _ => members p.1 p.2, List.nil_append,
      List.append_nil]
  have keeps {α : Type} {xs : List α} {g : α → Entry} : e ∈ (Diff.all (xs.map fun x => .keep (g x))).notInBackup ↔
      ∃ x ∈ xs, e = g x := by
    simp [kept_all_map, Diff.keep]
  rw [only, notInBackup]
  simp only [kept_all_cons, kept_all_nil, List.append_nil, List.mem_append, keeps, kept_all_map, Prod.exists,
    Std.ExtTreeMap.mem_toList_iff_getElem?_eq_some, List.mem_filter, BTreeMap.mem_keys_iff]
  constructor
  · rintro (⟨id, ⟨there, lacks⟩, rfl⟩ | ⟨mix, cur, there, line⟩)
    · refine ⟨Option.isSome_iff_exists.mpr there, ?_, rfl⟩
      simpa [Entry.holds] using lacks
    · cases old : backup.mixes[mix]? with
      | none =>
        simp only [old, Diff.keep, List.mem_singleton] at line
        subst line
        simp [Entry.holds, there, old, known]
      | some x =>
        simp only [old, kept_all_cons, kept_all_nil, List.append_nil, List.mem_append, keeps, List.mem_filter,
          BTreeMap.mem_keys_iff, Bool.and_eq_true, Bool.not_eq_true', Bool.not_not] at line
        rcases line with ⟨i, ⟨⟨l, inside⟩, lacks, knows⟩, rfl⟩ | ⟨m, ⟨⟨l, inside⟩, lacks, knows⟩, rfl⟩ |
          ⟨g, ⟨⟨l, inside⟩, lacks⟩, rfl⟩
        · simp_all [Entry.holds, known, Mix.level]
        · simp_all [Entry.holds, known, Mix.level]
        · simp_all [Entry.holds, known]
  · rintro ⟨there, lacks, knows⟩
    cases e with
    | input id =>
      exact .inl ⟨id, ⟨Option.isSome_iff_exists.mp there, by simpa [Entry.holds] using lacks⟩, rfl⟩
    | out mix =>
      obtain ⟨cur, there⟩ := Option.isSome_iff_exists.mp there
      have lacks : backup.mixes[mix]? = none := Option.isNone_iff_eq_none.mp (Option.isSome_eq_false_iff.mp lacks)
      exact .inr ⟨mix, cur, there, by simp [lacks, Diff.keep]⟩
    | level mix source =>
      simp only [known, Bool.and_eq_true] at knows
      obtain ⟨old, was⟩ := Option.isSome_iff_exists.mp knows.1
      obtain ⟨l, there⟩ := Option.isSome_iff_exists.mp there
      obtain ⟨cur, here, there⟩ := Option.bind_eq_some_iff.mp there
      rw [Entry.holds, was, Option.bind_some, Option.isSome_eq_false_iff, Option.isNone_iff_eq_none] at lacks
      refine .inr ⟨mix, cur, here, ?_⟩
      simp only [was, kept_all_cons, kept_all_nil, List.append_nil, List.mem_append, keeps, List.mem_filter,
        BTreeMap.mem_keys_iff, Bool.and_eq_true, Bool.not_eq_true', Bool.not_not]
      cases source with
      | input i => exact .inl ⟨i, ⟨⟨l, there⟩, lacks_iff.mpr lacks, by simpa [Entry.holds] using knows.2⟩, rfl⟩
      | mix m =>
        exact .inr (.inl ⟨m, ⟨⟨l, there⟩, lacks_iff.mpr lacks, by simpa [Entry.holds] using knows.2⟩, rfl⟩)
    | group mix g =>
      obtain ⟨old, was⟩ := Option.isSome_iff_exists.mp knows
      obtain ⟨strip, there⟩ := Option.isSome_iff_exists.mp there
      obtain ⟨cur, here, there⟩ := Option.bind_eq_some_iff.mp there
      rw [Entry.holds, was, Option.bind_some, Option.isSome_eq_false_iff, Option.isNone_iff_eq_none] at lacks
      refine .inr ⟨mix, cur, here, ?_⟩
      simp only [was, kept_all_cons, kept_all_nil, List.append_nil, List.mem_append, keeps, List.mem_filter,
        BTreeMap.mem_keys_iff, Bool.not_eq_true']
      exact .inr (.inr ⟨g, ⟨⟨strip, there⟩, lacks_iff.mpr lacks⟩, rfl⟩)

end

end Preview
end IemMixer.Server
