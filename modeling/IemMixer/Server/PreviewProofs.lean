import IemMixer.Server.PreviewLists
import IemMixer.Server.SiteProofs

/-! The preview of a restore is exact just when the backup reads like what the engine makes of it. -/
namespace IemMixer.Server
open Lib Proto

/-- Whether the topology has the entry; of several mixes of one id the last counts. -/
def Entry.fits (topo : TopologyInfo) : Entry → Bool
  | .input id => topo.inputs.any (·.id == id)
  | .out mix => topo.mixes.any (·.id == mix)
  | .level mix source => (topo.mixes.reverse.find? (·.id == mix)).any (·.holds topo source)
  | .group mix g => topo.mixes.any (·.id == mix) && topo.groups.any (·.id == g)

namespace Preview

/-! ### Exactness -/

section
variable (topo : TopologyInfo) (current backup : MixState)

/-- Whether the topology has the mix of an entry in one. -/
def housed : Entry → Bool
  | .level mix _ | .group mix _ => (Entry.out mix).fits topo
  | _ => true

/-- The entry itself, or the input or mix it is of. -/
def Covers (listed e : Entry) : Prop := match e with
  | .level mix (.input i) => listed = e ∨ listed = .out mix ∨ listed = .input i
  | .level mix (.mix m) => listed = e ∨ listed = .out mix ∨ listed = .out m
  | .group mix _ => listed = e ∨ listed = .out mix
  | _ => listed = e

/-- The state the engine has after the restore. -/
def after : MixState := (Proto.reconcile topo (keepRunning backup current)).1

/-- The lists say what a restore does to the running state. -/
structure Exact (d : Diff) : Prop where
  changes : ∀ f x y, ⟨.state f, x, y⟩ ∈ d.changes ↔
    x = f.read (f.entry.value current) ∧ y = f.read (f.entry.value (after topo current backup)) ∧ x ≠ y
  skipped : ∀ e, .state e ∈ d.skipped ↔ e.holds backup = true ∧ e.fits topo = false ∧ housed topo e = true
  lacks : ∀ e ∈ d.notInBackup, e.holds current = true ∧ e.holds backup = false
  covers : ∀ e, e.holds current = true → e.holds backup = false → ∃ listed ∈ d.notInBackup, Covers listed e

/-- The backup's levels are of what the mixes hear and its strips of the first group, as far as
the topology has their mixes, sources and groups; and its values read as they will. -/
structure Apt : Prop where
  heard : ∀ mix h, (Entry.level mix (.mix h)).holds backup = true → (Entry.out mix).fits topo = true →
    (Entry.out h).fits topo = true → (Entry.level mix (.mix h)).fits topo = true
  first : ∀ mix g, (Entry.group mix g).holds backup = true → (Entry.group mix g).fits topo = true →
    topo.groups.head?.map (·.id) = some g
  reads : ∀ f : Field, f.entry.holds backup = true → f.entry.fits topo = true →
    f.Faithful (f.entry.value current) (f.entry.value backup)

end

section
variable {topo : TopologyInfo} {current backup : MixState} {e : Entry}

theorem holds_reconcile (state : MixState) : e.holds (Proto.reconcile topo state).1 = e.fits topo := by
  have named (mix : MixId) : (topo.mixes.reverse.find? (·.id == mix)).isSome = topo.mixes.any (·.id == mix) := by
    rw [List.isSome_find?, List.any_reverse]
  cases e with
  | input id =>
    simp only [Entry.holds, Entry.fits, reconcile_input]
    cases topo.inputs.any (·.id == id) <;> rfl
  | out mix => simp only [Entry.holds, Entry.fits, reconcile_mix, Option.isSome_map, named]
  | level mix source =>
    simp only [Entry.holds, Entry.fits, reconcile_mix]
    cases topo.mixes.reverse.find? (·.id == mix) with
    | none => rfl
    | some node =>
      simp only [Option.map_some, Option.bind_some, shapeMix_level, Option.any_some]
      cases node.holds topo source <;> rfl
  | group mix g =>
    simp only [Entry.holds, Entry.fits, reconcile_mix, ← named]
    cases topo.mixes.reverse.find? (·.id == mix) with
    | none => rfl
    | some node =>
      simp only [Option.map_some, Option.bind_some, shapeMix_group, Option.isSome_some, Bool.true_and]
      cases topo.groups.any (·.id == g) <;> rfl

theorem value_of_find {s : MixState} {v : Value} (found : e.find s = some v) : e.value s = v := by
  cases e with
  | input id =>
    obtain ⟨held, there, rfl⟩ := Option.map_eq_some_iff.mp found
    simp [Entry.value, there]
  | out mix =>
    obtain ⟨held, there, rfl⟩ := Option.map_eq_some_iff.mp found
    simp [Entry.value, there]
  | level mix source =>
    obtain ⟨l, inside, rfl⟩ := Option.map_eq_some_iff.mp found
    obtain ⟨x, there, inside⟩ := Option.bind_eq_some_iff.mp inside
    simp [Entry.value, there, inside]
  | group mix g =>
    obtain ⟨strip, inside, rfl⟩ := Option.map_eq_some_iff.mp found
    obtain ⟨x, there, inside⟩ := Option.bind_eq_some_iff.mp inside
    simp [Entry.value, there, inside]

/-- Where nothing is held the default is read. -/
theorem value_of_lacking {s t : MixState} (here : e.find s = none) (there : e.find t = none) :
    e.value s = e.value t := by
  have default : ∀ u : MixState, e.find u = none → e.value u = e.value {} := by
    intro u none
    cases e with
    | input id =>
      have none := Option.map_eq_none_iff.mp none
      simp [Entry.value, none]
    | out mix =>
      have none := Option.map_eq_none_iff.mp none
      simp [Entry.value, none]
    | level mix source =>
      have none := Option.map_eq_none_iff.mp none
      have bare : ({} : Mix).level source = .none := by cases source <;> rfl
      cases held : u.mixes[mix]? with
      | none => simp [Entry.value, held, bare]
      | some x =>
        rw [held, Option.bind_some] at none
        simp [Entry.value, held, bare, none]
    | group mix g =>
      have none := Option.map_eq_none_iff.mp none
      cases held : u.mixes[mix]? with
      | none => simp [Entry.value, held]
      | some x =>
        rw [held, Option.bind_some] at none
        simp [Entry.value, held, none]
  rw [default s here, default t there]

variable (shaped : (Proto.reconcile topo current).1 = current)
include shaped

theorem find_of_fits (fits : e.fits topo = true) : e.find current = some (e.value current) := by
  rw [← holds_reconcile current, shaped] at fits
  obtain ⟨v, found⟩ := holds_iff.mp fits
  rw [found, value_of_find found]

theorem value_outside (out : e.fits topo = false) : e.value (after topo current backup) = e.value current := by
  have lacking : ∀ s, e.find (Proto.reconcile topo s).1 = none := by
    intro s
    by_contra found
    obtain ⟨v, found⟩ := Option.ne_none_iff_exists'.mp found
    have held := holds_iff.mpr ⟨v, found⟩
    rw [holds_reconcile, out] at held
    cases held
  exact value_of_lacking (lacking _) (shaped ▸ lacking current)

theorem value_kept (lacks : e.holds backup = false) : e.value (after topo current backup) = e.value current := by
  cases fits : e.fits topo with
  | false => exact value_outside shaped fits
  | true =>
    have absent : e.find backup = none := by
      by_contra found
      obtain ⟨v, found⟩ := Option.ne_none_iff_exists'.mp found
      rw [holds_iff.mpr ⟨v, found⟩] at lacks
      cases lacks
    have found : e.find (after topo current backup) = _ := Entry.find_shaped shaped e
    rw [find_of_fits shaped fits, absent] at found
    exact value_of_find found

theorem value_taken (fits : e.fits topo = true) {raw : Value} (held : e.find backup = some raw) :
    e.value (after topo current backup) = raw.cap := by
  have found : e.find (after topo current backup) = _ := Entry.find_shaped shaped e
  rw [find_of_fits shaped fits, held] at found
  exact value_of_find found

end

section
variable {topo : TopologyInfo} (cfg : Config) (roster : Option RosterState) {e : Entry}

theorem input_isSome (id : InputId) :
    ((SiteView.buildWith cfg roster topo).1.input id).isSome = topo.inputs.any (·.id == id) := by
  rw [SiteView.input, List.isSome_find?]
  exact List.any_map

theorem mix_isSome (id : MixId) :
    ((SiteView.buildWith cfg roster topo).1.mix id).isSome = topo.mixes.any (·.id == id) := by
  rw [SiteView.mix, List.isSome_find?]
  exact List.any_map

theorem placed_eq : placed (SiteView.buildWith cfg roster topo).1 e = housed topo e := by
  cases e with
  | level mix source => exact mix_isSome cfg roster mix
  | group mix g => exact mix_isSome cfg roster mix
  | _ => rfl

theorem fits_level_input (mix : MixId) (i : InputId) : (Entry.level mix (.input i)).fits topo =
    (topo.mixes.any (·.id == mix) && topo.inputs.any (·.id == i)) := by
  rw [Entry.fits, ← List.any_reverse (l := topo.mixes), ← List.isSome_find?]
  cases topo.mixes.reverse.find? (·.id == mix) <;> rfl

/-- What is heard is a mix, and hears where there is one. -/
theorem fits_level_mix (named : Named topo) {mix h : MixId} (fits : (Entry.level mix (.mix h)).fits topo = true) :
    topo.mixes.any (·.id == mix) = true ∧ topo.mixes.any (·.id == h) = true := by
  obtain ⟨node, found, hears⟩ := (Option.any_eq_true _ _).mp fits
  have member : node ∈ topo.mixes := List.mem_reverse.mp (List.mem_of_find?_eq_some found)
  have among : h ∈ node.mixes ++ node.peers := by simpa [MixInfo.holds] using hears
  obtain ⟨other, inside, same⟩ := List.mem_map.mp (named.known node member h among)
  have here := List.find?_some found
  exact ⟨List.any_eq_true.mpr ⟨node, member, by simpa using here⟩,
    List.any_eq_true.mpr ⟨other, inside, by simpa using same⟩⟩

variable {backup current : MixState}

/-- What fits is seen, but for a strip of a later group. -/
theorem seen_of_fits (named : Named topo) (fits : e.fits topo = true)
    (first : ∀ mix g, e = .group mix g → topo.groups.head?.map (·.id) = some g) :
    seen (SiteView.buildWith cfg roster topo).1 e = true := by
  cases e with
  | input id => exact (input_isSome cfg roster id).trans fits
  | out mix => exact (mix_isSome cfg roster mix).trans fits
  | level mix source =>
    cases source with
    | input i => rw [seen, mix_isSome, input_isSome, ← fits_level_input, fits]
    | mix h =>
      obtain ⟨here, there⟩ := fits_level_mix named fits
      rw [seen, mix_isSome, mix_isSome, here, there]
      rfl
  | group mix g =>
    obtain ⟨here, -⟩ := Bool.and_eq_true_iff.mp fits
    have group : (SiteView.buildWith cfg roster topo).1.group = some g := first mix g rfl
    rw [seen, mix_isSome, here, group]
    simp

/-- What is seen fits, but for the level of a mix that is not heard. -/
theorem fits_of_seen (there : seen (SiteView.buildWith cfg roster topo).1 e = true)
    (heard : ∀ mix h, e = .level mix (.mix h) → (Entry.out mix).fits topo = true → (Entry.out h).fits topo = true →
      e.fits topo = true) : e.fits topo = true := by
  cases e with
  | input id => exact (input_isSome cfg roster id).symm.trans there
  | out mix => exact (mix_isSome cfg roster mix).symm.trans there
  | level mix source =>
    cases source with
    | input i => rwa [seen, mix_isSome, input_isSome, ← fits_level_input] at there
    | mix h =>
      rw [seen, mix_isSome, mix_isSome, Bool.and_eq_true] at there
      exact heard mix h rfl there.1 there.2
  | group mix g =>
    rw [seen, mix_isSome, Bool.and_eq_true, beq_iff_eq] at there
    obtain ⟨x, head, same⟩ := Option.map_eq_some_iff.mp there.2
    rw [Entry.fits, there.1, Bool.true_and, List.any_eq_true]
    exact ⟨x, List.mem_of_mem_head? head, by simpa using same⟩

end

section
variable {topo : TopologyInfo} (named : Named topo) (cfg : Config) (roster : Option RosterState)
  {current : MixState} (shaped : (Proto.reconcile topo current).1 = current)
  (customizations : String → Option Customization) {backup : MixState} (held : BTreeMap String Customization)

/-- The preview of a restore over the site's view. -/
abbrev shown (topo : TopologyInfo) (current backup : MixState) : Diff :=
  diff (SiteView.buildWith cfg roster topo).1 current customizations backup held

include named shaped in
/-- Whatever the backup lacks of the running state is listed, or what it is of. -/
theorem covered (e : Entry) (there : e.holds current = true) (lacks : e.holds backup = false) :
    ∃ listed ∈ (shown cfg roster customizations held topo current backup).notInBackup, Covers listed e := by
  have running : ∀ other : Entry, other.holds current = other.fits topo := by
    intro other
    rw [← holds_reconcile current, shaped]
  by_cases knows : known backup e = true
  · refine ⟨e, mem_notInBackup.mpr ⟨there, lacks, knows⟩, ?_⟩
    cases e with
    | level mix source => cases source <;> exact .inl rfl
    | group mix g => exact .inl rfl
    | _ => rfl
  · have listed : ∀ other : Entry, known backup other = true → other.fits topo = true → other.holds backup = false →
        other ∈ (shown cfg roster customizations held topo current backup).notInBackup := fun other knows fits lacks =>
      mem_notInBackup.mpr ⟨(running other).trans fits, lacks, knows⟩
    rw [running] at there
    cases e with
    | input id => exact absurd rfl knows
    | out mix => exact absurd rfl knows
    | group mix g =>
      have house := (Bool.and_eq_true_iff.mp there).1
      exact ⟨.out mix, listed _ rfl house (Bool.eq_false_iff.mpr knows), .inr rfl⟩
    | level mix source =>
      simp only [known, Bool.and_eq_true, not_and_or] at knows
      cases source with
      | input i =>
        rw [fits_level_input, Bool.and_eq_true] at there
        rcases knows with noMix | noInput
        · exact ⟨.out mix, listed _ rfl there.1 (Bool.eq_false_iff.mpr noMix), .inr (.inl rfl)⟩
        · exact ⟨.input i, listed _ rfl there.2 (Bool.eq_false_iff.mpr noInput), .inr (.inr rfl)⟩
      | mix h =>
        obtain ⟨here, heard⟩ := fits_level_mix named there
        rcases knows with noMix | noSource
        · exact ⟨.out mix, listed _ rfl here (Bool.eq_false_iff.mpr noMix), .inr (.inl rfl)⟩
        · exact ⟨.out h, listed _ rfl heard (Bool.eq_false_iff.mpr noSource), .inr (.inr rfl)⟩

include named in
/-- Of what an apt backup holds the view shows what the topology has. -/
theorem Apt.seen (apt : Apt topo current backup) {e : Entry} (holds : e.holds backup = true) :
    Preview.seen (SiteView.buildWith cfg roster topo).1 e = e.fits topo := by
  cases fits : e.fits topo with
  | true =>
    refine seen_of_fits cfg roster named fits fun mix g same => ?_
    subst same
    exact apt.first mix g holds fits
  | false =>
    refine Bool.eq_false_iff.mpr fun there => ?_
    refine Bool.false_ne_true (fits.symm.trans (fits_of_seen cfg roster there fun mix h same here heard => ?_))
    subst same
    exact apt.heard mix h holds here heard

include named shaped in
theorem Apt.changes (apt : Apt topo current backup) (f : Field) (x y : String) :
    ⟨.state f, x, y⟩ ∈ (shown cfg roster customizations held topo current backup).changes ↔
      x = f.read (f.entry.value current) ∧ y = f.read (f.entry.value (after topo current backup)) ∧ x ≠ y := by
  have same (kept : f.entry.value (after topo current backup) = f.entry.value current)
      (silent : ∀ raw, f.entry.find backup = some raw →
        Preview.seen (SiteView.buildWith cfg roster topo).1 f.entry = false) :
      ⟨.state f, x, y⟩ ∈ (shown cfg roster customizations held topo current backup).changes ↔
        x = f.read (f.entry.value current) ∧ y = f.read (f.entry.value (after topo current backup)) ∧ x ≠ y := by
    rw [mem_changes, kept]
    constructor
    · rintro ⟨raw, found, there, -⟩
      exact absurd ((silent raw found).symm.trans there) Bool.false_ne_true
    · rintro ⟨rfl, rfl, apart⟩
      exact absurd rfl apart
  cases holds : f.entry.holds backup with
  | false =>
    refine same (value_kept shaped holds) fun raw found => ?_
    rw [holds_iff.mpr ⟨raw, found⟩] at holds
    cases holds
  | true =>
    have view := apt.seen named cfg roster holds
    cases fits : f.entry.fits topo with
    | false => exact same (value_outside shaped fits) fun _ _ => view.trans fits
    | true =>
      obtain ⟨raw, found⟩ := holds_iff.mp holds
      have faithful := apt.reads f holds fits
      rw [value_of_find found] at faithful
      rw [mem_changes, value_taken shaped fits found, ← Field.listed_iff.mpr faithful]
      constructor
      · rintro ⟨raw', found', -, line⟩
        rwa [Option.some.inj (found.symm.trans found')]
      · exact fun line => ⟨raw, found, view.trans fits, line⟩

include named shaped in
theorem Apt.exact (apt : Apt topo current backup) :
    Exact topo current backup (shown cfg roster customizations held topo current backup) where
  changes := apt.changes named cfg roster shaped customizations held
  skipped e := by
    rw [mem_skipped, placed_eq]
    constructor
    · rintro ⟨holds, unseen, there⟩
      exact ⟨holds, (apt.seen named cfg roster holds).symm.trans unseen, there⟩
    · rintro ⟨holds, out, there⟩
      exact ⟨holds, (apt.seen named cfg roster holds).trans out, there⟩
  lacks e listed := ⟨(mem_notInBackup.mp listed).1, (mem_notInBackup.mp listed).2.1⟩
  covers := covered named cfg roster shaped customizations held

include named shaped in
theorem Exact.apt (exact' : Exact topo current backup (shown cfg roster customizations held topo current backup)) :
    Apt topo current backup := by
  have first : ∀ mix g, (Entry.group mix g).holds backup = true → (Entry.group mix g).fits topo = true →
      topo.groups.head?.map (·.id) = some g := by
    intro mix g holds fits
    by_contra later
    have unseen : Preview.seen (SiteView.buildWith cfg roster topo).1 (.group mix g) = false := by
      rw [Preview.seen, Bool.and_eq_false_iff]
      exact .inr (beq_false_of_ne later)
    have place : placed (SiteView.buildWith cfg roster topo).1 (.group mix g) = true := by
      rw [placed_eq]
      exact (Bool.and_eq_true_iff.mp fits).1
    have out := ((exact'.skipped _).mp (mem_skipped.mpr ⟨holds, unseen, place⟩)).2.1
    exact Bool.false_ne_true (out.symm.trans fits)
  refine ⟨fun mix h holds here heard => ?_, first, fun f holds fits => ?_⟩
  · by_contra out
    have skipped := (exact'.skipped _).mpr ⟨holds, Bool.eq_false_iff.mpr out, here⟩
    have unseen := (mem_skipped.mp skipped).2.1
    rw [Preview.seen, mix_isSome, mix_isSome] at unseen
    have there : (topo.mixes.any (·.id == mix) && topo.mixes.any (·.id == h)) = true :=
      Bool.and_eq_true_iff.mpr ⟨here, heard⟩
    exact Bool.false_ne_true (unseen.symm.trans there)
  · obtain ⟨raw, found⟩ := holds_iff.mp holds
    have there : Preview.seen (SiteView.buildWith cfg roster topo).1 f.entry = true :=
      seen_of_fits cfg roster named fits fun mix g same => first mix g (same ▸ holds) (same ▸ fits)
    rw [value_of_find found]
    refine Field.listed_iff.mp fun x y => ?_
    rw [← value_taken shaped fits found, ← exact'.changes f x y, mem_changes]
    constructor
    · exact fun line => ⟨raw, found, there, line⟩
    · rintro ⟨raw', found', -, line⟩
      rwa [Option.some.inj (found.symm.trans found')]

include named shaped in
/-- The preview of a restore is exact just when the backup is apt. -/
theorem preview_exact : Exact topo current backup (shown cfg roster customizations held topo current backup) ↔
    Apt topo current backup :=
  ⟨Exact.apt named cfg roster shaped customizations held, Apt.exact named cfg roster shaped customizations held⟩

end

/-! ### Two mixes -/

theorem named_two : Named twoMixes := ⟨by decide, by decide, by decide⟩

def quietBackup : MixState := { mixes := (∅ : BTreeMap MixId Mix).insert "b" (Entry.voiceAt (.fin 6)) }

theorem quiet_held {α : Type} {mix : MixId} {f : Mix → Option α}
    (holds : (quietBackup.mixes[mix]?.bind f).isSome = true) :
    mix = "b" ∧ (f (Entry.voiceAt (.fin 6))).isSome = true := by
  obtain ⟨v, there⟩ := Option.isSome_iff_exists.mp holds
  obtain ⟨x, held, inside⟩ := Option.bind_eq_some_iff.mp there
  rw [quietBackup, Std.ExtTreeMap.getElem?_insert] at held
  split at held
  · next same =>
    rw [← Option.some.inj held] at inside
    exact ⟨(Std.compare_eq_iff_eq.mp same).symm, Option.isSome_iff_exists.mpr ⟨v, inside⟩⟩
  · exact absurd held (by simp)

theorem quiet_apt : Apt twoMixes Entry.runningTwo quietBackup := by
  have outs (mix : MixId) (holds : (Entry.out mix).holds quietBackup = true) : mix = "b" :=
    (quiet_held (f := some) ((congrArg Option.isSome (Option.bind_fun_some _)).trans holds)).1
  refine ⟨fun mix h holds => ?_, fun mix g holds => ?_, fun f holds _ => ?_⟩
  · exact absurd (quiet_held holds).2 (by simp [Entry.voiceAt, Mix.level])
  · exact absurd (quiet_held holds).2 (by simp [Entry.voiceAt])
  · cases f with
    | trim id | processing id | inputMute id | inputEq id =>
      exact absurd holds (by simp [Field.entry, Entry.holds, quietBackup])
    | volume mix | volumeMute mix | limiter mix =>
      rw [outs mix holds]
      change Field.read _ _ = Field.read _ (Value.cap _)
      decide +kernel
    | volumeEq mix =>
      rw [outs mix holds]
      change if EqState.peq _ _ = true then Field.read _ _ = Field.read _ (Value.cap _) else _
      rw [if_pos (by decide +kernel)]
      decide +kernel
    | level mix source =>
      obtain ⟨rfl, inside⟩ := quiet_held holds
      cases source with
      | input id =>
        rw [Mix.level, Entry.voiceAt, Std.ExtTreeMap.getElem?_insert] at inside
        split at inside
        · next same =>
          rw [← Std.compare_eq_iff_eq.mp same]
          change Field.read _ _ = Field.read _ (Value.cap _)
          decide +kernel
        · exact absurd inside (by simp)
      | mix h => exact absurd inside (by simp [Entry.voiceAt, Mix.level])
    | strip mix g | stripEq mix g => exact absurd (quiet_held holds).2 (by simp [Entry.voiceAt])

/-- A level within the fader's range is shown as it will be; one beyond it as it is in the backup. -/
theorem preview_exact_loud :
    (Exact twoMixes Entry.runningTwo quietBackup (shown {} none (fun _ => none) ∅ twoMixes Entry.runningTwo quietBackup) ∧
      ⟨.state (.level "b" (.input "voice")), "5.0 dB C", "6.0 dB C"⟩ ∈
        (shown {} none (fun _ => none) ∅ twoMixes Entry.runningTwo quietBackup).changes) ∧
    ¬Exact twoMixes Entry.runningTwo Entry.loudBackup
      (shown {} none (fun _ => none) ∅ twoMixes Entry.runningTwo Entry.loudBackup) := by
  constructor
  · have exact' := (preview_exact named_two {} none (reconcile_again twoMixes _) (fun _ => none) ∅).mpr quiet_apt
    exact ⟨exact', (exact'.changes _ _ _).mpr (by decide +kernel)⟩
  · intro exact'
    have apt := (preview_exact named_two {} none (reconcile_again twoMixes _) (fun _ => none) ∅).mp exact'
    have faithful := apt.reads (.level "b" (.input "voice")) (by decide +kernel) (by decide +kernel)
    have reads : Field.read (.level "b" (.input "voice")) (.level { gainDb := .fin 40 }) ≠
        Field.read (.level "b" (.input "voice")) (.level { gainDb := .fin 12 }) := by decide +kernel
    exact reads faithful

/-- A backup from when `a` heard `b`. -/
def leaderBackup : MixState :=
  { mixes := (∅ : BTreeMap MixId Mix).insert "a"
      { mixes := (∅ : BTreeMap MixId Level).insert "b" { gainDb := .fin 0 } } }

/-- The preview shows a change that the restore does not make, and skips nothing. -/
theorem unheard_shown :
    ⟨.state (.level "a" (.mix "b")), "off C", "0.0 dB C"⟩ ∈
      (shown {} none (fun _ => none) ∅ twoMixes Entry.runningTwo leaderBackup).changes ∧
    (Entry.level "a" (.mix "b")).find (after twoMixes Entry.runningTwo leaderBackup) = none ∧
    (shown {} none (fun _ => none) ∅ twoMixes Entry.runningTwo leaderBackup).skipped = [] ∧
    ¬Exact twoMixes Entry.runningTwo leaderBackup
      (shown {} none (fun _ => none) ∅ twoMixes Entry.runningTwo leaderBackup) := by
  refine ⟨by decide +kernel, by decide +kernel, by decide +kernel, fun exact' => ?_⟩
  have skipped := (exact'.skipped (.level "a" (.mix "b"))).mpr ⟨by decide +kernel, by decide +kernel, by decide⟩
  exact absurd (mem_skipped.mp skipped).2.1 (by decide +kernel)

end Preview
end IemMixer.Server
