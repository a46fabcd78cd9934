import IemMixer.MirrorProofs
import IemMixer.Proto.ReconcileProofs
import IemMixer.Server.DeskProofs
import IemMixer.Server.Restore
import IemMixer.Server.RosterProofs

/-! What changes, a shaping and a completion make of one entry of a mix state: nothing but what is
to that entry. -/
namespace IemMixer.Server
open Lib Proto

namespace Entry
variable {e : Entry}

theorem last_append (before : Value) (first later : List Change) (e : Entry) :
    last before (first ++ later) e = last (last before first e) later e := List.foldl_append

/-- A change writes its entry and no other. -/
theorem value_change (m : Mirror) (change : Change) (e : Entry) :
    e.value (m.change change).state = last (e.value m.state) [change] e := by
  have written : ∀ (mix other : MixId) (f : Mix → Mix), (m.modifyMix mix f).state.mixes[other]?.getD {} =
      if mix = other then f (m.state.mixes[other]?.getD {}) else m.state.mixes[other]?.getD {} := by
    intro mix other f
    rw [Mirror.modifyMix, BTreeMap.update, BTreeMap.getElem?_insert_eq]
    split
    · rename_i same
      rw [same, Option.getD_some]
    · rfl
  simp only [last, List.foldl_cons, List.foldl_nil]
  cases change with
  | input id new =>
    cases e with
    | input other =>
      simp only [value, Mirror.change, ofChange, BTreeMap.getElem?_insert_eq, input.injEq]
      split <;> rfl
    | _ => rfl
  | mixOut mix new =>
    cases e with
    | input other => rfl
    | _ =>
      simp only [value, Mirror.change, ofChange, written, out.injEq, reduceCtorEq, if_false]
      split <;> rfl
  | level mix source new =>
    cases e with
    | input other => cases source <;> rfl
    | level other heard =>
      by_cases here : mix = other
      · subst here
        cases source <;> cases heard <;>
          simp only [value, Mirror.change, ofChange, written, Mix.level, BTreeMap.getElem?_insert_eq, level.injEq,
            Source.input.injEq, Source.mix.injEq, reduceCtorEq, true_and, and_false, if_true, if_false] <;>
          split <;> rfl
      · cases source <;> simp only [value, Mirror.change, ofChange, written, level.injEq, here, false_and, if_false]
    | _ =>
      cases source <;> simp only [value, Mirror.change, ofChange, written, reduceCtorEq, if_false] <;> split <;> rfl
  | group mix g new =>
    cases e with
    | input other => rfl
    | group other strip =>
      by_cases here : mix = other
      · subst here
        simp only [value, Mirror.change, ofChange, written, BTreeMap.getElem?_insert_eq, group.injEq, true_and, if_true]
        split <;> rfl
      · simp only [value, Mirror.change, ofChange, written, group.injEq, here, false_and, if_false]
    | _ =>
      simp only [value, Mirror.change, ofChange, written, reduceCtorEq, if_false]
      split <;> rfl
  | _ => rfl

theorem value_changes (changes : List Change) (m : Mirror) (e : Entry) :
    e.value (changes.foldl Mirror.change m).state = last (e.value m.state) changes e := by
  induction changes generalizing m with
  | nil => rfl
  | cons change rest ih =>
    rw [List.foldl_cons, ih, value_change]
    exact (last_append _ [change] rest e).symm

private theorem capped_default {V : Type} (cap : V → V) (default : V) (fixed : cap default = default) (given : Option V) :
    (given.map cap).getD default = cap (given.getD default) := by
  cases given with
  | none => exact fixed.symm
  | some v => rfl

/-- What a shaping makes of an entry depends on nothing else of the state. -/
theorem value_reconcile (topo : TopologyInfo) {s t : MixState} (same : e.value s = e.value t) :
    e.value (Proto.reconcile topo s).1 = e.value (Proto.reconcile topo t).1 := by
  have mixes (state : MixState) (mix : MixId) : (Proto.reconcile topo state).1.mixes[mix]? =
      (topo.mixes.reverse.find? (·.id == mix)).map fun node => shapeMix topo node state.mixes[mix]? := by
    refine (reconcile_mix topo state mix).trans (Option.map_congr fun node found => ?_)
    have named : node.id = mix := by simpa using List.find?_some found
    rw [named]
  have bare {α : Type} (given : Option Mix) (get : Mix → Option α) (none : get {} = none) :
      given.bind get = get (given.getD {}) := by
    cases given with
    | none => exact none.symm
    | some x => rfl
  cases e with
  | input id =>
    have capped (held : Option InputState) := capped_default capInput {} (capInput_of_ok input_default_ok) held
    simp only [value, reconcile_input, capped, Value.input.injEq] at same ⊢
    rw [same]
  | out mix =>
    have shaped (node : MixInfo) (given : Option Mix) :
        (shapeMix topo node given).out = capOut (given.getD {}).out := by
      cases given with
      | none => exact (capOut_of_ok out_default_ok).symm
      | some x => rfl
    simp only [value, mixes, Value.out.injEq] at same ⊢
    cases topo.mixes.reverse.find? (·.id == mix) with
    | none => rfl
    | some node => simp only [Option.map_some, Option.getD_some, shaped, same]
  | level mix source =>
    have capped (held : Option Level) := capped_default capLevel {} (capLevel_of_ok level_default_ok) held
    have lacks : ({} : Mix).level source = none := by cases source <;> rfl
    simp only [value, mixes, Value.level.injEq] at same ⊢
    cases topo.mixes.reverse.find? (·.id == mix) with
    | none => rfl
    | some node =>
      simp only [Option.map_some, Option.getD_some, shapeMix_level, bare _ (·.level source) lacks, capped, same]
  | group mix g =>
    have capped (held : Option MixGroup) := capped_default capGroup {} (capGroup_of_ok group_default_ok) held
    have lacks : ({} : Mix).groups[g]? = none := rfl
    simp only [value, mixes, Value.group.injEq] at same ⊢
    cases topo.mixes.reverse.find? (·.id == mix) with
    | none => rfl
    | some node =>
      simp only [Option.map_some, Option.getD_some, shapeMix_group, bare _ (·.groups[g]?) lacks, capped, same]

/-- What the backup lacks is the running one's. -/
theorem value_keepRunning {backup current : MixState} (lacks : e.holds backup = false) :
    e.value (keepRunning backup current) = e.value current := by
  cases e with
  | input id =>
    have inputs : (keepRunning backup current).inputs[id]? = backup.inputs[id]?.or current.inputs[id]? :=
      Std.ExtTreeMap.getElem?_union
    have absent : backup.inputs[id]? = none := Option.isNone_iff_eq_none.mp (Option.isSome_eq_false_iff.mp lacks)
    simp only [value, inputs, absent, Option.none_or]
  | out mix =>
    have absent : backup.mixes[mix]? = none := Option.isNone_iff_eq_none.mp (Option.isSome_eq_false_iff.mp lacks)
    simp only [value, keepRunning_mix, absent, Option.getD_none, Option.or_none]
    cases current.mixes[mix]? <;> rfl
  | level mix source =>
    have absent : backup.mixes[mix]?.bind (·.level source) = none :=
      Option.isNone_iff_eq_none.mp (Option.isSome_eq_false_iff.mp lacks)
    have bare : ({} : Mix).level source = none := by cases source <;> rfl
    simp only [value, keepRunning_mix]
    cases held : backup.mixes[mix]? with
    | none => cases current.mixes[mix]? <;> simp [keepMix_level]
    | some x =>
      rw [held, Option.bind_some] at absent
      cases current.mixes[mix]? <;> simp [keepMix_level, absent, bare]
  | group mix g =>
    have absent : backup.mixes[mix]?.bind (·.groups[g]?) = none :=
      Option.isNone_iff_eq_none.mp (Option.isSome_eq_false_iff.mp lacks)
    simp only [value, keepRunning_mix]
    cases held : backup.mixes[mix]? with
    | none => cases current.mixes[mix]? <;> simp [keepMix_group]
    | some x =>
      rw [held, Option.bind_some] at absent
      cases current.mixes[mix]? <;> simp [keepMix_group, absent]

/-- A slot of a shaped completion, where the running one is shaped. -/
private theorem slot_restored {V : Type} {cap : V → V} {default : V} {has : Bool} {given running : Option V}
    (shaped : running = if has then some ((running.map cap).getD default) else none) :
    (if has then some (((given.or running).map cap).getD default) else none) =
      running.map fun r => (given.map cap).getD r := by
  cases has with
  | false =>
    rw [show running = none from shaped]
    rfl
  | true =>
    cases running with
    | none => cases shaped
    | some r =>
      have capped : r = cap r := Option.some.inj shaped
      cases given with
      | none => exact congrArg some capped.symm
      | some g => rfl

/-- The mix a restore makes of a running mix. -/
private theorem mix_restored {topo : TopologyInfo} (backup : MixState) {current : MixState}
    (shaped : (Proto.reconcile topo current).1 = current) (mix : MixId) :
    (current.mixes[mix]? = none ∧ (Proto.reconcile topo (keepRunning backup current)).1.mixes[mix]? = none) ∨
    ∃ node cur, current.mixes[mix]? = some cur ∧ shapeMix topo node (some cur) = cur ∧
      (Proto.reconcile topo (keepRunning backup current)).1.mixes[mix]? =
        some (shapeMix topo node (some (keepMix (backup.mixes[mix]?.getD cur) cur))) := by
  have running := (congrArg (·.mixes[mix]?) shaped).symm.trans (reconcile_mix topo current mix)
  rw [reconcile_mix]
  cases found : topo.mixes.reverse.find? (·.id == mix) with
  | none => exact .inl ⟨running.trans (by rw [found]; rfl), rfl⟩
  | some node =>
    obtain rfl : node.id = mix := by simpa using List.find?_some found
    rw [found, Option.map_some] at running
    obtain ⟨cur, made⟩ : ∃ cur, shapeMix topo node current.mixes[node.id]? = cur := ⟨_, rfl⟩
    rw [made] at running
    refine .inr ⟨node, cur, running, by rw [← running, made], ?_⟩
    rw [Option.map_some, keepRunning_mix, running]
    rfl

/-- A shaped completion has at every entry of the running state the backup's value in its
ranges, or else the running one. -/
theorem find_shaped {topo : TopologyInfo} {backup current : MixState}
    (shaped : (Proto.reconcile topo current).1 = current) (e : Entry) :
    e.find (Proto.reconcile topo (keepRunning backup current)).1 =
      (e.find current).map fun running => ((e.find backup).map Value.cap).getD running := by
  cases e with
  | input id =>
    have inputs : (keepRunning backup current).inputs[id]? = backup.inputs[id]?.or current.inputs[id]? :=
      Std.ExtTreeMap.getElem?_union
    have running := (congrArg (·.inputs[id]?) shaped).symm.trans (reconcile_input topo current id)
    simp only [find, reconcile_input, inputs, slot_restored running]
    cases backup.inputs[id]? <;> cases current.inputs[id]? <;> rfl
  | out mix =>
    obtain ⟨none, missing⟩ | ⟨node, cur, here, fixed, made⟩ := mix_restored backup shaped mix
    · simp only [find, none, missing, Option.map_none]
    · have out : capOut cur.out = cur.out := congrArg Mix.out fixed
      simp only [find, here, made, Option.map_some, Option.some.injEq]
      cases backup.mixes[mix]? with
      | none => exact congrArg Value.out out
      | some x => rfl
  | level mix source =>
    obtain ⟨none, missing⟩ | ⟨node, cur, here, fixed, made⟩ := mix_restored backup shaped mix
    · simp only [find, none, missing, Option.bind_none, Option.map_none]
    · have running := (congrArg (·.level source) fixed).symm.trans (shapeMix_level topo node (some cur) source)
      have given : ((backup.mixes[mix]?.getD cur).level source).or (cur.level source) =
          (backup.mixes[mix]?.bind (·.level source)).or (cur.level source) := by
        cases backup.mixes[mix]? with
        | none => exact Option.or_self
        | some x => rfl
      simp only [find, here, made, Option.bind_some, shapeMix_level, keepMix_level, given, slot_restored running]
      cases backup.mixes[mix]?.bind (·.level source) <;> cases cur.level source <;> rfl
  | group mix g =>
    obtain ⟨none, missing⟩ | ⟨node, cur, here, fixed, made⟩ := mix_restored backup shaped mix
    · simp only [find, none, missing, Option.bind_none, Option.map_none]
    · have running := (congrArg (·.groups[g]?) fixed).symm.trans (shapeMix_group topo node (some cur) g)
      have given : ((backup.mixes[mix]?.getD cur).groups[g]?).or cur.groups[g]? =
          (backup.mixes[mix]?.bind (·.groups[g]?)).or cur.groups[g]? := by
        cases backup.mixes[mix]? with
        | none => exact Option.or_self
        | some x => rfl
      simp only [find, here, made, Option.bind_some, shapeMix_group, keepMix_group, given, slot_restored running]
      cases backup.mixes[mix]?.bind (·.groups[g]?) <;> cases cur.groups[g]? <;> rfl

/-- A restore takes exactly what the backup holds: at every entry of the running state the
backup's value in its ranges, or else the running value. And it leaves a shaped state, which the
next restore starts from. -/
theorem find_restored {topo : TopologyInfo} {backup current : MixState}
    (shaped : (Proto.reconcile topo current).1 = current) :
    let restored := (Proto.reconcile topo (keepRunning backup current)).1
    (∀ e : Entry, e.find restored = (e.find current).map fun running => ((e.find backup).map Value.cap).getD running) ∧
      (Proto.reconcile topo restored).1 = restored :=
  ⟨find_shaped shaped, reconcile_again topo _⟩

def voiceAt (gainDb : F64) : Mix := { inputs := (∅ : BTreeMap InputId Level).insert "voice" { gainDb } }

/-- A running state of two mixes, the voice heard in `a` and in `b`. -/
def runningTwo : MixState := (Proto.reconcile twoMixes
  { mixes := (∅ : BTreeMap MixId Mix).insert "a" (voiceAt (.fin 3)) |>.insert "b" (voiceAt (.fin 5)) }).1

def loudBackup : MixState := { mixes := (∅ : BTreeMap MixId Mix).insert "b" (voiceAt (.fin 40)) }

theorem find_restored_two :
    (Entry.level "b" (.input "voice")).find (Proto.reconcile twoMixes (keepRunning loudBackup runningTwo)).1 =
      some (.level { gainDb := .fin 12 }) ∧
    (Entry.level "a" (.input "voice")).find (Proto.reconcile twoMixes (keepRunning loudBackup runningTwo)).1 =
      some (.level { gainDb := .fin 3 }) :=
  ⟨((find_restored (reconcile_again twoMixes _)).1 _).trans (by decide +kernel),
    ((find_restored (reconcile_again twoMixes _)).1 _).trans (by decide +kernel)⟩

variable [Libm] {topo : Topology} {d : Desk}

/-- A request other than an import writes what the engine says it changed. -/
theorem value_request (sound : d.Sound topo) {cmd : Cmd} (plain : isImport cmd = false) :
    e.value (d.core.handle (.request cmd)).2.state =
      last (e.value d.core.state) (((d.core.handle (.request cmd)).1.map (·.changes)).getD []) e := by
  have wf : TopologyProofs.WellFormed d.core.topo := sound.topo.symm ▸ sound.wf
  have handled := Core.handle_spec d.core wf sound.canonical (.request cmd)
  rcases made : d.core.handle (.request cmd) with ⟨out, c'⟩
  rw [made] at handled
  cases handled with
  | refused => rfl
  | @edited changes rt next effect quiet path =>
    have shown := MirrorProofs.path_shown wf path
      (m := { state := d.core.state, transient := d.core.transient }) ⟨rfl, rfl, rfl, fun _ _ => .rfl⟩
    have written : next.state = (changes.foldl Mirror.change { state := d.core.state, transient := _ }).state :=
      shown.state.symm
    have followed := value_changes changes { state := d.core.state, transient := d.core.transient } e
    rw [← written] at followed
    exact followed
  | imported state =>
    obtain ⟨_, rfl⟩ := Core.effect_imported (congrArg Prod.fst made) rfl
    cases plain

/-- An import leaves an entry alone that it brings the value of. -/
theorem value_import (sound : d.Sound topo) {state : MixState} (same : e.value state = e.value d.core.state) :
    e.value (d.core.handle (.request (.importState state))).2.state = e.value d.core.state := by
  have imported := (Desk.meet_import sound state "").1
  calc e.value (d.core.handle (.request (.importState state))).2.state
      = e.value (Proto.reconcile topo.info state).1 := congrArg e.value imported
    _ = e.value (Proto.reconcile topo.info d.core.state).1 := value_reconcile topo.info same
    _ = e.value d.core.state := congrArg e.value sound.fixed

end Entry
end IemMixer.Server
