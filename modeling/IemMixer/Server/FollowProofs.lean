import IemMixer.Proto.EqualProofs
import IemMixer.Server.RosterProofs

/-! A state that follows a roster already: the rules and the shaping find nothing to do, so
following it again leaves it as it is. -/
namespace IemMixer.Server
open Lib Proto

section
variable {topo : TopologyInfo} {state : MixState}

/-- A shaped mix stays one when its mutes change. -/
theorem shapeMix_mutes {node : MixInfo} {mix after : Mix} (shaped : shapeMix topo node (some mix) = mix)
    (only : MutesOnly mix after) : shapeMix topo node (some after) = after := by
  have out : capOut mix.out = mix.out := congrArg Mix.out shaped
  apply Mix.ext
  · have same : after.out = { mix.out with muted := after.out.muted } := by rw [← only.out]
    show capOut after.out = after.out
    rw [same]
    calc capOut { mix.out with muted := after.out.muted }
        = { capOut mix.out with muted := after.out.muted } := rfl
      _ = { mix.out with muted := after.out.muted } := by rw [out]
  · have inputs : (shapeMix topo node (some after)).inputs = (shapeMix topo node (some mix)).inputs := by
      simp only [shapeMix, Option.bind_some, only.inputs]
    rw [inputs, shaped, only.inputs]
  · have groups : (shapeMix topo node (some after)).groups = (shapeMix topo node (some mix)).groups := by
      simp only [shapeMix, Option.bind_some, only.groups]
    rw [groups, shaped, only.groups]
  · apply Std.ExtTreeMap.ext_getElem?
    intro id
    have before := shapeMix_level topo node (some mix) (.mix id)
    rw [shaped] at before
    have now := shapeMix_level topo node (some after) (.mix id)
    refine Eq.trans now ?_
    have same := only.mixes id
    change mix.mixes[id]? = _ at before
    by_cases holds : node.holds topo (.mix id) = true
    · rw [if_pos holds] at before ⊢
      obtain ⟨level, held⟩ : ∃ level, mix.mixes[id]? = some level := ⟨_, before⟩
      have kept : capLevel level = level := by
        rw [held] at before
        simpa [Mix.level, held] using (Option.some.inj before).symm
      rw [held, Option.map_some] at same
      obtain ⟨other, found, muted⟩ := Option.map_eq_some_iff.mp same
      have capped : capLevel other = other := by
        have flags : other = { level with muted := other.muted } := by
          rw [Level.mk.injEq] at muted
          cases other
          simp_all
        rw [flags]
        calc capLevel { level with muted := other.muted } = { capLevel level with muted := other.muted } := rfl
          _ = { level with muted := other.muted } := by rw [kept]
      rw [found]
      simp [Mix.level, found, capped]
    · rw [if_neg holds] at before ⊢
      rw [before, Option.map_none] at same
      exact (Option.map_eq_none_iff.mp same).symm

theorem fitSets_shaped (shaped : (Proto.reconcile topo state).1 = state) (sets : BTreeSet String) (lineup : Lineup)
    (silenced : BTreeSet String) :
    (Proto.reconcile topo (fitSets state sets lineup silenced).1).1 = (fitSets state sets lineup silenced).1 := by
  have fits := fitSets_fits state sets lineup silenced
  generalize (fitSets state sets lineup silenced) = fit at fits
  apply MixState.ext
  · apply Std.ExtTreeMap.ext_getElem?
    intro id
    have before := reconcile_input topo state id
    rw [shaped] at before
    rw [reconcile_input, fits.inputs]
    exact before.symm
  · apply Std.ExtTreeMap.ext_getElem?
    intro id
    have before := reconcile_mix topo state id
    rw [shaped] at before
    rw [reconcile_mix]
    cases found : topo.mixes.reverse.find? (·.id == id) with
    | none =>
      rw [found, Option.map_none] at before
      by_cases member : id ∈ sets
      · have related := fits.listed id member
        rw [before] at related
        cases there : fit.1.mixes[id]? with
        | none => rfl
        | some x => rw [there] at related; cases related
      · rw [(fits.unlisted id member).1, before]
        rfl
    | some node =>
      have named : node.id = id := by simpa using List.find?_some found
      subst named
      rw [found, Option.map_some] at before
      rw [Option.map_some]
      by_cases member : node.id ∈ sets
      · have related := fits.listed node.id member
        rw [before] at related
        cases there : fit.1.mixes[node.id]? with
        | none => rw [there] at related; cases related
        | some x =>
          rw [there] at related
          cases related with
          | some only => exact congrArg some (shapeMix_mutes (shapeMix_again topo node _) only)
      · rw [(fits.unlisted node.id member).1]
        exact before.symm

end

/-- The rules of `lineup` find nothing to do on `sets`. -/
def Ruled (sets : BTreeSet String) (lineup : Lineup) (s : MixState × BTreeSet String) : Prop :=
  ∀ set ∈ sets, fitted lineup set (onSet s set) = onSet s set

section
variable {sets : BTreeSet String} {lineup : Lineup}

theorem Ruled.same {s : MixState × BTreeSet String} (ruled : Ruled sets lineup s) :
    fitSets s.1 sets lineup s.2 = s := by
  apply fit_ext
  · exact fitSets_inputs _ _ _ _
  · intro set
    rw [onSet_fitSets]
    split
    · next member => exact ruled set member
    · rfl

theorem fitSets_ruled (state : MixState) (silenced : BTreeSet String) :
    Ruled sets lineup (fitSets state sets lineup silenced) := by
  intro set member
  rw [onSet_fitSets, if_pos member, fitted_again]

/-- What the rules ask of a set's mix and its place on the record. -/
def Obeys (lineup : Lineup) (set : String) (mix : Mix) (on : Bool) : Prop :=
  match lineup.personOn set with
  | none => mix.out.muted = true
  | some person => on = false ∧ (lineup.leads person = false →
    ∀ id : MixId, ∀ muted, (mix.mixes[id]?).map (·.muted) = some muted → muted = true)

theorem fitted_same_iff {set : String} {mix : Mix} {on : Bool} :
    fitted lineup set (some mix, on) = (some mix, on) ↔ Obeys lineup set mix on := by
  unfold fitted Obeys
  simp only
  cases lineup.personOn set with
  | none =>
    constructor
    · intro same
      have mixes := congrArg (fun p => p.1.map (·.out.muted)) same
      simpa using mixes.symm
    · intro muted
      have same : { mix.out with muted := true } = mix.out := by rw [← muted]
      simp [same, muted]
  | some person =>
    simp only [Prod.mk.injEq, Option.some.injEq]
    constructor
    · rintro ⟨same, off⟩
      subst off
      refine ⟨rfl, fun follows id muted held => ?_⟩
      rw [follows] at same
      obtain ⟨level, there, rfl⟩ := Option.map_eq_some_iff.mp held
      rw [← same] at there
      simp only [Bool.false_eq_true, if_false, Std.ExtTreeMap.getElem?_map] at there
      obtain ⟨_, -, rfl⟩ := Option.map_eq_some_iff.mp there
      rfl
    · rintro ⟨rfl, alone⟩
      refine ⟨?_, rfl⟩
      cases follows : lineup.leads person with
      | true => simp
      | false =>
        have still : mix.mixes.map (fun _ level => { level with muted := true }) = mix.mixes := by
          apply Std.ExtTreeMap.ext_getElem?
          intro id
          rw [Std.ExtTreeMap.getElem?_map]
          cases held : mix.mixes[id]? with
          | none => rfl
          | some level =>
            have muted := alone follows id level.muted (by rw [held]; rfl)
            simp only [Option.map_some]
            rw [← muted]
        simp [still]

/-- Rules that hold of a state hold of one that compares equal. -/
theorem Ruled.peq {s : MixState × BTreeSet String} {state : MixState} (ruled : Ruled sets lineup s)
    (same : s.1.peq state = true) : Ruled sets lineup (state, s.2) := by
  intro set member
  have before := ruled set member
  simp only [MixState.peq, Bool.and_eq_true] at same
  have here := BTreeMap.peq_iff.mp same.2 set
  unfold onSet at before ⊢
  simp only
  cases found : state.mixes[set]? with
  | none => rfl
  | some mix =>
    rw [found] at here
    cases held : s.1.mixes[set]? with
    | none => rw [held] at here; cases here
    | some was =>
      rw [held] at here before
      cases here with
      | some equal =>
        obtain ⟨out, heard⟩ := Mix.muted_of_peq equal
        rw [fitted_same_iff] at before ⊢
        unfold Obeys at before ⊢
        cases worn : lineup.personOn set with
        | none =>
          rw [worn] at before
          exact out.symm.trans before
        | some person =>
          rw [worn] at before
          refine ⟨before.1, fun follows id muted there => before.2 follows id muted ?_⟩
          rw [heard]
          exact there

end

section
variable {new : Roster} {sets : BTreeSet String} {lineup : Lineup} {s : MixState × BTreeSet String}

/-- Nobody moves, and the rules hold already. -/
theorem follow_ruled (ruled : Ruled sets lineup s) : follow s.1 s.2 none new sets lineup none = s := ruled.same

theorem follow_shaped {topo : TopologyInfo} (ruled : Ruled sets lineup s)
    (shaped : (Proto.reconcile topo s.1).1 = s.1) : follow s.1 s.2 none new sets lineup (some topo) = s := by
  have quiet : follow s.1 s.2 none new sets lineup (some topo) =
      fitSets (Proto.reconcile topo s.1).1 sets lineup s.2 := rfl
  rw [quiet, shaped]
  exact ruled.same

/-- What followed a roster obeys its rules. -/
theorem ruled_follow (state : MixState) (silenced : BTreeSet String) (src : Option Roster)
    (topology : Option TopologyInfo) : Ruled sets lineup (follow state silenced src new sets lineup topology) :=
  fitSets_ruled _ _

theorem shaped_follow (topo : TopologyInfo) (state : MixState) (silenced : BTreeSet String) (src : Option Roster) :
    (Proto.reconcile topo (follow state silenced src new sets lineup (some topo)).1).1 =
      (follow state silenced src new sets lineup (some topo)).1 :=
  fitSets_shaped (reconcile_again _ _) _ _ _

/-- On `sets`: one nobody wears is silent, and whoever is no leader hears no other mix. -/
def Proper (sets : BTreeSet String) (lineup : Lineup) (state : MixState) : Prop :=
  ∀ set ∈ sets, ∀ mix, state.mixes[set]? = some mix →
    (lineup.personOn set = none → mix.out.muted = true) ∧
      ∀ person, lineup.personOn set = some person → lineup.leads person = false →
        ∀ (id : MixId) (level : Level), mix.mixes[id]? = some level → level.muted = true

theorem Ruled.proper {s : MixState × BTreeSet String} (ruled : Ruled sets lineup s) : Proper sets lineup s.1 := by
  intro set member mix held
  have same := ruled set member
  unfold onSet at same
  rw [held] at same
  have obeys := fitted_same_iff.mp same
  unfold Obeys at obeys
  constructor
  · intro nobody
    rw [nobody] at obeys
    exact obeys
  · intro person worn follower id level there
    rw [worn] at obeys
    exact obeys.2 follower id level.muted (by rw [there]; rfl)

end

end IemMixer.Server
