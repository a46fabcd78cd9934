import IemMixer.Lib.OrdMap
import IemMixer.Server.Roster

/-! What the roster's rules, a completion from the running values and the topology's shape
make of a mix state, set by set. -/
namespace IemMixer.Server
open Lib Proto

/-! ### Rules -/

/-- A set's mix, and whether the set is on the record. -/
def onSet (s : MixState × BTreeSet String) (set : String) : Option Mix × Bool :=
  (s.1.mixes[set]?, decide (set ∈ s.2))

/-- `lineup`'s rules on what there is of a set. -/
def fitted (lineup : Lineup) (set : String) : Option Mix × Bool → Option Mix × Bool
  | (none, on) => (none, on)
  | (some mix, on) => match lineup.personOn set with
    | none => (some { mix with out := { mix.out with muted := true } }, on || !mix.out.muted)
    | some person =>
      let mix := if on then { mix with out := { mix.out with muted := false } } else mix
      let mix := if lineup.leads person then mix
        else { mix with mixes := mix.mixes.map fun _ level => { level with muted := true } }
      (some mix, false)

/-- What `fitSet` writes for a set. -/
theorem fitSet_cases (lineup : Lineup) (state : MixState) (silenced : BTreeSet String) (set : String) :
    fitSet lineup (state, silenced) set = (state, silenced) ∧
        fitted lineup set (onSet (state, silenced) set) = onSet (state, silenced) set ∨
      ∃ mix, (fitSet lineup (state, silenced) set).1 = { state with mixes := state.mixes.insert set mix } ∧
        ∃ on : Bool, (fitSet lineup (state, silenced) set).2 =
            (if on then silenced.insert set else silenced.erase set) ∧
          fitted lineup set (onSet (state, silenced) set) = (some mix, on) := by
  unfold fitSet onSet
  simp only
  cases held : state.mixes[set]? with
  | none => exact .inl ⟨rfl, rfl⟩
  | some mix =>
    simp only [fitted]
    cases lineup.personOn set with
    | none =>
      cases muted : mix.out.muted with
      | true =>
        have same : { mix.out with muted := true } = mix.out := by rw [← muted]
        exact .inl ⟨by simp, by simp [same]⟩
      | false => exact .inr ⟨_, by simp; rfl, true, by simp, by simp⟩
    | some person => exact .inr ⟨_, rfl, false, by simp, by simp⟩

theorem fitSet_elsewhere (lineup : Lineup) (s : MixState × BTreeSet String) (set other : String)
    (apart : set ≠ other) : onSet (fitSet lineup s set) other = onSet s other := by
  obtain ⟨state, silenced⟩ := s
  rcases fitSet_cases lineup state silenced set with ⟨same, -⟩ | ⟨mix, mixes, on, record, -⟩
  · rw [same]
  · have elsewhere : (state.mixes.insert set mix)[other]? = state.mixes[other]? :=
      (BTreeMap.getElem?_insert_eq _ _ _ _).trans (if_neg apart)
    unfold onSet
    rw [mixes, record]
    cases on <;> simp [elsewhere, apart]

theorem fitSet_there (lineup : Lineup) (s : MixState × BTreeSet String) (set : String) :
    onSet (fitSet lineup s set) set = fitted lineup set (onSet s set) := by
  obtain ⟨state, silenced⟩ := s
  rcases fitSet_cases lineup state silenced set with ⟨same, fixed⟩ | ⟨mix, mixes, on, record, made⟩
  · rw [same, fixed]
  · rw [made]
    unfold onSet
    rw [mixes, record]
    cases on <;> simp

/-- The rules on all of `sets`. -/
theorem onSet_fitSets (state : MixState) (sets : BTreeSet String) (lineup : Lineup) (silenced : BTreeSet String)
    (set : String) : onSet (fitSets state sets lineup silenced) set =
      if set ∈ sets then fitted lineup set (onSet (state, silenced) set) else onSet (state, silenced) set := by
  have apart : (sets.toList.map id).Nodup := by
    rw [List.map_id]
    exact Std.ExtTreeSet.distinct_toList.imp fun apart same => apart (Std.compare_eq_iff_eq.mpr same)
  unfold fitSets
  split
  · rename_i member
    exact foldl_there id onSet (fitted lineup) (fitSet_elsewhere lineup) (fitSet_there lineup) apart
      (Std.ExtTreeSet.mem_toList.mpr member) _
  · rename_i absent
    refine foldl_elsewhere id onSet (fitSet_elsewhere lineup) (fun member => absent ?_) _
    rw [List.map_id] at member
    exact Std.ExtTreeSet.mem_toList.mp member

theorem fitSets_inputs (state : MixState) (sets : BTreeSet String) (lineup : Lineup) (silenced : BTreeSet String) :
    (fitSets state sets lineup silenced).1.inputs = state.inputs := by
  have step : ∀ (fit : MixState × BTreeSet String) (set : String),
      (fitSet lineup fit set).1.inputs = fit.1.inputs := by
    intro ⟨state, silenced⟩ set
    rcases fitSet_cases lineup state silenced set with ⟨same, -⟩ | ⟨mix, mixes, -⟩
    · rw [same]
    · rw [mixes]
  have run : ∀ (all : List String) (fit : MixState × BTreeSet String),
      (all.foldl (fitSet lineup) fit).1.inputs = fit.1.inputs := by
    intro all
    induction all with
    | nil => exact fun _ => rfl
    | cons set rest ih => exact fun fit => (ih _).trans (step fit set)
  exact run _ _

/-- A fit is its inputs and what it leaves of each set. -/
theorem fit_ext {fit fit' : MixState × BTreeSet String} (inputs : fit.1.inputs = fit'.1.inputs)
    (same : ∀ set, onSet fit set = onSet fit' set) : fit = fit' := by
  obtain ⟨⟨ins, mixes⟩, silenced⟩ := fit
  obtain ⟨⟨ins', mixes'⟩, silenced'⟩ := fit'
  have held : mixes = mixes' := Std.ExtTreeMap.ext_getElem? fun {set} => congrArg Prod.fst (same set)
  have record : silenced = silenced' :=
    Std.ExtTreeSet.ext_mem fun {set} => decide_eq_decide.mp (congrArg Prod.snd (same set))
  rw [held, record, show ins = ins' from inputs]

/-- The rules find nothing to do on a set they were applied to. -/
theorem fitted_again (lineup : Lineup) (set : String) (held : Option Mix × Bool) :
    fitted lineup set (fitted lineup set held) = fitted lineup set held := by
  obtain ⟨_ | mix, on⟩ := held
  · rfl
  unfold fitted
  simp only
  cases lineup.personOn set with
  | none => simp
  | some person =>
    cases leads : lineup.leads person with
    | true => simp [leads]
    | false => simp [leads]

theorem fitSets_again (state : MixState) (sets : BTreeSet String) (lineup : Lineup) (silenced : BTreeSet String) :
    fitSets (fitSets state sets lineup silenced).1 sets lineup (fitSets state sets lineup silenced).2 =
      fitSets state sets lineup silenced := by
  apply fit_ext
  · exact fitSets_inputs _ _ _ _
  · intro set
    rw [onSet_fitSets _ _ _ (fitSets state sets lineup silenced).2, onSet_fitSets state]
    by_cases member : set ∈ sets
    · rw [if_pos member, if_pos member]
      exact fitted_again lineup set _
    · rw [if_neg member, if_neg member]

/-- `mix` and `after` differ in the mutes of their output and of the mixes they hear only. -/
structure MutesOnly (mix after : Mix) : Prop where
  inputs : after.inputs = mix.inputs
  groups : after.groups = mix.groups
  out : { after.out with muted := mix.out.muted } = mix.out
  mixes : ∀ heard : MixId, after.mixes[heard]?.map (fun level : Level => { level with muted := true }) =
    mix.mixes[heard]?.map fun level : Level => { level with muted := true }

/-- What the rules make of a mix: `on` tells whether its set is on the record. -/
structure FitsMix (lineup : Lineup) (set : String) (on : Bool) (mix after : Mix) : Prop where
  only : MutesOnly mix after
  muted : after.out.muted = ((lineup.personOn set).isNone || (!on && mix.out.muted))
  alone : ∀ person, lineup.personOn set = some person → lineup.leads person = false →
    ∀ (heard : MixId) (level : Level), after.mixes[heard]? = some level → level.muted = true
  heard : (∀ person, lineup.personOn set = some person → lineup.leads person = true) → after.mixes = mix.mixes

theorem fitted_mix (lineup : Lineup) (set : String) (mix : Mix) (on : Bool) :
    ∃ after, (fitted lineup set (some mix, on)).1 = some after ∧ FitsMix lineup set on mix after := by
  unfold fitted
  cases worn : lineup.personOn set with
  | none =>
    refine ⟨_, rfl, ⟨rfl, rfl, rfl, fun _ => rfl⟩, by rw [worn]; rfl, fun person other => ?_, fun _ => rfl⟩
    cases worn.symm.trans other
  | some person =>
    have muted : (if on = true then { mix with out := { mix.out with muted := false } } else mix) =
        { mix with out := { mix.out with muted := !on && mix.out.muted } } := by cases on <;> rfl
    simp only
    rw [muted]
    cases leads : lineup.leads person with
    | true =>
      refine ⟨_, rfl, ⟨rfl, rfl, rfl, fun _ => rfl⟩, by rw [worn]; rfl, fun other wears follows => ?_,
        fun _ => rfl⟩
      obtain rfl := Option.some.inj (worn.symm.trans wears)
      rw [leads] at follows
      cases follows
    | false =>
      refine ⟨_, rfl, ⟨rfl, rfl, rfl, fun heard => ?_⟩, by rw [worn]; rfl, fun _ _ _ heard level held => ?_,
        fun leaders => ?_⟩
      · simp only [if_false, Std.ExtTreeMap.getElem?_map, Option.map_map, Bool.false_eq_true]
        rfl
      · simp only [if_false, Std.ExtTreeMap.getElem?_map, Bool.false_eq_true] at held
        obtain ⟨before, -, rfl⟩ := Option.map_eq_some_iff.mp held
        rfl
      · rw [leaders person worn] at leads
        cases leads

theorem fitSets_listed {state : MixState} {sets : BTreeSet String} {set : String} {mix : Mix} (member : set ∈ sets)
    (held : state.mixes[set]? = some mix) (lineup : Lineup) (silenced : BTreeSet String) :
    ∃ after, (fitSets state sets lineup silenced).1.mixes[set]? = some after ∧
      FitsMix lineup set (decide (set ∈ silenced)) mix after := by
  obtain ⟨after, made, fits⟩ := fitted_mix lineup set mix (decide (set ∈ silenced))
  have there := onSet_fitSets state sets lineup silenced set
  rw [if_pos member, onSet, onSet, held] at there
  exact ⟨after, (congrArg Prod.fst there).trans made, fits⟩

theorem fitSets_missing {state : MixState} {set : String} (held : state.mixes[set]? = none) (sets : BTreeSet String)
    (lineup : Lineup) (silenced : BTreeSet String) :
    (fitSets state sets lineup silenced).1.mixes[set]? = none := by
  have there := congrArg Prod.fst (onSet_fitSets state sets lineup silenced set)
  unfold onSet at there
  rw [held] at there
  exact there.trans (by split <;> rfl)

/-- `fit` is `state` under `lineup`'s rules on `sets`, with the record they leave of `silenced`,
and nothing else changed. -/
structure Fits (state : MixState) (sets : BTreeSet String) (lineup : Lineup) (silenced : BTreeSet String)
    (fit : MixState × BTreeSet String) : Prop where
  inputs : fit.1.inputs = state.inputs
  unlisted : ∀ set, set ∉ sets → fit.1.mixes[set]? = state.mixes[set]? ∧ (set ∈ fit.2 ↔ set ∈ silenced)
  listed : ∀ set ∈ sets, Option.Rel MutesOnly state.mixes[set]? fit.1.mixes[set]?
  /-- A listed set nobody wears is silent. -/
  silent : ∀ set ∈ sets, lineup.personOn set = none →
    ∀ mix, fit.1.mixes[set]? = some mix → mix.out.muted = true
  /-- Only a leader hears another mix. -/
  alone : ∀ set ∈ sets, ∀ person, lineup.personOn set = some person → lineup.leads person = false →
    ∀ mix, fit.1.mixes[set]? = some mix →
      ∀ (heard : MixId) (level : Level), mix.mixes[heard]? = some level → level.muted = true
  /-- Nobody else's levels of other mixes change. -/
  heard : ∀ set ∈ sets, (∀ person, lineup.personOn set = some person → lineup.leads person = true) →
    ∀ mix after, state.mixes[set]? = some mix → fit.1.mixes[set]? = some after → after.mixes = mix.mixes
  /-- A set that is not on the record stays muted, and one someone wears as it was. -/
  kept : ∀ set ∈ sets, set ∉ silenced → ∀ mix after, state.mixes[set]? = some mix →
    fit.1.mixes[set]? = some after → (mix.out.muted = true → after.out.muted = true) ∧
      ((lineup.personOn set).isSome → after.out.muted = mix.out.muted)

theorem fitSets_fits (state : MixState) (sets : BTreeSet String) (lineup : Lineup) (silenced : BTreeSet String) :
    Fits state sets lineup silenced (fitSets state sets lineup silenced) := by
  have made : ∀ set ∈ sets, ∀ after, (fitSets state sets lineup silenced).1.mixes[set]? = some after →
      ∃ mix, state.mixes[set]? = some mix ∧ FitsMix lineup set (decide (set ∈ silenced)) mix after := by
    intro set member after held
    cases before : state.mixes[set]? with
    | none => cases (fitSets_missing before sets lineup silenced).symm.trans held
    | some mix =>
      obtain ⟨_, there, fits⟩ := fitSets_listed member before lineup silenced
      obtain rfl := Option.some.inj (held.symm.trans there)
      exact ⟨mix, rfl, fits⟩
  constructor
  case inputs => exact fitSets_inputs state sets lineup silenced
  case unlisted =>
    intro set absent
    have there := onSet_fitSets state sets lineup silenced set
    rw [if_neg absent] at there
    exact ⟨congrArg Prod.fst there, decide_eq_decide.mp (congrArg Prod.snd there)⟩
  case listed =>
    intro set member
    cases held : state.mixes[set]? with
    | none =>
      rw [fitSets_missing held]
      exact .none
    | some mix =>
      obtain ⟨after, there, fits⟩ := fitSets_listed member held lineup silenced
      rw [there]
      exact .some fits.only
  case silent =>
    intro set member nobody after held
    obtain ⟨mix, -, fits⟩ := made set member after held
    rw [fits.muted, nobody]
    rfl
  case alone =>
    intro set member person worn follows after held
    obtain ⟨mix, -, fits⟩ := made set member after held
    exact fits.alone person worn follows
  case heard =>
    intro set member leaders mix after before held
    obtain ⟨_, same, fits⟩ := made set member after held
    obtain rfl := Option.some.inj (before.symm.trans same)
    exact fits.heard leaders
  case kept =>
    intro set member clear mix after before held
    obtain ⟨_, same, fits⟩ := made set member after held
    obtain rfl := Option.some.inj (before.symm.trans same)
    rw [fits.muted, decide_eq_false clear]
    constructor
    · intro was
      simp [was]
    · intro worn
      simp [Option.isNone_eq_false_iff.mpr worn]

/-! #### The way back -/

/-- `lineups` fitted one after the other, starting from an empty record. -/
def refit (state : MixState) (sets : BTreeSet String) (lineups : List Lineup) : MixState × BTreeSet String :=
  lineups.foldl (fun fit lineup => fitSets fit.1 sets lineup fit.2) (state, ∅)

/-- What there is of a set whose mix was `before`: on the record it is muted and was not, off
it it is as it was. -/
def Remembers (before : Option Mix) (held : Option Mix × Bool) : Prop :=
  Option.Rel (fun mix now => if held.2 then mix.out.muted = false else now.out.muted = mix.out.muted) before held.1

theorem fitted_record (lineup : Lineup) (set : String) (mix : Mix) (on : Bool) :
    (fitted lineup set (some mix, on)).2 = ((lineup.personOn set).isNone && (on || !mix.out.muted)) := by
  unfold fitted
  cases lineup.personOn set <;> rfl

theorem fitted_remembers {before : Option Mix} {held : Option Mix × Bool} (remembers : Remembers before held)
    (lineup : Lineup) (set : String) : Remembers before (fitted lineup set held) := by
  obtain ⟨there, on⟩ := held
  cases remembers with
  | none => exact .none
  | some was =>
    rename_i mix now
    obtain ⟨after, made, fits⟩ := fitted_mix lineup set now on
    unfold Remembers
    rw [made, fitted_record]
    apply Option.Rel.some
    have muted := fits.muted
    cases worn : lineup.personOn set with
    | none =>
      rw [worn] at muted
      cases on with
      | true => exact was
      | false =>
        have same : now.out.muted = mix.out.muted := was
        cases off : now.out.muted with
        | true => exact muted.trans (off.symm.trans same)
        | false => exact same.symm.trans off
    | some person =>
      rw [worn] at muted
      cases on with
      | true => exact muted.trans (Eq.symm was)
      | false => exact muted.trans was

/-- A fit after any run of fits. -/
theorem refit_concat (state : MixState) (sets : BTreeSet String) (lineups : List Lineup) (lineup : Lineup) :
    refit state sets (lineups ++ [lineup]) =
      fitSets (refit state sets lineups).1 sets lineup (refit state sets lineups).2 := by
  unfold refit
  rw [List.foldl_concat]

theorem refit_remembers (state : MixState) (sets : BTreeSet String) (lineups : List Lineup) (set : String) :
    Remembers state.mixes[set]? (onSet (refit state sets lineups) set) ∧
      (set ∉ sets → onSet (refit state sets lineups) set = onSet (state, ∅) set) := by
  induction lineups using List.reverseRecOn with
  | nil =>
    constructor
    · unfold Remembers onSet
      cases held : state.mixes[set]? with
      | none => simp [refit, held]
      | some mix => simp [refit, held]
    · exact fun _ => rfl
  | append_singleton lineups lineup ih =>
    obtain ⟨remembers, unlisted⟩ := ih
    rw [refit_concat, onSet_fitSets]
    by_cases member : set ∈ sets
    · rw [if_pos member]
      exact ⟨fitted_remembers remembers lineup set, fun absent => absurd member absent⟩
    · rw [if_neg member]
      exact ⟨remembers, unlisted⟩

/-- Worn, a set has its own output mute back. -/
theorem fitted_worn {before : Option Mix} {held : Option Mix × Bool} (remembers : Remembers before held)
    {lineup : Lineup} {set : String} (worn : (lineup.personOn set).isSome) :
    (fitted lineup set held).1.map (·.out.muted) = before.map (·.out.muted) := by
  obtain ⟨there, on⟩ := held
  cases remembers with
  | none => rfl
  | some was =>
    rename_i mix now
    obtain ⟨after, made, fits⟩ := fitted_mix lineup set now on
    have muted := fits.muted
    rw [Option.isNone_eq_false_iff.mpr worn, Bool.false_or] at muted
    rw [made]
    cases on with
    | true => exact congrArg some (muted.trans (Eq.symm was))
    | false => exact congrArg some (muted.trans was)

theorem refit_worn (state : MixState) (sets : BTreeSet String) (lineups : List Lineup) {lineup : Lineup}
    {set : String} (worn : (lineup.personOn set).isSome) :
    (refit state sets (lineups ++ [lineup])).1.mixes[set]?.map (·.out.muted) =
      state.mixes[set]?.map (·.out.muted) := by
  obtain ⟨remembers, unlisted⟩ := refit_remembers state sets lineups set
  have there := congrArg Prod.fst
    (onSet_fitSets (refit state sets lineups).1 sets lineup (refit state sets lineups).2 set)
  rw [← refit_concat] at there
  refine (congrArg (Option.map (·.out.muted)) there).trans ?_
  by_cases member : set ∈ sets
  · rw [if_pos member]
    exact fitted_worn remembers worn
  · rw [if_neg member]
    exact congrArg (fun held => held.1.map (·.out.muted)) (unlisted member)

/-- The rules do what they say and nothing else, find nothing to do the second time, and over any
run of lineups from an empty record give a set its own output mute back while someone wears it. -/
theorem fitSets_reversible (state : MixState) (sets : BTreeSet String) (lineup : Lineup)
    (silenced : BTreeSet String) :
    Fits state sets lineup silenced (fitSets state sets lineup silenced) ∧
      fitSets (fitSets state sets lineup silenced).1 sets lineup (fitSets state sets lineup silenced).2 =
        fitSets state sets lineup silenced ∧
      ∀ (lineups : List Lineup) (set : String), (lineup.personOn set).isSome →
        (refit state sets (lineups ++ [lineup])).1.mixes[set]?.map (·.out.muted) =
          state.mixes[set]?.map (·.out.muted) := by
  constructor
  · exact fitSets_fits state sets lineup silenced
  constructor
  · exact fitSets_again state sets lineup silenced
  · intro lineups set worn
    exact refit_worn state sets lineups worn

/-! ### Completion and shape -/

/-- A completed mix: the backup's filled up, or the running one. -/
theorem keepRunning_mix (backup current : MixState) (set : String) : (keepRunning backup current).mixes[set]? =
    (current.mixes[set]?.map fun mix => keepMix (backup.mixes[set]?.getD mix) mix).or backup.mixes[set]? := by
  have other : ∀ (s : BTreeMap MixId Mix) (p : MixId × Mix) (k : MixId), p.1 ≠ k →
      (s.update p.1 p.2 fun mix => keepMix mix p.2)[k]? = s[k]? :=
    fun s p k apart => (BTreeMap.getElem?_insert_eq _ _ _ _).trans (if_neg apart)
  have self : ∀ (s : BTreeMap MixId Mix) (p : MixId × Mix),
      (s.update p.1 p.2 fun mix => keepMix mix p.2)[p.1]? = some (keepMix (s[p.1]?.getD p.2) p.2) :=
    fun s p => (BTreeMap.getElem?_insert_eq _ _ _ _).trans (if_pos rfl)
  have apart := BTreeMap.nodup_keys_toList current.mixes
  unfold keepRunning
  simp only
  cases held : current.mixes[set]? with
  | none =>
    have absent : set ∉ current.mixes.toList.map Prod.fst := by
      intro member
      obtain ⟨⟨k, mix⟩, inside, rfl⟩ := List.mem_map.mp member
      rw [Std.ExtTreeMap.mem_toList_iff_getElem?_eq_some.mp inside] at held
      cases held
    rw [foldl_elsewhere Prod.fst (fun (s : BTreeMap MixId Mix) k => s[k]?) other absent, Option.map_none,
      Option.none_or]
  | some mix =>
    have inside := Std.ExtTreeMap.mem_toList_iff_getElem?_eq_some.mpr held
    have there := foldl_there Prod.fst (fun (s : BTreeMap MixId Mix) k => s[k]?)
      (fun p v => some (keepMix (v.getD p.2) p.2)) other self apart inside backup.mixes
    simp only at there
    rw [there, Option.map_some, Option.some_or]

theorem keepMix_level (mix cur : Mix) (source : Source) :
    (keepMix mix cur).level source = (mix.level source).or (cur.level source) := by
  cases source <;> exact Std.ExtTreeMap.getElem?_union

theorem keepMix_group (mix cur : Mix) (group : GroupId) :
    (keepMix mix cur).groups[group]? = (mix.groups[group]?).or (cur.groups[group]?) :=
  Std.ExtTreeMap.getElem?_union

end IemMixer.Server
