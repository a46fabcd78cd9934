import IemMixer.Proto.ReconcileProofs

/-! What compares equal (`peq`): symmetric, and of every shaped state itself, whose values are all
finite. -/
namespace IemMixer.Proto
open Lib

theorem EqBand.peq_comm (a b : EqBand) : a.peq b = b.peq a := by
  simp only [EqBand.peq, F64.peq_comm a.freqHz, F64.peq_comm a.gainDb, F64.peq_comm a.bwOct,
    Bool.beq_comm (a := a.enabled), BEq.comm (a := a.kind)]

theorem EqState.peq_comm (a b : EqState) : a.peq b = b.peq a := by
  have swap : ∀ (xs ys : List EqBand), ((xs.zip ys).all fun p => p.1.peq p.2) = (ys.zip xs).all fun p => p.1.peq p.2 := by
    intro xs
    induction xs with
    | nil => simp
    | cons x xs ih =>
      intro ys
      cases ys with
      | nil => simp
      | cons y ys => simp only [List.zip_cons_cons, List.all_cons, ih ys, EqBand.peq_comm x y]
  simp only [EqState.peq, F64.peq_comm a.gainDb, swap a.bands.toList]

theorem Level.peq_comm (a b : Level) : a.peq b = b.peq a := by
  simp only [Level.peq, F64.peq_comm a.gainDb, F64.peq_comm a.pan, Bool.beq_comm (a := a.muted)]

theorem MixGroup.peq_comm (a b : MixGroup) : a.peq b = b.peq a := by
  simp only [MixGroup.peq, F64.peq_comm a.gainDb, Bool.beq_comm (a := a.muted), EqState.peq_comm a.eq]

theorem InputState.peq_comm (a b : InputState) : a.peq b = b.peq a := by
  simp only [InputState.peq, F64.peq_comm a.trimDb, Bool.beq_comm (a := a.muted), Bool.beq_comm (a := a.processing),
    EqState.peq_comm a.eq]

theorem MixOut.peq_comm (a b : MixOut) : a.peq b = b.peq a := by
  simp only [MixOut.peq, Limiter.peq, F64.peq_comm a.volumeDb, Bool.beq_comm (a := a.muted), EqState.peq_comm a.eq,
    Bool.beq_comm (a := a.limiter.enabled), F64.peq_comm a.limiter.limitDb]

theorem Mix.peq_comm (a b : Mix) : a.peq b = b.peq a := by
  simp only [Mix.peq, MixOut.peq_comm a.out, BTreeMap.peq_comm Level.peq_comm a.inputs,
    BTreeMap.peq_comm MixGroup.peq_comm a.groups, BTreeMap.peq_comm Level.peq_comm a.mixes]

theorem MixState.peq_comm (a b : MixState) : a.peq b = b.peq a := by
  simp only [MixState.peq, BTreeMap.peq_comm InputState.peq_comm a.inputs, BTreeMap.peq_comm Mix.peq_comm a.mixes]

theorem Range.peq_self {r : Range} {v : F64} (inside : r.holds v) : v.peq v = true :=
  F64.peq_self (F64.finite_of_within inside)

theorem EqState.peq_self {e : EqState} (ok : e.Ok) : e.peq e = true := by
  have bands : ∀ xs : List EqBand, (∀ b ∈ xs, b.Ok) → ((xs.zip xs).all fun p => p.1.peq p.2) = true := by
    intro xs ok
    rw [List.all_eq_true]
    intro p member
    obtain ⟨same, inside⟩ : p.1 = p.2 ∧ p.1 ∈ xs := by
      rw [List.zip_eq_zipWith, List.zipWith_self, List.mem_map] at member
      obtain ⟨b, inside, rfl⟩ := member
      exact ⟨rfl, inside⟩
    have band := ok _ inside
    rw [← same]
    simp [EqBand.peq, Range.peq_self band.freqHz, Range.peq_self band.gainDb, Range.peq_self band.bwOct]
  simp [EqState.peq, Range.peq_self ok.gainDb, bands e.bands.toList fun b member => ok.bands b (Vector.mem_toList_iff.mp member)]

theorem Level.peq_self {l : Level} (ok : l.Ok) : l.peq l = true := by
  simp [Level.peq, Range.peq_self ok.gainDb, Range.peq_self ok.pan]

theorem MixGroup.peq_self {g : MixGroup} (ok : g.Ok) : g.peq g = true := by
  simp [MixGroup.peq, Range.peq_self ok.gainDb, EqState.peq_self ok.eq]

theorem InputState.peq_self {s : InputState} (ok : s.Ok) : s.peq s = true := by
  simp [InputState.peq, Range.peq_self ok.trimDb, EqState.peq_self ok.eq]

theorem MixOut.peq_self {s : MixOut} (ok : s.Ok) : s.peq s = true := by
  simp [MixOut.peq, Limiter.peq, Range.peq_self ok.volumeDb, EqState.peq_self ok.eq, Range.peq_self ok.limitDb]

theorem MixState.peq_self {s : MixState} (ok : s.Ok) : s.peq s = true := by
  simp only [MixState.peq, Bool.and_eq_true]
  refine ⟨BTreeMap.peq_self fun id x held => InputState.peq_self (ok.inputs id x held),
    BTreeMap.peq_self fun id x held => ?_⟩
  simp only [Mix.peq, Bool.and_eq_true]
  exact ⟨⟨⟨MixOut.peq_self (ok.outs id x held),
    BTreeMap.peq_self fun i l there => Level.peq_self (ok.levels id x held (.input i) l there)⟩,
    BTreeMap.peq_self fun g l there => MixGroup.peq_self (ok.groups id x held g l there)⟩,
    BTreeMap.peq_self fun m l there => Level.peq_self (ok.levels id x held (.mix m) l there)⟩

/-- The output's mute, and those of the mixes heard, of two mixes that compare equal. -/
theorem Mix.muted_of_peq {a b : Mix} (same : a.peq b = true) : a.out.muted = b.out.muted ∧
    ∀ id : MixId, (a.mixes[id]?).map (·.muted) = (b.mixes[id]?).map (·.muted) := by
  simp only [Mix.peq, Bool.and_eq_true] at same
  obtain ⟨⟨⟨out, -⟩, -⟩, heard⟩ := same
  simp only [MixOut.peq, Bool.and_eq_true, beq_iff_eq] at out
  refine ⟨out.1.1.2, fun id => ?_⟩
  have here := BTreeMap.peq_iff.mp heard id
  cases held : a.mixes[id]? with
  | none =>
    rw [held] at here
    cases found : b.mixes[id]? with
    | none => rfl
    | some w => rw [found] at here; cases here
  | some v =>
    rw [held] at here
    cases found : b.mixes[id]? with
    | none => rw [found] at here; cases here
    | some w =>
      rw [found] at here
      cases here with
      | some equal =>
        simp only [Level.peq, Bool.and_eq_true, beq_iff_eq] at equal
        exact congrArg some equal.2

section
variable {topo : TopologyInfo} {state : MixState}

/-- A shaped state's values are in their ranges. -/
theorem ok_of_shaped (shaped : (reconcile topo state).1 = state) : state.Ok := by
  have mix : ∀ (id : MixId) (x : Mix), state.mixes[id]? = some x → ∃ node given, x = shapeMix topo node given := by
    intro id x held
    rw [← shaped, reconcile_mix] at held
    obtain ⟨node, -, rfl⟩ := Option.map_eq_some_iff.mp held
    exact ⟨node, _, rfl⟩
  have capped : ∀ {α : Type} {Ok : α → Prop} {cap : α → α} {default x : α} (given : Option α),
      (∀ x, Ok (cap x)) → Ok default → x = (given.map cap).getD default → Ok x := by
    intro α Ok cap default x given caps fallback same
    subst same
    cases given with
    | none => exact fallback
    | some x => exact caps x
  constructor
  case inputs =>
    intro id x held
    rw [← shaped, reconcile_input] at held
    split at held
    · exact capped _ capInput_ok input_default_ok (Option.some.inj held).symm
    · cases held
  case outs =>
    intro id x held
    obtain ⟨node, given, rfl⟩ := mix id x held
    exact capped (given.map (·.out)) capOut_ok out_default_ok (by simp [shapeMix, Function.comp_def])
  case levels =>
    intro id x held source level there
    obtain ⟨node, given, rfl⟩ := mix id x held
    rw [shapeMix_level] at there
    split at there
    · exact capped _ capLevel_ok level_default_ok (Option.some.inj there).symm
    · cases there
  case groups =>
    intro id x held g strip there
    obtain ⟨node, given, rfl⟩ := mix id x held
    rw [shapeMix_group] at there
    split at there
    · exact capped _ capGroup_ok group_default_ok (Option.some.inj there).symm
    · cases there

end

end IemMixer.Proto
