import IemMixer.Proto.Shape

/-! Values in their documented ranges: what every cap returns, and what every cap
leaves as it is. -/
namespace IemMixer.Proto
open Lib

/-- A finite value from `lo` to `hi`. -/
def Range.holds (r : Range) (v : F64) : Prop := v.within r.lo r.hi = true

/-- Finite bounds in order. -/
def Range.Proper (r : Range) : Prop :=
  r.lo.isFinite = true ∧ r.hi.isFinite = true ∧ r.hi.lt r.lo = false

instance (r : Range) (v : F64) : Decidable (r.holds v) := inferInstanceAs (Decidable (_ = _))
instance (r : Range) : Decidable r.Proper := inferInstanceAs (Decidable (_ ∧ _ ∧ _))

theorem cap_holds {v v' : F64} {r : Range} (proper : r.Proper) (capped : cap v r = some v') :
    r.holds v' := by
  unfold cap at capped
  split at capped
  · rename_i finite
    cases capped
    exact F64.within_clamp finite proper.1 proper.2.1 proper.2.2
  · cases capped

theorem cap_of_holds {v : F64} {r : Range} (inside : r.holds v) : cap v r = some v := by
  have finite := F64.finite_of_within inside
  have same := F64.clamp_of_within inside
  simp [cap, finite, same]

theorem fix_holds {v default : F64} {r : Range} (proper : r.Proper) (fallback : r.holds default) :
    r.holds (fix v r default) := by
  unfold fix
  cases capped : cap v r with
  | none => exact fallback
  | some v' => exact cap_holds proper capped

theorem fix_of_holds {v default : F64} {r : Range} (inside : r.holds v) : fix v r default = v := by
  simp [fix, cap_of_holds inside]

namespace Range

/-- Every range's bounds are finite and in order. -/
theorem all_proper : trimDb.Proper ∧ faderDb.Proper ∧ pan.Proper ∧ eqFreq.Proper ∧ eqGainDb.Proper ∧ eqBw.Proper ∧
    limitDb.Proper := by decide +kernel

theorem trimDb_proper : trimDb.Proper := all_proper.1
theorem faderDb_proper : faderDb.Proper := all_proper.2.1
theorem pan_proper : pan.Proper := all_proper.2.2.1
theorem eqFreq_proper : eqFreq.Proper := all_proper.2.2.2.1
theorem eqGainDb_proper : eqGainDb.Proper := all_proper.2.2.2.2.1
theorem eqBw_proper : eqBw.Proper := all_proper.2.2.2.2.2.1
theorem limitDb_proper : limitDb.Proper := all_proper.2.2.2.2.2.2

/-- What replaces a value that is not finite lies in its range. -/
theorem fallbacks_hold : trimDb.holds (.fin 0) ∧ faderDb.holds (.fin 0) ∧ faderDb.holds dbOff ∧ pan.holds (.fin 0) ∧
    eqGainDb.holds (.fin 0) ∧ limitDb.holds limitDb.lo := by decide +kernel

/-- Every default band, alone and of an EQ, lies in its ranges. -/
theorem bands_hold : ∀ b ∈ ({} : EqBand) :: defaultBands.toList,
    eqFreq.holds b.freqHz ∧ eqGainDb.holds b.gainDb ∧ eqBw.holds b.bwOct := by decide +kernel

end Range

structure EqBand.Ok (b : EqBand) : Prop where
  freqHz : Range.eqFreq.holds b.freqHz
  gainDb : Range.eqGainDb.holds b.gainDb
  bwOct : Range.eqBw.holds b.bwOct

structure EqState.Ok (e : EqState) : Prop where
  gainDb : Range.eqGainDb.holds e.gainDb
  bands : ∀ b ∈ e.bands, b.Ok

structure InputState.Ok (s : InputState) : Prop where
  trimDb : Range.trimDb.holds s.trimDb
  eq : s.eq.Ok

structure Level.Ok (s : Level) : Prop where
  gainDb : Range.faderDb.holds s.gainDb
  pan : Range.pan.holds s.pan

structure MixGroup.Ok (s : MixGroup) : Prop where
  gainDb : Range.faderDb.holds s.gainDb
  eq : s.eq.Ok

structure MixOut.Ok (s : MixOut) : Prop where
  volumeDb : Range.faderDb.holds s.volumeDb
  eq : s.eq.Ok
  limitDb : Range.limitDb.holds s.limiter.limitDb

/-- Every value of the state lies in its documented range. -/
structure MixState.Ok (s : MixState) : Prop where
  inputs : ∀ (id : InputId) (x : InputState), s.inputs[id]? = some x → x.Ok
  outs : ∀ (id : MixId) (x : Mix), s.mixes[id]? = some x → x.out.Ok
  levels : ∀ (id : MixId) (x : Mix), s.mixes[id]? = some x →
    ∀ source level, x.level source = some level → level.Ok
  groups : ∀ (id : MixId) (x : Mix), s.mixes[id]? = some x →
    ∀ (g : GroupId) (strip : MixGroup), x.groups[g]? = some strip → strip.Ok

theorem capBand_ok (b : EqBand) : (capBand b).Ok :=
  let ⟨freqHz, gainDb, bwOct⟩ := Range.bands_hold {} List.mem_cons_self
  ⟨fix_holds Range.eqFreq_proper freqHz, fix_holds Range.eqGainDb_proper gainDb, fix_holds Range.eqBw_proper bwOct⟩

theorem capEq_ok (e : EqState) : (capEq e).Ok where
  gainDb := fix_holds Range.eqGainDb_proper Range.fallbacks_hold.2.2.2.2.1
  bands := by
    intro b member
    obtain ⟨old, -, rfl⟩ := Vector.mem_map.mp member
    exact capBand_ok old

theorem capInput_ok (s : InputState) : (capInput s).Ok where
  trimDb := fix_holds Range.trimDb_proper Range.fallbacks_hold.1
  eq := capEq_ok s.eq

theorem capLevel_ok (s : Level) : (capLevel s).Ok where
  gainDb := fix_holds Range.faderDb_proper Range.fallbacks_hold.2.2.1
  pan := fix_holds Range.pan_proper Range.fallbacks_hold.2.2.2.1

theorem capGroup_ok (s : MixGroup) : (capGroup s).Ok where
  gainDb := fix_holds Range.faderDb_proper Range.fallbacks_hold.2.1
  eq := capEq_ok s.eq

theorem capOut_ok (s : MixOut) : (capOut s).Ok where
  volumeDb := fix_holds Range.faderDb_proper Range.fallbacks_hold.2.1
  eq := capEq_ok s.eq
  limitDb := fix_holds Range.limitDb_proper Range.fallbacks_hold.2.2.2.2.2

theorem capBand_of_ok {b : EqBand} (ok : b.Ok) : capBand b = b := by
  simp [capBand, fix_of_holds ok.freqHz, fix_of_holds ok.gainDb, fix_of_holds ok.bwOct]

theorem capEq_of_ok {e : EqState} (ok : e.Ok) : capEq e = e := by
  have bands : e.bands.map capBand = e.bands := by
    apply Vector.ext
    intro i bound
    rw [Vector.getElem_map]
    exact capBand_of_ok (ok.bands _ (Vector.getElem_mem bound))
  simp [capEq, fix_of_holds ok.gainDb, bands]

theorem capInput_of_ok {s : InputState} (ok : s.Ok) : capInput s = s := by
  simp [capInput, fix_of_holds ok.trimDb, capEq_of_ok ok.eq]

theorem capLevel_of_ok {s : Level} (ok : s.Ok) : capLevel s = s := by
  simp [capLevel, fix_of_holds ok.gainDb, fix_of_holds ok.pan]

theorem capGroup_of_ok {s : MixGroup} (ok : s.Ok) : capGroup s = s := by
  simp [capGroup, fix_of_holds ok.gainDb, capEq_of_ok ok.eq]

theorem capOut_of_ok {s : MixOut} (ok : s.Ok) : capOut s = s := by
  simp [capOut, fix_of_holds ok.volumeDb, fix_of_holds ok.limitDb, capEq_of_ok ok.eq]

/-! Every default lies in its own range. -/

theorem eq_default_ok : ({} : EqState).Ok where
  gainDb := Range.fallbacks_hold.2.2.2.2.1
  bands := by
    intro b member
    obtain ⟨freqHz, gainDb, bwOct⟩ := Range.bands_hold b (List.mem_cons_of_mem _ (Vector.mem_toList_iff.mpr member))
    exact ⟨freqHz, gainDb, bwOct⟩

theorem input_default_ok : ({} : InputState).Ok := ⟨Range.fallbacks_hold.1, eq_default_ok⟩
theorem level_default_ok : ({} : Level).Ok := ⟨Range.fallbacks_hold.2.2.1, Range.fallbacks_hold.2.2.2.1⟩
theorem group_default_ok : ({} : MixGroup).Ok := ⟨Range.fallbacks_hold.2.1, eq_default_ok⟩
theorem out_default_ok : ({} : MixOut).Ok :=
  ⟨Range.fallbacks_hold.2.1, eq_default_ok, Range.fallbacks_hold.2.2.2.2.2⟩

end IemMixer.Proto
