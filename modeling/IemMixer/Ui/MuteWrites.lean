import IemMixer.Core.SoloWrites
import IemMixer.MirrorProofs
import IemMixer.Ui.PhoneProofs

/-! What a page's requests make of its mix in the engine: a mute click of one own mute, a solo
click of the solo, and any other request of neither. -/
namespace IemMixer.Ui
open Lib Proto TopologyProofs IemMixer.Core MirrorProofs

/-- A level's own mute. -/
def ownMute (st : MixState) (mix : MixId) (x : Source) : Bool := ((st.mixes[mix]?.bind (·.level x)).getD {}).muted

/-- Whether a change is of the mix's solo. -/
def ofSolo (mix : MixId) : Change → Bool
  | .solo m _ => m == mix
  | _ => false

/-- Whether a change is of the mix's levels or solo. -/
def ofMutes (mix : MixId) : Change → Bool
  | .level m _ _ => m == mix
  | .solo m _ => m == mix
  | _ => false

section
variable {m : Mirror} {mix : MixId} {x : Source} {changes : List Change}

theorem own_level (m : Mirror) (mix : MixId) (x : Source) : ownMute m.state mix x = (m.level mix x).muted := rfl

/-- Levels written with one mute. -/
theorem own_written {muted : Bool} (told : ∀ c ∈ changes, ∀ l, c = .level mix x l → l.muted = muted)
    (start : ownMute m.state mix x = muted) : ownMute (changes.foldl Mirror.change m).state mix x = muted := by
  induction changes generalizing m with
  | nil => exact start
  | cons c rest ih =>
    rw [List.foldl_cons]
    refine ih (fun c member => told c (List.mem_cons_of_mem _ member)) ?_
    rw [own_level] at start ⊢
    rw [level_change]
    cases c with
    | level y s l =>
      by_cases here : y = mix ∧ s = x
      · simp only [here, and_self, if_true]
        exact told _ List.mem_cons_self l (by rw [here.1, here.2])
      · simp only [here, if_false]
        exact start
    | _ => exact start

theorem soloed_kept (unsolo : ∀ c ∈ changes, ofSolo mix c = false) :
    Soloed (changes.foldl Mirror.change m).transient mix x ↔ Soloed m.transient mix x := by
  induction changes generalizing m with
  | nil => rfl
  | cons c rest ih =>
    rw [List.foldl_cons, ih fun c member => unsolo c (List.mem_cons_of_mem _ member)]
    have first := unsolo c List.mem_cons_self
    cases c with
    | solo y sources =>
      rw [soloed_change_iff, if_neg]
      rintro rfl
      simp [ofSolo] at first
    | level y s l => cases s <;> rfl
    | _ => rfl

/-- The only change of mutes and solos, a solo's. -/
theorem soloed_only {sources : List Source} (only : changes.filter (ofMutes mix) = [.solo mix sources]) :
    Soloed (changes.foldl Mirror.change m).transient mix x ↔ x ∈ sources := by
  induction changes generalizing m with
  | nil => cases only
  | cons c rest ih =>
    rw [List.foldl_cons]
    by_cases of : ofMutes mix c = true
    · rw [List.filter_cons_of_pos of] at only
      obtain ⟨rfl, none⟩ := List.cons.inj only
      have unsolo : ∀ c ∈ rest, ofSolo mix c = false := by
        intro c member
        have apart := List.filter_eq_nil_iff.mp none c member
        cases c <;> simp_all [ofMutes, ofSolo]
      rw [soloed_kept unsolo, soloed_change_iff, if_pos rfl]
    · rw [List.filter_cons_of_neg of] at only
      exact ih only

end

section
variable [Libm] {c : Core}

/-- A mirror that shows the core shows it after the changes said. -/
theorem handled_shown {c' : Core} {out : Outcome} (wf : WellFormed c.topo) (handled : Handled c (some out) c')
    (edits : out.effect ≠ .imported) {m : Mirror} (shows : Shows m c) :
    Shows (out.changes.foldl Mirror.change m) c' := by
  cases handled with
  | @edited changes rt next effect quiet path =>
    exact show Shows _ next from path_shown wf path shows
  | imported state => exact absurd rfl edits

/-- The mirror of a core. -/
def mirrorOf (c : Core) : Mirror := { state := c.state, transient := c.transient }

variable (wf : WellFormed c.topo) (canonical : Canonical c) {mix : MixId} {m : ℕ}
include wf canonical

omit [Libm] in
/-- A core's level as its state has it. -/
theorem own_slot (known : c.topo.mixIndex mix = some m) {x : Source} {k : ℕ} (slot : c.topo.slot m x = some k) :
    ∃ node old, c.topo.mixes[m]? = some node ∧ node.id = mix ∧ c.topo.source m k = some x ∧
      (c.s.mixes[m]?.bind (·.levels[k]?)) = some old ∧ ownMute c.state mix x = old.muted := by
  obtain ⟨node, found, named⟩ := Option.map_eq_some_iff.mp ((mixIndex_iff wf mix m).mp known)
  have read := (source_slot_iff wf found k x).mpr slot
  obtain ⟨bound, -⟩ := List.getElem?_eq_some_iff.mp found
  have held : c.s.mixes[m]? = some (c.s.mixes.get ⟨m, canonical.shaped.mixCount ▸ bound⟩) :=
    List.getElem?_eq_getElem (canonical.shaped.mixCount ▸ bound)
  generalize c.s.mixes.get ⟨m, canonical.shaped.mixCount ▸ bound⟩ = rec at held
  have long : k < rec.levels.length := by
    rw [canonical.shaped.levelCount m rec held]
    exact slot_bound wf found slot
  have there : rec.levels[k]? = some rec.levels[k] := List.getElem?_eq_getElem long
  have mixed : c.state.mixes[mix]? = some (toMix c.topo m rec) :=
    (toState_mix_iff wf c.s mix _).mpr ⟨m, rec, by rw [found, Option.map_some, named], held, rfl⟩
  have level := (toMix_level_iff wf found rec x rec.levels[k]).mpr ⟨k, read, there⟩
  refine ⟨node, rec.levels[k], found, named, read, by simp [held], ?_⟩
  simp [ownMute, mixed, level]

/-- A mute click's request. -/
theorem setMute_handled (known : c.topo.mixIndex mix = some m) {x : Source} {k : ℕ} (slot : c.topo.slot m x = some k)
    (muted : Bool) :
    ∃ out c', c.handle (.request (.setLevel mix x none none (some muted))) = (some out, c') ∧ out.effect = .none ∧
      ((out.changes = [] ∧ ownMute c.state mix x = muted) ∨ ∃ l, out.changes = [.level mix x l] ∧ l.muted = muted) := by
  obtain ⟨node, old, found, named, read, held, own⟩ := own_slot wf canonical known slot
  have level : c.level m k = old := by simp [Core.level, held]
  have ran : one (.setLevel mix x none none (some muted)) c =
      .ok (setLevel m k { old with muted } c).1 (setLevel m k { old with muted } c).2 := by
    unfold one
    rw [get_then, read_then_ok]
    refine ⟨m, by simp [Core.mix, known], ?_⟩
    simp only [slot, level]
    rw [read_then_ok]
    refine ⟨old.gainDb, rfl, ?_⟩
    rw [read_then_ok]
    exact ⟨old.pan, rfl, rfl⟩
  rcases handle_single (rfl : dispatch (.setLevel mix x none none (some muted)) = _) c with
    ⟨e, refused, -⟩ | ⟨p, next, done, handled⟩
  · rw [ran] at refused
    cases refused
  · rw [ran] at done
    cases done
    refine ⟨_, _, handled, ?_⟩
    unfold setLevel
    simp only [found, read, held]
    by_cases same : old.peq { old with muted } = true
    · rw [if_pos same]
      simp only [Level.peq, Bool.and_eq_true, beq_iff_eq] at same
      exact ⟨rfl, .inl ⟨rfl, own.trans same.2⟩⟩
    · rw [if_neg same]
      exact ⟨rfl, .inr ⟨_, by rw [named]; rfl, rfl⟩⟩

omit [Libm] wf canonical in
theorem soloSlots_ok {topo : Topology} {sources : List Source} (mix : MixId) (slots : BTreeSet ℕ)
    (heard : ∀ x ∈ sources, ∃ k, topo.slot m x = some k) : ∃ new, soloSlots topo m mix sources slots = .ok new ∧
      ∀ k, k ∈ new ↔ k ∈ slots ∨ ∃ x ∈ sources, topo.slot m x = some k := by
  induction sources generalizing slots with
  | nil => exact ⟨slots, rfl, by simp⟩
  | cons x rest ih =>
    obtain ⟨k, slot⟩ := heard x List.mem_cons_self
    obtain ⟨new, ok, exactly⟩ := ih (slots.insert k) fun y member => heard y (List.mem_cons_of_mem _ member)
    refine ⟨new, by simp only [soloSlots, slot, ok], fun j => ?_⟩
    rw [exactly, Std.ExtTreeSet.mem_insert, Std.compare_eq_iff_eq]
    simp only [List.mem_cons, exists_eq_or_imp, slot, Option.some.injEq]
    tauto

omit canonical in
/-- A solo click's request. -/
theorem setSolo_handled (known : c.topo.mixIndex mix = some m) {sources : List Source}
    (heard : ∀ x ∈ sources, ∃ k, c.topo.slot m x = some k) (few : sources.length ≤ maxSolo) :
    ∃ out c', c.handle (.request (.setSolo mix sources)) = (some out, c') ∧ out.effect = .none ∧
      ((out.changes = [] ∧ ∀ x, Soloed c.transient mix x ↔ x ∈ sources) ∨
        ∃ list, out.changes = [.solo mix list] ∧ ∀ x, x ∈ list ↔ x ∈ sources) := by
  obtain ⟨node, found, -⟩ := Option.map_eq_some_iff.mp ((mixIndex_iff wf mix m).mp known)
  obtain ⟨new, ok, exactly⟩ := soloSlots_ok mix ∅ heard
  have ran : one (.setSolo mix sources) c = .ok (replaceSolo m mix new c).1 (replaceSolo m mix new c).2 := by
    unfold one
    simp only [setSolo]
    rw [get_then, get_then, read_then_ok]
    refine ⟨m, by simp [Core.mix, known], ?_⟩
    rw [refused_then_ok, read_then_ok]
    exact ⟨not_lt.mpr few, new, ok, rfl⟩
  have listed : ∀ x, x ∈ new.toList.filterMap (c.topo.source m) ↔ x ∈ sources := by
    intro x
    simp only [List.mem_filterMap, Std.ExtTreeSet.mem_toList, exactly, Std.ExtTreeSet.not_mem_empty, false_or]
    constructor
    · rintro ⟨k, ⟨y, member, slot⟩, read⟩
      have same := ((source_slot_iff wf found k y).mpr slot).symm.trans read
      exact Option.some.inj same ▸ member
    · intro member
      obtain ⟨k, slot⟩ := heard x member
      exact ⟨k, ⟨x, member, slot⟩, (source_slot_iff wf found k x).mpr slot⟩
  rcases handle_single (rfl : dispatch (.setSolo mix sources) = _) c with
    ⟨e, refused, -⟩ | ⟨p, next, done, handled⟩
  · rw [ran] at refused
    cases refused
  · rw [ran] at done
    cases done
    refine ⟨_, _, handled, ?_⟩
    by_cases same : c.solo[m]?.getD ∅ = new
    · rw [replaceSolo, if_pos same]
      refine ⟨rfl, .inl ⟨rfl, fun x => (Iff.trans ?_ (listed x))⟩⟩
      rw [← same, soloed_core_iff]
      simp only [List.mem_filterMap, Std.ExtTreeSet.mem_toList]
      have unique : ∀ k, c.mixId k = some mix → k = m := fun k there =>
        Option.some.inj (((mixIndex_iff wf mix k).mpr there).symm.trans known)
      have here : c.mixId m = some mix := (mixIndex_iff wf mix m).mp known
      constructor
      · rintro ⟨j, set, k, held, there, inside, read⟩
        obtain rfl := unique j there
        exact ⟨k, by rw [held]; exact inside, read⟩
      · rintro ⟨k, inside, read⟩
        cases held : c.solo[m]? with
        | none =>
          rw [held] at inside
          exact absurd inside Std.ExtTreeSet.not_mem_empty
        | some set =>
          rw [held] at inside
          exact ⟨m, set, k, held, here, inside, read⟩
    · rw [replaceSolo, if_neg same]
      exact ⟨rfl, .inr ⟨_, rfl, listed⟩⟩

end

/-- A request that writes no level's mute and no solo. -/
def plainCmd : Cmd → Bool
  | .setInput .. | .setMix .. | .setLevel _ _ _ _ none | .setGroup .. | .setEq .. | .setLimiter ..
  | .resetLimiterStats _ => true
  | _ => false

/-- Changes of no level's mute and of no solo. -/
def Keeping (c : Core) (changes : List Change) : Prop := ∀ change ∈ changes, (∀ mix, ofSolo mix change = false) ∧
  ∀ mix x l, change = .level mix x l → l.muted = ownMute c.state mix x

section
variable [Libm] {c : Core}

/-- An edit of neither mutes nor solos, without an effect of its own. -/
def Keeps (c : Core) (p : Partial) : Prop := p.effect = none ∧ Keeping c p.changes

private theorem keeps_input (i : ℕ) (new : InputState) : Keeps c (setInput i new c).1 := by
  rcases setInput_cases i new c with same | ⟨old, node, -, -, same⟩ <;> rw [same] <;>
    simp [Keeps, Keeping, Partial.changed, ofSolo]

private theorem keeps_out (m : ℕ) (new : MixOut) : Keeps c (setOut m new c).1 := by
  rcases setOut_cases m new c with same | ⟨rec, node, -, -, same⟩ <;> rw [same] <;>
    simp [Keeps, Keeping, Partial.changed, ofSolo]

private theorem keeps_group (m g : ℕ) (new : MixGroup) : Keeps c (setGroup m g new c).1 := by
  rcases setGroup_cases m g new c with same | ⟨rec, old, node, group, -, -, -, -, same⟩ <;> rw [same] <;>
    simp [Keeps, Keeping, Partial.changed, ofSolo]

/-- A level written with its mute as it was. -/
private theorem keeps_level (wf : WellFormed c.topo) (canonical : Canonical c) {mix : MixId} {m k : ℕ} {x : Source}
    (known : c.topo.mixIndex mix = some m) (slot : c.topo.slot m x = some k) {new : Level}
    (muted : new.muted = (c.level m k).muted) : Keeps c (setLevel m k new c).1 := by
  obtain ⟨node, old, found, named, read, held, own⟩ := own_slot wf canonical known slot
  have level : c.level m k = old := by simp [Core.level, held]
  rcases setLevel_cases m k new c with same | ⟨rec, old', node', source, -, -, found', read', same⟩
  · rw [same]
    simp [Keeps, Keeping]
  · rw [same]
    obtain rfl := Option.some.inj (found.symm.trans found')
    obtain rfl := Option.some.inj (read.symm.trans read')
    refine ⟨rfl, ?_⟩
    simp only [Keeping, Partial.changed, List.mem_singleton, forall_eq, ofSolo, implies_true, true_and]
    rintro mix' x' l same
    cases same
    rw [muted, level, named, own]

/-- A request of neither mutes nor solos. -/
theorem plain_handled (wf : WellFormed c.topo) (canonical : Canonical c) {cmd : Cmd} (plain : plainCmd cmd = true)
    {out : Outcome} {c' : Core} (handled : c.handle (.request cmd) = (some out, c')) :
    out.effect = .none ∧ Keeping c out.changes := by
  have single : dispatch cmd = one cmd := by cases cmd <;> first | rfl | cases plain
  rcases handle_single single c with ⟨e, -, refused⟩ | ⟨p, next, ran, done⟩
  · rw [refused] at handled
    cases handled
  · rw [done] at handled
    cases handled
    suffices Keeps c p from ⟨by simp [finish, this.1], this.2⟩
    unfold one at ran
    rw [get_then] at ran
    cases cmd with
    | setInput input trimDb muted processing =>
      simp only [read_then_ok] at ran
      obtain ⟨i, -, v, -, ran⟩ := ran
      obtain ⟨rfl, -⟩ := written ran
      exact keeps_input _ _
    | setMix mix volumeDb muted =>
      simp only [read_then_ok] at ran
      obtain ⟨m, -, v, -, ran⟩ := ran
      obtain ⟨rfl, -⟩ := written ran
      exact keeps_out _ _
    | setLevel mix source gainDb pan muted =>
      cases muted with
      | some muted => cases plain
      | none =>
        simp only [read_then_ok] at ran
        obtain ⟨m, named, ran⟩ := ran
        cases slot : c.topo.slot m source with
        | none =>
          rw [slot] at ran
          cases ran
        | some k =>
          rw [slot] at ran
          simp only [read_then_ok] at ran
          obtain ⟨gain, -, pan', -, ran⟩ := ran
          obtain ⟨rfl, -⟩ := written ran
          exact keeps_level wf canonical (mix_named named) slot rfl
    | setGroup mix group gainDb muted =>
      simp only [read_then_ok] at ran
      obtain ⟨m, -, g, -, v, -, ran⟩ := ran
      obtain ⟨rfl, -⟩ := written ran
      exact keeps_group _ _ _
    | setLimiter mix enabled limitDb =>
      simp only [read_then_ok] at ran
      obtain ⟨m, -, v, -, ran⟩ := ran
      obtain ⟨rfl, -⟩ := written ran
      exact keeps_out _ _
    | resetLimiterStats mix =>
      simp only [read_then_ok] at ran
      obtain ⟨m, -, ran⟩ := ran
      cases ran
      simp [Keeps, Keeping, Partial.changed, ofSolo]
    | setEq target eq =>
      rw [refused_then_ok] at ran
      obtain ⟨-, ran⟩ := ran
      cases target with
      | input id =>
        simp only [read_then_ok] at ran
        obtain ⟨i, -, ran⟩ := ran
        obtain ⟨rfl, -⟩ := written ran
        exact keeps_input _ _
      | mix id =>
        simp only [read_then_ok] at ran
        obtain ⟨m, -, ran⟩ := ran
        obtain ⟨rfl, -⟩ := written ran
        exact keeps_out _ _
      | group mix id =>
        simp only [read_then_ok] at ran
        obtain ⟨m, -, g, -, ran⟩ := ran
        obtain ⟨rfl, -⟩ := written ran
        exact keeps_group _ _ _
    | _ => cases plain

end

end IemMixer.Ui
