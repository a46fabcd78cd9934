import IemMixer.Core.Frame

/-! The listen taps: only requests that say so set them or take them off, and each does so with
one tap of its mix. -/
namespace IemMixer.Core
open Lib Proto TopologyProofs

/-- Sets a tap or takes it off. -/
def listens : Cmd → Bool
  | .startListen _ | .stopListen _ => true
  | _ => false

/-- Leaves the taps alone. -/
def Event.quiet (event : Event) : Bool := event.all fun cmd => !listens cmd

/-- The same topology, the same taps. -/
def SameTaps (c c' : Core) : Prop := c'.topo = c.topo ∧ c'.listen = c.listen

theorem SameTaps.refl (c : Core) : SameTaps c c := ⟨rfl, rfl⟩

theorem SameTaps.trans {c c' c'' : Core} (first : SameTaps c c') (next : SameTaps c' c'') : SameTaps c c'' :=
  ⟨next.1.trans first.1, next.2.trans first.2⟩

variable [Libm]

private theorem sameTaps_bears : Bears SameTaps := bears_of .refl .trans fun _ _ _ _ _ => ⟨rfl, rfl⟩

omit [Libm] in
private theorem finish_taps (p : Partial) (c : Core) : SameTaps c (finish p c).2 :=
  Bears.finish (fun _ _ => ⟨rfl, rfl⟩) p c

private theorem clearSolos_taps (c : Core) : SameTaps c c.clearSolos.2 := by
  have each : ∀ (keys : List ℕ) (acc : Partial × Core), SameTaps acc.2 (keys.foldl clearSolo acc).2 := by
    intro keys acc
    induction keys generalizing acc with
    | nil => exact .refl _
    | cons m rest ih => exact SameTaps.trans ⟨rfl, rfl⟩ (ih (clearSolo acc m))
  exact (each c.solo.keys ({}, c)).trans (finish_taps _ _)

private theorem setSolo_taps (mix : MixId) (sources : List Source) : Within SameTaps (one (.setSolo mix sources)) := by
  refine within_bind keeps_get fun self => ?_
  refine within_bind keeps_get fun self => ?_
  refine within_bind (keeps_lift _) fun m => ?_
  refine within_ite (within_throw _) ?_
  refine within_bind (keeps_lift _) fun new => within_modifyGet fun c => ?_
  rcases replaceSolo_cases m mix new c with same | same <;> rw [same] <;> exact ⟨rfl, rfl⟩

/-- An event that is not about listening leaves the taps alone. -/
theorem handle_taps {event : Event} (quiet : event.quiet = true) (c : Core) : SameTaps c (c.handle event).2 := by
  refine sameTaps_bears.handle (fun cmd silent => ?_) clearSolos_taps quiet c
  refine sameTaps_bears.one (fun mix sources same => same ▸ setSolo_taps mix sources) ?_ ?_
  · rintro mix rfl
    cases silent
  · rintro mix rfl
    cases silent

/-- The mix is tapped. -/
def Taps (c : Core) (mix : MixId) : Prop :=
  ∃ m, c.topo.mixIndex mix = some m ∧ ∃ slot : Fin 2, c.listen.get slot = some m

instance (c : Core) (mix : MixId) : Decidable (c.Taps mix) :=
  decidable_of_iff (∃ m ∈ c.topo.mixIndex mix, ∃ slot : Fin 2, c.listen.get slot = some m) (by simp [Taps])

/-- Every tap is in its mix's slot. -/
def Placed (c : Core) : Prop := ∀ (slot : Fin 2) (m : ℕ), c.listen.get slot = some m → slot = listenSlot c.topo m

omit [Libm] in
theorem SameTaps.taps {c c' : Core} (same : SameTaps c c') (mix : MixId) : c'.Taps mix ↔ c.Taps mix := by
  unfold Taps
  rw [same.1, same.2]

omit [Libm] in
theorem SameTaps.placed {c c' : Core} (same : SameTaps c c') (placed : c.Placed) : c'.Placed := by
  unfold Placed at placed ⊢
  rwa [same.1, same.2]

/-- A start is refused, or has the mix in its slot, which no other mix of slot 1 had. -/
theorem startListen_cases (c : Core) (mix : MixId) :
    c.handle (.request (.startListen mix)) = (none, c) ∨
      ∃ m out next, c.handle (.request (.startListen mix)) = (some out, next) ∧ c.topo.mixIndex mix = some m ∧
        (∀ other, c.listen.get (listenSlot c.topo m) = some other → other = m ∨ listenSlot c.topo m = 0) ∧
        next.topo = c.topo ∧ next.listen = (c.tapped m).listen := by
  rcases handle_single (rfl : dispatch (.startListen mix) = _) c with ⟨e, -, same⟩ | ⟨p, next, ran, same⟩
  · exact .inl same
  refine .inr ?_
  unfold one at ran
  rw [get_then] at ran
  simp only [startListen] at ran
  rw [get_then, read_then_ok] at ran
  obtain ⟨m, named, ran⟩ := ran
  obtain ⟨topo, listen⟩ := finish_taps p next
  by_cases held : c.listen[listenSlot c.topo m] = some m
  · rw [if_pos held] at ran
    cases ran
    refine ⟨m, _, _, same, mix_named named, fun other taken => ?_, topo, ?_⟩
    · exact .inl (Option.some.inj (taken.symm.trans held))
    · rw [listen, tapped, ← held]
      exact (Vector.set_getElem_self _).symm
  · rw [if_neg held, refused_then_ok] at ran
    obtain ⟨free, ran⟩ := ran
    obtain ⟨-, rfl⟩ := written ran
    refine ⟨m, _, _, same, mix_named named, fun other taken => .inr ?_, topo, listen⟩
    rw [get_slot] at taken
    rw [Fin.getElem_fin, taken] at free
    have first : listenSlot c.topo m ≠ 1 := fun second => free ⟨second, rfl⟩
    omega

/-- A stop takes every tap off its mix, or knows no such mix. -/
theorem stopListen_cases (c : Core) (mix : MixId) :
    (c.handle (.request (.stopListen mix))).2.topo = c.topo ∧
      (c.topo.mixIndex mix = none ∧ (c.handle (.request (.stopListen mix))).2.listen = c.listen ∨
        ∃ m, c.topo.mixIndex mix = some m ∧
          (c.handle (.request (.stopListen mix))).2.listen = c.listen.map fun l => if l = some m then none else l) := by
  rcases handle_single (rfl : dispatch (.stopListen mix) = _) c with ⟨e, ran, same⟩ | ⟨p, next, ran, same⟩
  · rw [same]
    refine ⟨rfl, .inl ⟨?_, rfl⟩⟩
    unfold one at ran
    rw [get_then, then_error_iff] at ran
    rcases ran with ran | ⟨m, mid, -, ran⟩
    · simp only [lift_error_iff, Core.mix] at ran
      split at ran
      · cases ran.1
      · assumption
    · cases ran
  · rw [same]
    obtain ⟨topo, listen⟩ := finish_taps p next
    unfold one at ran
    rw [get_then, read_then_ok] at ran
    obtain ⟨m, named, ran⟩ := ran
    obtain ⟨-, rfl⟩ := written ran
    exact ⟨topo, .inr ⟨m, mix_named named, listen⟩⟩

omit [Libm] in
private theorem index_apart {topo : Topology} (wf : WellFormed topo) {mix other : MixId} (apart : other ≠ mix)
    {m m' : ℕ} (named : topo.mixIndex mix = some m) (named' : topo.mixIndex other = some m') : m' ≠ m := by
  rintro rfl
  have same := ((mixIndex_iff wf mix m').mp named).symm.trans ((mixIndex_iff wf other m').mp named')
  exact apart (Option.some.inj same).symm

omit [Libm] in
private theorem listenSlot_zero {topo : Topology} {m : ℕ} (first : listenSlot topo m = 0) : m = topo.engineer := by
  unfold listenSlot at first
  split at first
  · assumption
  · cases first

variable {c c' : Core} {mix : MixId} {m : ℕ}

omit [Libm] in
theorem taps_set (wf : WellFormed c.topo) (placed : c.Placed) (named : c.topo.mixIndex mix = some m)
    (free : ∀ other, c.listen.get (listenSlot c.topo m) = some other → other = m ∨ listenSlot c.topo m = 0)
    (topo : c'.topo = c.topo) (listen : c'.listen = (c.tapped m).listen) :
    c'.Placed ∧ c'.Taps mix ∧ ∀ other, other ≠ mix → (c'.Taps other ↔ c.Taps other) := by
  have held : ∀ slot : Fin 2,
      c'.listen.get slot = if listenSlot c.topo m = slot then some m else c.listen.get slot := by
    intro slot
    simp only [listen, tapped, get_slot, Vector.getElem_set, Fin.ext_iff]
  -- Slot 0 is the engineer's alone, and slot 1 was free or the mix's own.
  have before : ∀ other, c.listen.get (listenSlot c.topo m) = some other → other = m := by
    intro other taken
    rcases free other taken with same | first
    · exact same
    · have own := placed _ other taken
      rw [listenSlot_zero first, listenSlot_zero (own.symm.trans first)]
  refine ⟨fun slot k there => ?_, ⟨m, by rw [topo, named], listenSlot c.topo m, by rw [held, if_pos rfl]⟩,
    fun other apart => ?_⟩
  · rw [held] at there
    rw [topo]
    split at there
    · rename_i here
      cases there
      exact here.symm
    · exact placed slot k there
  · unfold Taps
    rw [topo]
    refine exists_congr fun k => and_congr_right fun known => ?_
    have other := index_apart wf apart named known
    refine exists_congr fun slot => ?_
    rw [held]
    split
    · rename_i here
      subst here
      refine ⟨fun same => absurd (Option.some.inj same).symm other, fun there => absurd (before k there) other⟩
    · rfl

omit [Libm] in
theorem taps_off (wf : WellFormed c.topo) (placed : c.Placed) (named : c.topo.mixIndex mix = some m)
    (topo : c'.topo = c.topo) (listen : c'.listen = c.listen.map fun l => if l = some m then none else l) :
    c'.Placed ∧ ¬ c'.Taps mix ∧ ∀ other, other ≠ mix → (c'.Taps other ↔ c.Taps other) := by
  have held : ∀ (slot : Fin 2) (k : ℕ),
      c'.listen.get slot = some k ↔ k ≠ m ∧ c.listen.get slot = some k := by
    intro slot k
    simp only [listen, get_slot, Vector.getElem_map]
    split
    · rename_i here
      rw [here]
      exact ⟨nofun, fun both => absurd (Option.some.inj both.2).symm both.1⟩
    · rename_i there
      refine ⟨fun same => ⟨?_, same⟩, And.right⟩
      rintro rfl
      exact there same
  refine ⟨fun slot k there => ?_, ?_, fun other apart => ?_⟩
  · rw [topo]
    exact placed slot k ((held slot k).mp there).2
  · rintro ⟨k, known, slot, there⟩
    rw [topo, named] at known
    exact ((held slot k).mp there).1 (Option.some.inj known).symm
  · unfold Taps
    rw [topo]
    refine exists_congr fun k => and_congr_right fun known => exists_congr fun slot => ?_
    rw [held]
    exact and_iff_right (index_apart wf apart named known)

end IemMixer.Core
