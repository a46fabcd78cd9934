import IemMixer.Core.Frame

/-! The solos: a request that sets none leaves them or takes them away, and one that sets a
mix's solo touches no other's. -/
namespace IemMixer.Core
open Lib Proto TopologyProofs

/-- The engine holds a non-empty solo on the mix. -/
def soloed (c : Core) (mix : MixId) : Bool := ((c.topo.mixIndex mix).bind fun m => c.solo[m]?).any (!·.isEmpty)

def setsSolo : Cmd → Bool
  | .setSolo .. => true
  | _ => false

/-- The same topology, and no solo that was not there. -/
def FewerSolos (c c' : Core) : Prop := c'.topo = c.topo ∧ ∀ k : ℕ, c'.solo[k]? = none ∨ c'.solo[k]? = c.solo[k]?

theorem FewerSolos.refl (c : Core) : FewerSolos c c := ⟨rfl, fun _ => .inr rfl⟩

theorem FewerSolos.trans {c mid c' : Core} (first : FewerSolos c mid) (next : FewerSolos mid c') : FewerSolos c c' := by
  refine ⟨next.1.trans first.1, fun k => ?_⟩
  rcases next.2 k with gone | same
  · exact .inl gone
  · exact (first.2 k).imp same.trans same.trans

theorem FewerSolos.soloed {c c' : Core} (fewer : FewerSolos c c') {mix : MixId} (held : c'.soloed mix = true) :
    c.soloed mix = true := by
  unfold Core.soloed at held ⊢
  rw [fewer.1] at held
  cases named : c.topo.mixIndex mix with
  | none => simp [named] at held
  | some m =>
    simp only [named, Option.bind_some] at held ⊢
    rcases fewer.2 m with gone | same
    · simp [gone] at held
    · rwa [same] at held

variable [Libm]

private theorem fewerSolos_bears : Bears FewerSolos :=
  bears_of .refl .trans fun _ _ _ _ _ => ⟨rfl, fun _ => .inr rfl⟩

omit [Libm] in
private theorem finish_solos (p : Partial) (c : Core) : FewerSolos c (finish p c).2 :=
  Bears.finish (fun _ _ => ⟨rfl, fun _ => .inr rfl⟩) p c

private theorem clearSolo_fewer (acc : Partial × Core) (m : ℕ) : FewerSolos acc.2 (clearSolo acc m).2 := by
  refine ⟨rfl, fun k => ?_⟩
  simp only [clearSolo, BTreeMap.getElem?_erase_eq]
  split
  · exact .inl rfl
  · exact .inr rfl

theorem clearSolos_fewer (c : Core) : FewerSolos c c.clearSolos.2 := by
  have each : ∀ (keys : List ℕ) (acc : Partial × Core), FewerSolos acc.2 (keys.foldl clearSolo acc).2 := by
    intro keys acc
    induction keys generalizing acc with
    | nil => exact .refl _
    | cons m rest ih => exact (clearSolo_fewer acc m).trans (ih (clearSolo acc m))
  exact (each c.solo.keys ({}, c)).trans (finish_solos _ _)

private theorem startListen_solos (mix : MixId) : Within FewerSolos (one (.startListen mix)) := by
  refine within_bind keeps_get fun self => ?_
  refine within_bind keeps_get fun self => ?_
  refine within_bind (keeps_lift _) fun m => ?_
  refine within_ite (within_pure .refl _) (within_ite (within_throw _) (within_modifyGet fun c => ?_))
  exact ⟨rfl, fun _ => .inr rfl⟩

private theorem stopListen_solos (mix : MixId) : Within FewerSolos (one (.stopListen mix)) := by
  refine within_bind keeps_get fun self => ?_
  exact within_bind (keeps_lift _) fun m => within_modifyGet fun c => ⟨rfl, fun _ => .inr rfl⟩

/-- An event that sets no solo adds none. -/
theorem handle_solos {event : Event} (quiet : event.all (fun cmd => !setsSolo cmd) = true) (c : Core) :
    FewerSolos c (c.handle event).2 := by
  refine fewerSolos_bears.handle (fun cmd silent => ?_) clearSolos_fewer quiet c
  refine fewerSolos_bears.one ?_ (fun mix same => same ▸ startListen_solos mix) fun mix same =>
    same ▸ stopListen_solos mix
  rintro mix sources rfl
  cases silent

/-- A solo set on one mix: no other's changes, and an empty one clears it. -/
theorem setSolo_cases (c : Core) (wf : WellFormed c.topo) (mix : MixId) (sources : List Source) :
    (c.handle (.request (.setSolo mix sources))).2.topo = c.topo ∧
      (∀ other, other ≠ mix → (c.handle (.request (.setSolo mix sources))).2.soloed other = c.soloed other) ∧
      (sources = [] → (c.handle (.request (.setSolo mix sources))).2.soloed mix = false) := by
  rcases handle_single (rfl : dispatch (.setSolo mix sources) = _) c with ⟨e, ran, same⟩ | ⟨p, next, ran, same⟩
  · rw [same]
    refine ⟨rfl, fun _ _ => rfl, ?_⟩
    rintro rfl
    unfold one at ran
    simp only [setSolo] at ran
    rw [get_then, get_then, then_error_iff] at ran
    rcases ran with ran | ⟨m, mid, named, ran⟩
    · simp only [lift_error_iff, Core.mix] at ran
      split at ran
      · cases ran.1
      · rename_i unknown
        simp [soloed, unknown]
    · rw [if_neg (by simp), then_error_iff] at ran
      rcases ran with ran | ⟨new, mid', -, ran⟩
      · simp only [lift_error_iff, soloSlots] at ran
        cases ran.1
      · cases ran
  · rw [same]
    unfold one at ran
    simp only [setSolo] at ran
    rw [get_then, get_then, read_then_ok] at ran
    obtain ⟨m, known, ran⟩ := ran
    rw [refused_then_ok, read_then_ok] at ran
    obtain ⟨-, new, slots, ran⟩ := ran
    obtain ⟨-, rfl⟩ := written ran
    have named := mix_named known
    have kept : (finish p (replaceSolo m mix new c).2).2.topo = c.topo ∧
        ∀ k : ℕ, (finish p (replaceSolo m mix new c).2).2.solo[k]? = (replaceSolo m mix new c).2.solo[k]? := by
      refine ⟨?_, fun k => ?_⟩
      · rcases replaceSolo_cases m mix new c with done | done <;> rw [done] <;> exact (finish_solos p _).1
      · unfold finish
        cases p.bump <;> rfl
    have solo : ∀ k : ℕ, (replaceSolo m mix new c).2.solo[k]? =
        if m = k ∧ c.solo[m]?.getD ∅ ≠ new then (if new.isEmpty then none else some new) else c.solo[k]? := by
      intro k
      by_cases same : c.solo[m]?.getD ∅ = new
      · rw [if_neg (fun both => both.2 same), replaceSolo, if_pos same]
      · rw [replaceSolo, if_neg same]
        refine (withSolo_solo c m new k).trans ?_
        simp [same]
    refine ⟨kept.1, fun other apart => ?_, ?_⟩
    · unfold soloed
      rw [kept.1]
      cases known' : c.topo.mixIndex other with
      | none => rfl
      | some k =>
        have differs : m ≠ k := by
          rintro rfl
          exact apart (Option.some.inj (((mixIndex_iff wf other m).mp known').symm.trans
            ((mixIndex_iff wf mix m).mp named)))
        simp only [Option.bind_some, kept.2, solo, if_neg (fun both : m = k ∧ _ => differs both.1)]
    · rintro rfl
      cases slots
      unfold soloed
      rw [kept.1, named, Option.bind_some, kept.2, solo]
      cases held : c.solo[m]? with
      | none => simp
      | some set =>
        by_cases empty : set = ∅
        · simp [empty]
        · simp [empty]

end IemMixer.Core
