import IemMixer.Core.Run

/-! What events can write. A relation that bears every write but solos and taps holds between
the core before and after any event whose requests set neither, or set them within it. -/
namespace IemMixer.Core
open Lib Proto

/-- Every command of the event's request passes `fine`. -/
def Event.all (fine : Cmd → Bool) : Event → Bool
  | .request (.batch ops) => ops.all fine
  | .request cmd => fine cmd
  | .clearSolos | .endTestSignal => true

variable [Libm]

/-- A relation that bears what requests write besides solos and taps. -/
structure Bears (R : Core → Core → Prop) : Prop where
  refl : ∀ c, R c c
  trans : ∀ {c mid c'}, R c mid → R mid c' → R c c'
  input : ∀ i new c, R c (setInput i new c).2
  out : ∀ m new c, R c (setOut m new c).2
  level : ∀ m k new c, R c (setLevel m k new c).2
  group : ∀ m g new c, R c (setGroup m g new c).2
  test : ∀ (c : Core) (signal : Option TestSignal) (hil : Bool), R c { c with test := signal, hilTest := hil }
  imported : ∀ state c, R c (importState state c).2
  rev : ∀ (c : Core) (r : ℕ), R c { c with rev := r }

/-- A relation of parts that no such write touches. -/
theorem bears_of {R : Core → Core → Prop} (refl : ∀ c, R c c) (trans : ∀ {c mid c'}, R c mid → R mid c' → R c c')
    (apart : ∀ (c : Core) (s : Reconciled) (test : Option TestSignal) (hil : Bool) (rev : ℕ),
      R c { c with s := s, test := test, hilTest := hil, rev := rev }) : Bears R where
  refl := refl
  trans := trans
  input i new c := by
    rcases setInput_cases i new c with same | ⟨old, node, -, -, same⟩ <;> rw [same]
    · exact refl c
    · exact apart c _ c.test c.hilTest c.rev
  out m new c := by
    rcases setOut_cases m new c with same | ⟨rec, node, -, -, same⟩ <;> rw [same]
    · exact refl c
    · exact apart c _ c.test c.hilTest c.rev
  level m k new c := by
    rcases setLevel_cases m k new c with same | ⟨rec, old, node, source, -, -, -, -, same⟩ <;> rw [same]
    · exact refl c
    · exact apart c _ c.test c.hilTest c.rev
  group m g new c := by
    rcases setGroup_cases m g new c with same | ⟨rec, old, node, group, -, -, -, -, same⟩ <;> rw [same]
    · exact refl c
    · exact apart c _ c.test c.hilTest c.rev
  test c signal hil := apart c c.s signal hil c.rev
  imported state c := apart c _ c.test c.hilTest c.rev
  rev c r := apart c c.s c.test c.hilTest r

namespace Bears
variable {R : Core → Core → Prop}

private theorem startTest (bears : Bears R) (input : InputId) (hz dbfs ttlS : F64) (mask : Option HilMask)
    (listen : Bool) : Within R (startTest input hz dbfs ttlS mask listen) := by
  refine within_bind keeps_get fun self => ?_
  refine within_bind (keeps_lift _) fun i => ?_
  refine within_bind (keeps_lift _) fun hz => ?_
  refine within_bind (keeps_lift _) fun dbfs => ?_
  refine within_bind (keeps_lift _) fun ttlS => ?_
  exact within_modifyGet fun c => bears.test c _ _

private theorem takeTest (bears : Bears R) (rt : List RtOp) (c : Core) : R c (takeTest rt c).2 := by
  rcases takeTest_cases rt c with ⟨-, same⟩ | same <;> rw [same]
  · exact bears.refl c
  · exact bears.test c none c.hilTest

/-- What a request other than for solos and taps writes. -/
theorem one (bears : Bears R) {cmd : Cmd} (solo : ∀ mix sources, cmd = .setSolo mix sources → Within R (Core.one cmd))
    (start : ∀ mix, cmd = .startListen mix → Within R (Core.one cmd))
    (stop : ∀ mix, cmd = .stopListen mix → Within R (Core.one cmd)) : Within R (Core.one cmd) := by
  cases cmd with
  | setSolo mix sources => exact solo mix sources rfl
  | startListen mix => exact start mix rfl
  | stopListen mix => exact stop mix rfl
  | setInput input trimDb muted processing =>
    refine within_bind keeps_get fun self => ?_
    refine within_bind (keeps_lift _) fun i => ?_
    exact within_bind (keeps_lift _) fun trimDb => within_modifyGet (bears.input _ _)
  | setMix mix volumeDb muted =>
    refine within_bind keeps_get fun self => ?_
    refine within_bind (keeps_lift _) fun m => ?_
    exact within_bind (keeps_lift _) fun volumeDb => within_modifyGet (bears.out _ _)
  | setLevel mix source gainDb pan muted =>
    refine within_bind keeps_get fun self => ?_
    refine within_bind (keeps_lift _) fun m => ?_
    cases heard : self.topo.slot m source with
    | none => exact within_throw _
    | some k =>
      refine within_bind (keeps_lift _) fun gainDb => ?_
      exact within_bind (keeps_lift _) fun pan => within_modifyGet (bears.level _ _ _)
  | setGroup mix group gainDb muted =>
    refine within_bind keeps_get fun self => ?_
    refine within_bind (keeps_lift _) fun m => ?_
    refine within_bind (keeps_lift _) fun g => ?_
    exact within_bind (keeps_lift _) fun gainDb => within_modifyGet (bears.group _ _ _)
  | setEq target eq =>
    refine within_bind keeps_get fun self => ?_
    refine within_ite (within_throw _) ?_
    cases target with
    | input id => exact within_bind (keeps_lift _) fun i => within_modifyGet (bears.input _ _)
    | mix id => exact within_bind (keeps_lift _) fun m => within_modifyGet (bears.out _ _)
    | group mix group =>
      refine within_bind (keeps_lift _) fun m => ?_
      exact within_bind (keeps_lift _) fun g => within_modifyGet (bears.group _ _ _)
  | setLimiter mix enabled limitDb =>
    refine within_bind keeps_get fun self => ?_
    refine within_bind (keeps_lift _) fun m => ?_
    exact within_bind (keeps_lift _) fun limitDb => within_modifyGet (bears.out _ _)
  | resetLimiterStats mix =>
    refine within_bind keeps_get fun self => ?_
    exact within_bind (keeps_lift _) fun m => within_pure bears.refl _
  | startTestSignal input hz dbfs ttlS =>
    refine within_bind keeps_get fun self => ?_
    refine within_bind (keeps_lift _) fun _ => ?_
    exact within_ite (within_throw _) (bears.startTest _ _ _ _ _ _)
  | hilTestSignal input hz dbfs ttlS cardTx listen =>
    refine within_bind keeps_get fun self => ?_
    refine within_bind (keeps_lift _) fun _ => ?_
    refine within_ite (within_throw _) ?_
    exact within_bind (keeps_lift _) fun mask => bears.startTest _ _ _ _ _ _
  | stopTestSignal => exact within_bind keeps_get fun self => within_modifyGet (bears.takeTest _)
  | injectFault =>
    refine within_bind keeps_get fun self => ?_
    exact within_bind (keeps_lift _) fun _ => within_pure bears.refl _
  | batch ops => exact within_bind keeps_get fun self => within_throw _
  | importState state => exact within_bind keeps_get fun self => within_modifyGet (bears.imported _)
  | getState | getTopology | saveNow | shutdown | ping | arm =>
    exact within_bind keeps_get fun self => within_pure bears.refl _

variable {fine : Cmd → Bool}

private theorem batchLoop (bears : Bears R) (each : ∀ cmd, fine cmd = true → Within R (Core.one cmd)) {ops : List Cmd}
    (all : ops.all fine = true) (acc : Partial) : Within R (Core.batchLoop ops acc) := by
  induction ops generalizing acc with
  | nil => exact within_pure bears.refl _
  | cons op rest ih =>
    obtain ⟨first, later⟩ := Bool.and_eq_true_iff.mp (List.all_cons.symm.trans all)
    refine within_ite (within_throw _) ?_
    intro c result c' ran
    obtain ⟨p, mid, did, looped⟩ := then_ok_iff.mp ran
    exact bears.trans (each op first c p mid did) (ih later _ mid result c' looped)

omit [Libm] in
theorem finish (bears : ∀ (c : Core) (r : ℕ), R c { c with rev := r }) (p : Partial) (c : Core) :
    R c (finish p c).2 := by
  unfold Core.finish
  cases p.bump
  · exact bears c c.rev
  · exact bears c (c.rev + 1)

/-- What an event writes whose commands are all fine. -/
theorem handle (bears : Bears R) (each : ∀ cmd, fine cmd = true → Within R (Core.one cmd))
    (clears : ∀ c : Core, R c c.clearSolos.2) {event : Event} (all : event.all fine = true) (c : Core) :
    R c (c.handle event).2 := by
  cases event with
  | clearSolos => exact clears c
  | endTestSignal => exact bears.trans (bears.takeTest [] c) (finish bears.rev _ _)
  | request cmd =>
    simp only [Core.handle]
    cases ran : apply cmd c with
    | error e c' =>
      rw [apply_keepsOnError cmd c e c' ran]
      exact bears.refl c
    | ok out c' =>
      unfold apply at ran
      obtain ⟨p, next, accepted, finished⟩ := then_ok_iff.mp ran
      cases finished
      refine bears.trans ?_ (finish bears.rev p next)
      rcases dispatch_cases cmd with ⟨ops, rfl⟩ | single
      · exact bears.batchLoop each all {} c p next (batch_ok accepted)
      · rw [single] at accepted
        refine each cmd ?_ c p next accepted
        cases cmd with
        | batch ops => cases accepted
        | _ => exact all

end Bears

/-- A single request is refused and changes nothing, or is done and its revision counted. -/
theorem handle_single {cmd : Cmd} (single : dispatch cmd = one cmd) (c : Core) :
    (∃ e, one cmd c = .error e c ∧ c.handle (.request cmd) = (none, c)) ∨
      ∃ p next, one cmd c = .ok p next ∧ c.handle (.request cmd) = (some (finish p next).1, (finish p next).2) := by
  simp only [handle]
  cases ran : apply cmd c with
  | error e c' =>
    have kept := apply_keepsOnError cmd c e c' ran
    subst kept
    unfold apply at ran
    rcases then_error_iff.mp ran with stopped | ⟨p, mid, -, stopped⟩
    · exact .inl ⟨e, single ▸ stopped, rfl⟩
    · cases stopped
  | ok out c' =>
    unfold apply at ran
    obtain ⟨p, next, accepted, finished⟩ := then_ok_iff.mp ran
    cases finished
    exact .inr ⟨p, next, single ▸ accepted, rfl⟩

end IemMixer.Core
