import IemMixer.TopologyProofs
import IemMixer.Core.Edit

/-! A refused request changes nothing, and an accepted batch is its operations one
after another under one revision. -/
namespace IemMixer.Core
open Lib Proto

variable [Libm]

/-- The operations applied one by one, each a request of its own. -/
def applyEach : List Cmd → Edits (List Outcome)
  | [] => return []
  | op :: rest => do
    let out ← apply op
    let outs ← applyEach rest
    return out :: outs

/-- A partial that bumps the revision exactly when it says a change, and is no
import. -/
def Fair (p : Partial) : Prop := p.bump = !p.changes.isEmpty ∧ p.effect ≠ some .imported

omit [Libm] in
private theorem fair_changed (changes : List Change) (rt : List RtOp) :
    Fair (.changed changes rt) := ⟨rfl, by simp [Partial.changed]⟩

omit [Libm] in
private theorem fair_nothing : Fair {} := ⟨rfl, by simp⟩

theorem Edit.fair {c c' : Core} {p : Partial} (edit : Edit c p c') : Fair p := by
  cases edit with
  | input i new _ =>
    rcases setInput_cases i new c with same | ⟨old, node, -, -, same⟩
    · rw [same]
      exact fair_nothing
    · rw [same]
      exact fair_changed _ _
  | out m new _ =>
    rcases setOut_cases m new c with same | ⟨rec, node, -, -, same⟩
    · rw [same]
      exact fair_nothing
    · rw [same]
      exact fair_changed _ _
  | level m k new _ =>
    rcases setLevel_cases m k new c with same | ⟨rec, old, node, source, -, -, -, -, same⟩
    · rw [same]
      exact fair_nothing
    · rw [same]
      exact fair_changed _ _
  | group m g new _ =>
    rcases setGroup_cases m g new c with same | ⟨rec, old, node, group, -, -, -, -, same⟩
    · rw [same]
      exact fair_nothing
    · rw [same]
      exact fair_changed _ _
  | limiterReset mix m => exact fair_changed _ _
  | solo m mix new _ _ =>
    rcases replaceSolo_cases m mix new c with same | same
    · rw [same]
      exact fair_nothing
    · rw [same]
      exact fair_changed _ _
  | tap m mix _ _ => exact fair_changed _ _
  | untap m =>
    rw [dropListen_eq]
    rcases listenPartial_cases (c.untapped m) (c.untapOps m) with ⟨-, same⟩ | ⟨-, same⟩
    · rw [same]
      exact fair_nothing
    · rw [same]
      exact fair_changed _ _
  | test signal hil op _ _ => exact fair_changed _ _
  | testEnded rt _ =>
    rcases takeTest_cases rt c with ⟨-, same⟩ | same
    · rw [same]
      exact fair_nothing
    · rw [same]
      exact fair_changed _ _
  | nothing rt effect _ quiet => exact ⟨rfl, quiet⟩
  | fault _ => exact ⟨rfl, by simp⟩

/-- One operation keeps the revision: only `finish` bumps it. -/
theorem one_rev {op : Cmd} {c next : Core} {p : Partial} (ran : one op c = .ok p next) :
    next.rev = c.rev := by
  have same := one_atRev op c c.rev
  rw [show c.withRev c.rev = c from rfl, ran] at same
  have kept : next = next.withRev c.rev := (EStateM.Result.ok.inj same).2
  rw [kept]
  rfl

theorem batchable_edit {op : Cmd} {c next : Core} {p : Partial} (plain : batchable op = true)
    (ran : one op c = .ok p next) : Edit c p next := by
  rcases one_spec op c next p ran with ⟨state, rfl, -⟩ | edit
  · simp [batchable] at plain
  · exact edit

/-- One operation of a batch, applied by itself at another revision. -/
private theorem apply_one {op : Cmd} {c next : Core} {p : Partial} (r : ℕ)
    (plain : batchable op = true) (ran : one op c = .ok p next) :
    ∃ out r', apply op (c.withRev r) = .ok out (next.withRev r') ∧
      out.changes = p.changes ∧ out.rt = p.rt := by
  have same : one op (c.withRev r) = .ok p (next.withRev r) := by
    rw [one_atRev, ran]
    rfl
  have single : apply op = (one op >>= fun p => modifyGet (finish p)) := by
    cases op <;> first | rfl | simp [batchable] at plain
  refine ⟨(finish p (next.withRev r)).1, (finish p (next.withRev r)).2.rev, ?_, rfl, rfl⟩
  rw [single]
  simp only [bind, EStateM.bind, same, modifyGet_run]
  unfold finish
  cases p.bump <;> rfl

private theorem batchLoop_each (ops : List Cmd) (c next : Core) (all result : Partial) (r : ℕ)
    (ran : batchLoop ops all c = .ok result next) :
    ∃ outs last, applyEach ops (c.withRev r) = .ok outs last ∧ next = last.withRev c.rev ∧
      result.changes = all.changes ++ outs.flatMap (·.changes) ∧
      result.rt = all.rt ++ outs.flatMap (·.rt) ∧ result.effect = all.effect ∧
      result.bump = (all.bump || outs.any (!·.changes.isEmpty)) := by
  induction ops generalizing c all r with
  | nil =>
    cases ran
    exact ⟨[], next.withRev r, rfl, rfl, by simp⟩
  | cons op rest ih =>
    rw [batchLoop] at ran
    by_cases plain : batchable op = true
    · simp only [plain, Bool.not_true, Bool.false_eq_true, if_false, then_ok_iff] at ran
      obtain ⟨p, mid, first, later⟩ := ran
      have fair : Fair p := (batchable_edit plain first).fair
      obtain ⟨out, r', applied, changes, rt⟩ := apply_one r plain first
      obtain ⟨outs, last, each, final, changes', rt', effect, bump⟩ := ih mid _ r' later
      refine ⟨out :: outs, last, ?_, one_rev first ▸ final, ?_, ?_, effect, ?_⟩
      · simp only [applyEach, bind, EStateM.bind, applied, each]
        rfl
      · rw [changes', Partial.extend, List.flatMap_cons, changes, List.append_assoc]
      · rw [rt', Partial.extend, List.flatMap_cons, rt, List.append_assoc]
      · rw [bump, Partial.extend, List.any_cons, changes, ← fair.1, Bool.or_assoc]
    · simp only [plain, Bool.not_false, if_true] at ran
      cases ran

theorem dispatch_cases (cmd : Cmd) : (∃ ops, cmd = .batch ops) ∨ dispatch cmd = one cmd := by
  cases cmd with
  | batch ops => exact .inl ⟨ops, rfl⟩
  | _ => exact .inr rfl

/-- A batch works on the core's clone: refused, it changes nothing. -/
theorem batch_keepsOnError (ops : List Cmd) : KeepsOnError (batch ops) := by
  intro c e c' failed
  simp only [batch] at failed
  split at failed
  · cases failed
    rfl
  · split at failed
    · cases failed
      rfl
    · split at failed
      · cases failed
        rfl
      · cases failed

theorem apply_keepsOnError (cmd : Cmd) : KeepsOnError (apply cmd) := by
  intro c e c' failed
  unfold apply at failed
  rcases then_error_iff.mp failed with stopped | ⟨p, mid, -, stopped⟩
  · rcases dispatch_cases cmd with ⟨ops, rfl⟩ | single
    · exact batch_keepsOnError ops c e c' stopped
    · exact one_keepsOnError cmd c e c' (single ▸ stopped)
  · cases stopped

theorem batch_ok {ops : List Cmd} {c next : Core} {all : Partial}
    (ran : batch ops c = .ok all next) : batchLoop ops {} c = .ok all next := by
  simp only [batch] at ran
  split at ran
  · cases ran
  · split at ran
    · cases ran
    · rename_i looped
      split at ran
      · cases ran
      · cases ran
        exact looped

/-- A refused request leaves the whole core as it was; an accepted batch leaves what
its operations applied one by one leave, at the next revision when one of them
changed something and at the same one when none did, and says their changes and
RT commands one after another. -/
theorem refused_or_batched (c : Core) :
    (∀ cmd e c', apply cmd c = .error e c' → c' = c) ∧
    ∀ ops out c', apply (.batch ops) c = .ok out c' →
      ∃ outs last, applyEach ops c = .ok outs last ∧
        c' = last.withRev (c.rev + if outs.any (!·.changes.isEmpty) then 1 else 0) ∧
        out = { rev := c'.rev, changes := outs.flatMap (·.changes), rt := outs.flatMap (·.rt)
                effect := .none } := by
  constructor
  · exact fun cmd e c' failed => apply_keepsOnError cmd c e c' failed
  · intro ops out c' ran
    unfold apply at ran
    obtain ⟨all, next, accepted, finished⟩ := then_ok_iff.mp ran
    obtain ⟨outs, last, each, rfl, changes, rt, effect, bump⟩ :=
      batchLoop_each ops c next {} all c.rev (batch_ok accepted)
    refine ⟨outs, last, each, ?_⟩
    cases finished
    simp only [Bool.false_or] at bump
    simp only [bump, changes, rt, effect]
    cases outs.any (!·.changes.isEmpty) <;> simp [withRev]

omit [Libm]

/-- The engine of `duet` just started, at revision 7. -/
def duetCore : Core := .new TopologyProofs.duetCompiled.topo {} 7 {}

/-- The math library on the arguments the runs at `duet` give it: the gains of 0 and
−20 dB, the sine of a centred pan and the standard bands' logarithms. -/
abbrev duetLibm : Libm where
  powf _ y := if y = .fin (-1) then .ofRat 0.1 else .fin 1
  sin _ := .ofRat 0.7071067811865475
  log2 x :=
    if x = .fin 1 then .fin 0
    else if x = .fin 2 then .fin 1
    else if x = .ofRat 80.20834168547682 then .ofRat 6.325680379977191
    else if x = .ofRat 200.3077623397404 then .ofRat 7.6460745194229
    else if x = .ofRat 801.9398157380639 then .ofRat 9.647350158631623
    else if x = .ofRat 2996.2342070275295 then .ofRat 11.5489346841967
    else .ofRat 12.968677794193002
  log10 _ := .fin 0

theorem refused_or_batched_duet :
    (∃ e, @apply duetLibm (.batch [.startListen "ben", .startListen "carl"]) duetCore =
      .error e duetCore) ∧
    ∃ out c', @apply duetLibm (.batch [.startListen "ben", .stopListen "ben"]) duetCore = .ok out c' ∧
      ∃ outs last, @applyEach duetLibm [.startListen "ben", .stopListen "ben"] duetCore =
        .ok outs last ∧ c' = last.withRev (7 + if outs.any (!·.changes.isEmpty) then 1 else 0) := by
  let ends := fun (r : EStateM.Result CmdError Core Outcome) =>
    match r with
    | .ok .. => true
    | .error .. => false
  have refused : ends (@apply duetLibm (.batch [.startListen "ben", .startListen "carl"]) duetCore) =
      false := by decide +kernel
  have accepted : ends (@apply duetLibm (.batch [.startListen "ben", .stopListen "ben"]) duetCore) =
      true := by decide +kernel
  constructor
  · cases ran : @apply duetLibm (.batch [.startListen "ben", .startListen "carl"]) duetCore with
    | ok out c' =>
      rw [ran] at refused
      cases refused
    | error e c' =>
      have same := (@refused_or_batched duetLibm duetCore).1 _ e c' ran
      exact ⟨e, by rw [same]⟩
  · cases ran : @apply duetLibm (.batch [.startListen "ben", .stopListen "ben"]) duetCore with
    | ok out c' =>
      obtain ⟨outs, last, each, same, -⟩ := (@refused_or_batched duetLibm duetCore).2 _ out c' ran
      exact ⟨out, c', rfl, outs, last, each, same⟩
    | error e c' =>
      rw [ran] at accepted
      cases accepted

/-- A batch whose one operation changes nothing is accepted and bumps no revision. -/
theorem batch_of_no_change_keeps_rev :
    ¬ ∀ (c : Core) (ops : List Cmd) (out : Outcome) (c' : Core),
      @apply duetLibm (.batch ops) c = .ok out c' → c'.rev = c.rev + 1 := by
  intro bumped
  let revAfter := fun (r : EStateM.Result CmdError Core Outcome) =>
    match r with
    | .ok _ c' => some c'.rev
    | .error .. => none
  have kept : revAfter (@apply duetLibm (.batch [.setMix "eng" none (some false)]) duetCore) =
      some 7 := by decide +kernel
  cases ran : @apply duetLibm (.batch [.setMix "eng" none (some false)]) duetCore with
  | ok out c' =>
    rw [ran] at kept
    have rev := bumped duetCore _ out c' ran
    rw [Option.some.inj kept] at rev
    cases rev
  | error e c' =>
    rw [ran] at kept
    cases kept

end IemMixer.Core
