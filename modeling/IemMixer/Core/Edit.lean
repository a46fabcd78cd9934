import IemMixer.Proto.ShapeProofs
import IemMixer.Core.Commands

/-! What one request can do to the core. `Edit` lists every accepted request's
effect once; a refused one leaves the core as it was; and no request looks at the
revision. Everything else about runs of requests is read off these. -/
namespace IemMixer.Core
open Lib Proto

theorem capped_holds {v v' : F64} {r : Range} {what : String} (proper : r.Proper)
    (ok : capped v r what = .ok v') : r.holds v' := by
  unfold capped at ok
  split at ok
  · rename_i v inside
    cases ok
    exact cap_holds proper inside
  · cases ok

theorem cappedOr_holds {given : Option F64} {r : Range} {what : String} {old v : F64}
    (proper : r.Proper) (ok : cappedOr given r what old = .ok v) (before : r.holds old) :
    r.holds v := by
  cases given with
  | none =>
    cases ok
    exact before
  | some v' => exact capped_holds proper ok

theorem mix_named {c : Core} {id : MixId} {m : ℕ} (ok : c.mix id = .ok m) :
    c.topo.mixIndex id = some m := by
  unfold mix at ok
  split at ok
  · rename_i found
    cases ok
    exact found
  · cases ok

theorem soloSlots_heard {topo : Topology} {m : ℕ} {mix : MixId} {sources : List Source}
    {slots new : BTreeSet ℕ} (ok : soloSlots topo m mix sources slots = .ok new)
    (before : ∀ k ∈ slots, ∃ source, topo.slot m source = some k) :
    ∀ k ∈ new, ∃ source, topo.slot m source = some k := by
  induction sources generalizing slots with
  | nil =>
    cases ok
    exact before
  | cons source rest ih =>
    simp only [soloSlots] at ok
    split at ok
    · cases ok
    · rename_i k found
      apply ih ok
      intro other member
      rw [Std.ExtTreeSet.mem_insert, Std.compare_eq_iff_eq] at member
      rcases member with rfl | member
      · exact ⟨source, found⟩
      · exact before other member

theorem read_then_ok {x : Except CmdError α} {f : α → Edits β} {c c' : Core} {b : β} :
    ((liftM x : Edits α) >>= f) c = .ok b c' ↔ ∃ a, x = .ok a ∧ f a c = .ok b c' := by
  simp only [then_ok_iff, lift_ok_iff]
  constructor
  · rintro ⟨a, mid, ⟨ok, rfl⟩, later⟩
    exact ⟨a, ok, later⟩
  · rintro ⟨a, ok, later⟩
    exact ⟨a, c, ⟨ok, rfl⟩, later⟩

theorem refused_then_ok {cond : Prop} [Decidable cond] {e : CmdError} {x : Edits α}
    {c c' : Core} {a : α} :
    (if cond then throw e else x) c = .ok a c' ↔ ¬ cond ∧ x c = .ok a c' := by
  by_cases taken : cond <;> simp [taken]

theorem get_then {f : Core → Edits β} {c : Core} : ((get : Edits Core) >>= f) c = f c c := rfl

theorem written {f : Core → Partial × Core} {c c' : Core} {p : Partial}
    (ran : (modifyGet f : Edits Partial) c = .ok p c') : p = (f c).1 ∧ c' = (f c).2 := by
  cases ran
  exact ⟨rfl, rfl⟩

theorem get_slot {α : Type} {n : ℕ} (v : Vector α n) (slot : Fin n) : v.get slot = v[slot.val] := rfl

theorem listenPartial_cases (c : Core) (rt : List RtOp) :
    rt = [] ∧ c.listenPartial rt = {} ∨
      rt ≠ [] ∧ c.listenPartial rt = .changed [.listen c.transient.listen] rt := by
  cases rt with
  | nil => exact .inl ⟨rfl, rfl⟩
  | cons op rest => exact .inr ⟨by simp, rfl⟩

/-- Every tap on mix `m` taken off. -/
def untapped (c : Core) (m : ℕ) : Core :=
  { c with listen := c.listen.map fun l => if l = some m then none else l }

def untapOps (c : Core) (m : ℕ) : List RtOp :=
  c.listen.toList.zipIdx.filterMap fun (l, slot) =>
    if l = some m then some (RtOp.listen slot none) else none

theorem dropListen_eq (m : ℕ) (c : Core) :
    dropListen m c = ((c.untapped m).listenPartial (c.untapOps m), c.untapped m) := rfl

theorem takeTest_cases (rt : List RtOp) (c : Core) :
    c.test = none ∧ takeTest rt c = ({}, c) ∨
      takeTest rt c = (.changed [.testSignal none] rt, { c with test := none }) := by
  unfold takeTest
  cases held : c.test with
  | none => exact .inl ⟨rfl, rfl⟩
  | some signal => exact .inr rfl

variable [Libm]

/-- A signal within the test signal's caps. -/
structure TestOk (signal : TestSignal) : Prop where
  hz : Range.testHz.holds signal.hz
  dbfs : Range.testDbfs.holds signal.dbfs
  ttlS : Range.testTtlS.holds signal.ttlS

/-- RT commands that set no parameter of the mix. -/
def Aside : RtOp → Prop
  | .testSignal .. | .hilTestSignal .. | .stopTestSignal | .arm | .resetLimiter _ => True
  | _ => False

/-- What an accepted request other than an import does: `Edit c p c'` takes the core
`c` to `c'` and says `p`. A new value is in range whenever the one it replaces was. -/
inductive Edit (c : Core) : Partial → Core → Prop where
  | input (i : ℕ) (new : InputState) (capped : (c.inputState i).Ok → new.Ok) :
    Edit c (setInput i new c).1 (setInput i new c).2
  | out (m : ℕ) (new : MixOut) (capped : (c.out m).Ok → new.Ok) :
    Edit c (setOut m new c).1 (setOut m new c).2
  | level (m k : ℕ) (new : Level) (capped : (c.level m k).Ok → new.Ok) :
    Edit c (setLevel m k new c).1 (setLevel m k new c).2
  | group (m g : ℕ) (new : MixGroup) (capped : (c.strip m g).Ok → new.Ok) :
    Edit c (setGroup m g new c).1 (setGroup m g new c).2
  | limiterReset (mix : MixId) (m : ℕ) :
    Edit c (.changed [.limiterStatsReset mix] [.resetLimiter (ix m)]) c
  | solo (m : ℕ) (mix : MixId) (new : BTreeSet ℕ) (named : c.topo.mixIndex mix = some m)
      (heard : ∀ k ∈ new, ∃ source, c.topo.slot m source = some k) :
    Edit c (replaceSolo m mix new c).1 (replaceSolo m mix new c).2
  | tap (m : ℕ) (mix : MixId) (named : c.topo.mixIndex mix = some m)
      (free : c.listen.get (listenSlot c.topo m) ≠ some m) :
    Edit c ((tapped c m).listenPartial [.listen (listenSlot c.topo m) (some (ix m))])
      (tapped c m)
  | untap (m : ℕ) : Edit c (dropListen m c).1 (dropListen m c).2
  | test (signal : TestSignal) (hil : Bool) (op : RtOp) (capped : TestOk signal) (aside : Aside op) :
    Edit c (.changed [.testSignal (some signal)] [op])
      { c with test := some signal, hilTest := hil }
  | testEnded (rt : List RtOp) (aside : ∀ op ∈ rt, Aside op) :
    Edit c (takeTest rt c).1 (takeTest rt c).2
  | nothing (rt : List RtOp) (effect : Option Effect) (aside : ∀ op ∈ rt, Aside op)
      (quiet : effect ≠ some .imported) : Edit c { rt, effect } c
  | fault (allowed : c.flags.faultInjection = true) : Edit c { rt := [.panic] } c

theorem setInput_cases (i : ℕ) (new : InputState) (c : Core) :
    setInput i new c = ({}, c) ∨ ∃ old node, c.s.inputs[i]? = some old ∧
      c.topo.inputs[i]? = some node ∧ setInput i new c =
        (.changed [.input node.id new] (inputOps i old new),
          { c with s := { c.s with inputs := c.s.inputs.set i new } }) := by
  unfold setInput
  split
  · rename_i old node held found
    by_cases same : old.peq new
    · exact .inl (if_pos same)
    · exact .inr ⟨old, node, held, found, if_neg same⟩
  · exact .inl rfl

theorem setOut_cases (m : ℕ) (new : MixOut) (c : Core) :
    setOut m new c = ({}, c) ∨ ∃ rec node, c.s.mixes[m]? = some rec ∧
      c.topo.mixes[m]? = some node ∧ setOut m new c =
        (.changed [.mixOut node.id new] (outOps m rec.out new),
          c.modifyMix m fun rec => { rec with out := new }) := by
  unfold setOut
  split
  · rename_i rec node held found
    by_cases same : rec.out.peq new
    · exact .inl (if_pos same)
    · exact .inr ⟨rec, node, held, found, if_neg same⟩
  · exact .inl rfl

/-- Level slot `k` of mix `m` set. -/
def withLevel (c : Core) (m k : ℕ) (new : Level) : Core :=
  c.modifyMix m fun rec => { rec with levels := rec.levels.set k new }

theorem setLevel_cases (m k : ℕ) (new : Level) (c : Core) :
    setLevel m k new c = ({}, c) ∨ ∃ rec old node source, c.s.mixes[m]? = some rec ∧
      rec.levels[k]? = some old ∧ c.topo.mixes[m]? = some node ∧ c.topo.source m k = some source ∧
      setLevel m k new c = (.changed [.level node.id source new] [(c.withLevel m k new).levelOp m k],
        c.withLevel m k new) := by
  unfold setLevel
  split
  · rename_i node source found heard
    split
    · exact .inl rfl
    · rename_i slot held
      obtain ⟨rec, there, slotHeld⟩ := Option.bind_eq_some_iff.mp held
      by_cases same : slot.peq new
      · exact .inl (if_pos same)
      · exact .inr ⟨rec, slot, node, source, there, slotHeld, found, heard, if_neg same⟩
  · exact .inl rfl

theorem setGroup_cases (m g : ℕ) (new : MixGroup) (c : Core) :
    setGroup m g new c = ({}, c) ∨ ∃ rec old node group, c.s.mixes[m]? = some rec ∧
      rec.groups[g]? = some old ∧ c.topo.mixes[m]? = some node ∧ c.topo.groups[g]? = some group ∧
      setGroup m g new c = (.changed [.group node.id group.id new] (groupOps m g old new),
        c.modifyMix m fun rec => { rec with groups := rec.groups.set g new }) := by
  unfold setGroup
  split
  · rename_i node group found named
    split
    · exact .inl rfl
    · rename_i old held
      obtain ⟨rec, there, stripHeld⟩ := Option.bind_eq_some_iff.mp held
      by_cases same : old.peq new
      · exact .inl (if_pos same)
      · exact .inr ⟨rec, old, node, group, there, stripHeld, found, named, if_neg same⟩
  · exact .inl rfl

/-- The solo of mix `m` replaced: an empty one is removed. -/
def withSolo (c : Core) (m : ℕ) (new : BTreeSet ℕ) : Core :=
  { c with solo := if new.isEmpty then c.solo.erase m else c.solo.insert m new }

omit [Libm] in
theorem withSolo_solo (c : Core) (m : ℕ) (new : BTreeSet ℕ) (k : ℕ) :
    (c.withSolo m new).solo[k]? =
      if m = k then (if new.isEmpty then none else some new) else c.solo[k]? := by
  unfold withSolo
  cases new.isEmpty with
  | true => simp [BTreeMap.getElem?_erase_eq]
  | false => simp [BTreeMap.getElem?_insert_eq]

theorem replaceSolo_cases (m : ℕ) (mix : MixId) (new : BTreeSet ℕ) (c : Core) :
    replaceSolo m mix new c = ({}, c) ∨ replaceSolo m mix new c =
      (.changed [.solo mix (new.toList.filterMap (c.topo.source m))] ((c.withSolo m new).levelOps m),
        c.withSolo m new) := by
  unfold replaceSolo
  by_cases same : c.solo[m]?.getD ∅ = new
  · exact .inl (if_pos same)
  · exact .inr (if_neg same)

private theorem startTest_spec {input : InputId} {hz dbfs ttlS : F64} {mask : Option HilMask}
    {listen : Bool} {c c' : Core} {p : Partial}
    (ran : startTest input hz dbfs ttlS mask listen c = .ok p c') : Edit c p c' := by
  simp only [startTest] at ran
  rw [get_then] at ran
  simp only [read_then_ok] at ran
  obtain ⟨i, -, hz', hzOk, dbfs', dbfsOk, ttlS', ttlOk, ran⟩ := ran
  obtain ⟨rfl, rfl⟩ := written ran
  refine .test _ mask.isSome _ ⟨capped_holds (by decide +kernel) hzOk,
    capped_holds (by decide +kernel) dbfsOk, capped_holds (by decide +kernel) ttlOk⟩ ?_
  cases mask with
  | none => trivial
  | some mask => trivial

/-- Every accepted request is an import or one of the edits. -/
theorem one_spec (cmd : Cmd) (c c' : Core) (p : Partial) (ran : one cmd c = .ok p c') :
    (∃ state, cmd = .importState state ∧ (p, c') = importState state c) ∨ Edit c p c' := by
  unfold one at ran
  rw [get_then] at ran
  cases cmd with
  | importState state =>
    obtain ⟨rfl, rfl⟩ := written ran
    exact .inl ⟨state, rfl, rfl⟩
  | setInput input trimDb muted processing =>
    simp only [read_then_ok] at ran
    obtain ⟨i, -, trimDb', capped, ran⟩ := ran
    obtain ⟨rfl, rfl⟩ := written ran
    right
    exact .input i _ fun old => ⟨cappedOr_holds Range.trimDb_proper capped old.trimDb, old.eq⟩
  | setMix mix volumeDb muted =>
    simp only [read_then_ok] at ran
    obtain ⟨m, -, volumeDb', capped, ran⟩ := ran
    obtain ⟨rfl, rfl⟩ := written ran
    right
    exact .out m _ fun old =>
      ⟨cappedOr_holds Range.faderDb_proper capped old.volumeDb, old.eq, old.limitDb⟩
  | setLevel mix source gainDb pan muted =>
    rw [read_then_ok] at ran
    obtain ⟨m, -, ran⟩ := ran
    cases heard : c.topo.slot m source with
    | none =>
      rw [heard] at ran
      cases ran
    | some k =>
      simp only [heard, read_then_ok] at ran
      obtain ⟨gainDb', gainOk, pan', panOk, ran⟩ := ran
      obtain ⟨rfl, rfl⟩ := written ran
      right
      exact .level m k _ fun old => ⟨cappedOr_holds Range.faderDb_proper gainOk old.gainDb,
        cappedOr_holds Range.pan_proper panOk old.pan⟩
  | setGroup mix group gainDb muted =>
    simp only [read_then_ok] at ran
    obtain ⟨m, -, g, -, gainDb', capped, ran⟩ := ran
    obtain ⟨rfl, rfl⟩ := written ran
    right
    exact .group m g _ fun old => ⟨cappedOr_holds Range.faderDb_proper capped old.gainDb, old.eq⟩
  | setEq target eq =>
    obtain ⟨-, ran⟩ := refused_then_ok.mp ran
    cases target with
    | input id =>
      simp only [read_then_ok] at ran
      obtain ⟨i, -, ran⟩ := ran
      obtain ⟨rfl, rfl⟩ := written ran
      right
      exact .input i _ fun old => ⟨old.trimDb, capEq_ok eq⟩
    | mix id =>
      simp only [read_then_ok] at ran
      obtain ⟨m, -, ran⟩ := ran
      obtain ⟨rfl, rfl⟩ := written ran
      right
      exact .out m _ fun old => ⟨old.volumeDb, capEq_ok eq, old.limitDb⟩
    | group mix group =>
      simp only [read_then_ok] at ran
      obtain ⟨m, -, g, -, ran⟩ := ran
      obtain ⟨rfl, rfl⟩ := written ran
      right
      exact .group m g _ fun old => ⟨old.gainDb, capEq_ok eq⟩
  | setLimiter mix enabled limitDb =>
    simp only [read_then_ok] at ran
    obtain ⟨m, -, limitDb', capped, ran⟩ := ran
    obtain ⟨rfl, rfl⟩ := written ran
    right
    exact .out m _ fun old =>
      ⟨old.volumeDb, old.eq, cappedOr_holds Range.limitDb_proper capped old.limitDb⟩
  | resetLimiterStats mix =>
    rw [read_then_ok] at ran
    obtain ⟨m, -, ran⟩ := ran
    cases ran
    right
    exact .limiterReset mix m
  | setSolo mix sources =>
    simp only [setSolo] at ran
    rw [get_then, read_then_ok] at ran
    obtain ⟨m, named, ran⟩ := ran
    rw [refused_then_ok, read_then_ok] at ran
    obtain ⟨-, new, slots, ran⟩ := ran
    obtain ⟨rfl, rfl⟩ := written ran
    right
    exact .solo m mix new (mix_named named) (soloSlots_heard slots (by simp))
  | startListen mix =>
    simp only [startListen] at ran
    rw [get_then, read_then_ok] at ran
    obtain ⟨m, named, ran⟩ := ran
    by_cases held : c.listen[listenSlot c.topo m] = some m
    · rw [if_pos held] at ran
      cases ran
      right
      exact .nothing [] none (by simp) (by simp)
    · rw [if_neg held, refused_then_ok] at ran
      obtain ⟨rfl, rfl⟩ := written ran.2
      right
      exact .tap m mix (mix_named named) held
  | stopListen mix =>
    rw [read_then_ok] at ran
    obtain ⟨m, -, ran⟩ := ran
    obtain ⟨rfl, rfl⟩ := written ran
    right
    exact .untap m
  | startTestSignal input hz dbfs ttlS =>
    rw [read_then_ok] at ran
    obtain ⟨-, -, ran⟩ := ran
    exact .inr (startTest_spec (refused_then_ok.mp ran).2)
  | hilTestSignal input hz dbfs ttlS cardTx listen =>
    rw [read_then_ok] at ran
    obtain ⟨-, -, ran⟩ := ran
    rw [refused_then_ok, read_then_ok] at ran
    obtain ⟨-, mask, -, ran⟩ := ran
    exact .inr (startTest_spec ran)
  | stopTestSignal =>
    obtain ⟨rfl, rfl⟩ := written ran
    exact .inr (.testEnded _ (by simp [Aside]))
  | injectFault =>
    rw [read_then_ok] at ran
    obtain ⟨done, allowed, ran⟩ := ran
    have flag : c.flags.faultInjection = true := by
      unfold needFaultInjection at allowed
      split at allowed
      · assumption
      · cases allowed
    cases ran
    exact .inr (.fault flag)
  | batch ops => cases ran
  | getState =>
    cases ran
    right
    exact .nothing [] (some .sendState) (by simp) (by simp)
  | getTopology =>
    cases ran
    right
    exact .nothing [] (some .sendTopology) (by simp) (by simp)
  | saveNow =>
    cases ran
    right
    exact .nothing [] (some .save) (by simp) (by simp)
  | shutdown =>
    cases ran
    right
    exact .nothing [] (some .shutdown) (by simp) (by simp)
  | ping =>
    cases ran
    right
    exact .nothing [] none (by simp) (by simp)
  | arm =>
    cases ran
    right
    exact .nothing [.arm] none (by simp [Aside]) (by simp)

/-- The mix state, the solos and the taps are the same. -/
def SameMix (c c' : Core) : Prop :=
  c'.topo = c.topo ∧ c'.s = c.s ∧ c'.solo = c.solo ∧ c'.listen = c.listen

omit [Libm] in
theorem takeTest_sameMix (rt : List RtOp) (c : Core) : SameMix c (takeTest rt c).2 := by
  rcases takeTest_cases rt c with ⟨-, same⟩ | same <;> rw [same] <;> exact ⟨rfl, rfl, rfl, rfl⟩

private theorem startTest_sameMix {input : InputId} {hz dbfs ttlS : F64} {mask : Option HilMask}
    {listen : Bool} {c c' : Core} {p : Partial}
    (ran : startTest input hz dbfs ttlS mask listen c = .ok p c') : SameMix c c' := by
  simp only [startTest] at ran
  rw [get_then] at ran
  simp only [read_then_ok] at ran
  obtain ⟨i, -, hz', -, dbfs', -, ttlS', -, ran⟩ := ran
  obtain ⟨-, rfl⟩ := written ran
  exact ⟨rfl, rfl, rfl, rfl⟩

/-- What a supervisor may send changes no mix, no solo and no tap. -/
theorem supervisor_sameMix {cmd : Cmd} (may : cmd.supervisorMay = true) {c c' : Core} {p : Partial}
    (ran : one cmd c = .ok p c') : SameMix c c' := by
  unfold one at ran
  rw [get_then] at ran
  cases cmd with
  | startTestSignal input hz dbfs ttlS =>
    rw [read_then_ok] at ran
    obtain ⟨-, -, ran⟩ := ran
    exact startTest_sameMix (refused_then_ok.mp ran).2
  | hilTestSignal input hz dbfs ttlS cardTx listen =>
    rw [read_then_ok] at ran
    obtain ⟨-, -, ran⟩ := ran
    rw [refused_then_ok, read_then_ok] at ran
    obtain ⟨-, mask, -, ran⟩ := ran
    exact startTest_sameMix ran
  | stopTestSignal =>
    obtain ⟨-, rfl⟩ := written ran
    exact takeTest_sameMix _ c
  | injectFault =>
    rw [read_then_ok] at ran
    obtain ⟨-, -, ran⟩ := ran
    cases ran
    exact ⟨rfl, rfl, rfl, rfl⟩
  | getState | getTopology | saveNow | shutdown | ping | arm =>
    cases ran
    exact ⟨rfl, rfl, rfl, rfl⟩
  | setInput | setMix | setLevel | setGroup | setEq | setLimiter | resetLimiterStats | setSolo
  | startListen | stopListen | batch | importState => cases may

/-- Every check of a request comes before its first write. -/
theorem one_keepsOnError (cmd : Cmd) : KeepsOnError (one cmd) := by
  have test : ∀ input hz dbfs ttlS mask listen,
      KeepsOnError (startTest input hz dbfs ttlS mask listen) := by
    intro input hz dbfs ttlS mask listen
    refine keepsOnError_bind keeps_get fun self => ?_
    refine keepsOnError_bind (keeps_lift _) fun i => ?_
    refine keepsOnError_bind (keeps_lift _) fun hz => ?_
    refine keepsOnError_bind (keeps_lift _) fun dbfs => ?_
    refine keepsOnError_bind (keeps_lift _) fun ttlS => ?_
    exact keepsOnError_modifyGet _
  refine keepsOnError_bind keeps_get fun self => ?_
  cases cmd with
  | setInput input trimDb muted processing =>
    refine keepsOnError_bind (keeps_lift _) fun i => ?_
    exact keepsOnError_bind (keeps_lift _) fun trimDb => keepsOnError_modifyGet _
  | setMix mix volumeDb muted =>
    refine keepsOnError_bind (keeps_lift _) fun m => ?_
    exact keepsOnError_bind (keeps_lift _) fun volumeDb => keepsOnError_modifyGet _
  | setLevel mix source gainDb pan muted =>
    refine keepsOnError_bind (keeps_lift _) fun m => ?_
    cases heard : self.topo.slot m source with
    | none => exact keepsOnError_throw _
    | some k =>
      refine keepsOnError_bind (keeps_lift _) fun gainDb => ?_
      exact keepsOnError_bind (keeps_lift _) fun pan => keepsOnError_modifyGet _
  | setGroup mix group gainDb muted =>
    refine keepsOnError_bind (keeps_lift _) fun m => ?_
    refine keepsOnError_bind (keeps_lift _) fun g => ?_
    exact keepsOnError_bind (keeps_lift _) fun gainDb => keepsOnError_modifyGet _
  | setEq target eq =>
    refine keepsOnError_ite (keepsOnError_throw _) ?_
    cases target with
    | input id => exact keepsOnError_bind (keeps_lift _) fun i => keepsOnError_modifyGet _
    | mix id => exact keepsOnError_bind (keeps_lift _) fun m => keepsOnError_modifyGet _
    | group mix group =>
      refine keepsOnError_bind (keeps_lift _) fun m => ?_
      exact keepsOnError_bind (keeps_lift _) fun g => keepsOnError_modifyGet _
  | setLimiter mix enabled limitDb =>
    refine keepsOnError_bind (keeps_lift _) fun m => ?_
    exact keepsOnError_bind (keeps_lift _) fun limitDb => keepsOnError_modifyGet _
  | resetLimiterStats mix => exact keepsOnError_bind (keeps_lift _) fun m => keepsOnError_pure _
  | setSolo mix sources =>
    refine keepsOnError_bind keeps_get fun self => ?_
    refine keepsOnError_bind (keeps_lift _) fun m => ?_
    refine keepsOnError_ite (keepsOnError_throw _) ?_
    exact keepsOnError_bind (keeps_lift _) fun new => keepsOnError_modifyGet _
  | startListen mix =>
    refine keepsOnError_bind keeps_get fun self => ?_
    refine keepsOnError_bind (keeps_lift _) fun m => ?_
    refine keepsOnError_ite (keepsOnError_pure _) ?_
    exact keepsOnError_ite (keepsOnError_throw _) (keepsOnError_modifyGet _)
  | stopListen mix => exact keepsOnError_bind (keeps_lift _) fun m => keepsOnError_modifyGet _
  | startTestSignal input hz dbfs ttlS =>
    refine keepsOnError_bind (keeps_lift _) fun _ => ?_
    exact keepsOnError_ite (keepsOnError_throw _) (test _ _ _ _ _ _)
  | hilTestSignal input hz dbfs ttlS cardTx listen =>
    refine keepsOnError_bind (keeps_lift _) fun _ => ?_
    refine keepsOnError_ite (keepsOnError_throw _) ?_
    exact keepsOnError_bind (keeps_lift _) fun mask => test _ _ _ _ _ _
  | stopTestSignal => exact keepsOnError_modifyGet _
  | injectFault => exact keepsOnError_bind (keeps_lift _) fun _ => keepsOnError_pure _
  | batch ops => exact keepsOnError_throw _
  | importState state => exact keepsOnError_modifyGet _
  | getState | getTopology | saveNow | shutdown | ping | arm => exact keepsOnError_pure _

omit [Libm]

def withRev (r : ℕ) (c : Core) : Core := { c with rev := r }

/-- How a request ended, with the revision set to `r`. -/
def atRev (r : ℕ) : EStateM.Result CmdError Core α → EStateM.Result CmdError Core α
  | .ok a c => .ok a (c.withRev r)
  | .error e c => .error e (c.withRev r)

private theorem read_atRev {x : Except CmdError α} {f g : α → Edits β} {c : Core} {r : ℕ}
    (same : ∀ a, g a (c.withRev r) = atRev r (f a c)) :
    ((liftM x : Edits α) >>= g) (c.withRev r) = atRev r (((liftM x : Edits α) >>= f) c) := by
  cases x with
  | error e => rfl
  | ok a => exact same a

private theorem write_atRev {f : Core → α × Core} {c : Core} {r : ℕ}
    (same : f (c.withRev r) = ((f c).1, (f c).2.withRev r)) :
    (modifyGet f : Edits α) (c.withRev r) = atRev r ((modifyGet f : Edits α) c) := by
  simp only [modifyGet_run, same, atRev]

private theorem ite_atRev {cond : Prop} [Decidable cond] {x y x' y' : Edits α} {c : Core} {r : ℕ}
    (yes : x' (c.withRev r) = atRev r (x c)) (no : y' (c.withRev r) = atRev r (y c)) :
    (if cond then x' else y') (c.withRev r) = atRev r ((if cond then x else y) c) := by
  by_cases taken : cond
  · simpa only [if_pos taken] using yes
  · simpa only [if_neg taken] using no

private theorem takeTest_atRev (rt : List RtOp) (c : Core) (r : ℕ) :
    takeTest rt (c.withRev r) = ((takeTest rt c).1, (takeTest rt c).2.withRev r) := by
  unfold takeTest
  by_cases running : c.test.isSome
  · rw [if_pos running, if_pos (show (c.withRev r).test.isSome from running)]
    rfl
  · rw [if_neg running, if_neg (show ¬ (c.withRev r).test.isSome from running)]

section
variable [Libm]

private theorem setInput_atRev (i : ℕ) (new : InputState) (c : Core) (r : ℕ) :
    setInput i new (c.withRev r) = ((setInput i new c).1, (setInput i new c).2.withRev r) := by
  simp only [setInput, withRev]
  split
  · split <;> rfl
  · rfl

private theorem setOut_atRev (m : ℕ) (new : MixOut) (c : Core) (r : ℕ) :
    setOut m new (c.withRev r) = ((setOut m new c).1, (setOut m new c).2.withRev r) := by
  simp only [setOut, withRev]
  split
  · split <;> rfl
  · rfl

private theorem setLevel_atRev (m k : ℕ) (new : Level) (c : Core) (r : ℕ) :
    setLevel m k new (c.withRev r) = ((setLevel m k new c).1, (setLevel m k new c).2.withRev r) := by
  simp only [setLevel, withRev]
  split
  · split
    · rfl
    · split <;> rfl
  · rfl

private theorem setGroup_atRev (m g : ℕ) (new : MixGroup) (c : Core) (r : ℕ) :
    setGroup m g new (c.withRev r) = ((setGroup m g new c).1, (setGroup m g new c).2.withRev r) := by
  simp only [setGroup, withRev]
  split
  · split
    · rfl
    · split <;> rfl
  · rfl

private theorem replaceSolo_atRev (m : ℕ) (mix : MixId) (new : BTreeSet ℕ) (c : Core) (r : ℕ) :
    replaceSolo m mix new (c.withRev r) =
      ((replaceSolo m mix new c).1, (replaceSolo m mix new c).2.withRev r) := by
  unfold replaceSolo
  by_cases same : c.solo[m]?.getD ∅ = new
  · rw [if_pos same, if_pos (show (c.withRev r).solo[m]?.getD ∅ = new from same)]
  · rw [if_neg same, if_neg (show ¬ (c.withRev r).solo[m]?.getD ∅ = new from same)]
    rfl

private theorem startTest_atRev (input : InputId) (hz dbfs ttlS : F64) (mask : Option HilMask)
    (listen : Bool) (c : Core) (r : ℕ) :
    startTest input hz dbfs ttlS mask listen (c.withRev r) =
      atRev r (startTest input hz dbfs ttlS mask listen c) :=
  read_atRev fun _ => read_atRev fun _ => read_atRev fun _ => read_atRev fun _ => write_atRev rfl

/-- What a request does is the same at every revision. -/
theorem one_atRev (cmd : Cmd) (c : Core) (r : ℕ) :
    one cmd (c.withRev r) = atRev r (one cmd c) := by
  unfold one
  rw [get_then, get_then]
  cases cmd with
  | setInput input trimDb muted processing =>
    exact read_atRev fun i => read_atRev fun trimDb => write_atRev (setInput_atRev i _ c r)
  | setMix mix volumeDb muted =>
    exact read_atRev fun m => read_atRev fun volumeDb => write_atRev (setOut_atRev m _ c r)
  | setLevel mix source gainDb pan muted =>
    refine read_atRev fun m => ?_
    rw [show (c.withRev r).topo = c.topo from rfl]
    cases heard : c.topo.slot m source with
    | none => rfl
    | some k =>
      exact read_atRev fun gainDb => read_atRev fun pan => write_atRev (setLevel_atRev m k _ c r)
  | setGroup mix group gainDb muted =>
    exact read_atRev fun m => read_atRev fun g => read_atRev fun gainDb =>
      write_atRev (setGroup_atRev m g _ c r)
  | setEq target eq =>
    refine ite_atRev rfl ?_
    cases target with
    | input id => exact read_atRev fun i => write_atRev (setInput_atRev i _ c r)
    | mix id => exact read_atRev fun m => write_atRev (setOut_atRev m _ c r)
    | group mix group =>
      exact read_atRev fun m => read_atRev fun g => write_atRev (setGroup_atRev m g _ c r)
  | setLimiter mix enabled limitDb =>
    exact read_atRev fun m => read_atRev fun limitDb => write_atRev (setOut_atRev m _ c r)
  | resetLimiterStats mix => exact read_atRev fun m => rfl
  | setSolo mix sources =>
    exact read_atRev fun m => ite_atRev rfl (read_atRev fun new =>
      write_atRev (replaceSolo_atRev m mix new c r))
  | startListen mix =>
    exact read_atRev fun m => ite_atRev rfl (ite_atRev rfl (write_atRev rfl))
  | stopListen mix => exact read_atRev fun m => write_atRev rfl
  | startTestSignal input hz dbfs ttlS =>
    exact read_atRev fun _ => ite_atRev rfl (startTest_atRev _ _ _ _ _ _ c r)
  | hilTestSignal input hz dbfs ttlS cardTx listen =>
    exact read_atRev fun _ => ite_atRev rfl (read_atRev fun mask =>
      startTest_atRev _ _ _ _ _ _ c r)
  | stopTestSignal => exact write_atRev (takeTest_atRev _ c r)
  | injectFault => exact read_atRev fun _ => rfl
  | importState state => exact write_atRev rfl
  | batch ops => rfl
  | getState | getTopology | saveNow | shutdown | ping | arm => rfl

end

end IemMixer.Core
