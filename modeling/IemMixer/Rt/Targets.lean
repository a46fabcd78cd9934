import IemMixer.Lib.Addressed
import IemMixer.Rt.Processor

/-! What a processor moves towards, as plain values: the ramps are forgotten, a
zero's sign with them, and each command is an assignment. `Processor.apply` is
followed step by step by this machine. An index of a command is a `u16` that
saturates, so a list is seen up to the last place one index names alone. -/
namespace IemMixer.Rt
open Lib Proto Dsp

/-- A smoothed gain pair's targets. -/
structure GainTargets where
  l : F64
  r : F64
  on : F64
  deriving DecidableEq

structure BandTargets where
  band : Band
  freq : F64
  gain : F64
  bw : F64
  wet : F64
  deriving DecidableEq

structure EqTargets where
  bands : Vector BandTargets 5
  globalGain : F64
  deriving DecidableEq

structure InputTargets where
  trim : F64
  gate : F64
  procMix : F64
  eq : EqTargets
  deriving DecidableEq

structure GroupTargets where
  eq : EqTargets
  fader : GainTargets
  deriving DecidableEq

/-- An output chain: a mix's own or its shadow's. -/
structure ChainTargets where
  eq : EqTargets
  enabled : Bool
  limitDb : F64
  fader : GainTargets
  deriving DecidableEq

structure MixTargets where
  chain : ChainTargets
  shadow : Option ChainTargets
  levels : List GainTargets
  groups : List GroupTargets
  deriving DecidableEq

structure Targets where
  inputs : List InputTargets
  mixes : List MixTargets
  deriving DecidableEq

section
variable [Libm]

def gainTargets (vol : F64) (muted : Bool) (pan : F64) : GainTargets :=
  let (gl, gr) := sendGains vol false pan
  ⟨gl.num, gr.num, onOff !muted⟩

def bandTargets (b : Band) : BandTargets :=
  ⟨b, (freqKey b).num, (gainKey b).num, (bwKey b).num, onOff b.enabled⟩

def EqTargets.set (t : EqTargets) (p : EqParams) : EqTargets where
  bands := Vector.zipWith (fun old b => if b.isValid then bandTargets b else old) t.bands p.bands
  globalGain := if isGain p.globalGain then p.globalGain.num else t.globalGain

def InputTargets.apply (t : InputTargets) : RtOp → InputTargets
  | .input _ p => { t with trim := p.trim.num, gate := onOff !p.muted, procMix := onOff p.processing }
  | .inputEq _ eq => { t with eq := t.eq.set eq }
  | _ => t

def ChainTargets.apply (t : ChainTargets) : RtOp → ChainTargets
  | .mixOut _ volume muted => { t with fader := gainTargets volume muted (.fin 0) }
  | .mixEq _ eq => { t with eq := t.eq.set eq }
  | .limiter _ enabled limitDb => { t with enabled, limitDb := limitDb.num }
  | _ => t

def GroupTargets.apply (t : GroupTargets) : RtOp → GroupTargets
  | .group _ _ gain muted => { t with fader := gainTargets gain muted (.fin 0) }
  | .groupEq _ _ eq => { t with eq := t.eq.set eq }
  | _ => t

def MixTargets.apply (t : MixTargets) (op : RtOp) : MixTargets :=
  match op with
  | .mixOut .. | .mixEq .. | .limiter .. =>
    { t with chain := t.chain.apply op, shadow := t.shadow.map (·.apply op) }
  | .level _ k gain pan muted =>
    { t with levels := t.levels.modify k fun _ => gainTargets gain muted pan }
  | .group _ g .. | .groupEq _ g _ => { t with groups := t.groups.modify g (·.apply op) }
  | _ => t

def Targets.apply (t : Targets) (op : RtOp) : Targets :=
  match op with
  | .input i _ | .inputEq i _ => { t with inputs := t.inputs.modify i (·.apply op) }
  | .mixOut m .. | .mixEq m _ | .limiter m .. | .level m .. | .group m .. | .groupEq m .. =>
    { t with mixes := t.mixes.modify m (·.apply op) }
  | _ => t

end

def gainTargetsOf (g : StereoGain) : GainTargets := ⟨g.l.target.num, g.r.target.num, g.on.target.num⟩

def bandTargetsOf (s : BandState) : BandTargets :=
  ⟨s.target, s.freq.target.num, s.gain.target.num, s.bw.target.num, s.wet.target.num⟩

def eqTargetsOf (e : Equalizer) : EqTargets := ⟨e.bands.map bandTargetsOf, e.global.target.num⟩

def InputRt.targets (n : InputRt) : InputTargets :=
  ⟨n.trim.target.num, n.gate.target.num, n.procMix.target.num, eqTargetsOf n.eq⟩

def GroupRt.targets (s : GroupRt) : GroupTargets := ⟨eqTargetsOf s.eq, gainTargetsOf s.fader⟩

def ShadowRt.targets (s : ShadowRt) : ChainTargets :=
  ⟨eqTargetsOf s.eq, s.limiter.enabled, s.limiter.raise.target.num, gainTargetsOf s.fader⟩

def MixRt.targets (n : MixRt) : MixTargets where
  chain := ⟨eqTargetsOf n.eq, n.limiter.enabled, n.limiter.raise.target.num, gainTargetsOf n.fader⟩
  shadow := n.shadow.map (·.targets)
  levels := named (2 ^ 16) (n.levels.map gainTargetsOf)
  groups := named (2 ^ 16) (n.groups.map (·.targets))

def Processor.targets (p : Processor) : Targets where
  inputs := named (2 ^ 16) (p.inputs.map (·.targets))
  mixes := named (2 ^ 16) (p.mixes.map (·.targets))

@[simp] theorem num_num (v : F64) : v.num.num = v.num := by cases v <;> rfl

@[simp] theorem onOff_num (on : Bool) : (onOff on).num = onOff on := by cases on <;> rfl

@[simp] theorem new_target (value : F64) (len : ℕ) : (Ramp.new value len).target = value := rfl

@[simp] theorem set_target_num (r : Ramp) (target : F64) : (r.set target).target.num = target.num := by
  unfold Ramp.set
  split
  · rename_i same
    exact (F64.num_of_peq same).symm
  · rfl

@[simp] theorem jump_target (r : Ramp) (value : F64) : (r.jump value).target = value := rfl

section
variable [Libm]

theorem gainTargetsOf_set (g : StereoGain) (vol : F64) (muted : Bool) (pan : F64) :
    gainTargetsOf (g.set vol muted pan) = gainTargets vol muted pan := by
  simp [gainTargetsOf, gainTargets, StereoGain.set]

theorem gainTargetsOf_new (vol : F64) (muted : Bool) (pan : F64) :
    gainTargetsOf (.new vol muted pan) = gainTargets vol muted pan := by
  simp [gainTargetsOf, gainTargets, StereoGain.new]

theorem bandTargetsOf_new (b : Band) (len : ℕ) : bandTargetsOf (.new b len) = bandTargets b := by
  simp [bandTargetsOf, bandTargets, BandState.new]

theorem bandTargetsOf_set (s : BandState) (b : Band) : bandTargetsOf (s.set b) = bandTargets b := by
  unfold BandState.set
  by_cases restart : b.kind ≠ s.target.kind ∨ s.bypassed
  · simp [restart, bandTargetsOf, bandTargets, BandState.new]
  · simp [restart, bandTargetsOf, bandTargets]

theorem eqTargetsOf_set (e : Equalizer) (p : EqParams) :
    eqTargetsOf (e.set p) = (eqTargetsOf e).set p := by
  unfold eqTargetsOf EqTargets.set Equalizer.set
  congr 1
  · ext i bound : 1
    simp only [Vector.getElem_map, Vector.getElem_zipWith]
    split
    · exact bandTargetsOf_set _ _
    · rfl
  · split
    · exact set_target_num _ _
    · rfl

/-- The targets of valid parameters. -/
def eqTargets (p : EqParams) : EqTargets := ⟨p.bands.map bandTargets, p.globalGain.num⟩

omit [Libm] in
/-- Parameters the EQ takes whole. -/
def Valid (p : EqParams) : Prop := (∀ b ∈ p.bands, b.isValid) ∧ isGain p.globalGain

theorem EqTargets.set_valid {p : EqParams} (valid : Valid p) (t : EqTargets) :
    t.set p = eqTargets p := by
  unfold EqTargets.set eqTargets
  congr 1
  · ext i bound : 1
    rw [Vector.getElem_zipWith, Vector.getElem_map,
      if_pos (valid.1 _ (Vector.getElem_mem bound))]
  · rw [if_pos valid.2]

theorem eqTargetsOf_new {p : EqParams} (valid : Valid p) : eqTargetsOf (.new p) = eqTargets p := by
  unfold eqTargetsOf eqTargets Equalizer.new
  congr 1
  · ext i bound : 1
    rw [Vector.getElem_map, Vector.getElem_zipWith, Vector.getElem_map, bandTargetsOf_new,
      if_pos (valid.1 _ (Vector.getElem_mem bound))]
  · rw [new_target, if_pos valid.2]

/-- An EQ's ramps move to what its targets say, and these are valid. -/
structure Sound (e : Equalizer) : Prop where
  valid : Valid e.params
  targets : eqTargetsOf e = eqTargets e.params

/-- Re-entered from its targets, a sound EQ keeps them. -/
theorem Sound.renewed {e : Equalizer} (sound : Sound e) :
    eqTargetsOf (.new e.params) = eqTargetsOf e := by
  rw [eqTargetsOf_new sound.valid, sound.targets]

private theorem sound_iff (e : Equalizer) : Sound e ↔
    (∀ s ∈ e.bands, s.target.isValid ∧ bandTargetsOf s = bandTargets s.target) ∧
      isGain e.global.target := by
  constructor
  · rintro ⟨⟨valid, gain⟩, targets⟩
    refine ⟨fun s member => ⟨valid _ (Vector.mem_map.mpr ⟨s, member, rfl⟩), ?_⟩, gain⟩
    obtain ⟨i, bound, rfl⟩ := Vector.getElem_of_mem member
    have here := congrArg (fun t : EqTargets => t.bands[i]) targets
    simpa [eqTargetsOf, eqTargets, Equalizer.params] using here
  · rintro ⟨bands, gain⟩
    refine ⟨⟨fun b member => ?_, gain⟩, ?_⟩
    · obtain ⟨s, inside, rfl⟩ := Vector.mem_map.mp member
      exact (bands s inside).1
    · unfold eqTargetsOf eqTargets Equalizer.params
      congr 1
      ext i bound : 1
      simp only [Vector.getElem_map]
      exact (bands _ (Vector.getElem_mem bound)).2

theorem new_sound (p : EqParams) : Sound (.new p) := by
  have flat : ∀ b ∈ standardFlat.bands, b.isValid = true := by decide +kernel
  refine (sound_iff _).mpr ⟨fun s member => ?_, ?_⟩
  · obtain ⟨i, bound, rfl⟩ := Vector.getElem_of_mem member
    simp only [Equalizer.new, Vector.getElem_zipWith]
    refine ⟨?_, bandTargetsOf_new _ _⟩
    show (if _ then _ else _ : Band).isValid = true
    split
    · assumption
    · exact flat _ (Vector.getElem_mem bound)
  · show isGain (if _ then _ else _) = true
    split
    · assumption
    · decide

theorem Sound.set {e : Equalizer} (sound : Sound e) (p : EqParams) : Sound (e.set p) := by
  obtain ⟨bands, gain⟩ := (sound_iff e).mp sound
  refine (sound_iff _).mpr ⟨fun s member => ?_, ?_⟩
  · obtain ⟨i, bound, rfl⟩ := Vector.getElem_of_mem member
    simp only [Equalizer.set, Vector.getElem_zipWith]
    split
    · rename_i valid
      have target : (BandState.set e.bands[i] p.bands[i]).target = p.bands[i] := by
        unfold BandState.set
        by_cases restart : p.bands[i].kind ≠ e.bands[i].target.kind ∨ e.bands[i].bypassed
        · simp [restart, BandState.new]
        · simp [restart]
      rw [target]
      exact ⟨valid, bandTargetsOf_set _ _⟩
    · exact bands _ (Vector.getElem_mem bound)
  · simp only [Equalizer.set]
    split
    · rename_i valid
      unfold Ramp.set
      split
      · exact gain
      · exact valid
    · exact gain

omit [Libm] in
theorem map_modify {f : α → β} {g : α → α} (g' : β → β) (l : List α) (i : ℕ)
    (follows : ∀ x ∈ l, f (g x) = g' (f x)) : (l.modify i g).map f = (l.map f).modify i g' := by
  apply List.ext_getElem?
  intro j
  simp only [List.getElem?_map, List.getElem?_modify]
  split
  · cases held : l[j]? with
    | none => rfl
    | some x => simp [follows x (List.mem_of_getElem? held)]
  · simp

theorem setInput_targets (n : InputRt) (sound : Sound n.eq) (i : ℕ) (p : InputParams) :
    (Processor.setInput n p).targets = n.targets.apply (.input i p) ∧
      Sound (Processor.setInput n p).eq := by
  unfold Processor.setInput
  by_cases reentered : (p.processing && (!n.procMix.isMoving && n.procMix.value.peq (.fin 0))) = true
  · simp only [reentered, if_true]
    simp [InputRt.targets, InputTargets.apply, sound.renewed, new_sound]
  · simp only [reentered]
    simp [InputRt.targets, InputTargets.apply, sound]

theorem setOut_targets (n : MixRt) (m : ℕ) (volume : F64) (muted : Bool) :
    (Processor.setOut n volume muted).targets = n.targets.apply (.mixOut m volume muted) := by
  simp [Processor.setOut, MixRt.targets, MixTargets.apply, ChainTargets.apply, gainTargetsOf_set,
    Function.comp_def, ShadowRt.targets]

theorem setEq_targets (n : MixRt) (m : ℕ) (eq : EqParams) :
    (Processor.setEq n eq).targets = n.targets.apply (.mixEq m eq) := by
  simp [Processor.setEq, MixRt.targets, MixTargets.apply, ChainTargets.apply, eqTargetsOf_set,
    Function.comp_def, ShadowRt.targets]

omit [Libm] in
theorem limiter_set_targets (l : MixLimiter) (enabled : Bool) (limitDb : F64) :
    (l.set enabled limitDb).enabled = enabled ∧
      (l.set enabled limitDb).raise.target.num = limitDb.num := by
  unfold MixLimiter.set
  split <;> simp

theorem setLimiter_targets (n : MixRt) (m : ℕ) (enabled : Bool) (limitDb : F64) :
    (Processor.setLimiter n enabled limitDb).targets =
      n.targets.apply (.limiter m enabled limitDb) := by
  simp [Processor.setLimiter, MixRt.targets, MixTargets.apply, ChainTargets.apply,
    limiter_set_targets, Function.comp_def, ShadowRt.targets]

end

/-- Every input's EQ is sound. -/
def Processor.Sound [Libm] (p : Processor) : Prop := ∀ n ∈ p.inputs, Rt.Sound n.eq

section
variable [Libm]

private theorem inputs_follow {p : Processor} {i : ℕ} {g : InputRt → InputRt} (op : RtOp)
    (sound : p.Sound) (follows : ∀ n, Sound n.eq → (g n).targets = n.targets.apply op ∧ Sound (g n).eq) :
    named (2 ^ 16) ((p.inputs.modify i g).map (·.targets)) =
        (named (2 ^ 16) (p.inputs.map (·.targets))).modify i (·.apply op) ∧
      ∀ n ∈ p.inputs.modify i g, Sound n.eq := by
  constructor
  · rw [map_modify (·.apply op) _ _ fun n member => (follows n (sound n member)).1,
      named_modify]
  · intro n member
    obtain ⟨j, held⟩ := List.mem_iff_getElem?.mp member
    rw [List.getElem?_modify] at held
    obtain ⟨old, there, rfl⟩ := Option.map_eq_some_iff.mp held
    have before := sound old (List.mem_of_getElem? there)
    split
    · exact (follows old before).2
    · exact before

omit [Libm] in
private theorem mixes_follow (p : Processor) (m : ℕ) {g : MixRt → MixRt} (g' : MixTargets → MixTargets)
    (follows : ∀ n, (g n).targets = g' n.targets) :
    named (2 ^ 16) ((p.mixes.modify m g).map (·.targets)) =
      (named (2 ^ 16) (p.mixes.map (·.targets))).modify m g' := by
  rw [map_modify g' _ _ fun n _ => follows n, named_modify]

/-- The listen taps after a command. -/
def taps (listen : Vector (Option ℕ) 2) : RtOp → Vector (Option ℕ) 2
  | .listen slot mix => listen.setIfInBounds slot mix
  | _ => listen

/-- One command, seen as an assignment to the targets and the taps. -/
theorem apply_follows {p p' : Processor} {op : RtOp} (sound : p.Sound) (ran : p.apply op = some p') :
    p'.targets = p.targets.apply op ∧ p'.Sound ∧ p'.listen = taps p.listen op := by
  have mixesOnly : ∀ (m : ℕ) (g : MixRt → MixRt), (∀ n, (g n).targets = n.targets.apply op) →
      ({ p with mixes := p.mixes.modify m g } : Processor).targets =
        { p.targets with mixes := p.targets.mixes.modify m (·.apply op) } := by
    intro m g follows
    simp only [Processor.targets]
    rw [mixes_follow p m (·.apply op) follows]
  cases op with
  | nop | listen slot mix | fadeOut | stopTestSignal =>
    cases ran
    exact ⟨rfl, sound, rfl⟩
  | input i params =>
    cases ran
    obtain ⟨follow, kept⟩ := inputs_follow (i := i) (.input i params) sound fun n ok =>
      setInput_targets n ok i params
    exact ⟨by simp only [Processor.targets, Targets.apply, follow], kept, rfl⟩
  | inputEq i eq =>
    cases ran
    obtain ⟨follow, kept⟩ := inputs_follow (i := i) (.inputEq i eq)
      (g := fun n => { n with eq := n.eq.set eq }) sound fun n ok =>
        ⟨by simp [InputRt.targets, InputTargets.apply, eqTargetsOf_set], ok.set eq⟩
    exact ⟨by simp only [Processor.targets, Targets.apply, follow], kept, rfl⟩
  | mixOut m volume muted =>
    cases ran
    exact ⟨mixesOnly m _ fun n => setOut_targets n m volume muted, sound, rfl⟩
  | mixEq m eq =>
    cases ran
    exact ⟨mixesOnly m _ fun n => setEq_targets n m eq, sound, rfl⟩
  | limiter m enabled limitDb =>
    cases ran
    exact ⟨mixesOnly m _ fun n => setLimiter_targets n m enabled limitDb, sound, rfl⟩
  | resetLimiter m =>
    cases ran
    refine ⟨?_, sound, rfl⟩
    have same := mixes_follow p m (g := fun n => { n with limiter := n.limiter.resetStats })
      id fun n => rfl
    simp only [Processor.targets, Targets.apply, same, List.modify_id]
  | level m k gain pan muted =>
    cases ran
    refine ⟨mixesOnly m _ fun n => ?_, sound, rfl⟩
    simp only [MixRt.targets, MixTargets.apply]
    rw [map_modify (fun _ => gainTargets gain muted pan) _ _
      (fun g _ => gainTargetsOf_set g gain muted pan), named_modify]
  | group m g gain muted =>
    cases ran
    refine ⟨mixesOnly m _ fun n => ?_, sound, rfl⟩
    simp only [MixRt.targets, MixTargets.apply]
    rw [map_modify (·.apply (.group m g gain muted)) _ _
      (fun s _ => by simp [GroupRt.targets, GroupTargets.apply, gainTargetsOf_set]), named_modify]
  | groupEq m g eq =>
    cases ran
    refine ⟨mixesOnly m _ fun n => ?_, sound, rfl⟩
    simp only [MixRt.targets, MixTargets.apply]
    rw [map_modify (·.apply (.groupEq m g eq)) _ _
      (fun s _ => by simp [GroupRt.targets, GroupTargets.apply, eqTargetsOf_set]), named_modify]
  | testSignal i hz amp ttl | hilTestSignal i hz amp ttl mask listen =>
    cases ran
    refine ⟨?_, sound, rfl⟩
    simp only [Processor.targets, Processor.startTest, Targets.apply, List.map_map]
    rfl
  | panic => cases ran
  | arm =>
    simp only [Processor.apply] at ran
    split at ran
    · cases ran
      exact ⟨rfl, sound, rfl⟩
    · cases ran
      exact ⟨rfl, sound, rfl⟩

theorem applyAll_follows {p p' : Processor} {ops : List RtOp} (sound : p.Sound)
    (ran : p.applyAll ops = some p') :
    p'.targets = ops.foldl Targets.apply p.targets ∧ p'.Sound ∧
      p'.listen = ops.foldl taps p.listen := by
  induction ops generalizing p with
  | nil =>
    cases ran
    exact ⟨rfl, sound, rfl⟩
  | cons op rest ih =>
    rw [Processor.applyAll, List.foldlM_cons] at ran
    obtain ⟨mid, first, later⟩ := Option.bind_eq_some_iff.mp ran
    obtain ⟨targets, kept, listen⟩ := apply_follows sound first
    obtain ⟨rest, last, heard⟩ := ih kept later
    exact ⟨by rw [rest, targets, List.foldl_cons], last, by rw [heard, listen, List.foldl_cons]⟩

/-- Only a panic stops the processor. -/
theorem applyAll_isSome {p : Processor} {ops : List RtOp} (calm : .panic ∉ ops) :
    ∃ p', p.applyAll ops = some p' := by
  induction ops generalizing p with
  | nil => exact ⟨p, rfl⟩
  | cons op rest ih =>
    simp only [List.mem_cons, not_or] at calm
    have stays : ∃ mid, p.apply op = some mid := by
      cases op with
      | panic => exact absurd rfl calm.1
      | arm =>
        simp only [Processor.apply]
        split
        · exact ⟨_, rfl⟩
        · exact ⟨_, rfl⟩
      | _ => exact ⟨_, rfl⟩
    obtain ⟨mid, first⟩ := stays
    obtain ⟨p', later⟩ := ih (p := mid) calm.2
    refine ⟨p', ?_⟩
    rw [Processor.applyAll, List.foldlM_cons, first]
    exact later

end

end IemMixer.Rt
