import IemMixer.Rt.SyncProofs

/-! A full sync takes any processor of the topology to the core's targets, so along
every run the commands the core emitted leave a processor where a full sync of the
final core would leave a fresh one. -/
namespace IemMixer.Rt
open Lib Proto Dsp TopologyProofs IemMixer.Core

/-! ### The shape the topology gives -/

/-- As many levels and strips as one index each names in mix `m`, and a shadow where
the topology has one. -/
structure MixLaid (topo : Topology) (m : ℕ) (x : MixTargets) : Prop where
  levels : x.levels.length = (named (2 ^ 16) (List.range (topo.levels m))).length
  groups : x.groups.length = (named (2 ^ 16) topo.groups).length
  shadow : x.shadow.isSome = topo.mixes[m]?.any (·.shadow)

structure Laid (topo : Topology) (t : Targets) : Prop where
  inputs : t.inputs.length = (named (2 ^ 16) topo.inputs).length
  mixes : t.mixes.length = (named (2 ^ 16) topo.mixes).length
  mix : ∀ m x, t.mixes[m]? = some x → MixLaid topo m x

private theorem map_fst_zipIdx (f : α → β) (l : List α) : (l.zipIdx.map fun p => f p.1) = l.map f := by
  rw [show (fun p : α × ℕ => f p.1) = f ∘ Prod.fst from rfl, ← List.map_map, List.zipIdx_map_fst]

/-- A fold that only rewrites one field. -/
private theorem foldl_field {σ τ ι : Type} (get : σ → τ) (put : σ → τ → σ)
    (getPut : ∀ s x, get (put s x) = x) (putPut : ∀ s x y, put (put s x) y = put s y)
    (putGet : ∀ s, put s (get s) = s) (h : τ → ι → τ) (l : List ι) (s : σ) :
    l.foldl (fun s p => put s (h (get s) p)) s = put s (l.foldl h (get s)) := by
  induction l generalizing s with
  | nil => exact (putGet s).symm
  | cons p rest ih => rw [List.foldl_cons, ih, getPut, putPut, List.foldl_cons]

section
variable [Libm]

theorem coreTargets_laid {c : Core} (shaped : Shaped c.topo c.s) : Laid c.topo (coreTargets c) where
  inputs := named_length_eq (by simp [shaped.inputCount])
  mixes := named_length_eq (by simp [shaped.mixCount])
  mix := by
    intro m x held
    have inside := getElem?_of_named held
    simp only [List.getElem?_map, List.getElem?_zipIdx, Option.map_map, Option.map_eq_some_iff] at inside
    obtain ⟨rec, there, rfl⟩ := inside
    refine ⟨named_length_eq ?_, named_length_eq ?_, ?_⟩
    · simp [shaped.levelCount m rec there]
    · simp [shaped.groupCount rec (List.mem_of_getElem? there)]
    · simp only [Function.comp_apply, mixTargets, Nat.zero_add]
      split
      · rename_i shadowed
        exact shadowed.symm
      · rename_i plain
        exact (Bool.eq_false_of_not_eq_true plain).symm

variable [LawfulLibm]

/-! ### A full sync -/

private theorem chainSync (m : ℕ) {out : MixOut} (ok : out.Ok) (t : ChainTargets) :
    [outOp m out, .mixEq (ix m) (eqParams out.eq), limiterOp m out].foldl ChainTargets.apply t =
      chainTargets out := by
  simp only [List.foldl_cons, List.foldl_nil, outOp, limiterOp, ChainTargets.apply, chainTargets,
    EqTargets.set_valid (eqParams_valid ok.eq)]

private theorem groupsSync (m : ℕ) (groups : List MixGroup) (ok : ∀ s ∈ groups, s.Ok) (t : MixTargets)
    (size : t.groups.length = (named (2 ^ 16) groups).length) :
    (groups.zipIdx.flatMap fun p => [groupOp m p.2 p.1, .groupEq (ix m) (ix p.2) (eqParams p.1.eq)]).foldl
      MixTargets.apply t = { t with groups := named (2 ^ 16) (groups.map groupTargets) } := by
  let strip (s : MixGroup) (g : ℕ) (x : GroupTargets) : GroupTargets :=
    [groupOp m g s, .groupEq (ix m) (ix g) (eqParams s.eq)].foldl GroupTargets.apply x
  have each : ∀ (t : MixTargets) (p : MixGroup × ℕ),
      [groupOp m p.2 p.1, .groupEq (ix m) (ix p.2) (eqParams p.1.eq)].foldl MixTargets.apply t =
        { t with groups := t.groups.modify (ix p.2) (strip p.1 p.2) } := by
    intro t p
    refine fold_groupAt (m := ix m) (g := ix p.2) _ (fun op member => ?_) t
    simp only [List.mem_cons, List.not_mem_nil, or_false] at member
    rcases member with rfl | rfl
    · exact .inl ⟨_, _, rfl⟩
    · exact .inr ⟨_, rfl⟩
  have swept := sweep_overwrites (2 ^ 16) strip groups t.groups (fun s _ => groupTargets s) size
    fun i s y held _ => by
      simp only [strip, List.foldl_cons, List.foldl_nil, groupOp, GroupTargets.apply, groupTargets,
        EqTargets.set_valid (eqParams_valid (ok s (List.mem_of_getElem? held)).eq)]
  rw [List.foldl_flatMap]
  simp only [each]
  rw [foldl_field (fun t : MixTargets => t.groups) (fun t groups => { t with groups })
    (fun _ _ => rfl) (fun _ _ _ => rfl) (fun _ => rfl)
    (fun groups (p : MixGroup × ℕ) => groups.modify (ix p.2) (strip p.1 p.2))]
  congr 1
  refine swept.trans ?_
  rw [map_fst_zipIdx]

/-- Everything a full sync says of one mix. -/
def mixOps (c : Core) (rec : MixRec) (m : ℕ) : List RtOp :=
  [outOp m rec.out, .mixEq (ix m) (eqParams rec.out.eq), limiterOp m rec.out] ++ c.levelOps m ++
    rec.groups.zipIdx.flatMap fun p => [groupOp m p.2 p.1, .groupEq (ix m) (ix p.2) (eqParams p.1.eq)]

omit [LawfulLibm] in
private theorem mixOps_at {c : Core} {rec : MixRec} {m : ℕ} {op : RtOp} (member : op ∈ mixOps c rec m) :
    mixAt op = some (ix m) := by
  simp only [mixOps, List.mem_append, List.mem_cons, List.not_mem_nil, or_false,
    List.mem_flatMap] at member
  rcases member with ((rfl | rfl | rfl) | level) | ⟨p, -, rfl | rfl⟩
  · rfl
  · rfl
  · rfl
  · exact levelOps_at level
  · rfl
  · rfl

private theorem mixSync {c : Core} (shaped : Shaped c.topo c.s) {rec : MixRec} {m : ℕ}
    (held : c.s.mixes[m]? = some rec) {x : MixTargets} (laid : MixLaid c.topo m x) :
    (mixOps c rec m).foldl MixTargets.apply x = mixTargets c rec m := by
  have member := List.mem_of_getElem? held
  have levels := shaped.levelCount m rec held
  have said : c.levelOps m = (List.range rec.levels.length).map (c.levelOp m) := by
    rw [levels]
    rfl
  have chain : ∀ op ∈ [outOp m rec.out, .mixEq (ix m) (eqParams rec.out.eq), limiterOp m rec.out],
      isChain op = true := by
    simp only [List.mem_cons, List.not_mem_nil, or_false]
    rintro op (rfl | rfl | rfl)
    · rfl
    · rfl
    · rfl
  unfold mixOps
  rw [List.foldl_append, List.foldl_append, fold_chain _ chain, said, levelOps_targets,
    groupsSync m rec.groups (shaped.groupsOk rec member)]
  · have shadow := laid.shadow
    simp only [chainSync m (shaped.outsOk rec member), mixTargets, MixTargets.mk.injEq, and_true,
      true_and]
    cases there : x.shadow with
    | none =>
      rw [there] at shadow
      rw [← shadow]
      rfl
    | some s =>
      rw [there] at shadow
      rw [← shadow]
      rfl
  · rw [laid.groups]
    exact named_length_eq (shaped.groupCount rec member).symm
  · rw [laid.levels]
    exact named_length_eq (by simp [levels])

/-- A full sync takes whatever a processor of this topology held to the core's
targets. -/
theorem fullSync_targets {c : Core} (shaped : Shaped c.topo c.s) {t : Targets} (laid : Laid c.topo t) :
    c.fullSync.foldl Targets.apply t = coreTargets c := by
  let strip (s : InputState) (i : ℕ) (x : InputTargets) : InputTargets :=
    [.input (ix i) (inputParams s), .inputEq (ix i) (eqParams s.eq)].foldl InputTargets.apply x
  have input : ∀ (t : Targets) (p : InputState × ℕ),
      [.input (ix p.2) (inputParams p.1), .inputEq (ix p.2) (eqParams p.1.eq)].foldl Targets.apply t =
        { t with inputs := t.inputs.modify (ix p.2) (strip p.1 p.2) } := by
    intro t p
    refine fold_inputAt _ (fun op member => ?_) t
    simp only [List.mem_cons, List.not_mem_nil, or_false] at member
    rcases member with rfl | rfl
    · rfl
    · rfl
  have mix : ∀ (t : Targets) (p : MixRec × ℕ), (mixOps c p.1 p.2).foldl Targets.apply t =
      { t with mixes := t.mixes.modify (ix p.2) ((mixOps c p.1 p.2).foldl MixTargets.apply ·) } :=
    fun t p => fold_mixAt _ (fun op member => mixOps_at member) t
  have inputs := sweep_overwrites (2 ^ 16) strip c.s.inputs t.inputs
    (fun s _ => inputTargets s) (laid.inputs.trans (named_length_eq shaped.inputCount.symm))
    fun i s y held _ => by
      have ok := shaped.inputsOk s (List.mem_of_getElem? held)
      simp only [strip, List.foldl_cons, List.foldl_nil, InputTargets.apply, inputTargets,
        inputParams, EqTargets.set_valid (eqParams_valid ok.eq)]
  have mixes := sweep_overwrites (2 ^ 16)
    (fun rec m x => (mixOps c rec m).foldl MixTargets.apply x) c.s.mixes t.mixes
    (fun rec m => mixTargets c rec m) (laid.mixes.trans (named_length_eq shaped.mixCount.symm))
    fun m rec x held there => mixSync shaped held (laid.mix m x there)
  have whole : c.fullSync = (c.s.inputs.zipIdx.flatMap fun p =>
      [.input (ix p.2) (inputParams p.1), .inputEq (ix p.2) (eqParams p.1.eq)]) ++
        c.s.mixes.zipIdx.flatMap fun p => mixOps c p.1 p.2 := rfl
  rw [whole, List.foldl_append, List.foldl_flatMap, List.foldl_flatMap]
  simp only [input, mix]
  rw [foldl_field (fun t : Targets => t.inputs) (fun t inputs => { t with inputs })
      (fun _ _ => rfl) (fun _ _ _ => rfl) (fun _ => rfl)
      (fun inputs (p : InputState × ℕ) => inputs.modify (ix p.2) (strip p.1 p.2)),
    foldl_field (fun t : Targets => t.mixes) (fun t mixes => { t with mixes })
      (fun _ _ => rfl) (fun _ _ _ => rfl) (fun _ => rfl)
      (fun mixes (p : MixRec × ℕ) => mixes.modify (ix p.2) ((mixOps c p.1 p.2).foldl MixTargets.apply ·))]
  unfold coreTargets
  congr 1
  refine inputs.trans ?_
  rw [map_fst_zipIdx]

/-! ### A processor made from the state -/

private theorem new_input {s : InputState} (ok : s.Ok) :
    (InputRt.mk (.new (dbToLin s.trimDb) (samples gainMs)) (.new (onOff s.processing) (samples eqMs))
      (.new (eqParams s.eq)) (.new (onOff !s.muted) (samples muteMs))).targets = inputTargets s := by
  simp [InputRt.targets, inputTargets, eqTargetsOf_new (eqParams_valid ok.eq)]

omit [Libm] [LawfulLibm] in
private theorem clampLimit_ok {v : F64} (inside : Range.limitDb.holds v) : clampLimit v = v := by
  rw [clampLimit, if_pos (F64.finite_of_within inside)]
  exact F64.clamp_of_within inside

theorem new_targets (topo : Topology) (state : MixState) (counters : List ℕ) (opts : Options)
    (rev : ℕ) (flags : Flags) (hil : List UInt16) :
    (Processor.new topo state counters opts).targets =
      coreTargets ((Core.new topo state rev flags).withHil hil) := by
  have shaped := reconcile_shaped topo state
  unfold Processor.targets coreTargets
  congr 2
  · simp only [Processor.new, List.map_map]
    exact List.map_congr_left fun s member => new_input (shaped.inputsOk s member)
  · simp only [Processor.new, List.map_map]
    refine List.map_congr_left fun p member => ?_
    obtain ⟨rec, m⟩ := p
    have held : (reconcile topo state).1.mixes[m]? = some rec := by
      simpa using List.mk_mem_zipIdx_iff_getElem?.mp member
    have inside := List.mem_of_getElem? held
    have ok := shaped.outsOk rec inside
    have levels : (rec.levels.map fun l => gainTargets (dbToLin l.gainDb) l.muted l.pan) =
        rec.levels.zipIdx.map fun p =>
          levelTargets ((Core.new topo state rev flags).withHil hil) m p.2 := by
      apply List.ext_getElem?
      intro k
      simp only [List.getElem?_map, List.getElem?_zipIdx]
      cases there : rec.levels[k]? with
      | none => rfl
      | some l =>
        simp [levelTargets, Core.level, Core.new, withHil, held, there, soloOut]
    have strips : (rec.groups.map fun g => (GroupRt.mk (.new (eqParams g.eq))
        (.new (dbToLin g.gainDb) g.muted (.fin 0))).targets) = rec.groups.map groupTargets := by
      refine List.map_congr_left fun g there => ?_
      have okGroup := shaped.groupsOk rec inside g there
      simp [GroupRt.targets, groupTargets, gainTargetsOf_new,
        eqTargetsOf_new (eqParams_valid okGroup.eq)]
    have chain : (ChainTargets.mk (eqTargetsOf (.new (eqParams rec.out.eq))) rec.out.limiter.enabled
        (clampLimit rec.out.limiter.limitDb).num
        (gainTargets (dbToLin rec.out.volumeDb) rec.out.muted (.fin 0))) = chainTargets rec.out := by
      rw [clampLimit_ok ok.limitDb, eqTargetsOf_new (eqParams_valid ok.eq)]
      rfl
    simp only [Function.comp_apply, MixRt.targets, mixTargets, MixLimiter.new, new_target, chain,
      List.map_map, Function.comp_def, gainTargetsOf_new, levels, strips, MixTargets.mk.injEq,
      true_and, and_true]
    show Option.map _ (if topo.mixes[m]?.any (·.shadow) then _ else _) =
      if topo.mixes[m]?.any (·.shadow) then _ else _
    split
    · simp only [Option.map_some, ShadowRt.targets, new_target, gainTargetsOf_new, chain]
    · rfl

omit [LawfulLibm] in
theorem new_processor_sound (topo : Topology) (state : MixState) (counters : List ℕ) (opts : Options) :
    (Processor.new topo state counters opts).Sound := by
  intro n member
  obtain ⟨s, -, rfl⟩ := List.mem_map.mp member
  exact new_sound _

/-! ### Runs -/

omit [LawfulLibm] in
/-- Only an allowed fault makes the RT thread panic. -/
theorem edit_panic {c c' : Core} {p : Partial} (edit : Edit c p c') (panics : .panic ∈ p.rt) :
    c.flags.faultInjection = true := by
  cases edit with
  | input i new _ =>
    rcases setInput_cases i new c with same | ⟨old, node, -, -, same⟩
    · rw [same] at panics
      cases panics
    · rw [same] at panics
      cases inputOps_at panics
  | out m new _ =>
    rcases setOut_cases m new c with same | ⟨rec, node, -, -, same⟩
    · rw [same] at panics
      cases panics
    · rw [same] at panics
      cases (outOps_at panics).1
  | level m k new _ =>
    rcases setLevel_cases m k new c with same | ⟨rec, old, node, source, -, -, -, -, same⟩
    · rw [same] at panics
      cases panics
    · rw [same] at panics
      cases List.mem_singleton.mp panics
  | group m g new _ =>
    rcases setGroup_cases m g new c with same | ⟨rec, old, node, group, -, -, -, -, same⟩
    · rw [same] at panics
      cases panics
    · rw [same] at panics
      cases groupOps_mixAt panics
  | limiterReset mix m => cases List.mem_singleton.mp panics
  | solo m mix new _ _ =>
    rcases replaceSolo_cases m mix new c with same | same
    · rw [same] at panics
      cases panics
    · rw [same] at panics
      cases levelOps_at panics
  | tap m mix _ _ => cases List.mem_singleton.mp panics
  | untap m =>
    rw [dropListen_eq] at panics
    rcases listenPartial_cases (c.untapped m) (c.untapOps m) with ⟨-, same⟩ | ⟨-, same⟩
    · rw [same] at panics
      cases panics
    · rw [same] at panics
      obtain ⟨slot, said⟩ := untapOps_at panics
      cases said
  | test signal hil op _ aside =>
    rw [← List.mem_singleton.mp panics] at aside
    cases aside
  | testEnded rt aside =>
    rcases takeTest_cases rt c with ⟨-, same⟩ | same
    · rw [same] at panics
      cases panics
    · rw [same] at panics
      cases aside _ panics
  | nothing rt effect aside _ => cases aside _ panics
  | fault allowed => exact allowed

/-- What some commands make of a processor that held `c`: it holds `c'`, and only an
allowed fault stops it. -/
structure Leads (c : Core) (ops : List RtOp) (c' : Core) : Prop where
  targets : ops.foldl Targets.apply (coreTargets c) = coreTargets c'
  taps : ops.foldl taps (coreTaps c) = coreTaps c'
  panic : .panic ∈ ops → c.flags.faultInjection = true
  flags : c'.flags = c.flags

omit [LawfulLibm] in
theorem Leads.refl (c : Core) : Leads c [] c := ⟨rfl, rfl, by simp, rfl⟩

omit [LawfulLibm] in
theorem Leads.trans {c mid c' : Core} {ops ops' : List RtOp} (first : Leads c ops mid)
    (second : Leads mid ops' c') : Leads c (ops ++ ops') c' := by
  refine ⟨?_, ?_, fun member => ?_, second.flags.trans first.flags⟩
  · rw [List.foldl_append, first.targets, second.targets]
  · rw [List.foldl_append, first.taps, second.taps]
  · rcases List.mem_append.mp member with early | late
    · exact first.panic early
    · rw [← first.flags]
      exact second.panic late

theorem edit_leads {c c' : Core} {p : Partial} (wf : WellFormed c.topo) (canonical : Canonical c)
    (edit : Edit c p c') : Leads c p.rt c' :=
  ⟨edit_targets wf canonical edit, edit_taps edit, edit_panic edit, edit.frame.2.2.2⟩

theorem path_leads {c c' : Core} {changes : List Change} {rt : List RtOp} (wf : WellFormed c.topo)
    (canonical : Canonical c) (path : Path c changes rt c') : Leads c rt c' := by
  induction path with
  | nil c => exact .refl c
  | cons edit _ ih =>
    exact (edit_leads wf canonical edit).trans
      (ih (edit.frame.1.symm ▸ wf) (edit.canonical wf canonical))

omit [LawfulLibm] in
private theorem fullSync_at {c : Core} {op : RtOp} (member : op ∈ c.fullSync) :
    (∃ i, inputAt op = some i) ∨ ∃ m, mixAt op = some m := by
  have whole : c.fullSync = (c.s.inputs.zipIdx.flatMap fun p =>
      [.input (ix p.2) (inputParams p.1), .inputEq (ix p.2) (eqParams p.1.eq)]) ++
        c.s.mixes.zipIdx.flatMap fun p => mixOps c p.1 p.2 := rfl
  rw [whole, List.mem_append, List.mem_flatMap, List.mem_flatMap] at member
  rcases member with ⟨p, -, strip⟩ | ⟨p, -, mix⟩
  · simp only [List.mem_cons, List.not_mem_nil, or_false] at strip
    rcases strip with rfl | rfl
    · exact .inl ⟨_, rfl⟩
    · exact .inl ⟨_, rfl⟩
  · exact .inr ⟨_, mixOps_at mix⟩

omit [LawfulLibm] in
theorem fullSync_calm (c : Core) : .panic ∉ c.fullSync := by
  intro member
  rcases fullSync_at member with ⟨i, at_⟩ | ⟨m, at_⟩
  · cases at_
  · cases at_

omit [LawfulLibm] in
/-- A full sync sets no tap. -/
theorem fullSync_taps (c : Core) (listen : Vector (Option ℕ) 2) :
    c.fullSync.foldl taps listen = listen := by
  refine fold_taps_quiet (fun op member slot mix => ?_) listen
  rcases fullSync_at member with ⟨i, at_⟩ | ⟨m, at_⟩
  · exact inputAt_quiet at_ slot mix
  · exact mixAt_quiet at_ slot mix

theorem handled_leads {c c' : Core} {out : Option Outcome} (wf : WellFormed c.topo)
    (canonical : Canonical c) (handled : Handled c out c') : Leads c ((out.map (·.rt)).getD []) c' := by
  cases handled with
  | refused => exact .refl c
  | edited effect quiet path =>
    have leads := path_leads wf canonical path
    exact ⟨leads.targets, leads.taps, leads.panic, leads.flags⟩
  | imported state =>
    have shaped : Shaped c.topo (reconcile c.topo state).1 := reconcile_shaped c.topo state
    have synced := fullSync_targets (c := (importState state c).2) shaped
      (t := coreTargets c) (coreTargets_laid canonical.shaped)
    exact ⟨synced, fullSync_taps _ _, fun member => absurd member (fullSync_calm _), rfl⟩

/-- Along a run the commands emitted lead from the first core to the last. -/
theorem run_leads (c : Core) (events : List Event) (wf : WellFormed c.topo) (canonical : Canonical c) :
    Leads c (c.emitted events) (c.run events) := by
  induction events generalizing c with
  | nil => exact .refl c
  | cons event rest ih =>
    have handled := handle_spec c wf canonical event
    obtain ⟨topo, kept⟩ := handled.canonical wf canonical
    exact (handled_leads wf canonical handled).trans (ih (c.handle event).2 (topo.symm ▸ wf) kept)

/-- A processor that holds what the core does. -/
structure Holds (p : Processor) (c : Core) : Prop where
  sound : p.Sound
  targets : p.targets = coreTargets c
  taps : p.listen = coreTaps c

omit [Libm] [LawfulLibm] in
theorem coreTaps_new (topo : Topology) (state : MixState) (rev : ℕ) (flags : Flags)
    (hil : List UInt16) : coreTaps ((new topo state rev flags).withHil hil) = #v[none, none] := by
  simp [coreTaps, new, withHil]

theorem new_holds (topo : Topology) (state : MixState) (counters : List ℕ) (opts : Options)
    (rev : ℕ) (flags : Flags) (hil : List UInt16) :
    Holds (.new topo state counters opts) ((new topo state rev flags).withHil hil) := by
  refine ⟨new_processor_sound topo state counters opts,
    new_targets topo state counters opts rev flags hil, ?_⟩
  rw [coreTaps_new]
  rfl

/-- A fresh processor of the topology after a full sync holds the core's targets; its
taps are as it was made. -/
theorem fresh_synced {c : Core} (shaped : Shaped c.topo c.s) (fresh : MixState) (counters : List ℕ)
    (opts : Options) {q : Processor}
    (ran : (Processor.new c.topo fresh counters opts).applyAll c.fullSync = some q) :
    q.Sound ∧ q.targets = coreTargets c ∧ q.listen = #v[none, none] := by
  have made := new_holds c.topo fresh counters opts 0 {} []
  obtain ⟨targets, sound, listen⟩ := applyAll_follows made.sound ran
  have laid : Laid c.topo (Processor.new c.topo fresh counters opts).targets := by
    rw [made.targets]
    exact coreTargets_laid (c := (new c.topo fresh 0 {}).withHil []) (reconcile_shaped c.topo fresh)
  refine ⟨sound, ?_, ?_⟩
  · rw [targets, fullSync_targets shaped laid]
  · rw [listen, fullSync_taps]
    rfl

omit [LawfulLibm] in
theorem coreTargets_shadow (c : Core) : ∀ mix ∈ (coreTargets c).mixes, ∀ shadow,
    mix.shadow = some shadow → shadow = mix.chain := by
  intro mix member shadow held
  obtain ⟨p, -, rfl⟩ := List.mem_map.mp (List.mem_of_mem_take member)
  simp only [mixTargets] at held ⊢
  split at held
  · cases held
    rfl
  · cases held

/-- Incremental commands equal a full sync. Along every run of a compiled site's core,
a processor that was synced to the initial state (made from it, or full-synced to it)
and then given the emitted commands moves to the same targets as a fresh processor,
made from any state, after a full sync of the final core: every input, strip, level
and mix one index names alone, each shadow following its mix. Its taps are the core's;
a full sync leaves the fresh one's alone. Only a fault the flags allow stops it. -/
theorem incremental_sync {digest : TopologyInfo → String} (site : Compiled digest)
    (state fresh : MixState) (rev : ℕ) (flags : Flags) (hil : List UInt16) (events : List Event)
    (counters counters' : List ℕ) (opts opts' : Options) (start : Processor)
    (synced : start = .new site.topo state counters opts ∨
      ∃ boot, (Processor.new site.topo boot counters opts).applyAll
        ((new site.topo state rev flags).withHil hil).fullSync = some start) :
    let core := (new site.topo state rev flags).withHil hil
    (flags.faultInjection = true ∧ .panic ∈ core.emitted events) ∨
    ∃ p q, start.applyAll (core.emitted events) = some p ∧
      (Processor.new site.topo fresh counters' opts').applyAll (core.run events).fullSync = some q ∧
      p.targets = q.targets ∧
      (∀ mix ∈ p.targets.mixes, ∀ shadow, mix.shadow = some shadow → shadow = mix.chain) ∧
      p.listen = (core.run events).listen.map (Option.map ix) ∧ q.listen = #v[none, none] := by
  intro core
  obtain ⟨wf, -⟩ := compile_spec digest site
  have canonical : Canonical core := new_canonical site.topo state rev flags hil
  obtain ⟨topo, finalCanonical⟩ := run_canonical core events wf canonical
  have leads := run_leads core events wf canonical
  -- both ways of syncing leave the initial core's targets, and no tap
  have holds : Holds start core := by
    rcases synced with rfl | ⟨boot, ran⟩
    · exact new_holds site.topo state counters opts rev flags hil
    · obtain ⟨sound, targets, listen⟩ := fresh_synced (c := core) canonical.shaped boot counters opts ran
      exact ⟨sound, targets, listen.trans (coreTaps_new site.topo state rev flags hil).symm⟩
  by_cases panics : .panic ∈ core.emitted events
  · exact .inl ⟨leads.panic panics, panics⟩
  right
  obtain ⟨p, ran⟩ := applyAll_isSome (p := start) panics
  obtain ⟨targets, -, listen⟩ := applyAll_follows holds.sound ran
  rw [holds.targets, leads.targets] at targets
  rw [holds.taps, leads.taps] at listen
  obtain ⟨q, full⟩ := applyAll_isSome (p := .new site.topo fresh counters' opts')
    (fullSync_calm (core.run events))
  rw [show site.topo = (core.run events).topo from topo.symm] at full
  obtain ⟨-, same, untapped⟩ := fresh_synced finalCanonical.shaped fresh counters' opts' full
  rw [topo] at full
  refine ⟨p, q, ran, full, targets.trans same.symm, ?_, listen, untapped⟩
  rw [targets]
  exact coreTargets_shadow (core.run events)

end

/-- The laws hold of the library the runs at `duet` use. -/
theorem duetLibm_lawful : @LawfulLibm duetLibm := by
  refine @LawfulLibm.mk duetLibm (by decide) (by decide) fun db _ _ _ => ?_
  show isGain (if _ then _ else _) = true
  split
  · decide +kernel
  · decide

/-- A mute, a solo and a tap at `duet`. -/
theorem incremental_sync_duet :
    let core := (new duetCompiled.topo {} 7 {}).withHil []
    let events : List Event := [.request (.setMix "ben" none (some true)),
      .request (.setSolo "eng" [.input "voice"]), .request (.startListen "anna")]
    let start := @Processor.new duetLibm duetCompiled.topo {} [] {}
    ∃ p q, @Processor.applyAll duetLibm start (@emitted duetLibm core events) = some p ∧
      @Processor.applyAll duetLibm start (@fullSync duetLibm (@run duetLibm core events)) = some q ∧
      p.targets = q.targets ∧ (@emitted duetLibm core events).length = 5 := by
  intro core events start
  have all := @incremental_sync duetLibm duetLibm_lawful _ duetCompiled {} {} 7 {} [] events [] []
    {} {} start (.inl rfl)
  rcases all with ⟨allowed, -⟩ | ⟨p, q, ran, full, same, -⟩
  · cases allowed
  · exact ⟨p, q, ran, full, same, by decide +kernel⟩

/-- A full sync sets no tap: a processor that was told to listen does, a fresh one
after the full sync does not. -/
theorem fullSync_leaves_taps :
    ¬ ∀ (events : List Event) (p q : Processor),
      @Processor.applyAll duetLibm (@Processor.new duetLibm duetCompiled.topo {} [] {})
        (@emitted duetLibm duetCore events) = some p →
      @Processor.applyAll duetLibm (@Processor.new duetLibm duetCompiled.topo {} [] {})
        (@fullSync duetLibm (@run duetLibm duetCore events)) = some q →
      p.targets = q.targets ∧ p.listen = q.listen := by
  intro equal
  let events : List Event := [.request (.startListen "anna")]
  let start := @Processor.new duetLibm duetCompiled.topo {} [] {}
  have told : (@Processor.applyAll duetLibm start (@emitted duetLibm duetCore events)).map (·.listen) =
      some #v[none, some 0] := by decide +kernel
  have fresh : (@Processor.applyAll duetLibm start
      (@fullSync duetLibm (@run duetLibm duetCore events))).map (·.listen) = some #v[none, none] := by
    decide +kernel
  obtain ⟨p, ran, listen⟩ := Option.map_eq_some_iff.mp told
  obtain ⟨q, full, silent⟩ := Option.map_eq_some_iff.mp fresh
  have same := (equal events p q ran full).2
  rw [listen, silent] at same
  revert same
  decide

end IemMixer.Rt
