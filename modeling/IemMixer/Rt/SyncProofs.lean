import IemMixer.Core.Run
import IemMixer.Rt.Targets

/-! Incremental RT commands against a full sync. What the RT thread must hold is a
function of the core; each edit's commands take the targets before it to those after
it, and a full sync takes any processor of the topology there at once. -/
namespace IemMixer.Rt
open Lib Proto Dsp TopologyProofs IemMixer.Core

/-- What is used of the math library: any power of ±0 is 1, and ten to a power a gain
of at most 24 dB asks for is finite and not negative. -/
class LawfulLibm [Libm] : Prop where
  powf_zero : Libm.powf (.fin 10) (.fin 0) = .fin 1
  powf_negZero : Libm.powf (.fin 10) .negZero = .fin 1
  powf_gain : ∀ db : F64, dbOff.lt db = true → db.isFinite = true → (F64.fin 24).lt db = false →
    isGain (Libm.powf (.fin 10) (db.div (.fin 20))) = true

section
variable [Libm]

def inputTargets (s : InputState) : InputTargets :=
  ⟨(dbToLin s.trimDb).num, onOff !s.muted, onOff s.processing, eqTargets (eqParams s.eq)⟩

def chainTargets (o : MixOut) : ChainTargets :=
  ⟨eqTargets (eqParams o.eq), o.limiter.enabled, o.limiter.limitDb.num,
    gainTargets (dbToLin o.volumeDb) o.muted (.fin 0)⟩

def groupTargets (s : MixGroup) : GroupTargets :=
  ⟨eqTargets (eqParams s.eq), gainTargets (dbToLin s.gainDb) s.muted (.fin 0)⟩

/-- A level with the mute its mix's solo adds. -/
def levelTargets (c : Core) (m k : ℕ) : GainTargets :=
  let l := c.level m k
  gainTargets (dbToLin l.gainDb) (l.muted || c.soloOut m k) l.pan

/-- A mix's targets; a shadow's are those of its mix. -/
def mixTargets (c : Core) (rec : MixRec) (m : ℕ) : MixTargets where
  chain := chainTargets rec.out
  shadow := if c.topo.mixes[m]?.any (·.shadow) then some (chainTargets rec.out) else none
  levels := named (2 ^ 16) (rec.levels.zipIdx.map fun p => levelTargets c m p.2)
  groups := named (2 ^ 16) (rec.groups.map groupTargets)

def coreTargets (c : Core) : Targets where
  inputs := named (2 ^ 16) (c.s.inputs.map inputTargets)
  mixes := named (2 ^ 16) (c.s.mixes.zipIdx.map fun p => mixTargets c p.1 p.2)

variable [LawfulLibm]

private theorem dbToLin_zero {v : F64} (finite : v.isFinite = true) (zero : v.val = 0) :
    dbToLin v = .fin 1 := by
  cases v with
  | nan | inf neg => cases finite
  | negZero =>
    have quotient : F64.div .negZero (.fin 20) = .negZero := by decide +kernel
    rw [dbToLin, if_pos (by decide), quotient]
    exact LawfulLibm.powf_negZero
  | fin q =>
    obtain rfl : q = 0 := zero
    have quotient : F64.div (.fin 0) (.fin 20) = .fin 0 := by decide +kernel
    rw [dbToLin, if_pos (by decide), quotient]
    exact LawfulLibm.powf_zero

/-- Gains that compare equal are the same gain. -/
theorem dbToLin_congr {a b : F64} (finiteA : a.isFinite = true) (finiteB : b.isFinite = true)
    (same : a.peq b = true) : dbToLin a = dbToLin b := by
  by_cases zero : a.val = 0
  · have other : b.val = 0 := by
      have num := F64.num_of_peq same
      cases a <;> cases b <;> simp_all [F64.num, F64.val, F64.isFinite]
    rw [dbToLin_zero finiteA zero, dbToLin_zero finiteB other]
  · rw [F64.eq_of_peq same zero]

theorem dbToLin_gain {db : F64} {r : Range} (inside : r.holds db) (finite : r.hi.isFinite = true)
    (low : r.hi.val ≤ 24) : isGain (dbToLin db) = true := by
  unfold dbToLin
  split
  · rename_i loud
    have here := F64.finite_of_within inside
    simp only [Range.holds, F64.within, Bool.and_eq_true, Bool.not_eq_true'] at inside
    have bound := (F64.lt_eq_false_iff finite here).mp inside.2
    exact LawfulLibm.powf_gain db loud here
      ((F64.lt_eq_false_iff (by decide) here).mpr (bound.trans low))
  · decide

omit [Libm] [LawfulLibm] in
private theorem isGain_of_holds {v : F64} {r : Range} (inside : r.holds v)
    (finite : r.lo.isFinite = true) (positive : 0 < r.lo.val) : isGain v = true := by
  have here := F64.finite_of_within inside
  simp only [Range.holds, F64.within, Bool.and_eq_true, Bool.not_eq_true'] at inside
  have bound := (F64.lt_eq_false_iff here finite).mp inside.1.2
  have above : (F64.fin 0).lt v = true := by
    by_contra low
    have under := (F64.lt_eq_false_iff (by decide) here).mp (Bool.eq_false_of_not_eq_true low)
    exact absurd (positive.trans_le (bound.trans under)) (lt_irrefl _)
  simp [isGain, here, F64.le, above]

theorem eqParams_valid {e : EqState} (ok : e.Ok) : Valid (eqParams e) := by
  constructor
  · intro b member
    obtain ⟨band, inside, rfl⟩ := Vector.mem_map.mp member
    have bandOk := ok.bands band inside
    simp only [Band.isValid, Bool.and_eq_true]
    exact ⟨⟨isGain_of_holds bandOk.freqHz (by decide) (by decide +kernel),
      dbToLin_gain bandOk.gainDb (by decide +kernel) (by decide +kernel)⟩,
      isGain_of_holds bandOk.bwOct (by decide +kernel) (by decide +kernel)⟩
  · exact dbToLin_gain ok.gainDb (by decide +kernel) (by decide +kernel)

/-- EQs that compare equal are the same EQ. -/
theorem eqParams_congr {a b : EqState} (okA : a.Ok) (okB : b.Ok) (same : a.peq b = true) :
    eqParams a = eqParams b := by
  simp only [EqState.peq, Bool.and_eq_true, List.all_eq_true] at same
  obtain ⟨gain, bands⟩ := same
  unfold eqParams
  congr 1
  · ext i bound : 1
    simp only [Vector.getElem_map]
    have here := bands (a.bands[i], b.bands[i]) (by
      rw [List.mem_iff_getElem?]
      exact ⟨i, by simp [bound]⟩)
    have okA := okA.bands a.bands[i] (Vector.getElem_mem bound)
    have okB := okB.bands b.bands[i] (Vector.getElem_mem bound)
    simp only [EqBand.peq, Bool.and_eq_true, beq_iff_eq] at here
    obtain ⟨⟨⟨⟨kind, enabled⟩, freq⟩, gain⟩, bw⟩ := here
    have freq := F64.eq_of_peq freq (F64.val_ne_zero_of_within okA.freqHz (by decide) (by decide +kernel))
    have bw := F64.eq_of_peq bw
      (F64.val_ne_zero_of_within okA.bwOct (by decide +kernel) (by decide +kernel))
    rw [kind, enabled, freq, bw, dbToLin_congr (F64.finite_of_within okA.gainDb)
      (F64.finite_of_within okB.gainDb) gain]
  · exact dbToLin_congr (F64.finite_of_within okA.gainDb) (F64.finite_of_within okB.gainDb) gain

omit [Libm] [LawfulLibm] in
def inputAt : RtOp → Option ℕ
  | .input i _ | .inputEq i _ => some i
  | _ => none

omit [Libm] [LawfulLibm] in
def mixAt : RtOp → Option ℕ
  | .mixOut m .. | .mixEq m _ | .limiter m .. | .level m .. | .group m .. | .groupEq m .. => some m
  | _ => none

omit [LawfulLibm] in
theorem apply_inputAt {op : RtOp} {i : ℕ} (here : inputAt op = some i) (t : Targets) :
    t.apply op = { t with inputs := t.inputs.modify i (·.apply op) } := by
  cases op <;> cases here <;> rfl

omit [LawfulLibm] in
theorem apply_mixAt {op : RtOp} {m : ℕ} (here : mixAt op = some m) (t : Targets) :
    t.apply op = { t with mixes := t.mixes.modify m (·.apply op) } := by
  cases op <;> cases here <;> rfl

omit [LawfulLibm] in
theorem apply_aside {op : RtOp} (noInput : inputAt op = none) (noMix : mixAt op = none)
    (t : Targets) : t.apply op = t := by
  cases op with
  | input | inputEq => cases noInput
  | mixOut | mixEq | limiter | level | group | groupEq => cases noMix
  | _ => rfl

omit [LawfulLibm] in
theorem fold_inputAt {i : ℕ} (ops : List RtOp) (here : ∀ op ∈ ops, inputAt op = some i)
    (t : Targets) : ops.foldl Targets.apply t =
      { t with inputs := t.inputs.modify i fun x => ops.foldl InputTargets.apply x } := by
  induction ops generalizing t with
  | nil => exact congrArg (Targets.mk · t.mixes) (List.modify_id i t.inputs).symm
  | cons op rest ih =>
    rw [List.foldl_cons, apply_inputAt (here op (by simp)),
      ih fun other member => here other (by simp [member])]
    simp only [List.modify_modify_eq, List.foldl_cons]
    rfl

omit [LawfulLibm] in
theorem fold_mixAt {m : ℕ} (ops : List RtOp) (here : ∀ op ∈ ops, mixAt op = some m)
    (t : Targets) : ops.foldl Targets.apply t =
      { t with mixes := t.mixes.modify m fun x => ops.foldl MixTargets.apply x } := by
  induction ops generalizing t with
  | nil => exact congrArg (Targets.mk t.inputs) (List.modify_id m t.mixes).symm
  | cons op rest ih =>
    rw [List.foldl_cons, apply_mixAt (here op (by simp)),
      ih fun other member => here other (by simp [member])]
    simp only [List.modify_modify_eq, List.foldl_cons]
    rfl

omit [LawfulLibm] in
theorem fold_aside (ops : List RtOp) (quiet : ∀ op ∈ ops, inputAt op = none ∧ mixAt op = none)
    (t : Targets) : ops.foldl Targets.apply t = t := by
  induction ops with
  | nil => rfl
  | cons op rest ih =>
    rw [List.foldl_cons, apply_aside (quiet op (by simp)).1 (quiet op (by simp)).2]
    exact ih fun other member => quiet other (by simp [member])

omit [Libm] [LawfulLibm] in
private theorem ite_mem {cond : Prop} [Decidable cond] {op x : RtOp}
    (member : op ∈ (if cond then [] else [x])) : op = x := by
  split at member
  · cases member
  · simpa using member

/-- An input's commands take its targets to the new ones. -/
theorem inputOps_targets (i : ℕ) {old new : InputState} (okOld : old.Ok) (okNew : new.Ok) :
    (inputOps i old new).foldl InputTargets.apply (inputTargets old) = inputTargets new := by
  unfold inputOps
  rw [List.foldl_append]
  have strip : (if ({ old with eq := new.eq } : InputState).peq new then ([] : List RtOp)
      else [.input (ix i) (inputParams new)]).foldl InputTargets.apply (inputTargets old) =
        { inputTargets new with eq := eqTargets (eqParams old.eq) } := by
    split
    · rename_i same
      simp only [InputState.peq, Bool.and_eq_true, beq_iff_eq] at same
      obtain ⟨⟨⟨trim, processing⟩, muted⟩, -⟩ := same
      have gain := dbToLin_congr (F64.finite_of_within okOld.trimDb)
        (F64.finite_of_within okNew.trimDb) trim
      simp only [List.foldl_nil, inputTargets, gain, processing, muted]
    · rfl
  rw [strip]
  split
  · rename_i same
    rw [List.foldl_nil, eqParams_congr okOld.eq okNew.eq same]
    rfl
  · simp only [List.foldl_cons, List.foldl_nil, InputTargets.apply, inputTargets,
      EqTargets.set_valid (eqParams_valid okNew.eq)]

/-- A mix's output commands take its chain to the new one. -/
theorem outOps_targets (m : ℕ) {old new : MixOut} (okOld : old.Ok) (okNew : new.Ok) :
    (outOps m old new).foldl ChainTargets.apply (chainTargets old) = chainTargets new := by
  unfold outOps
  rw [List.foldl_append, List.foldl_append]
  have fader : (if old.volumeDb.peq new.volumeDb && old.muted == new.muted then ([] : List RtOp)
      else [outOp m new]).foldl ChainTargets.apply (chainTargets old) =
        { chainTargets old with fader := (chainTargets new).fader } := by
    split
    · rename_i same
      simp only [Bool.and_eq_true, beq_iff_eq] at same
      have gain := dbToLin_congr (F64.finite_of_within okOld.volumeDb)
        (F64.finite_of_within okNew.volumeDb) same.1
      simp only [List.foldl_nil, chainTargets, gain, same.2]
    · rfl
  have eq : ∀ t : ChainTargets, t.eq = eqTargets (eqParams old.eq) →
      (if old.eq.peq new.eq then ([] : List RtOp) else [.mixEq (ix m) (eqParams new.eq)]).foldl
        ChainTargets.apply t = { t with eq := (chainTargets new).eq } := by
    intro t held
    split
    · rename_i same
      rw [List.foldl_nil, chainTargets, ← eqParams_congr okOld.eq okNew.eq same, ← held]
    · simp only [List.foldl_cons, List.foldl_nil, ChainTargets.apply, chainTargets,
        EqTargets.set_valid (eqParams_valid okNew.eq)]
  have limiter : ∀ t : ChainTargets, t.enabled = old.limiter.enabled →
      t.limitDb = old.limiter.limitDb.num →
      (if old.limiter.peq new.limiter then ([] : List RtOp) else [limiterOp m new]).foldl
        ChainTargets.apply t =
          { t with enabled := new.limiter.enabled, limitDb := new.limiter.limitDb.num } := by
    intro t enabled limitDb
    split
    · rename_i same
      simp only [Limiter.peq, Bool.and_eq_true, beq_iff_eq] at same
      rw [List.foldl_nil, ← same.1, ← F64.num_of_peq same.2, ← enabled, ← limitDb]
    · rfl
  rw [fader, eq, limiter]
  · rfl
  · rfl
  · rfl
  · rfl

theorem groupOps_targets (m g : ℕ) {old new : MixGroup} (okOld : old.Ok) (okNew : new.Ok) :
    (groupOps m g old new).foldl GroupTargets.apply (groupTargets old) = groupTargets new := by
  unfold groupOps
  rw [List.foldl_append]
  have fader : (if old.gainDb.peq new.gainDb && old.muted == new.muted then ([] : List RtOp)
      else [groupOp m g new]).foldl GroupTargets.apply (groupTargets old) =
        { groupTargets old with fader := (groupTargets new).fader } := by
    split
    · rename_i same
      simp only [Bool.and_eq_true, beq_iff_eq] at same
      have gain := dbToLin_congr (F64.finite_of_within okOld.gainDb)
        (F64.finite_of_within okNew.gainDb) same.1
      simp only [List.foldl_nil, groupTargets, gain, same.2]
    · rfl
  rw [fader]
  split
  · rename_i same
    rw [List.foldl_nil, groupTargets, groupTargets, eqParams_congr okOld.eq okNew.eq same]
  · simp only [List.foldl_cons, List.foldl_nil, GroupTargets.apply, groupTargets,
      EqTargets.set_valid (eqParams_valid okNew.eq)]

omit [Libm] [LawfulLibm] in
def isChain : RtOp → Bool
  | .mixOut .. | .mixEq .. | .limiter .. => true
  | _ => false

omit [LawfulLibm] in
/-- A chain's commands reach the mix and its shadow alike. -/
theorem fold_chain (ops : List RtOp) (chain : ∀ op ∈ ops, isChain op = true) (t : MixTargets) :
    ops.foldl MixTargets.apply t = { t with
      chain := ops.foldl ChainTargets.apply t.chain
      shadow := t.shadow.map fun s => ops.foldl ChainTargets.apply s } := by
  induction ops generalizing t with
  | nil => simp
  | cons op rest ih =>
    have step : t.apply op = { t with chain := t.chain.apply op, shadow := t.shadow.map (·.apply op) } := by
      have here := chain op (by simp)
      cases op <;> first | rfl | cases here
    rw [List.foldl_cons, step, ih fun other member => chain other (by simp [member])]
    simp [Function.comp_def]

omit [LawfulLibm] in
theorem fold_levels (c : Core) (m : ℕ) (slots : List ℕ) (t : MixTargets) :
    (slots.map (c.levelOp m)).foldl MixTargets.apply t = { t with
      levels := slots.foldl (fun acc k => acc.modify (ix k) fun _ => levelTargets c m k) t.levels } := by
  induction slots generalizing t with
  | nil => rfl
  | cons k rest ih =>
    rw [List.map_cons, List.foldl_cons, ih]
    rfl

omit [LawfulLibm] in
theorem fold_groupAt {m g : ℕ} (ops : List RtOp)
    (here : ∀ op ∈ ops, (∃ gain muted, op = .group m g gain muted) ∨ ∃ eq, op = .groupEq m g eq)
    (t : MixTargets) : ops.foldl MixTargets.apply t =
      { t with groups := t.groups.modify g fun s => ops.foldl GroupTargets.apply s } := by
  induction ops generalizing t with
  | nil => exact congrArg (MixTargets.mk t.chain t.shadow t.levels) (List.modify_id g t.groups).symm
  | cons op rest ih =>
    have step : t.apply op = { t with groups := t.groups.modify g (·.apply op) } := by
      rcases here op (by simp) with ⟨gain, muted, rfl⟩ | ⟨eq, rfl⟩
      · rfl
      · rfl
    rw [List.foldl_cons, step, ih fun other member => here other (by simp [member])]
    simp only [List.modify_modify_eq, List.foldl_cons]
    rfl

omit [LawfulLibm] in
/-- Every level of a mix said anew. -/
theorem levelOps_targets (c : Core) (m : ℕ) (levels : List Level) (t : MixTargets)
    (size : t.levels.length = (named (2 ^ 16) levels).length) :
    ((List.range levels.length).map (c.levelOp m)).foldl MixTargets.apply t =
      { t with levels := named (2 ^ 16) (levels.zipIdx.map fun p => levelTargets c m p.2) } := by
  rw [fold_levels]
  congr 1
  have indices : List.range levels.length = levels.zipIdx.map Prod.snd := by
    rw [List.zipIdx_map_snd, List.range_eq_range']
  rw [indices, List.foldl_map]
  exact sweep_overwrites _ (fun _ k _ => levelTargets c m k) levels t.levels
    (fun _ k => levelTargets c m k) size fun _ _ _ _ _ => rfl

omit [LawfulLibm] in
private theorem levelTargets_congr {c c' : Core} {m k : ℕ} (level : c'.level m k = c.level m k)
    (solo : c'.solo[m]? = c.solo[m]?) : levelTargets c' m k = levelTargets c m k := by
  simp only [levelTargets, level, soloOut, solo]

omit [LawfulLibm] in
private theorem mixTargets_congr {c c' : Core} {m : ℕ} (rec : MixRec) (topo : c'.topo = c.topo)
    (mixes : c'.s.mixes[m]? = c.s.mixes[m]?) (solo : c'.solo[m]? = c.solo[m]?) :
    mixTargets c' rec m = mixTargets c rec m := by
  have levels : ∀ k, levelTargets c' m k = levelTargets c m k := fun k =>
    levelTargets_congr (by simp only [Core.level, mixes]) solo
  simp only [mixTargets, topo, levels]

omit [LawfulLibm] in
/-- One mix's record or solo changed: commands to that mix that take its targets to
the new ones take the core's. -/
theorem mix_step {c c' : Core} {m : ℕ} {rec rec' : MixRec} {ops : List RtOp}
    (held : c.s.mixes[m]? = some rec) (written : c'.s.mixes = c.s.mixes.set m rec')
    (inputs : c'.s.inputs = c.s.inputs) (topo : c'.topo = c.topo)
    (solo : ∀ k, k ≠ m → c'.solo[k]? = c.solo[k]?) (here : ∀ op ∈ ops, mixAt op = some (ix m))
    (becomes : ops.foldl MixTargets.apply (mixTargets c rec m) = mixTargets c' rec' m) :
    ops.foldl Targets.apply (coreTargets c) = coreTargets c' := by
  have list : (c'.s.mixes.zipIdx.map fun p => mixTargets c' p.1 p.2) =
      (c.s.mixes.zipIdx.map fun p => mixTargets c p.1 p.2).set m (mixTargets c' rec' m) := by
    obtain ⟨bound, -⟩ := List.getElem?_eq_some_iff.mp held
    apply List.ext_getElem?
    intro k
    simp only [written, List.getElem?_map, List.getElem?_zipIdx, List.getElem?_set, Nat.zero_add,
      List.length_map, List.length_zipIdx]
    by_cases same : m = k
    · subst same
      simp [bound]
    · have mixes : c'.s.mixes[k]? = c.s.mixes[k]? := by
        rw [written, List.getElem?_set_ne same]
      simp only [same, if_false]
      cases c.s.mixes[k]? with
      | none => rfl
      | some other =>
        simp only [Option.map_some]
        rw [mixTargets_congr other topo mixes (solo k (Ne.symm same))]
  have place : (c.s.mixes.zipIdx.map fun p => mixTargets c p.1 p.2)[m]? = some (mixTargets c rec m) := by
    simp [held]
  rw [fold_mixAt ops here]
  unfold coreTargets
  rw [list, inputs, ← becomes, named_set_saturate _ place fun x => ops.foldl MixTargets.apply x]
  rfl

omit [LawfulLibm] in
theorem inputOps_at {i : ℕ} {old new : InputState} {op : RtOp} (member : op ∈ inputOps i old new) :
    inputAt op = some (ix i) := by
  simp only [inputOps, List.mem_append] at member
  rcases member with member | member
  · rw [ite_mem member]; rfl
  · rw [ite_mem member]; rfl

omit [LawfulLibm] in
theorem outOps_at {m : ℕ} {old new : MixOut} {op : RtOp} (member : op ∈ outOps m old new) :
    mixAt op = some (ix m) ∧ isChain op = true := by
  simp only [outOps, List.mem_append] at member
  rcases member with (member | member) | member
  · rw [ite_mem member]; exact ⟨rfl, rfl⟩
  · rw [ite_mem member]; exact ⟨rfl, rfl⟩
  · rw [ite_mem member]; exact ⟨rfl, rfl⟩

omit [LawfulLibm] in
theorem groupOps_at {m g : ℕ} {old new : MixGroup} {op : RtOp} (member : op ∈ groupOps m g old new) :
    (∃ gain muted, op = .group (ix m) (ix g) gain muted) ∨ ∃ eq, op = .groupEq (ix m) (ix g) eq := by
  simp only [groupOps, List.mem_append] at member
  rcases member with member | member
  · exact .inl ⟨_, _, ite_mem member⟩
  · exact .inr ⟨_, ite_mem member⟩

omit [LawfulLibm] in
theorem groupOps_mixAt {m g : ℕ} {old new : MixGroup} {op : RtOp}
    (member : op ∈ groupOps m g old new) : mixAt op = some (ix m) := by
  rcases groupOps_at member with ⟨gain, muted, rfl⟩ | ⟨eq, rfl⟩
  · rfl
  · rfl

omit [LawfulLibm] in
theorem levelOps_at {c : Core} {m : ℕ} {op : RtOp} (member : op ∈ c.levelOps m) :
    mixAt op = some (ix m) := by
  obtain ⟨k, -, rfl⟩ := List.mem_map.mp member
  rfl

omit [Libm] [LawfulLibm] in
theorem untapOps_at {c : Core} {m : ℕ} {op : RtOp} (member : op ∈ c.untapOps m) :
    ∃ slot, op = .listen slot none := by
  obtain ⟨⟨l, slot⟩, -, kept⟩ := List.mem_filterMap.mp member
  by_cases on : l = some m
  · simp only [on, if_true, Option.some.injEq] at kept
    exact ⟨slot, kept.symm⟩
  · simp [on] at kept

private theorem chain_step {c : Core} {m : ℕ} {rec : MixRec} {new : MixOut} (okOld : rec.out.Ok)
    (okNew : new.Ok) (c' : Core) (topo : c'.topo = c.topo)
    (levels : ∀ k, levelTargets c' m k = levelTargets c m k) :
    (outOps m rec.out new).foldl MixTargets.apply (mixTargets c rec m) =
      mixTargets c' { rec with out := new } m := by
  rw [fold_chain _ fun op member => (outOps_at member).2]
  have fold := outOps_targets m okOld okNew
  simp only [mixTargets, fold, topo, levels]
  split
  · simp [fold]
  · rfl

omit [LawfulLibm] in
private theorem level_step {c : Core} {m k : ℕ} {rec : MixRec} {old : Level}
    (held : c.s.mixes[m]? = some rec) (slot : rec.levels[k]? = some old) (new : Level) :
    [(c.withLevel m k new).levelOp m k].foldl MixTargets.apply (mixTargets c rec m) =
      mixTargets (c.withLevel m k new) { rec with levels := rec.levels.set k new } m := by
  have list : ((rec.levels.set k new).zipIdx.map fun p => levelTargets (c.withLevel m k new) m p.2) =
      (rec.levels.zipIdx.map fun p => levelTargets c m p.2).set k
        (levelTargets (c.withLevel m k new) m k) := by
    obtain ⟨bound, -⟩ := List.getElem?_eq_some_iff.mp slot
    apply List.ext_getElem?
    intro j
    simp only [List.getElem?_map, List.getElem?_zipIdx, List.getElem?_set, Nat.zero_add,
      List.length_map, List.length_zipIdx]
    by_cases same : k = j
    · subst same
      simp [bound]
    · have level : (c.withLevel m k new).level m j = c.level m j := by
        simp [Core.level, withLevel, modifyMix, held, List.getElem?_set_ne same]
      simp only [same, if_false]
      cases rec.levels[j]? with
      | none => rfl
      | some other =>
        simp only [Option.map_some]
        rw [levelTargets_congr level rfl]
  have place : (rec.levels.zipIdx.map fun p => levelTargets c m p.2)[k]? =
      some (levelTargets c m k) := by
    simp [slot]
  have written := named_set_saturate (2 ^ 16) place
    fun _ => levelTargets (c.withLevel m k new) m k
  rw [← list] at written
  exact congrArg (fun levels => { mixTargets c rec m with levels }) written.symm

private theorem group_step {c : Core} {m g : ℕ} {rec : MixRec} {old new : MixGroup} (okOld : old.Ok)
    (okNew : new.Ok) (strip : rec.groups[g]? = some old) (c' : Core) (topo : c'.topo = c.topo)
    (levels : ∀ k, levelTargets c' m k = levelTargets c m k) :
    (groupOps m g old new).foldl MixTargets.apply (mixTargets c rec m) =
      mixTargets c' { rec with groups := rec.groups.set g new } m := by
  have place : (rec.groups.map groupTargets)[g]? = some (groupTargets old) := by simp [strip]
  have written := named_set_saturate (2 ^ 16) place
    fun x => (groupOps m g old new).foldl GroupTargets.apply x
  rw [groupOps_targets m g okOld okNew, ← List.map_set] at written
  rw [fold_groupAt _ fun op member => groupOps_at member]
  simp only [mixTargets, topo, levels, written]
  rfl

omit [LawfulLibm] in
private theorem solo_step {c : Core} {m : ℕ} {rec : MixRec} (levels : c.topo.levels m = rec.levels.length)
    (new : BTreeSet ℕ) :
    ((c.withSolo m new).levelOps m).foldl MixTargets.apply (mixTargets c rec m) =
      mixTargets (c.withSolo m new) rec m := by
  have said : (c.withSolo m new).levelOps m =
      (List.range rec.levels.length).map ((c.withSolo m new).levelOp m) := by
    rw [← levels]
    rfl
  rw [said, levelOps_targets (c.withSolo m new) m rec.levels _ (named_length_eq (by simp))]
  rfl

omit [Libm] [LawfulLibm] in
theorem aside_quiet {op : RtOp} (aside : Aside op) : inputAt op = none ∧ mixAt op = none := by
  cases op <;> first | exact ⟨rfl, rfl⟩ | cases aside

/-- Each edit's commands take the targets before it to those after it. -/
theorem edit_targets {c c' : Core} {p : Partial} (wf : WellFormed c.topo) (canonical : Canonical c)
    (edit : Edit c p c') : p.rt.foldl Targets.apply (coreTargets c) = coreTargets c' := by
  cases edit with
  | input i new capped =>
    rcases setInput_cases i new c with same | ⟨old, node, held, -, same⟩
    · rw [same]
      rfl
    · rw [same]
      have okOld := canonical.shaped.inputsOk old (List.mem_of_getElem? held)
      have okNew := capped (canonical.inputState_ok i)
      have place : (c.s.inputs.map inputTargets)[i]? = some (inputTargets old) := by simp [held]
      have written := named_set_saturate (2 ^ 16) place
        fun x => (inputOps i old new).foldl InputTargets.apply x
      rw [inputOps_targets i okOld okNew, ← List.map_set] at written
      show (inputOps i old new).foldl Targets.apply (coreTargets c) = _
      rw [fold_inputAt _ fun op member => inputOps_at member]
      exact congrArg (Targets.mk · (coreTargets c).mixes) written.symm
  | out m new capped =>
    rcases setOut_cases m new c with same | ⟨rec, node, held, -, same⟩
    · rw [same]
      rfl
    · rw [same]
      have okOld := (canonical.rec_ok held).outOk
      have okNew : new.Ok := capped (by simpa [Core.out, held] using okOld)
      refine mix_step held (set_eq_modify held _).symm rfl rfl (fun _ _ => rfl)
        (fun op member => (outOps_at member).1)
        (chain_step okOld okNew _ rfl fun k => levelTargets_congr ?_ rfl)
      simp [Core.level, modifyMix, held]
  | level m k new capped =>
    rcases setLevel_cases m k new c with same | ⟨rec, old, node, source, held, slot, -, -, same⟩
    · rw [same]
      rfl
    · rw [same]
      refine mix_step held (set_eq_modify held _).symm rfl rfl (fun _ _ => rfl) ?_ ?_
      · intro op member
        obtain rfl := List.mem_singleton.mp member
        rfl
      · exact level_step held slot new
  | group m g new capped =>
    rcases setGroup_cases m g new c with same | ⟨rec, old, node, group, held, strip, -, -, same⟩
    · rw [same]
      rfl
    · rw [same]
      have okOld := (canonical.rec_ok held).groupsOk old (List.mem_of_getElem? strip)
      have okNew : new.Ok := capped (by simpa [Core.strip, held, strip] using okOld)
      refine mix_step held (set_eq_modify held _).symm rfl rfl (fun _ _ => rfl)
        (fun op member => groupOps_mixAt member)
        (group_step okOld okNew strip _ rfl fun k => levelTargets_congr ?_ rfl)
      simp [Core.level, modifyMix, held]
  | limiterReset mix m => rfl
  | solo m mix new named heard =>
    rcases replaceSolo_cases m mix new c with same | same
    · rw [same]
      rfl
    · rw [same]
      obtain ⟨node, found, -⟩ := Option.map_eq_some_iff.mp ((mixIndex_iff wf mix m).mp named)
      have bound := (List.getElem?_eq_some_iff.mp found).1
      rw [← canonical.shaped.mixCount] at bound
      have held := List.getElem?_eq_getElem bound
      refine mix_step held (List.set_getElem_self bound).symm rfl rfl (fun k apart => ?_)
        (fun op member => levelOps_at member)
        (solo_step (canonical.shaped.levelCount m _ held).symm new)
      rw [withSolo_solo, if_neg (Ne.symm apart)]
  | tap m mix _ _ => rfl
  | untap m =>
    rw [dropListen_eq]
    rcases listenPartial_cases (c.untapped m) (c.untapOps m) with ⟨-, same⟩ | ⟨-, same⟩
    · rw [same]
      rfl
    · rw [same]
      refine fold_aside _ (fun op member => ?_) _
      obtain ⟨slot, rfl⟩ := untapOps_at member
      exact ⟨rfl, rfl⟩
  | test signal hil op _ aside =>
    refine fold_aside _ (fun other member => ?_) _
    rw [List.mem_singleton.mp member]
    exact aside_quiet aside
  | testEnded rt aside =>
    rcases takeTest_cases rt c with ⟨-, same⟩ | same
    · rw [same]
      rfl
    · rw [same]
      exact fold_aside rt (fun op member => aside_quiet (aside op member)) _
  | nothing rt effect aside _ => exact fold_aside rt (fun op member => aside_quiet (aside op member)) _
  | fault _ => rfl

omit [Libm] [LawfulLibm] in
/-- The taps as the RT thread must hold them. -/
def coreTaps (c : Core) : Vector (Option ℕ) 2 := c.listen.map (Option.map ix)

omit [Libm] [LawfulLibm] in
theorem taps_quiet {op : RtOp} (quiet : ∀ slot mix, op ≠ .listen slot mix)
    (listen : Vector (Option ℕ) 2) : taps listen op = listen := by
  cases op <;> first | rfl | exact absurd rfl (quiet _ _)

omit [Libm] [LawfulLibm] in
theorem fold_taps_quiet {ops : List RtOp} (quiet : ∀ op ∈ ops, ∀ slot mix, op ≠ .listen slot mix)
    (listen : Vector (Option ℕ) 2) : ops.foldl taps listen = listen := by
  induction ops with
  | nil => rfl
  | cons op rest ih =>
    rw [List.foldl_cons, taps_quiet (quiet op (by simp))]
    exact ih fun other member => quiet other (by simp [member])

omit [Libm] [LawfulLibm] in
theorem inputAt_quiet {op : RtOp} {i : ℕ} (here : inputAt op = some i) (slot : ℕ)
    (mix : Option ℕ) : op ≠ .listen slot mix := by
  rintro rfl
  cases here

omit [Libm] [LawfulLibm] in
theorem mixAt_quiet {op : RtOp} {m : ℕ} (here : mixAt op = some m) (slot : ℕ)
    (mix : Option ℕ) : op ≠ .listen slot mix := by
  rintro rfl
  cases here

omit [Libm] [LawfulLibm] in
private theorem aside_taps {op : RtOp} (aside : Aside op) (slot : ℕ) (mix : Option ℕ) :
    op ≠ .listen slot mix := by
  rintro rfl
  cases aside

omit [Libm] [LawfulLibm] in
/-- The taps taken off are those on the mix. -/
private theorem untapOps_taps (c : Core) (m : ℕ) :
    (c.untapOps m).foldl taps (coreTaps c) = coreTaps (c.untapped m) := by
  obtain ⟨a, b, pair⟩ : ∃ a b, c.listen = #v[a, b] := by
    refine ⟨c.listen[0], c.listen[1], ?_⟩
    ext i bound : 1
    match i, bound with
    | 0, _ => rfl
    | 1, _ => rfl
  simp only [untapOps, coreTaps, untapped, pair]
  by_cases first : a = some m
  · by_cases second : b = some m
    · simp [first, second, taps]
    · simp [first, second, taps]
  · by_cases second : b = some m
    · simp [first, second, taps]
    · simp [first, second]

omit [LawfulLibm] in
/-- Each edit's commands keep the RT thread's taps the core's. -/
theorem edit_taps {c c' : Core} {p : Partial} (edit : Edit c p c') :
    p.rt.foldl taps (coreTaps c) = coreTaps c' := by
  cases edit with
  | input i new _ =>
    rcases setInput_cases i new c with same | ⟨old, node, -, -, same⟩
    · rw [same]
      rfl
    · rw [same]
      exact fold_taps_quiet (fun op member => inputAt_quiet (inputOps_at member)) _
  | out m new _ =>
    rcases setOut_cases m new c with same | ⟨rec, node, -, -, same⟩
    · rw [same]
      rfl
    · rw [same]
      exact fold_taps_quiet (fun op member => mixAt_quiet (outOps_at member).1) _
  | level m k new _ =>
    rcases setLevel_cases m k new c with same | ⟨rec, old, node, source, -, -, -, -, same⟩
    · rw [same]
      rfl
    · rw [same]
      rfl
  | group m g new _ =>
    rcases setGroup_cases m g new c with same | ⟨rec, old, node, group, -, -, -, -, same⟩
    · rw [same]
      rfl
    · rw [same]
      exact fold_taps_quiet (fun op member => mixAt_quiet (groupOps_mixAt member)) _
  | limiterReset mix m => rfl
  | solo m mix new _ _ =>
    rcases replaceSolo_cases m mix new c with same | same
    · rw [same]
      rfl
    · rw [same]
      exact fold_taps_quiet (fun op member => mixAt_quiet (levelOps_at member)) _
  | tap m mix _ _ =>
    show (coreTaps c).setIfInBounds (listenSlot c.topo m) (some (ix m)) = coreTaps (tapped c m)
    unfold coreTaps tapped
    ext i bound : 1
    rw [Vector.getElem_setIfInBounds, Vector.getElem_map, Vector.getElem_map, Vector.getElem_set]
    split
    · rfl
    · rfl
  | untap m =>
    rw [dropListen_eq]
    have off := untapOps_taps c m
    rcases listenPartial_cases (c.untapped m) (c.untapOps m) with ⟨none, same⟩ | ⟨-, same⟩
    · rw [same]
      rw [none] at off
      exact off
    · rw [same]
      exact off
  | test signal hil op _ aside =>
    exact taps_quiet (aside_taps aside) _
  | testEnded rt aside =>
    rcases takeTest_cases rt c with ⟨-, same⟩ | same
    · rw [same]
      rfl
    · rw [same]
      exact fold_taps_quiet (fun op member => aside_taps (aside op member)) _
  | nothing rt effect aside _ => exact fold_taps_quiet (fun op member => aside_taps (aside op member)) _
  | fault _ => rfl

end

end IemMixer.Rt
