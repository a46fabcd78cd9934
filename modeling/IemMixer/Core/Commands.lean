import IemMixer.Lib.Except
import IemMixer.Params
import IemMixer.Core.State

/-! The control core: the single writer of the mix state. `apply` turns one request
into the new revision, the changed entities and one group of RT commands. A
method on `&self` is a function of the core; one on `&mut self` that can fail is
stateful code whose error keeps whatever was written before it. -/
namespace IemMixer
open Lib Proto

/-- Commands the RT thread applies per block at most. -/
def maxCmdsPerBlock : ℕ := 512
/-- Commands in one batch at most. -/
def maxBatch : ℕ := 256
/-- Sources in one solo at most. -/
def maxSolo : ℕ := 64

/-- Per-run launch flags. -/
structure Flags where
  testSignal : Bool := false
  faultInjection : Bool := false
  deriving DecidableEq

/-- What the control loop does besides broadcasting the changes. -/
inductive Effect where
  | none
  | sendState
  | sendTopology
  | save
  | shutdown
  | imported
  deriving DecidableEq

structure Outcome where
  rev : ℕ
  changes : List Change
  rt : List RtOp
  effect : Effect
  deriving DecidableEq

structure CmdError where
  code : ErrCode
  msg : String
  deriving DecidableEq

structure Partial where
  changes : List Change := []
  rt : List RtOp := []
  effect : Option Effect := none
  bump : Bool := false
  deriving DecidableEq

def Partial.changed (changes : List Change) (rt : List RtOp) : Partial :=
  { changes, rt, bump := !changes.isEmpty }

/-- What `batch` adds of one operation. -/
def Partial.extend (all p : Partial) : Partial :=
  { all with changes := all.changes ++ p.changes, rt := all.rt ++ p.rt, bump := all.bump || p.bump }

def Partial.withEffect (effect : Effect) : Partial := { effect := some effect }

/-- `solo`: per mix, its soloed level slots. `hilTest`: the running test signal is
the HIL one. `hil`: HIL's spare outputs after the topology's TX. -/
structure Core where
  topo : Topology
  s : Reconciled
  solo : BTreeMap ℕ (BTreeSet ℕ) := ∅
  listen : Vector (Option ℕ) 2 := #v[none, none]
  test : Option TestSignal := none
  hilTest : Bool := false
  hil : List UInt16 := []
  rev : ℕ
  flags : Flags

abbrev Edits := EStateM CmdError Core

def capped (v : F64) (r : Range) (what : String) : Except CmdError F64 :=
  match cap v r with
  | some v => .ok v
  | none => .error ⟨.badValue, what ++ " is not finite"⟩

/-- A field a command may give: capped, or the old value. -/
def cappedOr (given : Option F64) (r : Range) (what : String) (old : F64) : Except CmdError F64 :=
  match given with
  | some v => capped v r what
  | none => .ok old

/-- Commands allowed inside a batch: state edits only. -/
def batchable : Cmd → Bool
  | .setInput .. | .setMix .. | .setLevel .. | .setGroup .. | .setEq .. | .setLimiter ..
  | .resetLimiterStats _ | .setSolo .. | .startListen _ | .stopListen _ => true
  | _ => false

/-- One card output's HIL slot set in the mask. A mix's TX is refused first. -/
def hilBit (topo : Topology) (hil : List UInt16) (mask : HilMask) (ch : UInt16) :
    Except CmdError HilMask :=
  match topo.mixTxRefusal ch with
  | some why => .error ⟨.forbidden, why⟩
  | none =>
    match hil.findIdx? (· == ch) with
    | none => .error ⟨.unknownId,
        "card output " ++ toString ch ++ " is not a HIL output of this engine ([guard] hil_tx)"⟩
    | some slot =>
      if fits : slot < 8 then .ok (mask.set slot true fits)
      else .error ⟨.badValue,
        "card output " ++ toString ch ++ " is beyond the first " ++ toString maxHil ++ " HIL outputs"⟩

/-- The HIL signal's outputs: the slots of the listed card channels among `hil`. -/
def hilMask (topo : Topology) (hil : List UInt16) (cardTx : List UInt16) :
    Except CmdError HilMask :=
  if cardTx.isEmpty then .error ⟨.badValue, "the HIL test signal names no card output"⟩
  else cardTx.foldlM (hilBit topo hil) (Vector.replicate 8 false)

namespace Core

def new (topo : Topology) (state : MixState) (rev : ℕ) (flags : Flags) : Core :=
  { topo, s := (reconcile topo state).1, rev, flags }

def withHil (c : Core) (hil : List UInt16) : Core := { c with hil }

def state (c : Core) : MixState := toState c.topo c.s

def mixId (c : Core) (m : ℕ) : Option MixId := c.topo.mixes[m]?.map (·.id)

def transient (c : Core) : Transient where
  solo := c.solo.toList.filterMap fun (m, set) =>
    (c.mixId m).map fun mix => { mix, sources := set.toList.filterMap (c.topo.source m) }
  listen := c.listen.map (·.bind c.mixId)
  testSignal := c.test

def input (c : Core) (id : InputId) : Except CmdError ℕ :=
  match c.topo.inputIndex id with
  | some i => .ok i
  | none => .error ⟨.unknownId, "unknown input " ++ clip id⟩

def mix (c : Core) (id : MixId) : Except CmdError ℕ :=
  match c.topo.mixIndex id with
  | some m => .ok m
  | none => .error ⟨.unknownId, "unknown mix " ++ clip id⟩

def group (c : Core) (id : GroupId) : Except CmdError ℕ :=
  match c.topo.groupIndex id with
  | some g => .ok g
  | none => .error ⟨.unknownId, "unknown group " ++ clip id⟩

def inputState (c : Core) (i : ℕ) : InputState := c.s.inputs[i]?.getD {}

def out (c : Core) (m : ℕ) : MixOut := (c.s.mixes[m]?.map (·.out)).getD {}

def level (c : Core) (m k : ℕ) : Level := (c.s.mixes[m]?.bind (·.levels[k]?)).getD {}

def strip (c : Core) (m g : ℕ) : MixGroup := (c.s.mixes[m]?.bind (·.groups[g]?)).getD {}

/-- A level a solo silences: its mix has a solo that does not hold it. -/
def soloOut (c : Core) (m k : ℕ) : Bool := c.solo[m]?.any (!·.contains k)

section
variable [Libm]

def outOp (m : ℕ) (o : MixOut) : RtOp := .mixOut (ix m) (dbToLin o.volumeDb) o.muted

def limiterOp (m : ℕ) (o : MixOut) : RtOp := .limiter (ix m) o.limiter.enabled o.limiter.limitDb

def groupOp (m g : ℕ) (s : MixGroup) : RtOp := .group (ix m) (ix g) (dbToLin s.gainDb) s.muted

def levelOp (c : Core) (m k : ℕ) : RtOp :=
  let l := c.level m k
  .level (ix m) (ix k) (dbToLin l.gainDb) l.pan (l.muted || c.soloOut m k)

/-- Every level of mix `m`, as the RT thread must hold it. -/
def levelOps (c : Core) (m : ℕ) : List RtOp := (List.range (c.topo.levels m)).map (c.levelOp m)

/-- Commands that bring an RT processor to this state. -/
def fullSync (c : Core) : List RtOp :=
  (c.s.inputs.zipIdx.flatMap fun (s, i) =>
    [.input (ix i) (inputParams s), .inputEq (ix i) (eqParams s.eq)]) ++
  c.s.mixes.zipIdx.flatMap fun (rec, m) =>
    [outOp m rec.out, .mixEq (ix m) (eqParams rec.out.eq), limiterOp m rec.out] ++ c.levelOps m ++
    rec.groups.zipIdx.flatMap fun (strip, g) =>
      [groupOp m g strip, .groupEq (ix m) (ix g) (eqParams strip.eq)]

end

section
variable [Libm]

/-- The record of mix `m` written through `f`. -/
def modifyMix (c : Core) (m : ℕ) (f : MixRec → MixRec) : Core :=
  { c with s := { c.s with mixes := c.s.mixes.modify m f } }

/-- RT commands of an input that changed from `old` to `new`. -/
def inputOps (i : ℕ) (old new : InputState) : List RtOp :=
  (if ({ old with eq := new.eq } : InputState).peq new then []
    else [.input (ix i) (inputParams new)]) ++
  (if old.eq.peq new.eq then [] else [.inputEq (ix i) (eqParams new.eq)])

def setInput (i : ℕ) (new : InputState) (c : Core) : Partial × Core :=
  match c.s.inputs[i]?, c.topo.inputs[i]? with
  | some old, some node =>
    if old.peq new then ({}, c)
    else
      (.changed [.input node.id new] (inputOps i old new),
        { c with s := { c.s with inputs := c.s.inputs.set i new } })
  | _, _ => ({}, c)

/-- RT commands of a mix whose output changed from `old` to `new`. -/
def outOps (m : ℕ) (old new : MixOut) : List RtOp :=
  (if old.volumeDb.peq new.volumeDb && old.muted == new.muted then [] else [outOp m new]) ++
  (if old.eq.peq new.eq then [] else [.mixEq (ix m) (eqParams new.eq)]) ++
  (if old.limiter.peq new.limiter then [] else [limiterOp m new])

def setOut (m : ℕ) (new : MixOut) (c : Core) : Partial × Core :=
  match c.s.mixes[m]?, c.topo.mixes[m]? with
  | some rec, some node =>
    if rec.out.peq new then ({}, c)
    else
      (.changed [.mixOut node.id new] (outOps m rec.out new),
        c.modifyMix m fun rec => { rec with out := new })
  | _, _ => ({}, c)

def setLevel (m k : ℕ) (new : Level) (c : Core) : Partial × Core :=
  match c.topo.mixes[m]?, c.topo.source m k with
  | some node, some source =>
    match c.s.mixes[m]?.bind (·.levels[k]?) with
    | none => ({}, c)
    | some slot =>
      if slot.peq new then ({}, c)
      else
        let c := c.modifyMix m fun rec => { rec with levels := rec.levels.set k new }
        (.changed [.level node.id source new] [c.levelOp m k], c)
  | _, _ => ({}, c)

/-- RT commands of a group strip that changed from `old` to `new`. -/
def groupOps (m g : ℕ) (old new : MixGroup) : List RtOp :=
  (if old.gainDb.peq new.gainDb && old.muted == new.muted then [] else [groupOp m g new]) ++
  (if old.eq.peq new.eq then [] else [.groupEq (ix m) (ix g) (eqParams new.eq)])

def setGroup (m g : ℕ) (new : MixGroup) (c : Core) : Partial × Core :=
  match c.topo.mixes[m]?, c.topo.groups[g]? with
  | some node, some group =>
    match c.s.mixes[m]?.bind (·.groups[g]?) with
    | none => ({}, c)
    | some old =>
      if old.peq new then ({}, c)
      else
        (.changed [.group node.id group.id new] (groupOps m g old new),
          c.modifyMix m fun rec => { rec with groups := rec.groups.set g new })
  | _, _ => ({}, c)

/-- The slots of the sources a solo names. -/
def soloSlots (topo : Topology) (m : ℕ) (mix : MixId) :
    List Source → BTreeSet ℕ → Except CmdError (BTreeSet ℕ)
  | [], slots => .ok slots
  | source :: rest, slots =>
    match topo.slot m source with
    | none => .error ⟨.badValue, clip source.text ++ " is not heard in " ++ clip mix⟩
    | some k => soloSlots topo m mix rest (slots.insert k)

/-- `set_solo` past its checks: the new set of slots of mix `m`. -/
def replaceSolo (m : ℕ) (mix : MixId) (new : BTreeSet ℕ) (c : Core) : Partial × Core :=
  if c.solo[m]?.getD ∅ = new then ({}, c)
  else
    let list := new.toList.filterMap (c.topo.source m)
    let c := { c with solo := if new.isEmpty then c.solo.erase m else c.solo.insert m new }
    (.changed [.solo mix list] (c.levelOps m), c)

def setSolo (mix : MixId) (sources : List Source) : Edits Partial := do
  let self ← get
  let m ← self.mix mix
  if maxSolo < sources.length then
    throw ⟨.badValue, "at most " ++ toString maxSolo ++ " solo sources"⟩
  else
    let new ← soloSlots self.topo m mix sources ∅
    modifyGet (replaceSolo m mix new)

def listenPartial (c : Core) (rt : List RtOp) : Partial :=
  if rt.isEmpty then {} else .changed [.listen c.transient.listen] rt

/-- Slot 0 is the engineer's tap, slot 1 one other mix's. -/
def listenSlot (topo : Topology) (m : ℕ) : Fin 2 := if m = topo.engineer then 0 else 1

def engineerTap : Fin 2 := 0

def otherTap : Fin 2 := 1

def startListen (mix : MixId) : Edits Partial := do
  let self ← get
  let m ← self.mix mix
  let slot := listenSlot self.topo m
  let current := self.listen[slot]
  if current = some m then return {}
  else if slot = 1 ∧ current.isSome then
    throw ⟨.noSource, "another mix is being listened to"⟩
  else
    modifyGet fun c =>
      let c := { c with listen := c.listen.set slot (some m) }
      (c.listenPartial [.listen slot (some (ix m))], c)

/-- The listen tap of mix `m` set to it. -/
def tapped (c : Core) (m : ℕ) : Core :=
  { c with listen := c.listen.set (listenSlot c.topo m) (some m) }

/-- Every tap on mix `m` taken off. -/
def dropListen (m : ℕ) (c : Core) : Partial × Core :=
  let rt := c.listen.toList.zipIdx.filterMap fun (l, slot) =>
    if l = some m then some (RtOp.listen slot none) else none
  let c := { c with listen := c.listen.map fun l => if l = some m then none else l }
  (c.listenPartial rt, c)

def testFlag (c : Core) : Except CmdError Unit :=
  if c.flags.testSignal then .ok ()
  else .error ⟨.forbidden, "the engine runs without the test-signal flag"⟩

def needFaultInjection (c : Core) : Except CmdError Unit :=
  if c.flags.faultInjection then .ok ()
  else .error ⟨.forbidden, "the engine runs without the fault-injection flag"⟩

/-- A sine replaces `input` for `ttlS`; with `mask` it is the HIL signal. -/
def startTest (input : InputId) (hz dbfs ttlS : F64) (mask : Option HilMask) (listen : Bool) :
    Edits Partial := do
  let self ← get
  let i := ix (← self.input input)
  let hz ← capped hz .testHz "hz"
  let dbfs ← capped dbfs .testDbfs "dbfs"
  let ttlS ← capped ttlS .testTtlS "ttl_s"
  let signal : TestSignal := { input, hz, dbfs, ttlS }
  let amp := dbToLin dbfs
  let ttl := (ttlS.mul (.fin sampleRate)).round.toU64
  let op := match mask with
    | none => RtOp.testSignal i hz amp ttl
    | some mask => .hilTestSignal i hz amp ttl mask listen
  modifyGet fun c =>
    (.changed [.testSignal (some signal)] [op],
      { c with test := some signal, hilTest := mask.isSome })

/-- `test.take()`, with what is said and done when a signal ran. -/
def takeTest (rt : List RtOp) (c : Core) : Partial × Core :=
  if c.test.isSome then (.changed [.testSignal none] rt, { c with test := none }) else ({}, c)

/-- The whole state replaced. -/
def importState (state : MixState) (c : Core) : Partial × Core :=
  let c := { c with s := (reconcile c.topo state).1 }
  ({ rt := c.fullSync, effect := some .imported, bump := true }, c)

def one (cmd : Cmd) : Edits Partial := do
  let self ← get
  match cmd with
  | .setInput input trimDb muted processing =>
    let i ← self.input input
    let old := self.inputState i
    let trimDb ← cappedOr trimDb .trimDb "trim_db" old.trimDb
    modifyGet (setInput i { old with
      trimDb, muted := muted.getD old.muted, processing := processing.getD old.processing })
  | .setMix mix volumeDb muted =>
    let m ← self.mix mix
    let old := self.out m
    let volumeDb ← cappedOr volumeDb .faderDb "volume_db" old.volumeDb
    modifyGet (setOut m { old with volumeDb, muted := muted.getD old.muted })
  | .setLevel mix source gainDb pan muted =>
    let m ← self.mix mix
    match self.topo.slot m source with
    | none => throw ⟨.unknownId, "mix " ++ clip mix ++ " does not hear " ++ clip source.text⟩
    | some k =>
      let old := self.level m k
      let gainDb ← cappedOr gainDb .faderDb "gain_db" old.gainDb
      let pan ← cappedOr pan .pan "pan" old.pan
      modifyGet (setLevel m k { gainDb, pan, muted := muted.getD old.muted })
  | .setGroup mix group gainDb muted =>
    let m ← self.mix mix
    let g ← self.group group
    let old := self.strip m g
    let gainDb ← cappedOr gainDb .faderDb "gain_db" old.gainDb
    modifyGet (setGroup m g { old with gainDb, muted := muted.getD old.muted })
  | .setEq target eq =>
    if !eqIsFinite eq then throw ⟨.badValue, "an EQ value is not finite"⟩
    else
      let eq := capEq eq
      match target with
      | .input id =>
        let i ← self.input id
        modifyGet (setInput i { self.inputState i with eq })
      | .mix id =>
        let m ← self.mix id
        modifyGet (setOut m { self.out m with eq })
      | .group mix group =>
        let m ← self.mix mix
        let g ← self.group group
        modifyGet (setGroup m g { self.strip m g with eq })
  | .setLimiter mix enabled limitDb =>
    let m ← self.mix mix
    let old := self.out m
    let limitDb ← cappedOr limitDb .limitDb "limit_db" old.limiter.limitDb
    modifyGet (setOut m { old with
      limiter := { enabled := enabled.getD old.limiter.enabled, limitDb } })
  | .resetLimiterStats mix =>
    let m ← self.mix mix
    return .changed [.limiterStatsReset mix] [.resetLimiter (ix m)]
  | .setSolo mix sources => setSolo mix sources
  | .startListen mix => startListen mix
  | .stopListen mix =>
    let m ← self.mix mix
    modifyGet (dropListen m)
  | .startTestSignal input hz dbfs ttlS =>
    self.testFlag
    if self.hilTest && self.test.isSome then
      throw ⟨.forbidden, "a HIL test signal runs until its TTL ends"⟩
    else startTest input hz dbfs ttlS none false
  | .hilTestSignal input hz dbfs ttlS cardTx listen =>
    self.testFlag
    -- Refused above the cap, never lowered: HIL checks the level it asked for.
    if Range.testDbfs.hi.lt dbfs then
      throw ⟨.badValue, "dbfs is above the test-signal cap of -20 dBFS"⟩
    else
      let mask ← hilMask self.topo self.hil cardTx
      startTest input hz dbfs ttlS (some mask) listen
  | .stopTestSignal => modifyGet (takeTest [.stopTestSignal])
  | .injectFault =>
    self.needFaultInjection
    return { rt := [.panic] }
  | .batch _ => throw ⟨.badRequest, "nested batch"⟩
  | .importState state => modifyGet (importState state)
  | .getState => return .withEffect .sendState
  | .getTopology => return .withEffect .sendTopology
  | .saveNow => return .withEffect .save
  | .shutdown => return .withEffect .shutdown
  | .ping => return {}
  | .arm => return { rt := [.arm] }

/-- The ops of a batch one after another on the core's clone. -/
def batchLoop : List Cmd → Partial → Edits Partial
  | [], all => return all
  | op :: rest, all =>
    if !batchable op then throw ⟨.badRequest, "a batch holds state edits only"⟩
    else do
      let p ← one op
      batchLoop rest (all.extend p)

def batch (ops : List Cmd) : Edits Partial := fun self =>
  if maxBatch < ops.length then
    .error ⟨.badValue, "a batch holds at most " ++ toString maxBatch ++ " commands"⟩ self
  else
    match batchLoop ops {} self with
    | .error e _ => .error e self
    | .ok all next =>
      if maxCmdsPerBlock < all.rt.length then
        .error ⟨.badValue, "the batch needs more commands than one block applies"⟩ self
      else .ok all next

def finish (p : Partial) (c : Core) : Outcome × Core :=
  let c := if p.bump then { c with rev := c.rev + 1 } else c
  ({ rev := c.rev, changes := p.changes, rt := p.rt, effect := p.effect.getD .none }, c)

/-- A batch, or one request. -/
def dispatch : Cmd → Edits Partial
  | .batch ops => batch ops
  | other => one other

def apply (cmd : Cmd) : Edits Outcome := do
  let p ← dispatch cmd
  modifyGet (finish p)

/-- One mix's solo cleared. -/
def clearSolo (acc : Partial × Core) (m : ℕ) : Partial × Core :=
  let (p, c) := acc
  let c := { c with solo := c.solo.erase m }
  let said := (c.mixId m).map fun mix => Change.solo mix []
  ({ p with changes := p.changes ++ said.toList, rt := p.rt ++ c.levelOps m }, c)

/-- Every solo cleared: 10 s after the controller left. -/
def clearSolos (c : Core) : Outcome × Core :=
  let (p, c) := c.solo.keys.foldl clearSolo ({}, c)
  finish { p with bump := !p.changes.isEmpty } c

/-- The test signal's TTL ran out: the RT thread silences it by itself. -/
def endTestSignal (c : Core) : Outcome × Core :=
  let (p, c) := takeTest [] c
  finish p c

end

end Core
end IemMixer
