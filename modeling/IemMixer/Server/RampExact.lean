import IemMixer.Core.Commands
import IemMixer.Server.Ramp
import Mathlib.Analysis.SpecialFunctions.Log.Base
import Mathlib.Analysis.SpecialFunctions.Pow.Real

/-! The ramp over any arithmetic, of which the code's is one and the reals another; and the
engine's levels and strips in the reals, with the two commands a ramp sends. -/
namespace IemMixer.Server.Exact
open Lib Proto

/-- What a ramp computes with. -/
class Numbers (N : Type) where
  add : N → N → N
  sub : N → N → N
  mul : N → N → N
  div : N → N → N
  abs : N → N
  lt : N → N → Bool
  le : N → N → Bool
  nat : ℕ → N
  /-- `1e-9` -/
  tiny : N
  /-- `DB_OFF` -/
  bottom : N
  /-- `10^x` -/
  pow10 : N → N
  log10 : N → N

instance codeNumbers [Libm] : Numbers F64 where
  add := F64.add
  sub := F64.sub
  mul := F64.mul
  div := F64.div
  abs := F64.abs
  lt := F64.lt
  le := F64.le
  nat n := .fin n
  tiny := .ofRat (1 / 1000000000)
  bottom := dbOff
  pow10 := Libm.powf (.fin 10)
  log10 := Libm.log10

open Classical in
noncomputable instance realNumbers : Numbers ℝ where
  add := (· + ·)
  sub := (· - ·)
  mul := (· * ·)
  div := (· / ·)
  abs := (|·|)
  lt a b := decide (a < b)
  le a b := decide (a ≤ b)
  nat n := n
  tiny := 1 / 1000000000
  bottom := -150
  pow10 x := ((10 : ℕ) : ℝ) ^ x
  log10 := Real.logb (10 : ℕ)

@[ext]
structure Level (N : Type) where
  gainDb : N
  pan : N
  muted : Bool

structure Strip (N : Type) where
  gainDb : N
  muted : Bool
  eq : EqState

structure Send (N : Type) where
  src : Source
  gainDb : N
  pan : N
  muted : Bool

/-- The two commands of a ramp. -/
inductive Move (N : Type)
  | setLevel (mix : MixId) (source : Source) (gainDb pan : Option N) (muted : Option Bool)
  | setGroup (mix : MixId) (group : GroupId) (gainDb : Option N) (muted : Option Bool)

/-- What the mirror says of a level, a strip and an input's EQ. -/
structure Mirror (N : Type) where
  level : MixId → Source → Level N
  group : MixId → GroupId → Strip N
  eq : InputId → EqState

structure Captured (N : Type) where
  sends : List (Send N)
  groups : BTreeMap GroupId N
  inputEq : BTreeMap InputId EqState

section
variable {N : Type} [Numbers N]
open Numbers

def dbToLin (db : N) : N := if lt bottom db then pow10 (div db (nat 20)) else nat 0

def linDb (g : N) : N := if lt (nat 0) g then mul (nat 20) (log10 g) else bottom

def same (a b : N) : Bool := le (abs (sub a b)) tiny

def between (a b : N) (k : ℕ) : N := add a (mul (sub b a) (div (nat k) (nat rampSteps)))

def levelStep (mix : MixId) (cur : Level N) (s : Send N) (k : ℕ) : Move N :=
  let last := k = rampSteps
  let a := if cur.muted then nat 0 else dbToLin cur.gainDb
  let b := if s.muted then nat 0 else dbToLin s.gainDb
  let gainDb := if last ∧ !s.muted then s.gainDb else linDb (between a b k)
  let pan := if last then s.pan else between cur.pan s.pan k
  let muted := match cur.muted, s.muted with
    | false, true => if last then some true else none
    | true, false => if k = 1 then some false else none
    | _, _ => none
  .setLevel mix s.src (some gainDb) (some pan) muted

def groupStep (mix : MixId) (group : GroupId) (cur : Strip N) (target : N) (k : ℕ) : Move N :=
  let (a, b) := (dbToLin cur.gainDb, dbToLin target)
  .setGroup mix group
    (some (if k = rampSteps then target
      else linDb (add a (div (mul (sub b a) (nat k)) (nat rampSteps))))) none

section
variable (view : SiteView) (mirror : Mirror N) (page : Page) (sends : List (Send N)) (groups : BTreeMap GroupId N)

/-- Every level of the page's mix, inputs and then heard mixes, its group's fader, and the
EQs of the member's inputs. -/
def capture : Captured N where
  sends := ((view.inputs.map fun i => Source.input i.id) ++
      (((view.mix page.mix).map (·.hears)).getD []).map Source.mix).map fun src =>
    let l := mirror.level page.mix src
    { src, gainDb := l.gainDb, pan := l.pan, muted := l.muted }
  groups := .collect (view.group.toList.map fun g => (g, (mirror.group page.mix g).gainDb))
  inputEq := .collect ((view.inputs.filter fun i => page.member.isSome && i.owner == page.member).map fun i =>
    (i.id, mirror.eq i.id))

def moving : List (Send N) := (sends.filter fun s => shown view page (Viewer.ofPage page) s.src).filter fun s =>
  let cur := mirror.level page.mix s.src
  !(same cur.gainDb s.gainDb && same cur.pan s.pan && cur.muted == s.muted)

def movingGroups : List (GroupId × N) := (groups.toList.filter fun g => view.group == some g.1).filter fun g =>
  !same (mirror.group page.mix g.1).gainDb g.2

/-- The commands of step `k`. -/
def step (k : ℕ) : List (Move N) :=
  ((moving view mirror page sends).map fun s => levelStep page.mix (mirror.level page.mix s.src) s k) ++
    (movingGroups view mirror page groups).map fun g => groupStep page.mix g.1 (mirror.group page.mix g.1) g.2 k

/-- The stored gains of the levels that end muted. -/
def settle : List (Move N) :=
  ((moving view mirror page sends).filter (·.muted)).map fun s =>
    .setLevel page.mix s.src (some s.gainDb) none none

def ramp : List (List (Move N)) × ℕ :=
  let steps := (List.range rampSteps).map fun i => step view mirror page sends groups (i + 1)
  let skipped := (sends.filter fun s => !shown view page (Viewer.ofPage page) s.src).length +
    (groups.toList.filter fun g => view.group != some g.1).length
  ((steps ++ [settle view mirror page sends]).filter (!·.isEmpty), skipped)

end

end

def Send.ofCode (s : MixSend) : Send F64 where
  src := s.src
  gainDb := s.gainDb
  pan := s.pan
  muted := s.muted

/-- What the ramp reads of the server's mirror. -/
def Mirror.ofCode (m : IemMixer.Mirror) : Mirror F64 where
  level mix source := let l := m.level mix source; { gainDb := l.gainDb, pan := l.pan, muted := l.muted }
  group mix group := let g := m.group mix group; { gainDb := g.gainDb, muted := g.muted, eq := g.eq }
  eq id := (m.input id).eq

def Move.cmd : Move F64 → Cmd
  | .setLevel mix source gainDb pan muted => .setLevel mix source gainDb pan muted
  | .setGroup mix group gainDb muted => .setGroup mix group gainDb muted

section
variable [Libm]

variable (view : SiteView) (mirror : IemMixer.Mirror) (page : Page)

theorem levelStep_code (mix : MixId) (cur : Proto.Level) (s : MixSend) (k : ℕ) :
    (levelStep mix { gainDb := cur.gainDb, pan := cur.pan, muted := cur.muted } (.ofCode s) k).cmd =
      Server.levelStep mix cur s k := by
  obtain ⟨gainDb, pan, muted⟩ := cur
  obtain ⟨src, gain, pan', muted'⟩ := s
  cases muted <;> cases muted' <;> rfl

theorem moving_code (sends : List MixSend) :
    moving view (.ofCode mirror) page (sends.map .ofCode) = (Server.moving view mirror page sends).map .ofCode := by
  simp only [moving, Server.moving, List.filter_map]
  rfl

theorem movingGroups_code (groups : BTreeMap GroupId F64) :
    movingGroups view (.ofCode mirror) page groups = Server.movingGroups view mirror page groups := rfl

/-- The code's ramp, its commands read as moves. -/
theorem ramp_code (sends : List MixSend) (groups : BTreeMap GroupId F64) :
    ((ramp view (.ofCode mirror) page (sends.map .ofCode) groups).1.map (·.map Move.cmd),
        (ramp view (.ofCode mirror) page (sends.map .ofCode) groups).2) =
      Server.ramp view mirror page sends groups := by
  have steps : ∀ k, (step view (.ofCode mirror) page (sends.map .ofCode) groups k).map Move.cmd =
      ((Server.moving view mirror page sends).map fun s =>
        Server.levelStep page.mix (mirror.level page.mix s.src) s k) ++
        (Server.movingGroups view mirror page groups).map fun g =>
          Server.groupStep page.mix g.1 (mirror.group page.mix g.1) g.2 k := by
    intro k
    simp only [step, moving_code, movingGroups_code, List.map_append, List.map_map]
    exact congrArg₂ (· ++ ·)
      (List.map_congr_left fun s _ => levelStep_code page.mix (mirror.level page.mix s.src) s k) rfl
  have settled : (settle view (.ofCode mirror) page (sends.map .ofCode)).map Move.cmd =
      ((Server.moving view mirror page sends).filter (·.muted)).map fun s =>
        Cmd.setLevel page.mix s.src (some s.gainDb) none none := by
    simp only [settle, moving_code, List.filter_map, List.map_map]
    rfl
  have filtered : ∀ batches : List (List (Move F64)), (batches.filter (!·.isEmpty)).map (·.map Move.cmd) =
      (batches.map (·.map Move.cmd)).filter (!·.isEmpty) := by
    intro batches
    simp only [List.filter_map, Function.comp_def, List.isEmpty_map]
  simp only [ramp, Server.ramp, filtered, List.map_append, List.map_map, List.map_cons, List.map_nil, settled,
    Function.comp_def, steps]
  congr 2
  simp only [List.filter_map, List.length_map]
  rfl

end

/-- One mix of the engine in topology order. -/
structure MixRec where
  out : MixOut
  levels : List (Level ℝ)
  groups : List (Strip ℝ)

/-- The engine's state with exact levels. -/
structure Engine where
  topo : Topology
  inputs : List InputState
  mixes : List MixRec
  solo : BTreeMap ℕ (BTreeSet ℕ)

noncomputable def cap (v lo hi : ℝ) : ℝ := max lo (min v hi)

/-- The level with the given values, capped. -/
noncomputable def Level.set (l : Level ℝ) (gainDb pan : Option ℝ) (muted : Option Bool) : Level ℝ where
  gainDb := (gainDb.map (cap · (-150) 12)).getD l.gainDb
  pan := (pan.map (cap · (-1) 1)).getD l.pan
  muted := muted.getD l.muted

noncomputable def Strip.set (s : Strip ℝ) (gainDb : Option ℝ) (muted : Option Bool) : Strip ℝ :=
  { s with gainDb := (gainDb.map (cap · (-150) 12)).getD s.gainDb, muted := muted.getD s.muted }

namespace Engine

variable (e : Engine)

def mix (id : MixId) : Except CmdError ℕ := match e.topo.mixIndex id with
  | some m => .ok m
  | none => .error ⟨.unknownId, "unknown mix " ++ clip id⟩

def group (id : GroupId) : Except CmdError ℕ := match e.topo.groupIndex id with
  | some g => .ok g
  | none => .error ⟨.unknownId, "unknown group " ++ clip id⟩

def level (m k : ℕ) : Option (Level ℝ) := e.mixes[m]?.bind (·.levels[k]?)

def strip (m g : ℕ) : Option (Strip ℝ) := e.mixes[m]?.bind (·.groups[g]?)

def modifyMix (m : ℕ) (f : MixRec → MixRec) : Engine := { e with mixes := e.mixes.modify m f }

open Classical in
/-- The level written, and how many RT commands that takes. -/
noncomputable def setLevel (m k : ℕ) (new : Level ℝ) : ℕ × Engine :=
  match e.topo.mixes[m]?, e.topo.source m k with
  | some _, some _ =>
    match e.level m k with
    | none => (0, e)
    | some slot =>
      if slot = new then (0, e)
      else (1, e.modifyMix m fun rec => { rec with levels := rec.levels.set k new })
  | _, _ => (0, e)

open Classical in
noncomputable def setGroup (m g : ℕ) (new : Strip ℝ) : ℕ × Engine :=
  match e.topo.mixes[m]?, e.topo.groups[g]? with
  | some _, some _ =>
    match e.strip m g with
    | none => (0, e)
    | some old =>
      if old = new then (0, e)
      else (1, e.modifyMix m fun rec => { rec with groups := rec.groups.set g new })
  | _, _ => (0, e)

/-- One command; every value is capped. -/
noncomputable def one : Move ℝ → Except CmdError (ℕ × Engine)
  | .setLevel mix source gainDb pan muted => do
    let m ← e.mix mix
    match e.topo.slot m source with
    | none => throw ⟨.unknownId, "mix " ++ clip mix ++ " does not hear " ++ clip source.text⟩
    | some k =>
      let old := (e.level m k).getD { gainDb := -150, pan := 0, muted := false }
      return e.setLevel m k (old.set gainDb pan muted)
  | .setGroup mix group gainDb muted => do
    let m ← e.mix mix
    let g ← e.group group
    let old := (e.strip m g).getD { gainDb := 0, muted := false, eq := {} }
    return e.setGroup m g (old.set gainDb muted)

/-- The commands one after another, and the RT commands they take. -/
noncomputable def batchLoop (e : Engine) (rt : ℕ) : List (Move ℝ) → Except CmdError (ℕ × Engine)
  | [] => .ok (rt, e)
  | op :: rest => do
    let (n, e) ← e.one op
    e.batchLoop (rt + n) rest

/-- All of them or none. -/
noncomputable def batch (ops : List (Move ℝ)) : Except CmdError Engine :=
  if maxBatch < ops.length then
    .error ⟨.badValue, "a batch holds at most " ++ toString maxBatch ++ " commands"⟩
  else do
    let (rt, next) ← e.batchLoop 0 ops
    if maxCmdsPerBlock < rt then
      throw ⟨.badValue, "the batch needs more commands than one block applies"⟩
    else return next

/-- The batches in order; a refused one ends it. -/
noncomputable def play (plan : List (List (Move ℝ))) : Except CmdError Engine := plan.foldlM batch e

/-- The mirror that equals the state. -/
def mirror : Mirror ℝ where
  level mix source := ((e.topo.mixIndex mix).bind fun m => (e.topo.slot m source).bind (e.level m)).getD
    { gainDb := -150, pan := 0, muted := false }
  group mix group := ((e.topo.mixIndex mix).bind fun m => (e.topo.groupIndex group).bind (e.strip m)).getD
    { gainDb := 0, muted := false, eq := {} }
  eq id := (((e.topo.inputIndex id).bind fun i => e.inputs[i]?).getD {}).eq

end Engine

end IemMixer.Server.Exact
