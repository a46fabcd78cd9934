import IemMixer.Params
import IemMixer.Server.View

/-! A preset or snapshot applied to a page: from the mirror's levels to the stored ones over
five steps of 10 ms each. -/
namespace IemMixer.Server
open Lib Proto

/-- One source's stored level. -/
structure MixSend where
  src : Source
  gainDb : F64 := .fin 0
  pan : F64 := .fin 0
  muted : Bool := false

def rampSteps : ℕ := 5

def same (a b : F64) : Bool := F64.le (a.sub b).abs (F64.ofRat (1 / 1000000000))

section
variable [Libm]

def linDb (g : F64) : F64 := if F64.lt (.fin 0) g then (F64.fin 20).mul (Libm.log10 g) else dbOff

/-- The value at step `k`, on the way from `a` to `b`. -/
def between (a b : F64) (k : ℕ) : F64 := a.add ((b.sub a).mul ((F64.fin k).div (.fin rampSteps)))

/-- A level's command at step `k`, from `cur` to the stored one. -/
def levelStep (mix : MixId) (cur : Level) (s : MixSend) (k : ℕ) : Cmd :=
  let last := k = rampSteps
  let a := if cur.muted then .fin 0 else dbToLin cur.gainDb
  let b := if s.muted then .fin 0 else dbToLin s.gainDb
  let gainDb := if last ∧ !s.muted then s.gainDb else linDb (between a b k)
  let pan := if last then s.pan else between cur.pan s.pan k
  let muted := match cur.muted, s.muted with
    | false, true => if last then some true else none
    | true, false => if k = 1 then some false else none
    | _, _ => none
  .setLevel mix s.src (some gainDb) (some pan) muted

def groupStep (mix : MixId) (group : GroupId) (cur : MixGroup) (target : F64) (k : ℕ) : Cmd :=
  let (a, b) := (dbToLin cur.gainDb, dbToLin target)
  .setGroup mix group
    (some (if k = rampSteps then target
      else linDb (a.add (((b.sub a).mul (.fin k)).div (.fin rampSteps))))) none

section
variable (view : SiteView) (mirror : Mirror) (page : Page) (sends : List MixSend) (groups : BTreeMap GroupId F64)

/-- The stored levels to reach: of the sources the page shows its own member, changed ones. -/
def moving : List MixSend := (sends.filter fun s => shown view page (Viewer.ofPage page) s.src).filter fun s =>
  let cur := mirror.level page.mix s.src
  !(same cur.gainDb s.gainDb && same cur.pan s.pan && cur.muted == s.muted)

def movingGroups : List (GroupId × F64) := (groups.toList.filter fun g => view.group == some g.1).filter fun g =>
  !same (mirror.group page.mix g.1).gainDb g.2

/-- The batches, and how many sources and groups were passed over. A last one sets the
stored gain of the levels that end muted. -/
def ramp : List (List Cmd) × ℕ :=
  let levels := moving view mirror page sends
  let steps := (List.range rampSteps).map fun i =>
    (levels.map fun s => levelStep page.mix (mirror.level page.mix s.src) s (i + 1)) ++
      (movingGroups view mirror page groups).map fun g =>
        groupStep page.mix g.1 (mirror.group page.mix g.1) g.2 (i + 1)
  let settle := (levels.filter (·.muted)).map fun s => Cmd.setLevel page.mix s.src (some s.gainDb) none none
  let skipped := (sends.filter fun s => !shown view page (Viewer.ofPage page) s.src).length +
    (groups.toList.filter fun g => view.group != some g.1).length
  ((steps ++ [settle]).filter (!·.isEmpty), skipped)

end

end

end IemMixer.Server
