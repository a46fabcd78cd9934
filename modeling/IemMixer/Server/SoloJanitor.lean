import IemMixer.Core.SoloWrites
import IemMixer.Lib.Runs
import IemMixer.Server.Desk
import IemMixer.Server.View

/-! The clean-up of solos. The server clears a mix's solo 10 s after the last page connection on
the mix closed, in a task that ticks; the engine clears every solo 10 s after the server left.
Pages, the task, the pipe and the engine move in any order. -/
namespace IemMixer.Server
open Lib Proto

/-- In milliseconds, as all times here. -/
def soloGrace : ℕ := 10000

/-- `opened`: the page connections of each mix that has one. `left`: when the last one of a mix
closed. -/
structure SoloJanitor where
  opened : BTreeMap MixId ℕ := ∅
  left : BTreeMap MixId ℕ := ∅

namespace SoloJanitor

/-- A page connection on `mix` opened. -/
def connected (j : SoloJanitor) (mix : MixId) : SoloJanitor where
  opened := j.opened.insert mix (j.opened[mix]?.getD 0 + 1)
  left := j.left.erase mix

/-- A page connection on `mix` closed at `now`. -/
def disconnected (j : SoloJanitor) (mix : MixId) (now : ℕ) : SoloJanitor :=
  match j.opened[mix]? with
  | none => j
  | some n =>
    if n - 1 = 0 then { opened := j.opened.erase mix, left := j.left.insert mix now }
    else { j with opened := j.opened.insert mix (n - 1) }

/-- Mixes whose solo must be cleared now, each once. -/
def due (j : SoloJanitor) (now : ℕ) : List MixId × SoloJanitor :=
  let due := (j.left.toList.filter fun p => soloGrace ≤ now - p.2).map (·.1)
  (due, { j with left := due.foldl (fun left mix => left.erase mix) j.left })

end SoloJanitor

/-- `lost`: when the engine's controller left, its clearing still to come. `sessions`: the mixes
of the page sessions. `hand`: what the running tick took off the schedule and still has to look
at. `missed`: what it let go of without a connection while the engine had a solo there. -/
structure Solos where
  desk : Desk
  clock : ℕ := 0
  lost : Option ℕ := none
  sessions : List MixId := []
  janitor : SoloJanitor := {}
  hand : List MixId := []
  missed : BTreeSet MixId := ∅

namespace Solos

inductive Move where
  | pass (time : ℕ)
  | connect (mix : MixId)
  | close (mix : MixId)
  /-- A page sets its mix's solo. -/
  | solo (mix : MixId) (sources : List Source)
  /-- The server sends something else. -/
  | send (cmd : Cmd) (whose : String)
  | tick
  /-- The running tick looks at its next mix. -/
  | work
  | drift (d : Drift)

/-- Sets no solo but an empty one. -/
def soloFree : Cmd → Bool
  | .setSolo _ sources => sources.isEmpty
  | .batch ops => !ops.any Core.setsSolo
  | _ => true

/-- Whether a solo is left once `cmd` is handled. -/
def leaves (mix : MixId) (held : Bool) (cmd : Cmd) : Bool :=
  match cmd with
  | .setSolo other sources => if other = mix then !sources.isEmpty else held
  | _ => held

/-- The engine has a solo on the mix once it handled everything sent, as far as one can tell. -/
def ahead (d : Desk) (mix : MixId) : Bool := (d.inbox.map (·.1)).foldl (leaves mix) (d.core.soloed mix)

variable [Libm]

def move (a : Solos) : Move → Option Solos
  | .pass time => some { a with clock := a.clock + time }
  | .connect mix => some { a with
      sessions := mix :: a.sessions
      janitor := a.janitor.connected mix
      missed := a.missed.erase mix }
  | .close mix =>
    if mix ∈ a.sessions then
      some { a with sessions := a.sessions.erase mix, janitor := a.janitor.disconnected mix a.clock }
    else none
  | .solo mix sources =>
    if mix ∈ a.sessions then some { a with desk := a.desk.post (.setSolo mix sources) "" } else none
  | .send cmd whose => if soloFree cmd then some { a with desk := a.desk.post cmd whose } else none
  | .tick =>
    if a.hand = [] then
      let (due, janitor) := a.janitor.due a.clock
      some { a with hand := due, janitor }
    else none
  | .work => match a.hand with
    | [] => none
    | mix :: rest =>
      let desk := if (a.desk.mirror.solo mix).isEmpty then a.desk else a.desk.post (.setSolo mix []) ""
      some { a with desk, hand := rest, missed := if ahead desk mix then a.missed.insert mix else a.missed }
  | .drift d => match d with
    | .clearSolos => match a.lost with
      | some left =>
        if left + soloGrace ≤ a.clock then
          some { a with desk := a.desk.drift .clearSolos, lost := none }
        else none
      | none => none
    | .lose => if a.desk.linked then some { a with desk := a.desk.drift .lose, lost := some a.clock } else none
    | .join => if a.desk.linked then none else some { a with desk := a.desk.drift .join, lost := none, missed := ∅ }
    | .reboot => some { a with desk := a.desk.drift .reboot, lost := none }
    | d => some { a with desk := a.desk.drift d }

/-- The janitor has the mix on its schedule, or in its running tick. -/
def Scheduled (a : Solos) (mix : MixId) : Prop := a.janitor.left.contains mix = true ∨ mix ∈ a.hand

/-- A request that clears the mix's solo is on its way. -/
def Clearing (a : Solos) (mix : MixId) : Prop := .setSolo mix [] ∈ a.desk.inbox.map (·.1)

/-- Nobody is connected, nothing is scheduled or under way, and no solo is set. -/
structure Starts (a : Solos) : Prop where
  sessions : a.sessions = []
  janitor : a.janitor = {}
  rest : a.hand = [] ∧ a.missed = ∅ ∧ a.desk.inbox = []
  silent : ∀ mix, a.desk.core.soloed mix = false

end Solos
end IemMixer.Server
