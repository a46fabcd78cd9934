import IemMixer.Server.Session

/-! The freeze as a barrier: the pages' calls of `apply`, each checked and queued under the
change gate and then awaited, beside freezes and thaws, over the client and its engine. The
daily snapshot a first change takes is left out. -/
namespace IemMixer.Server
open Lib Proto

/-- Why a page's commands did not reach the engine. -/
inductive ChangeError where
  | refused (e : ViewError)
  | engine (e : EngineError)

/-- A page's call of `apply`. `ids`: its requests as queued; `left`: those still awaited. -/
structure Applying where
  page : Page
  ids : List ℕ := []
  left : List ℕ := []
  result : Option (Except ChangeError Unit) := none

/-- How far the one freeze at a time is; `was` is what it found. -/
inductive Freezing where
  | rest
  | gate (was : Bool)
  | ping (was : Bool) (id : ℕ)
  | frozen (was : Bool)
  deriving DecidableEq

structure Barrier where
  app : App
  net : Net
  applying : BTreeMap ℕ Applying := ∅
  freezing : Freezing := .rest

namespace Barrier

inductive Move where
  /-- The held section of one `apply`. -/
  | apply (n : ℕ) (page : Page) (cmds : List Cmd) (origin : Option ℕ)
  /-- The answer to its first awaited request is there. -/
  | wake (n : ℕ)
  | timeout (n : ℕ)
  | freeze
  | ping
  | answer
  | pingTimeout
  | thaw
  | thawUnchanged
  /-- The pages stay frozen, another holder of the lock goes on. -/
  | stay
  /-- A request of the server's own, and its caller's return. -/
  | other (cmd : Cmd) (origin : Option ℕ)
  | otherDone (id : ℕ)
  /-- The engine, the pipe and the reader move. -/
  | net (m : Server.Move)
  | setRoster (r : Option RosterState)
  | setSettling (settling : Bool)

/-- The callers of these requests returned. -/
def forget (ids : List ℕ) (net : Net) : Net :=
  { net with client := { net.client with calls := ids.foldl (·.erase ·) net.client.calls } }

/-- A freeze failed: the pages are frozen as they were before it. -/
def fail (h : Barrier) (was : Bool) : Barrier :=
  { h with app := if was then h.app else (h.app.thawAfter false).2, freezing := .rest }

/-- Whether some caller waits for request `id`. -/
def awaited (h : Barrier) (id : ℕ) : Bool :=
  h.applying.toList.any (·.2.left.contains id) || match h.freezing with
    | .ping _ ping => ping == id
    | _ => false

section
variable [Libm]

/-- Queues the commands up to the first one there is no connection for. -/
def queue (origin : Option ℕ) : List Cmd → Net → List ℕ × Bool × Net
  | [], net => ([], true, net)
  | cmd :: rest, net => match net.move (.send cmd origin) with
    | none => ([], false, net)
    | some next =>
      let (ids, all, last) := queue origin rest next
      (net.client.nextId :: ids, all, last)

/-- The held section of `apply`: the check and the queueing. -/
def applyGate (h : Barrier) (page : Page) (cmds : List Cmd) (origin : Option ℕ) : Applying × Net :=
  match h.app.mayChange h.net.client.mirror page with
  | .error e => ({ page, result := some (.error (.refused e)) }, h.net)
  | .ok () => match queue origin cmds h.net with
    | (ids, true, net) => ({ page, ids, left := ids, result := if ids.isEmpty then some (.ok ()) else none }, net)
    | (ids, false, net) => ({ page, ids, result := some (.error (.engine .disconnected)) }, forget ids net)

/-- An `apply` goes on past its first awaited request. -/
def wake (h : Barrier) (n : ℕ) (run : Applying) : Option Barrier := match run.left with
  | [] => none
  | id :: rest => match h.net.client.applied id with
    | none => none
    | some (.ok ()) => some { h with
        net := forget [id] h.net
        applying := h.applying.insert n
          { run with left := rest, result := if rest.isEmpty then some (.ok ()) else none } }
    | some (.error e) => some { h with
        net := forget run.left h.net
        applying := h.applying.insert n { run with left := [], result := some (.error (.engine e)) } }

def move (h : Barrier) : Move → Option Barrier
  | .apply n page cmds origin =>
    if h.applying.contains n then none
    else
      let (run, net) := h.applyGate page cmds origin
      some { h with net, applying := h.applying.insert n run }
  | .wake n => h.applying[n]?.bind (h.wake n)
  | .timeout n => h.applying[n]?.bind fun run =>
    if run.left.isEmpty then none
    else some { h with
      net := forget run.left h.net
      applying := h.applying.insert n { run with left := [], result := some (.error (.engine .timeout)) } }
  | .freeze =>
    if h.freezing = .rest then
      let (was, app) := h.app.freezeGate
      some { h with app, freezing := .gate was }
    else none
  | .ping => match h.freezing with
    | .gate was => match h.net.move (.send .ping none) with
      | some net => some { h with net, freezing := .ping was h.net.client.nextId }
      | none => some (h.fail was)
    | _ => none
  | .answer => match h.freezing with
    | .ping was id => match h.net.client.applied id with
      | none => none
      | some (.ok ()) => some { h with net := forget [id] h.net, freezing := .frozen was }
      | some (.error _) => some (({ h with net := forget [id] h.net } : Barrier).fail was)
    | _ => none
  | .pingTimeout => match h.freezing with
    | .ping was id => some (({ h with net := forget [id] h.net } : Barrier).fail was)
    | _ => none
  | .thaw => match h.freezing with
    | .rest | .frozen _ => some { h with app := (h.app.thawAfter true).2, freezing := .rest }
    | _ => none
  | .thawUnchanged => match h.freezing with
    | .frozen _ => some { h with app := (h.app.thawAfter false).2, freezing := .rest }
    | _ => none
  | .stay => match h.freezing with
    | .frozen _ => some { h with freezing := .rest }
    | _ => none
  | .other cmd origin => (h.net.move (.send cmd origin)).map fun net => { h with net }
  | .otherDone id => if h.awaited id then none else some { h with net := forget [id] h.net }
  | .net m => match m with
    | .send .. | .finish _ => none
    | m => (h.net.move m).map fun net => { h with net }
  | .setRoster roster => some { h with app := { h.app with roster } }
  | .setSettling settling => some { h with app := { h.app with settling } }

end
end Barrier
end IemMixer.Server
