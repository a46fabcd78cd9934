import IemMixer.Lib.Process
import IemMixer.Core.Run
import IemMixer.Mirror
import IemMixer.Server.Client
import IemMixer.Server.Roster

/-! The server's world: the lineups' files, the engine behind its pipe, and what the
running server holds itself. Only the files and the engine outlive the server. A request
that is answered is in the mirror; one whose answer is lost may still reach the engine,
before any request sent later. -/
namespace IemMixer.Server
open Lib Lib.Process Proto

/-- A running switch. -/
structure SwitchIntent where
  src : String
  dst : String
  deriving DecidableEq

/-- What the running state follows once an import went in. -/
structure Pending where
  follows : String
  silenced : BTreeSet String := ∅
  digest : String

/-- What the engine's running state follows: whose it is, the roster it follows by its
SHA-256, and the sets the rules silenced in it. -/
structure Running where
  lineup : String
  follows : Option String := none
  silenced : BTreeSet String := ∅
  pending : Option Pending := none

/-- A lineup's stored state. -/
structure MixerBackup where
  rev : ℕ := 0
  state : MixState
  lineup : Option String := none
  follows : Option String := none
  silenced : BTreeSet String := ∅

/-- The `lineups/` directory, file by file. -/
structure Store where
  active : Option String := none
  intent : Option SwitchIntent := none
  running : Option Running := none
  states : BTreeMap String MixerBackup := ∅
  rosters : BTreeMap String Roster := ∅

/-- `owner`: whose state the core holds, by the last import. `saved`: what the load chain
gives at the engine's next start, and whose it is. `inbox`: sent and not handled, with
whose state an import among it carries. -/
structure Desk where
  core : Core
  owner : String
  saved : MixState × String
  inbox : List (Cmd × String) := []
  linked : Bool := true
  mirror : Mirror

/-- What the engine and the pipe do by themselves. -/
inductive Drift where
  /-- The engine handles its next message. -/
  | handle
  /-- The mirror follows to the core. -/
  | see
  /-- A revision gap. -/
  | gap
  | lose
  /-- A new connection and its greeting. -/
  | join
  /-- A scheduled save. -/
  | save
  /-- The engine stopped and started again. -/
  | reboot
  | clearSolos
  | endTestSignal
  deriving DecidableEq

def isImport : Cmd → Bool
  | .importState _ => true
  | _ => false

namespace Desk

/-- The engine has not saved since it took the state of the lineup it plays. -/
def unsaved (d : Desk) : Bool := d.saved.2 != d.owner

/-- The mirror as it is once it followed to the core. -/
def view (d : Desk) : Mirror :=
  { d.mirror with
    topology := some d.core.topo.info, state := d.core.state, transient := d.core.transient
    rev := d.core.rev, synced := true }

/-- `cmd` goes into the pipe. -/
def post (d : Desk) (cmd : Cmd) (whose : String) : Desk :=
  if d.linked then { d with inbox := d.inbox ++ [(cmd, whose)] } else d

section
variable [Libm]

/-- The core meets an event; an import brings its lineup's state. -/
def meet (d : Desk) (event : Core.Event) (whose : String) : Desk :=
  match event with
  | .request (.importState state) =>
    { d with core := (d.core.handle (.request (.importState state))).2, owner := whose }
  | event => { d with core := (d.core.handle event).2 }

/-- The engine handles everything sent before. -/
def flush (d : Desk) : Desk :=
  { d.inbox.foldl (fun d p => d.meet (.request p.1) p.2) d with inbox := [] }

def drift (d : Desk) : Drift → Desk
  | .handle => match d.inbox with
    | (cmd, whose) :: rest => { d.meet (.request cmd) whose with inbox := rest }
    | [] => d
  | .see => if d.linked then { d with mirror := d.view } else d
  | .gap => { d with mirror := { d.mirror with synced := false } }
  | .lose => { d with linked := false, mirror := d.mirror.disconnected }
  | .join => if d.linked then d else
    let d := { d with inbox := [], linked := true }
    { d with mirror := d.view }
  | .save => { d with saved := (d.core.state, d.owner) }
  | .reboot =>
    { d with
      core := (Core.new d.core.topo d.saved.1 d.core.rev d.core.flags).withHil d.core.hil
      owner := d.saved.2, inbox := [], linked := false, mirror := d.mirror.disconnected }
  | .clearSolos => d.meet .clearSolos d.owner
  | .endTestSignal => d.meet .endTestSignal d.owner

end
end Desk

/-- `inUse`, `frozen`, `settling`: the running server's own. `early`: a switch's intent was
cleared before the engine had saved what it plays, or the engine stopped before it had
saved the state of the lineup that a switch still recorded had made the active one. -/
structure World where
  store : Store
  desk : Desk
  inUse : Option RosterState
  frozen : Bool := false
  settling : Bool := false
  early : Bool := false

section
variable [Libm]

namespace World

def drift (w : World) (d : Drift) : World :=
  let rash := d == .reboot && w.desk.unsaved && w.store.intent.any fun i => w.store.active == some i.dst
  { w with desk := w.desk.drift d, early := w.early || rash }

def drifts (w : World) (ds : List Drift) : World := ds.foldl drift w

/-- The server starts on what is on disk; its connection is a new one. -/
def restart (w : World) : World :=
  { w with
    desk := w.desk.drift .lose
    inUse := w.inUse.map fun r =>
      { r with active := w.store.active.getD ((r.roster.main.map (·.id)).getD r.active) }
    frozen := w.store.intent.isSome
    settling := true }

end World

inductive Op where
  | readActive
  | writeActive
  | readIntent
  | writeIntent
  | clearIntent
  | readRunning
  | writeRunning
  | readState (id : String)
  | writeState (id : String)
  | capture
  | mirror
  | waitSynced
  | request (cmd : Cmd)

/-- How a step ends. `failed`: a file could not be read or written, with the error's kind.
`refused`: the engine refuses without looking at the state. `lost`: no answer; `sent`: the
request is on its way. -/
inductive Ending where
  | done
  | failed (kind : String)
  | refused (body : ErrorBody)
  | lost (sent timeout : Bool)
  | stop (sent : Bool)

/-- `drifts`: what the engine and the pipe did before the step. -/
structure Fate where
  drifts : List Drift := []
  ending : Ending := .done

abbrev Proc (ε α : Type) := ProcM Op Fate World ε α

/-- One step on the files: `act` when it is done. -/
def fileStep {α : Type} (op : Op) (act : World → α × World) : Proc String α :=
  step op fun fate w =>
    let w := w.drifts fate.drifts
    match fate.ending with
    | .stop _ => (.error .stopped, w)
    | .failed kind => (.error (.error kind), w)
    | _ => let (a, w) := act w; (.ok a, w)

namespace Store

def readActive : Proc String (Option String) := fileStep .readActive fun w => (w.store.active, w)

def setActive (id : String) : Proc String Unit :=
  fileStep .writeActive fun w => ((), { w with store := { w.store with active := some id } })

def readIntent : Proc String (Option SwitchIntent) := fileStep .readIntent fun w => (w.store.intent, w)

def setIntent (i : SwitchIntent) : Proc String Unit :=
  fileStep .writeIntent fun w => ((), { w with store := { w.store with intent := some i } })

def clearIntent : Proc String Unit := fileStep .clearIntent fun w =>
  ((), { w with
    store := { w.store with intent := none }
    early := w.early || (w.store.intent.isSome && w.desk.unsaved) })

def readRunning : Proc String (Option Running) := fileStep .readRunning fun w => (w.store.running, w)

def setRunning (r : Running) : Proc String Unit :=
  fileStep .writeRunning fun w => ((), { w with store := { w.store with running := some r } })

def state (id : String) : Proc String (Option MixerBackup) :=
  fileStep (.readState id) fun w => (w.store.states[id]?, w)

def saveState (id : String) (b : MixerBackup) : Proc String Unit :=
  fileStep (.writeState id) fun w =>
    ((), { w with store := { w.store with states := w.store.states.insert id b } })

end Store

/-- The mirror as it is now. -/
def mirror {ε : Type} : Proc ε Mirror := step .mirror fun fate w =>
  let w := w.drifts fate.drifts
  match fate.ending with
  | .stop _ => (.error .stopped, w)
  | _ => (.ok w.desk.mirror, w)

/-- Waits until the mirror is synced, for as long as it takes. -/
def waitSynced {ε : Type} : Proc ε Unit := step .waitSynced fun fate w =>
  let w := w.drifts fate.drifts
  match fate.ending with
  | .stop _ => (.error .stopped, w)
  | _ => if w.desk.mirror.synced then (.ok (), w) else (.error .stopped, w)

/-- `cmd` is answered: everything sent before was handled, and the mirror holds what the
core made of it. -/
def World.answered (w : World) (cmd : Cmd) (whose : String) : Except EngineError Unit × World :=
  let d := w.desk.flush
  match d.core.apply cmd with
  | .ok _ _ =>
    let d := d.meet (.request cmd) whose
    (.ok (), { w with desk := { d with mirror := d.view } })
  | .error e _ => (.error (.refused ⟨e.code, e.msg⟩), { w with desk := d })

/-- Sends `cmd`, then waits until the mirror holds its effect. -/
def requestApplied (cmd : Cmd) (whose : String) : Proc EngineError Unit :=
  step (.request cmd) fun fate w =>
    let w := w.drifts fate.drifts
    let post (w : World) : World := { w with desk := w.desk.post cmd whose }
    match fate.ending with
    | .stop sent => (.error .stopped, if sent then post w else w)
    | ending =>
      if !w.desk.linked then (.error (.error .disconnected), w)
      else match ending with
        | .refused body => (.error (.error (.refused body)), { w with desk := w.desk.flush })
        | .lost sent timeout =>
          (.error (.error (if timeout then .timeout else .disconnected)), if sent then post w else w)
        | _ => match w.answered cmd whose with
          | (.ok (), w) => (.ok (), w)
          | (.error e, w) => (.error (.error e), w)

end

end IemMixer.Server
