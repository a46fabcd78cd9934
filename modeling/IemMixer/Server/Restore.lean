import IemMixer.Lib.Runs
import IemMixer.Server.Switch

/-! Restoring a backup. The state the mirror shows is read, the backup completed from it and put
under the playing lineup's rules, and all of it sent as one import. The pages' changes are not
frozen meanwhile. -/
namespace IemMixer.Server
open Lib Proto

/-- A part of a mix state that a request can set by itself. -/
inductive Entry where
  | input (id : InputId)
  | out (mix : MixId)
  | level (mix : MixId) (source : Source)
  | group (mix : MixId) (group : GroupId)
  deriving DecidableEq

inductive Value where
  | input (state : InputState)
  | out (out : MixOut)
  | level (level : Level)
  | group (strip : MixGroup)
  deriving DecidableEq

/-- The value in its ranges. -/
def Value.cap : Value → Value
  | .input held => .input (capInput held)
  | .out held => .out (capOut held)
  | .level held => .level (capLevel held)
  | .group held => .group (capGroup held)

namespace Entry

def holds (state : MixState) : Entry → Bool
  | .input id => state.inputs[id]?.isSome
  | .out mix => state.mixes[mix]?.isSome
  | .level mix source => (state.mixes[mix]?.bind (·.level source)).isSome
  | .group mix g => (state.mixes[mix]?.bind (·.groups[g]?)).isSome

/-- As the server reads it: the default where the state holds none. -/
def value (state : MixState) : Entry → Value
  | .input id => .input (state.inputs[id]?.getD {})
  | .out mix => .out (state.mixes[mix]?.getD {}).out
  | .level mix source => .level (((state.mixes[mix]?.getD {}).level source).getD {})
  | .group mix g => .group ((state.mixes[mix]?.getD {}).groups[g]?.getD {})

/-- What the state holds there. -/
def find (state : MixState) : Entry → Option Value
  | .input id => state.inputs[id]?.map .input
  | .out mix => state.mixes[mix]?.map fun x => .out x.out
  | .level mix source => (state.mixes[mix]?.bind (·.level source)).map .level
  | .group mix g => (state.mixes[mix]?.bind (·.groups[g]?)).map .group

/-- The entry a change is to, and the value it gives it. -/
def ofChange : Change → Option (Entry × Value)
  | .input id new => some (.input id, .input new)
  | .mixOut mix new => some (.out mix, .out new)
  | .level mix source new => some (.level mix source, .level new)
  | .group mix g new => some (.group mix g, .group new)
  | _ => none

/-- The value of the last of `changes` to the entry, or `before` if there was none. -/
def last (before : Value) (changes : List Change) (e : Entry) : Value :=
  changes.foldl (fun v change => match ofChange change with
    | some (other, new) => if other = e then new else v
    | none => v) before

end Entry

/-- The roster in use and the lineup that plays. -/
def playing (use : Option RosterState) : Option (RosterState × Lineup) :=
  use.bind fun r => r.lineup.map fun lineup => (r, lineup)

/-- Whether the backup's live state is the playing lineup's. -/
def liveLineupFits (b : MixerBackup) (use : Option RosterState) : Bool :=
  match playing use with
  | some (r, lineup) => b.lineup.or (r.roster.main.map (·.id)) == some lineup.id
  | none => true

section
variable [Sha256]

/-- The record of the running state when it is `lineup`'s, a pending import settled. -/
def recordOf (running : Option Running) (lineup held : String) : BTreeSet String :=
  match running.map fun r => resolved r held with
  | some r => if r.lineup = lineup then r.silenced else ∅
  | none => ∅

/-- The state a restore of `backup` imports while the mirror shows `seen`, and what the running
state follows then. -/
def restored (backup seen : MixState) (use : Option RosterState) (running : Option Running) :
    MixState × Option Running :=
  let whole := keepRunning backup seen
  match playing use with
  | some (r, lineup) =>
    let silenced := recordOf running lineup.id (stateDigest seen)
    let (state, silenced) := fitRecorded whole r.roster lineup silenced
    (state, some { lineup := lineup.id, silenced })
  | none => (whole, none)

end

/-- Where the restore is. -/
inductive Restoring where
  | asked
  /-- Nothing was busy and the backup's lineup plays. -/
  | checked
  | read (seen : MixState)
  | sent (seen : MixState)
  /-- Answered, or given up; `seen` once the import was sent. -/
  | over (seen : Option MixState)

/-- The state read, once the import was sent. -/
def Restoring.imported : Restoring → Option MixState
  | .sent seen => some seen
  | .over seen => seen
  | _ => none

/-- `busy`: a switch is not finished, the roster not settled. `changes`: what the engine said of the
requests it accepted, in order. -/
structure Restore where
  desk : Desk
  backup : MixerBackup
  use : Option RosterState := none
  running : Option Running := none
  busy : Bool := false
  phase : Restoring := .asked
  changes : List Change := []

namespace Restore

inductive Move where
  /-- A page sends its commands. -/
  | page (cmds : List Cmd)
  | check
  | read
  | send
  /-- The answer, or its time is over. -/
  | finish
  | drift (d : Drift)

variable [Libm]

/-- What the engine says of the next request. -/
def said (d : Desk) : List Change :=
  match d.inbox with
  | (cmd, _) :: _ => ((d.core.handle (.request cmd)).1.map (·.changes)).getD []
  | [] => []

variable [Sha256]

def target (a : Restore) (seen : MixState) : MixState := (restored a.backup.state seen a.use a.running).1

def move (a : Restore) : Move → Option Restore
  | .page cmds =>
    if cmds.any isImport then none
    else if a.busy then some a
    else some { a with desk := cmds.foldl (fun d cmd => d.post cmd "") a.desk }
  | .check => match a.phase with
    | .asked =>
      let ready := !a.busy && a.desk.mirror.topology.isSome && liveLineupFits a.backup a.use
      some { a with phase := if ready then .checked else .over none }
    | _ => none
  | .read => match a.phase with
    | .checked => some { a with phase := .read a.desk.mirror.state }
    | _ => none
  | .send => match a.phase with
    | .read seen =>
      if a.desk.linked then
        some { a with desk := a.desk.post (.importState (a.target seen)) "", phase := .sent seen }
      else some { a with phase := .over none }
    | _ => none
  | .finish => match a.phase with
    | .sent seen => some { a with phase := .over (some seen) }
    | _ => none
  | .drift d => match d with
    | .reboot => none
    | .handle => some { a with desk := a.desk.drift .handle, changes := a.changes ++ said a.desk }
    | d => some { a with desk := a.desk.drift d }

/-- Nothing is on its way and nothing changed yet. -/
structure Starts (a : Restore) : Prop where
  phase : a.phase = .asked
  inbox : a.desk.inbox = []
  changes : a.changes = []

/-- What the restore should leave alone: the backup does not hold it, and the lineup's rules do
not touch it. -/
def Spared (a : Restore) (e : Entry) : Prop := ∀ seen, a.phase.imported = some seen →
  e.holds a.backup.state = false ∧ e.value (a.target seen) = e.value (keepRunning a.backup.state seen)

end Restore
end IemMixer.Server
