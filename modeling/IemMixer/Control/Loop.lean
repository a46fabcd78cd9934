import IemMixer.Core.Run
import IemMixer.Link
import IemMixer.Persist.Store
import IemMixer.Rt.Ring

/-! The control loop: the one thread that owns the core. It answers requests,
broadcasts revisioned changes, schedules saves, clears solos after the controller
left, ends test signals, and runs the shutdown and fault paths. What it cannot decide
(clocks, whether a write or a save succeeds, how far the RT thread emptied the ring)
is `Outside`, asked one question after another. Instants and durations are
nanoseconds; `Nat` subtraction saturates as `saturating_duration_since` does. -/
namespace IemMixer
open Lib Proto Rt Persist

namespace Control

def quiet : ℕ := 1000000000
def maxDelay : ℕ := 5000000000

/-- Saves 1 s after the last change, at most 5 s after the first. -/
structure SaveSchedule where
  first : Option ℕ := none
  last : Option ℕ := none
  deriving DecidableEq

namespace SaveSchedule

def changed (s : SaveSchedule) (now : ℕ) : SaveSchedule where
  first := some (s.first.getD now)
  last := some now

def pending (s : SaveSchedule) : Bool := s.first.isSome

def due (s : SaveSchedule) (now : ℕ) : Bool :=
  match s.first, s.last with
  | some first, some last => quiet ≤ now - last || maxDelay ≤ now - first
  | _, _ => false

def saved : SaveSchedule := {}

@[simp] theorem changed_pending (s : SaveSchedule) (now : ℕ) : (s.changed now).pending = true := rfl

@[simp] theorem saved_pending : saved.pending = false := rfl

end SaveSchedule

/-- Connections at most (one controller and observers). -/
def maxConns : ℕ := 8

/-- Alarms replayed to each new connection: the newest ones. -/
def maxAlarms : ℕ := 16

def statusPeriod : ℕ := 1000000000

/-- `soloGrace`: solos clear this long after the controller left. `hold`: silent until
the supervisor's `Arm`. -/
structure Settings where
  soloGrace : ℕ
  block : ℕ
  hold : Bool

/-- Why a backend ends the run. -/
inductive Ending where
  | stop
  | backend (why : String)

inductive Exit where
  | shutdown (faded : Bool)
  | fault (why : String)
  | backend (why : String)

/-- What the loop reads of a meter frame. -/
structure MeterFrame where
  trips : ℕ
  active : List ℕ

/-- What a tick finds: the time, the backend's state, a new meter frame, and whether
the output faded out in the time a shutdown waits for it. -/
structure Pulse where
  now : ℕ
  faulted : Bool := false
  fault : Option String := none
  ending : Option Ending := none
  meters : Option MeterFrame := none
  fadedOut : Bool := true

/-- The answers from outside the loop, by the number of the question: the clocks,
whether a write went through, how many commands the RT thread took since the last
look at the ring, how often a shutdown looks at the ring while it waits, and the
store's answer to a save. `fits`: a message can be encoded as one frame. -/
structure Outside where
  now : ℕ → ℕ
  unixMs : ℕ → UInt64
  wrote : ℕ → Bool
  took : ℕ → ℕ
  waits : ℕ → ℕ
  save : ℕ → Except String Committed
  fits : EngineMsg → Bool
  engineBuild : String

end Control

open Control in
/-- The last four fields are what the outside saw: the questions asked so far, the
messages each connection took, every RT command handed over, and the last state the
store accepted (at the start, the one the core was made from). -/
structure Control where
  core : Core
  schedule : SaveSchedule := {}
  cmds : List RtCmd := []
  pending : List (List RtOp) := []
  peers : BTreeMap ℕ (Option Role) := ∅
  controller : Option ℕ := none
  controllerLost : Option ℕ := none
  supervisor : Option ℕ := none
  held : Bool
  testDeadline : Option ℕ := none
  counters : List ℕ
  alarms : List Alarm
  lastStatus : ℕ
  settings : Settings
  shutdown : Bool := false
  tripsSeen : ℕ := 0
  asked : ℕ := 0
  sent : List (ℕ × EngineMsg) := []
  published : List RtOp := []
  accepted : Persisted

namespace Control

/-- What a save writes. -/
def persistedOf (core : Core) (counters : List ℕ) (savedUnixMs : UInt64) : Persisted where
  rev := .ofNat core.rev
  topologyHash := core.topo.hash
  savedUnixMs
  state := core.state
  counters := .collect ((core.topo.mixes.zip counters).map fun p => (p.1.id, .ofNat p.2))

def new (core : Core) (counters : List ℕ) (alarms : List Alarm) (settings : Settings) (now : ℕ) :
    Control :=
  { core, held := settings.hold, counters, alarms, lastStatus := now, settings
    accepted := persistedOf core counters 0 }

section
variable (env : Outside)

def ask (c : Control) : Control := { c with asked := c.asked + 1 }

def dropPeer (c : Control) (id : ℕ) : Control :=
  let c := { c with peers := c.peers.erase id }
  if c.controller = some id then
    { c.ask with controller := none, controllerLost := some (env.now c.asked) }
  else c

/-- A peer that does not take the bytes is dropped. -/
def write (c : Control) (id : ℕ) (msg : EngineMsg) : Control :=
  match c.peers[id]? with
  | none => c
  | some _ =>
    if env.wrote c.asked then { c.ask with sent := c.sent ++ [(id, msg)] }
    else c.ask.dropPeer env id

def send (c : Control) (id : ℕ) (msg : EngineMsg) : Control :=
  if env.fits msg then c.write env id msg else c

/-- To every connection that said hello. -/
def broadcast (c : Control) (msg : EngineMsg) : Control :=
  if env.fits msg then
    ((c.peers.toList.filter fun p => p.2.isSome).map (·.1)).foldl (fun c id => c.write env id msg) c
  else c

def reply (c : Control) (id request : ℕ) (error : Option ErrorBody) : Control :=
  c.send env id (.reply { id := request, rev := c.core.rev, error })

def pushAlarm (list : List Alarm) (alarm : Alarm) : List Alarm :=
  let list := list ++ [alarm]
  if maxAlarms < list.length then list.tail else list

def alarm (c : Control) (code : AlarmCode) (detail : String) : Control :=
  { c with alarms := pushAlarm c.alarms ⟨code, detail⟩ }.broadcast env (.alarm ⟨code, detail⟩)

def stateMsg (c : Control) : EngineMsg := c.core.stateMsg

/-- The connection `holder` of a role gives way to `id`. -/
def supersede (c : Control) (holder : Option ℕ) (id : ℕ) : Control :=
  match holder.filter (· ≠ id) with
  | none => c
  | some old => (c.send env old .superseded).dropPeer env old

/-- The slots of `role` taken by connection `id`. -/
def seat (c : Control) (id : ℕ) (role : Role) : Control :=
  match role with
  | .control =>
    { c.supersede env c.controller id with controller := some id, controllerLost := none }
  | .supervisor => { c.supersede env c.supervisor id with supervisor := some id }
  | .observe => c

/-- What a new connection is told: the engine, the topology, the state, the alarms. -/
def welcome (c : Control) (id proto : ℕ) (role : Role) : Control :=
  let c := c.send env id (.hello
    { proto, engineBuild := env.engineBuild, topologyHash := c.core.topo.hash,
      stateRev := c.core.rev, sampleRate, block := c.settings.block, role })
  let c := c.send env id (.topology c.core.topo.info)
  let c := c.send env id c.stateMsg
  c.alarms.foldl (fun c alarm => c.send env id (.alarm alarm)) c

def hello (c : Control) (id theirs : ℕ) (role : Role) : Control :=
  match negotiate proto theirs with
  | none =>
    (c.reply env id 0 (some ⟨.unsupported, s!"protocol {theirs} is not supported (the engine speaks {proto} and one version older)"⟩)).dropPeer env id
  | some agreed =>
    let c := c.seat env id role
    match c.peers[id]? with
    | none => c
    | some _ => { c with peers := c.peers.insert id (some role) }.welcome env id agreed role

/-- The groups that wait, written while the ring has room. The RT thread takes
commands at any moment between. -/
def flushLoop (c : Control) : List (List RtOp) → Control
  | [] => { c with pending := [] }
  | group :: rest =>
    let c := { c.ask with cmds := c.cmds.drop (env.took c.asked) }
    match pushGroup c.cmds 0 group with
    | none => { c with pending := group :: rest }
    | some cmds => flushLoop { c with cmds } rest

def flushRt (c : Control) : Control := c.flushLoop env c.pending

/-- Queues an outcome's RT commands and broadcasts its changes. -/
def publish (c : Control) (out : Outcome) (origin : Option ℕ) : Control :=
  let c := { c with
    pending := c.pending ++ chunks maxCmdsPerBlock out.rt, published := c.published ++ out.rt }
  let c := c.flushRt env
  if out.changes.isEmpty then c
  else
    { c.ask with schedule := c.schedule.changed (env.now c.asked) }.broadcast env
      (.delta out.rev origin out.changes)

def persisted (c : Control) : Persisted := persistedOf c.core c.counters (env.unixMs c.asked)

def save (c : Control) : Control :=
  let c := { c with schedule := .saved }
  match env.save c.asked with
  | .ok committed =>
    let c := { c.ask with accepted := c.persisted env }
    let c := match committed.orphaned with
      | some aside => c.alarm env .stateFallback
          s!"a save.tmp the boot did not load was moved aside to {aside}"
      | none => c
    c.broadcast env (.saved c.core.rev committed.generation.toNat)
  | .error e => c.ask.alarm env .saveFailed s!"saving the state failed: {e}"

/-- `Duration::from_secs_f64`: to the nearest nanosecond. -/
def fromSecsF64 (s : F64) : ℕ := (F64.roundEven (s.val * 1000000000)).toNat

/-- Why a connection in `role` may not send `cmd`. -/
def refusal (role : Option Role) (cmd : Cmd) : Option ErrorBody :=
  match role with
  | none => some ⟨.badRequest, "say hello first"⟩
  | some .observe =>
    if !cmd.isReadOnly then some ⟨.notController, "an observer may only read"⟩ else none
  | some .supervisor =>
    if !cmd.supervisorMay then some ⟨.notController, "the supervisor never changes the mix"⟩ else none
  | some .control =>
    if cmd.isSupervisor then some ⟨.notSupervisor, "only the supervisor sends this"⟩ else none

/-- What an accepted command sets besides the core. -/
def note (c : Control) (cmd : Cmd) : Control :=
  match cmd with
  | .startTestSignal .. | .hilTestSignal .. =>
    { c.ask with testDeadline := c.core.test.map fun t => env.now c.asked + fromSecsF64 t.ttlS }
  | .stopTestSignal => { c with testDeadline := none }
  | .arm => { c with held := false }
  | _ => c

def perform (c : Control) (id : ℕ) : Effect → Control
  | .none => c
  | .sendState => c.send env id c.stateMsg
  | .sendTopology => c.send env id (.topology c.core.topo.info)
  | .save => c.save env
  | .shutdown => { c with shutdown := true }
  | .imported =>
    let c := c.broadcast env c.stateMsg
    { c.ask with schedule := c.schedule.changed (env.now c.asked) }

/-- An accepted request answered, and its outcome said. -/
def answer (c : Control) (id request : ℕ) (origin : Option ℕ) (cmd : Cmd) (out : Outcome) (core : Core) :
    Control :=
  (({ c with core }.note env cmd).reply env id request none).publish env out origin

variable [Libm]

def request (c : Control) (id : ℕ) (role : Option Role) (request : ℕ) (origin : Option ℕ) (cmd : Cmd) :
    Control :=
  match refusal role cmd with
  | some error => c.reply env id request (some error)
  | none =>
    match c.core.apply cmd with
    | .error e _ => c.reply env id request (some ⟨e.code, e.msg⟩)
    | .ok out core => (c.answer env id request origin cmd out core).perform env id out.effect

/-- One frame of connection `id`, as `parse_client` read it. -/
def frame (c : Control) (id : ℕ) (parsed : Except (Option ℕ × ErrorBody) ClientMsg) : Control :=
  match c.peers[id]? with
  | none => c
  | some role =>
    match parsed with
    | .error (request, err) => c.reply env id (request.getD 0) (some err)
    | .ok (.hello proto role _) => c.hello env id proto role
    | .ok (.request r origin cmd) => c.request env id role r origin cmd

def release (c : Control) (reason : String) : Control :=
  { c.broadcast env (.driverReleased reason) with peers := ∅ }

/-- Looks at the ring until the output faded out or the wait is over. -/
def fadeOut (c : Control) : Control :=
  let c := { c with pending := c.pending ++ [[RtOp.fadeOut]] }
  (List.range (env.waits c.asked)).foldl (fun c _ => c.flushRt env) c.ask

def shutdownNow (c : Control) (faded : Bool) : Control × Exit :=
  (((c.save env).fadeOut env).release env "shutdown", .shutdown faded)

def fault (c : Control) (why : String) : Control × Exit :=
  (((c.save env).alarm env .fault why).release env "fault", .fault why)

def backendEnded (c : Control) (why : String) : Control × Exit :=
  ((c.save env).release env "backend ended", .backend why)

/-- A new meter frame: alarms and the limiters' counters. -/
def tickMeters (c : Control) : Option MeterFrame → Control
  | none => c
  | some frame =>
    let c := if c.tripsSeen < frame.trips then
        { c with tripsSeen := frame.trips }.alarm env .sanitizer s!"sanitiser trips: {frame.trips}"
      else c
    { c with counters := frame.active }.broadcast env .meters

def tickStatus (c : Control) (now : ℕ) : Control :=
  if statusPeriod ≤ now - c.lastStatus then { c with lastStatus := now }.broadcast env .status else c

/-- Solos end when no controller was there for the grace time. -/
def tickSolos (c : Control) (now : ℕ) : Control :=
  match c.controller, c.controllerLost with
  | none, some lost =>
    if c.settings.soloGrace ≤ now - lost then
      let (out, core) := c.core.clearSolos
      { c with controllerLost := none, core }.publish env out none
    else c
  | _, _ => c

def tickTest (c : Control) (now : ℕ) : Control :=
  match c.testDeadline with
  | some deadline =>
    if deadline ≤ now then
      let (out, core) := c.core.endTestSignal
      { c with testDeadline := none, core }.publish env out none
    else c
  | none => c

def tickSave (c : Control) (now : ℕ) : Control :=
  if c.schedule.due now then c.save env else c

/-- A tick of a loop that goes on, up to its save. -/
def beforeSave (c : Control) (p : Pulse) : Control :=
  let c := c.tickMeters env p.meters
  let c := c.tickStatus env p.now
  let c := c.tickSolos env p.now
  c.tickTest env p.now

def tickOn (c : Control) (p : Pulse) : Control := (c.beforeSave env p).tickSave env p.now

def stopAsked (c : Control) (p : Pulse) : Control :=
  match p.ending with
  | some .stop => { c with shutdown := true }
  | _ => c

def tick (c : Control) (p : Pulse) : Control × Option Exit :=
  let c := c.flushRt env
  if p.faulted then
    let (c, exit) := (c.broadcast env .status).fault env (p.fault.getD "unknown")
    (c, some exit)
  else
    match p.ending with
    | some (.backend why) => let (c, exit) := c.backendEnded env why; (c, some exit)
    | _ =>
      let c := c.stopAsked p
      if c.shutdown then let (c, exit) := c.shutdownNow env p.fadedOut; (c, some exit)
      else (c.tickOn env p, none)

end

/-- `next`: the number the acceptor gives the next connection. -/
structure Loop where
  control : Control
  next : ℕ := 1

/-- What the loop meets: a new connection, a frame, a closed connection, its tick. -/
inductive Act where
  | connected
  | frame (id : ℕ) (parsed : Except (Option ℕ × ErrorBody) ClientMsg)
  | closed (id : ℕ)
  | tick (pulse : Pulse)

namespace Loop
variable (env : Outside) [Libm]

def handle (l : Loop) : Act → Loop × Option Exit
  | .connected =>
    if maxConns ≤ l.control.peers.size then ({ l with next := l.next + 1 }, none)
    else ({ control := { l.control with peers := l.control.peers.insert l.next none }, next := l.next + 1 }, none)
  | .frame id parsed => ({ l with control := l.control.frame env id parsed }, none)
  | .closed id => ({ l with control := l.control.dropPeer env id }, none)
  | .tick pulse =>
    let (control, exit) := l.control.tick env pulse
    ({ l with control }, exit)

/-- The loop takes what it meets; after a shutdown request only the tick. -/
def takes (l : Loop) : Act → Bool
  | .tick _ => true
  | _ => !l.control.shutdown

/-- One step of a loop that goes on after it. -/
def Step (l : Loop) (act : Act) (l' : Loop) : Prop := l.takes act = true ∧ l.handle env act = (l', none)

/-- Step after step, each meeting `ok`; `none` when the loop ended or took no more. -/
def run (ok : Loop → Act → Bool) (l : Loop) : List Act → Option Loop
  | [] => some l
  | act :: rest =>
    match ok l act, l.takes act, l.handle env act with
    | true, true, (l', none) => l'.run ok rest
    | _, _, _ => none

end Loop
end Control
end IemMixer
