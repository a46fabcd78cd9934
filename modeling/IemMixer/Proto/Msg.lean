import IemMixer.Proto.State

/-! Commands, replies and events between the engine and its clients, and which
role may send what. Meter frames and `Status` are messages here without their
figures: nothing modelled reads them. -/
namespace IemMixer.Proto
open Lib

inductive Cmd where
  | setInput (input : InputId) (trimDb : Option F64) (muted processing : Option Bool)
  | setMix (mix : MixId) (volumeDb : Option F64) (muted : Option Bool)
  | setLevel (mix : MixId) (source : Source) (gainDb pan : Option F64) (muted : Option Bool)
  | setGroup (mix : MixId) (group : GroupId) (gainDb : Option F64) (muted : Option Bool)
  | setEq (target : EqTarget) (eq : EqState)
  | setLimiter (mix : MixId) (enabled : Option Bool) (limitDb : Option F64)
  | resetLimiterStats (mix : MixId)
  | setSolo (mix : MixId) (sources : List Source)
  | startListen (mix : MixId)
  | stopListen (mix : MixId)
  | startTestSignal (input : InputId) (hz dbfs ttlS : F64)
  | stopTestSignal
  | batch (ops : List Cmd)
  | importState (state : MixState)
  | getState
  | getTopology
  | saveNow
  | shutdown
  | injectFault
  | ping
  | arm
  | hilTestSignal (input : InputId) (hz dbfs ttlS : F64) (cardTx : List UInt16) (listen : Bool)

/-- Commands an observer connection may send. -/
def Cmd.isReadOnly : Cmd → Bool
  | .getState | .getTopology | .ping => true
  | _ => false

/-- Commands only the supervisor may send. -/
def Cmd.isSupervisor : Cmd → Bool
  | .arm | .hilTestSignal .. | .injectFault => true
  | _ => false

/-- Commands a supervisor connection may send: never a change of the mix. -/
def Cmd.supervisorMay (cmd : Cmd) : Bool :=
  cmd.isReadOnly || cmd.isSupervisor ||
    match cmd with
    | .shutdown | .saveNow | .startTestSignal .. | .stopTestSignal => true
    | _ => false

inductive Role where
  | control
  | observe
  | supervisor
  deriving DecidableEq, Repr

inductive ClientMsg where
  | hello (proto : ℕ) (role : Role) (client : String)
  | request (id : ℕ) (origin : Option ℕ) (cmd : Cmd)

/-- The protocol version this build speaks. -/
def proto : ℕ := 1

/-- The version both sides speak; `none` when the client is more than one
version older. -/
def negotiate (ours theirs : ℕ) : Option ℕ :=
  if ours ≤ theirs then some ours
  else if theirs + 1 = ours ∧ 0 < theirs then some theirs
  else none

inductive ErrCode where
  | badRequest
  | unsupported
  | unknownId
  | badValue
  | forbidden
  | noSource
  | notController
  | tooLarge
  | notSupervisor
  deriving DecidableEq, Repr

structure ErrorBody where
  code : ErrCode
  msg : String
  deriving DecidableEq, Repr

/-- The answer to one request: `rev` is the state revision after it. -/
structure Reply where
  id : ℕ
  rev : ℕ
  error : Option ErrorBody := none
  deriving DecidableEq

structure Hello where
  proto : ℕ
  engineBuild : String
  topologyHash : String
  stateRev : ℕ
  sampleRate : ℕ
  block : ℕ
  role : Role
  deriving DecidableEq

structure InputInfo where
  id : InputId
  channels : ℕ
  talkback : Bool
  group : Option GroupId
  deriving DecidableEq

structure GroupInfo where
  id : GroupId
  inputs : List InputId
  deriving DecidableEq

structure MixInfo where
  id : MixId
  channels : ℕ
  mixes : List MixId
  peers : List MixId
  deriving DecidableEq

/-- The compiled topology as the protocol describes it. -/
structure TopologyInfo where
  hash : String
  sampleRate : ℕ
  engineer : MixId
  inputs : List InputInfo
  groups : List GroupInfo
  mixes : List MixInfo
  deriving DecidableEq

/-- One changed entity, carried whole. -/
inductive Change where
  | input (id : InputId) (state : InputState)
  | mixOut (mix : MixId) (out : MixOut)
  | level (mix : MixId) (source : Source) (level : Level)
  | group (mix : MixId) (group : GroupId) (state : MixGroup)
  | solo (mix : MixId) (sources : List Source)
  | listen (listen : Vector (Option MixId) 2)
  | testSignal (signal : Option TestSignal)
  | limiterStatsReset (mix : MixId)
  deriving DecidableEq

inductive AlarmCode where
  | stateFallback
  | stateLost
  | sanitizer
  | fault
  | saveFailed
  deriving DecidableEq, Repr

structure Alarm where
  code : AlarmCode
  detail : String
  deriving DecidableEq, Repr

inductive EngineMsg where
  | hello (hello : Hello)
  | reply (reply : Reply)
  | topology (info : TopologyInfo)
  | state (rev : ℕ) (state : MixState) (transient : Transient)
  | delta (rev : ℕ) (origin : Option ℕ) (changes : List Change)
  | meters
  | status
  | saved (rev generation : ℕ)
  | alarm (alarm : Alarm)
  | driverReleased (reason : String)
  | superseded
  deriving DecidableEq

end IemMixer.Proto
