import IemMixer.Core.TapProofs
import IemMixer.Lib.Runs

/-! `/ws/audio`: the sessions that listen, the count of each mix's listeners, and the engine's
taps. A start asks the engine, then counts; a stop counts, then asks. Between the two, as
between a request and its answer, everyone else goes on. -/
namespace IemMixer.Server
open Lib Proto

/-- What a session does once it left a mix. -/
inductive Then where
  | stopped
  | starts
  | ends
  deriving DecidableEq

/-- Where a session is. `stopping` and `starting` wait for the answer to the request `id`. -/
inductive Hearing where
  | idle
  | listening (mix : MixId)
  /-- In `stop`, before its count. -/
  | leaving (mix : MixId) (next : Then)
  /-- In `stop`, the last listener, before its request. -/
  | lastOut (mix : MixId) (next : Then)
  | stopping (id : ℕ) (mix : MixId) (next : Then)
  /-- `ListenStart` before it looks the page up. -/
  | looking
  /-- In `start`, before its request. -/
  | arriving (mix : MixId)
  | starting (id : ℕ) (mix : MixId)
  /-- In `start`, accepted, before its count. -/
  | accepted (mix : MixId)
  | ended
  deriving DecidableEq

/-- Nothing of a `start` or a `stop` is under way. -/
def Hearing.settled : Hearing → Bool
  | .idle | .listening _ | .ended => true
  | _ => false

def Then.phase : Then → Hearing
  | .stopped => .idle
  | .starts => .looking
  | .ends => .ended

/-- `pipe`: the sessions' requests on their way to the engine. `answers`: whether the engine
accepted each request it met. -/
structure Audio where
  core : Core
  pipe : List (ℕ × Cmd) := []
  nextId : ℕ := 1
  answers : BTreeMap ℕ Bool := ∅
  listeners : BTreeMap MixId ℕ := ∅
  sessions : BTreeMap ℕ Hearing := ∅

namespace Audio

inductive Move where
  | connect (n : ℕ)
  | listenStart (n : ℕ)
  | listenStop (n : ℕ)
  /-- The socket closed, fell silent or could not be sent to. -/
  | close (n : ℕ)
  /-- The count of a `stop`, or of an accepted `start`. -/
  | count (n : ℕ)
  /-- The page looked up: its mix, if there is one. -/
  | lookUp (n : ℕ) (page : Option MixId)
  /-- The request is written. -/
  | send (n : ℕ)
  /-- The session sees its request's answer. -/
  | answer (n : ℕ)
  /-- The request's time is over. -/
  | timeout (n : ℕ)
  /-- The engine meets the next request of the sessions. -/
  | serve
  /-- The engine meets something else. -/
  | engine (event : Core.Event)

def goes (a : Audio) (n : ℕ) (phase : Hearing) : Audio := { a with sessions := a.sessions.insert n phase }

def listening (a : Audio) (mix : MixId) : ℕ := a.listeners[mix]?.getD 0

/-- The count of a `stop`; whether the last listener left. -/
def uncount (listeners : BTreeMap MixId ℕ) (mix : MixId) : Bool × BTreeMap MixId ℕ :=
  match listeners[mix]? with
  | some n => if 1 < n then (false, listeners.insert mix (n - 1)) else (true, listeners.erase mix)
  | none => (false, listeners)

/-- `current` is taken, and its `stop` entered. -/
def leave (a : Audio) (n : ℕ) (next : Then) : Hearing → Option Audio
  | .idle => some (a.goes n next.phase)
  | .listening mix => some (a.goes n (.leaving mix next))
  | _ => none

/-- A request of session `n`, which waits for it then. -/
def write (a : Audio) (n : ℕ) (cmd : Cmd) (phase : ℕ → Hearing) : Audio :=
  { a.goes n (phase a.nextId) with pipe := a.pipe ++ [(a.nextId, cmd)], nextId := a.nextId + 1 }

variable [Libm]

/-- The engine meets a request of the sessions. -/
def serve (a : Audio) (id : ℕ) (cmd : Cmd) (rest : List (ℕ × Cmd)) : Audio :=
  let (out, core) := a.core.handle (.request cmd)
  { a with core, pipe := rest, answers := a.answers.insert id out.isSome }

def move (a : Audio) : Move → Option Audio
  | .connect n => if a.sessions.contains n then none else some (a.goes n .idle)
  | .listenStart n => a.sessions[n]?.bind (a.leave n .starts)
  | .listenStop n => a.sessions[n]?.bind (a.leave n .stopped)
  | .close n => a.sessions[n]?.bind (a.leave n .ends)
  | .count n => match a.sessions[n]? with
    | some (.leaving mix next) =>
      let (last, listeners) := uncount a.listeners mix
      some ({ a with listeners }.goes n (if last then .lastOut mix next else next.phase))
    | some (.accepted mix) =>
      some ({ a with listeners := a.listeners.insert mix (a.listening mix + 1) }.goes n (.listening mix))
    | _ => none
  | .lookUp n page => match a.sessions[n]? with
    | some .looking => some (a.goes n (match page with
      | some mix => .arriving mix
      | none => .idle))
    | _ => none
  | .send n => match a.sessions[n]? with
    | some (.lastOut mix next) => some (a.write n (.stopListen mix) (.stopping · mix next))
    | some (.arriving mix) => some (a.write n (.startListen mix) (.starting · mix))
    | _ => none
  | .answer n => match a.sessions[n]? with
    | some (.stopping id _ next) => a.answers[id]?.map fun _ => a.goes n next.phase
    | some (.starting id mix) => a.answers[id]?.map fun ok => a.goes n (if ok then .accepted mix else .idle)
    | _ => none
  | .timeout n => match a.sessions[n]? with
    | some (.stopping _ _ next) => some (a.goes n next.phase)
    | some (.starting ..) => some (a.goes n .idle)
    | _ => none
  | .serve => match a.pipe with
    | (id, cmd) :: rest => some (a.serve id cmd rest)
    | [] => none
  | .engine event => if event.quiet then some { a with core := (a.core.handle event).2 } else none

/-- No start or stop is in flight. -/
def Settled (a : Audio) : Prop := a.pipe = [] ∧ ∀ (n : ℕ) (phase : Hearing), a.sessions[n]? = some phase → phase.settled

instance (a : Audio) : Decidable a.Settled :=
  decidable_of_iff (a.pipe = [] ∧ ∀ p ∈ a.sessions.toList, p.2.settled) <| and_congr_right fun _ =>
    ⟨fun all _ _ held => all _ (Std.ExtTreeMap.mem_toList_iff_getElem?_eq_some.mpr held),
      fun all p member => all p.1 p.2 (Std.ExtTreeMap.mem_toList_iff_getElem?_eq_some.mp member)⟩

/-- Nobody listens and nothing is tapped. -/
def Starts (a : Audio) : Prop :=
  a.pipe = [] ∧ a.answers = ∅ ∧ a.listeners = ∅ ∧ a.sessions = ∅ ∧ ∀ slot : Fin 2, a.core.listen.get slot = none

end Audio
end IemMixer.Server
