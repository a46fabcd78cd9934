import IemMixer.Control.Loop

/-! The server's end of the control pipe, and the engine behind it. The client feeds every
engine message into its mirror, answers requests by id, and asks for the state again on a
revision gap; connections follow each other, each to the engine process of its time. The
callers of requests run beside it, so a call's end may be seen at any later moment. -/
namespace IemMixer.Server
open Lib Proto

inductive EngineError where
  | disconnected
  | refused (body : ErrorBody)
  | timeout
  deriving DecidableEq

/-- A request as its caller sees it: its sender waits in `pending`, the reply came, or the
sender was dropped. -/
inductive Call where
  | pending
  | replied (reply : Except ErrorBody ℕ)
  | dropped

/-- `out`: there is a connection to write to. `rev`: the watched revision. `calls`: the
requests whose callers have not returned. -/
structure Client where
  mirror : Mirror := {}
  out : Bool := false
  calls : BTreeMap ℕ Call := ∅
  nextId : ℕ := 1
  connected : Bool := false
  rev : ℕ := 0

/-- Why one connection ended. -/
inductive End where
  | dropped
  | superseded

namespace Client

/-- Queues `cmd`. The caller saw `connected` before, maybe of an earlier connection. -/
def send (c : Client) (cmd : Cmd) (origin : Option ℕ) : Option (Client × ClientMsg) :=
  if c.out then
    some ({ c with nextId := c.nextId + 1, calls := c.calls.insert c.nextId .pending },
      .request c.nextId origin cmd)
  else none

/-- What `Sent::applied` returns at this moment, timeouts apart. -/
def applied (c : Client) (id : ℕ) : Option (Except EngineError Unit) :=
  match c.calls[id]? with
  | some (.replied (.ok rev)) => if rev ≤ c.rev then some (.ok ()) else none
  | some (.replied (.error body)) => some (.error (.refused body))
  | some .dropped => some (.error .disconnected)
  | some .pending | none => none

/-- Everything a dropped connection leaves behind. -/
def teardown (c : Client) : Client :=
  { c with
    out := false
    calls := c.calls.map fun _ call => match call with | .pending => .dropped | other => other
    mirror := c.mirror.disconnected
    connected := false }

/-- A message for the mirror, and what it makes the client ask. -/
def follow (c : Client) (msg : EngineMsg) : Client × List ClientMsg :=
  let (event, mirror) := c.mirror.apply msg
  let c := { c with mirror, rev := mirror.rev }
  match event with
  | some .reset => ({ c with connected := true }, [])
  | some .resync =>
    ({ c with nextId := c.nextId + 1 }, if c.out then [.request c.nextId none .getState] else [])
  | _ => (c, [])

/-- One engine message; an `End` ends the connection. -/
def handle (c : Client) (msg : EngineMsg) : Client × List ClientMsg × Option End :=
  match msg with
  | .reply r =>
    match c.calls[r.id]? with
    | some .pending =>
      let reply := match r.error with | none => Except.ok r.rev | some e => .error e
      ({ c with calls := c.calls.insert r.id (.replied reply) }, [], none)
    | _ => (c, [], none)
  | .meters | .status | .alarm _ | .driverReleased _ | .saved .. => (c, [], none)
  | .superseded => (c, [], some .superseded)
  | .hello _ | .topology _ | .state .. | .delta .. =>
    let (c, asks) := c.follow msg
    (c, asks, none)

end Client

/-- `conn`: the engine's number of the client's connection. `toEngine`: written, not yet
handled. `read`: how many of the connection's messages the client read. `made`: the
connection's requests the engine handled, each with the core right after it. -/
structure Net where
  client : Client := {}
  loop : Control.Loop
  conn : ℕ := 0
  toEngine : List ClientMsg := []
  read : ℕ := 0
  made : List (ℕ × Core) := []

inductive Move where
  | send (cmd : Cmd) (origin : Option ℕ)
  /-- The engine handles the client's next message. -/
  | serve (env : Control.Outside)
  /-- The engine meets something else. -/
  | engine (env : Control.Outside) (act : Control.Act)
  /-- The client reads the next message of its connection. -/
  | read
  /-- The next message cannot be read, and is skipped. -/
  | skip
  /-- A caller returned. -/
  | finish (id : ℕ)
  /-- The connection ends. -/
  | drop
  /-- Another engine process takes the place of the old one. -/
  | boot (loop : Control.Loop)
  | connect (env : Control.Outside)

namespace Net

/-- Everything sent on the connection. -/
def stream (s : Net) : List EngineMsg := (s.loop.control.sent.filter (·.1 = s.conn)).map (·.2)

def unread (s : Net) : List EngineMsg := s.stream.drop s.read

/-- The requests among the messages, by id. -/
def asked (msgs : List ClientMsg) : List ℕ :=
  msgs.filterMap fun | .request id .. => some id | .hello .. => none

section
variable [Libm]

/-- The engine's loop after it met `act` and goes on. -/
def meet (l : Control.Loop) (env : Control.Outside) (act : Control.Act) : Option Control.Loop :=
  if l.takes act then
    match l.handle env act with
    | (l', none) => some l'
    | _ => none
  else none

/-- A frame of the client's own connection comes from the client alone. -/
def foreign (s : Net) : Control.Act → Bool
  | .frame id _ => id ≠ s.conn || !s.client.out
  | _ => true

def move (s : Net) : Move → Option Net
  | .send cmd origin =>
    (s.client.send cmd origin).map fun (client, msg) =>
      { s with client, toEngine := s.toEngine ++ [msg] }
  | .serve env =>
    match s.toEngine with
    | [] => none
    | msg :: rest =>
      (meet s.loop env (.frame s.conn (.ok msg))).map fun loop =>
        { s with loop, toEngine := rest, made := s.made ++ (asked [msg]).map (·, loop.control.core) }
  | .engine env act =>
    if s.foreign act then (meet s.loop env act).map fun loop => { s with loop } else none
  | .read =>
    match s.client.out, s.unread with
    | true, msg :: _ =>
      let (client, asks, _) := s.client.handle msg
      some { s with client, toEngine := s.toEngine ++ asks, read := s.read + 1 }
    | _, _ => none
  | .skip =>
    match s.unread with
    | _ :: _ => some { s with read := s.read + 1 }
    | [] => none
  | .finish id => some { s with client := { s.client with calls := s.client.calls.erase id } }
  | .drop => some { s with client := s.client.teardown, toEngine := [] }
  | .boot loop => if s.client.out then none else some { s with loop }
  | .connect env =>
    if s.client.out then none
    else (meet s.loop env .connected).map fun loop =>
      { s with
        client := { s.client with out := true }
        loop, conn := s.loop.next
        toEngine := [.hello proto .control "iem-server"], read := 0, made := [] }

/-- Move after move, each one meeting `ok`. -/
def run (ok : Net → Move → Bool) (s : Net) : List Move → Option Net
  | [] => some s
  | m :: rest => if ok s m then (s.move m).bind fun s => s.run ok rest else none

end
end Net
end IemMixer.Server
