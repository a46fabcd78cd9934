import IemMixer.Lib.Runs
import IemMixer.Server.LineupRoutes

/-! What a page knows of the band that plays, and its link to the server: its reads of the band,
its socket and the ticks that open it again. An answer may come late, after a newer one, or never;
the server may switch the band at any time in between. Where the page's token runs out, or its
check after failed sockets refuses it, the page is left for the login, which ends a run. -/
namespace IemMixer.Ui
open Lib Proto Server

/-- A read that gave no band: the answer's status, 0 when none came. -/
structure LineupError where
  status : ℕ
  code : String
  deriving DecidableEq

/-- `none`: no roster. -/
abbrev LineupAnswer := Except LineupError (Option LineupInfo)

/-- An answer's body as JSON reads it. -/
inductive Body where
  | info (info : LineupInfo)
  | error (code : String)
  | other

def lineupAnswer (status : ℕ) (body : Body) : LineupAnswer :=
  if status = 200 then match body with
    | .info info => .ok (some info)
    | .error _ | .other => .error ⟨status, "UNREADABLE"⟩
  else if status = 204 then .ok none
  else
    let code := match body with
      | .error code => code
      | .info _ | .other => "HTTP_" ++ toString status
    if status = 404 ∧ code = "NOT_CONFIGURED" then .ok none else .error ⟨status, code⟩

/-- The server's answer as it goes over. -/
def response : Except Reject (Option LineupInfo) → ℕ × Body
  | .ok (some info) => (200, .info info)
  | .ok none => (204, .other)
  | .error refusal => (refusal.status, .error refusal.code)

/-- The server's answer as the page gets it. -/
def received (answer : Except Reject (Option LineupInfo)) : LineupAnswer :=
  lineupAnswer (response answer).1 (response answer).2

/-- `rereading`: the band last known stays on the badge while it is read again. -/
inductive LineupView where
  | reading
  | legacy
  | unknown
  | roster (info : LineupInfo)
  | rereading (info : LineupInfo)
  | signedOut
  | noPage
  deriving DecidableEq

def lineupRecheckMs : ℤ := 5000

namespace LineupView

def read : LineupAnswer → LineupView
  | .ok (some info) => .roster info
  | .ok none => .legacy
  | .error _ => .unknown

/-- A read that failed keeps the band the page knew; a refusal is no failure. -/
def apply (v : LineupView) : LineupAnswer → LineupView
  | .ok known => read (.ok known)
  | .error e =>
    if e.status = 401 then .signedOut
    else if e.status = 403 ∨ e.status = 404 then .noPage
    else match v with
      | .roster info | .rereading info => .roster info
      | .legacy => .legacy
      | .signedOut => .signedOut
      | .noPage => .noPage
      | .reading | .unknown => .unknown

/-- Read again after the band changed. -/
def reread : LineupView → LineupView
  | .roster info | .rereading info => .rereading info
  | .reading | .legacy | .unknown | .signedOut | .noPage => .reading

/-- Whether the page opens its socket. -/
def connects : LineupView → Bool
  | .reading | .rereading _ | .signedOut | .noPage => false
  | .legacy | .unknown => true
  | .roster info => info.playing

/-- The band the notice names when the bearer does not play in it. -/
def notice : LineupView → Option LineupInfo
  | .roster info => if info.playing then none else some info
  | .reading | .legacy | .unknown | .rereading _ | .signedOut | .noPage => none

/-- `active` plays now, as the socket says. -/
def nowPlays (v : LineupView) (active : LineupRef) : LineupView := match v with
  | .roster info => .roster { info with active }
  | .rereading info => .rereading { info with active }
  | .reading | .legacy | .unknown | .signedOut | .noPage => v

/-- Whether the tick reads the band before it opens a new socket. -/
def readsBeforeReconnect : LineupView → Bool
  | .roster _ => true
  | .reading | .legacy | .unknown | .rereading _ | .signedOut | .noPage => false

def unsure : LineupView → Bool
  | .reading | .rereading _ | .unknown => true
  | .legacy | .roster _ | .signedOut | .noPage => false

/-- Whether the page reads the band again, the last read having started at `last`. -/
def recheckDue (v : LineupView) (now last : ℤ) : Bool :=
  (v.unsure || v.notice.isSome) && decide (lineupRecheckMs ≤ now - last)

/-- A refusal: the page goes to the login, or says that it is none. -/
def isFinal : LineupView → Bool
  | .signedOut | .noPage => true
  | .reading | .legacy | .unknown | .roster _ | .rereading _ => false

end LineupView

/-- `issued`: the number of the read started last, at `lastAt`. `applied`: of the answer taken
last. -/
structure LineupReads where
  issued : ℕ := 0
  applied : ℕ := 0
  lastAt : ℤ := 0

namespace LineupReads

def start (r : LineupReads) (now : ℤ) : ℕ × LineupReads :=
  (r.issued + 1, { r with issued := r.issued + 1, lastAt := now })

/-- Only an answer newer than the one taken last is taken. -/
def take (r : LineupReads) (seq : ℕ) : Bool × LineupReads :=
  if r.applied < seq then (true, { r with applied := seq }) else (false, r)

end LineupReads

inductive LineupWrite where
  | disconnected
  | view (v : LineupView)

/-- The writes an answer makes, in their order; one that changes nothing is not made. -/
def lineupWrites (current : LineupView) (answer : LineupAnswer) (connected : Bool) : List LineupWrite :=
  let next := current.apply answer
  (if connected && !next.connects then [.disconnected] else []) ++ if next ≠ current then [.view next] else []

def backoffDelayMs : ℕ → ℤ
  | 0 => 2000
  | 1 => 4000
  | 2 => 8000
  | 3 => 15000
  | _ => 30000

def maxWsFailures : ℕ := 3

inductive ReconnectStep where
  | wait
  | connect
  | connectAndCheckToken
  deriving DecidableEq

/-- What the tick does with a closed socket; `lastAttempt` 0: none yet. -/
def reconnectStep (now lastAttempt : ℤ) (attempt failures : ℕ) : ReconnectStep :=
  if 0 < lastAttempt ∧ now - lastAttempt < backoffDelayMs attempt then .wait
  else if maxWsFailures ≤ failures then .connectAndCheckToken
  else .connect

def closeReload : ℕ := 4001

def closeLineup : ℕ := 4003

inductive OnClose where
  | reload
  | lineup
  | failed
  deriving DecidableEq

def onClose (code : ℕ) : OnClose :=
  if code = closeReload then .reload else if code = closeLineup then .lineup else .failed

/-- Whether the close counts as a failed socket. -/
def OnClose.counts (c : OnClose) : Bool := c ≠ .lineup

def wsStalenessThresholdMs : ℤ := 30000

inductive ReadyState where
  | connecting
  | opened
  | closing
  | closed
  deriving DecidableEq

/-- `acted`: whether the page connected when its connect effect ran last. `attempt` is the
backoff's, `attemptAt` when the tick acted last, `frameAt` when the last frame came. -/
structure Link where
  view : LineupView := .reading
  reads : LineupReads := {}
  connected : Bool := false
  socket : Option ReadyState := none
  acted : Option Bool := none
  failures : ℕ := 0
  attempt : ℕ := 0
  attemptAt : ℤ := 0
  frameAt : ℤ := 0

/-- What the page asks of the network. -/
inductive Ask where
  | read (seq : ℕ)
  | connect
  | checkToken
  deriving DecidableEq

namespace Link

def readLineup (l : Link) (now : ℤ) : Link × List Ask :=
  let (seq, reads) := l.reads.start now
  ({ l with reads }, [.read seq])

/-- A new socket; the one before is closed and no longer heard. -/
def connectWebsocket (l : Link) (now : ℤ) : Link × List Ask :=
  ({ l with socket := some .connecting, frameAt := now }, [.connect])

def write (l : Link) : LineupWrite → Link
  | .disconnected => { l with connected := false }
  | .view v => { l with view := v }

/-- The answer of read `seq`. -/
def answered (l : Link) (seq : ℕ) (answer : LineupAnswer) : Link :=
  let (fresh, reads) := l.reads.take seq
  if fresh then (lineupWrites l.view answer l.connected).foldl write { l with reads } else l

/-- The connect effect: it runs when whether the page connects changed. -/
def effect (l : Link) (now : ℤ) : Link × List Ask :=
  let connects := l.view.connects
  if l.acted = some connects then (l, [])
  else
    let l := { l with acted := some connects }
    if connects then l.connectWebsocket now else (l, [])

/-- The reconnect tick with a closed socket whose backoff has passed. -/
def reconnect (l : Link) (now : ℤ) : Link × List Ask :=
  let l := { l with attemptAt := now }
  if l.view.readsBeforeReconnect then { l with view := l.view.reread }.readLineup now else l.connectWebsocket now

def tick (l : Link) (now : ℤ) : Link × List Ask :=
  let (after, asked) := if l.view.recheckDue now l.reads.lastAt then l.readLineup now else (l, [])
  let step := reconnectStep now l.attemptAt l.attempt l.failures
  if !l.view.connects || step = .wait || l.socket ≠ some .closed then (after, asked)
  else
    let check := if step = .connectAndCheckToken then [Ask.checkToken] else []
    let (after, more) := after.reconnect now
    (after, asked ++ check ++ more)

/-- The watchdog closes an open socket no frame came from for long. -/
def watch (l : Link) (now : ℤ) : Link :=
  if l.socket = some .opened ∧ wsStalenessThresholdMs < now - l.frameAt then { l with socket := some .closing } else l

def onOpen (l : Link) : Link := { l with socket := some .opened, failures := 0 }

def onMessage (l : Link) (now : ℤ) (msg : ServerMsg) : Link × List Ask :=
  let l := { l with frameAt := now, attempt := 0 }
  match msg with
  | .lineupChanged id name => { l with view := l.view.nowPlays ⟨id, name⟩ }.readLineup now
  | .state _ connected .. | .connectionChanged connected => ({ l with connected }, [])
  | .channelUpdate .. | .globalVolumeUpdate .. | .stemsVolumeUpdate .. | .soloUpdate .. | .eqParams .. | .meters ..
  | .inputUpdate .. => (l, [])

def onClosed (l : Link) (now : ℤ) (code : ℕ) : Link × List Ask :=
  let close := onClose code
  let l := { l with socket := some .closed }
  let (l, asked) := match close with
    | .lineup => { l with view := l.view.reread }.readLineup now
    | .reload | .failed => ({ l with connected := false }, [])
  if close.counts then ({ l with failures := l.failures + 1, attempt := l.attempt + 1 }, asked) else (l, asked)

end Link

/-- What the server's answers depend on, and the page's token. -/
structure Face where
  app : App
  engine : Client
  token : Token

/-- The server's answer after `version` changes of it, or a failure on the way. -/
inductive Answer where
  | made (version : ℕ) (answer : LineupAnswer)
  | failed (e : LineupError)

/-- How it ends the page's read. -/
def Answer.ends : Answer → LineupAnswer
  | .made _ answer => answer
  | .failed e => .error e

/-- A read that started after `since` changes of the server. -/
structure Reading where
  seq : ℕ
  since : ℕ
  answer : Option Answer := none

/-- What the page's socket brings. -/
inductive Item where
  | opened
  | msg (msg : ServerMsg)
  | closed (code : ℕ)

/-- `version`: the changes of the server so far. `arriving`: the socket's page was looked up, its
session not yet begun. `untold`: the socket's session did not tell the band since the last change.
`fresh`: a read started since then. `taken`: the reads whose answers the page took, the last one
first. -/
structure Net where
  face : Face
  version : ℕ := 0
  link : Link := {}
  reads : List Reading := []
  arriving : Option (Page × Viewer) := none
  session : Option (Page × Viewer) := none
  untold : Bool := true
  fresh : Bool := false
  wire : List Item := []
  taken : List (Reading × Answer) := []

namespace Net

inductive Move where
  /-- The roster, the band, the engine or the token's worth changes. -/
  | change (face : Face)
  /-- The server answers a read, an answer gets lost, the page takes one: by place. -/
  | serve (i : ℕ)
  | lose (i : ℕ) (e : LineupError)
  | answer (i : ℕ)
  | tick (now : ℤ)
  | effect (now : ℤ)
  | watch (now : ℤ)
  | enter
  | subscribe
  /-- The session tells that the band changed, or says something else. -/
  | tell
  | speak (msg : ServerMsg)
  /-- The connection ends after `kept` of what is on its way. -/
  | drop (kept : ℕ) (code : ℕ)
  | hear (now : ℤ)

def ask (n : Net) : Ask → Net
  | .read seq => { n with reads := n.reads ++ [⟨seq, n.version, none⟩], fresh := true }
  | .connect => { n with arriving := none, session := none, wire := [], untold := true }
  | .checkToken => n

def does (n : Net) (did : Link × List Ask) : Net := did.2.foldl ask { n with link := did.1 }

/-- Whether the announcement of the band names one. -/
def names (n : Net) : Bool := (lineupMsg n.face.app).isSome

/-- What the page's connection still brings. -/
def alive (n : Net) : Bool :=
  (n.link.socket.any (· ≠ .closed)) && !n.wire.any fun i => match i with
    | .closed _ => true
    | .opened | .msg _ => false

/-- Not a message of the band's. -/
def isOther : ServerMsg → Bool
  | .lineupChanged .. => false
  | .state .. | .channelUpdate .. | .globalVolumeUpdate .. | .stemsVolumeUpdate .. | .soloUpdate .. | .eqParams ..
  | .meters .. | .connectionChanged .. | .inputUpdate .. => true

/-- The session's page hears that the band changed. -/
def tell (n : Net) (page : Page) (viewer : Viewer) : Net := match onLineup n.face.app n.face.engine page viewer with
  | .close told =>
    { n with wire := n.wire ++ told.map .msg ++ [.closed closeLineup], session := none, untold := n.untold && !n.names }
  | .refresh msgs => { n with wire := n.wire ++ msgs.map .msg, untold := n.untold && !n.names }

def hear (n : Net) (now : ℤ) (item : Item) : Option Net := match item with
  | .opened => if n.link.socket = some .connecting then some { n with link := n.link.onOpen } else none
  | .msg msg => match n.link.socket with
    | some .opened => some (n.does (n.link.onMessage now msg))
    -- A socket that is closing no longer hears.
    | some .closing => some n
    | some .connecting | some .closed | none => none
  | .closed code => some (n.does (n.link.onClosed now code))

/-- The page `id`, with the server and what is between them. -/
def step (id : String) (n : Net) : Move → Option Net
  | .change face => some { n with face, version := n.version + 1, untold := true, fresh := false }
  | .serve i => do
    let read ← n.reads[i]?
    let answer ← getLineup n.face.app n.face.engine.mirror n.face.token (some id)
    guard read.answer.isNone
    return { n with reads := n.reads.set i { read with answer := some (.made n.version (received answer)) } }
  | .lose i e => do
    let read ← n.reads[i]?
    return { n with reads := n.reads.set i { read with answer := some (.failed e) } }
  | .answer i => do
    let read ← n.reads[i]?
    let answer ← read.answer
    let l := n.link.answered read.seq answer.ends
    let taken := if (n.link.reads.take read.seq).1 then (read, answer) :: n.taken else n.taken
    return { n with link := l, reads := n.reads.eraseIdx i, taken }
  | .tick now => some (n.does (n.link.tick now))
  | .effect now => some (n.does (n.link.effect now))
  | .watch now => some { n with link := n.link.watch now }
  | .enter => do
    guard (n.alive ∧ n.link.socket = some .connecting ∧ n.arriving.isNone ∧ n.session.isNone ∧ n.wire.isEmpty)
    let claims ← (n.face.app.bearer n.face.token).toOption
    let page ← (wsMixer n.face.app n.face.engine.mirror n.face.token id).toOption
    return { n with arriving := some (page, claims.viewer), wire := [.opened] }
  | .subscribe => do
    let (page, viewer) ← n.arriving
    let told := opening n.face.app n.face.engine page viewer
    return { n with
      arriving := none, session := some (page, viewer), untold := n.untold && !n.names,
      wire := n.wire ++ told.map .msg }
  | .tell => do
    let (page, viewer) ← n.session
    return n.tell page viewer
  | .speak msg => do
    let _ ← n.session
    guard (isOther msg)
    return { n with wire := n.wire ++ [.msg msg] }
  | .drop kept code => do
    guard n.alive
    return { n with arriving := none, session := none, wire := n.wire.take kept ++ [.closed code] }
  | .hear now => match n.wire with
    | [] => none
    | item :: rest => { n with wire := rest }.hear now item

/-- A page just opened: it reads the band. -/
def start (face : Face) (now : ℤ) : Net := { face : Net }.does ({ frameAt := now : Link }.readLineup now)

end Net

end IemMixer.Ui
