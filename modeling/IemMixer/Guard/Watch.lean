import IemMixer.Lib.Dict
import Mathlib

/-! The live guard of the Gen 3 device over exact numbers: what it keeps of a status, and the bounds
each read is held to. -/
namespace IemMixer.Guard
open Lib

def requestRate : ℕ := 20
def sustainS : ℕ := 3
/-- `sent`'s opcode of our flow requests. -/
def flowRequest : ℕ := 0x0100
def flowSpanS : ℕ := 5
/-- Within `flowSpanS`, to one peer. -/
def flowRequestsMax : ℕ := 1
/-- `sent`'s opcode once an ARC directory read. -/
def arcRead : ℕ := 0x1000
/-- Within `flowSpanS`, of one peer. -/
def arcReadsMax : ℕ := 1

/-- A kind of request, or the sum past the status's tables. -/
inductive RequestKey where
  | request (port peer op : ℕ)
  | uncounted
deriving DecidableEq

/-- The key as Python prints it, which is what the guard sorts by. -/
def RequestKey.str : RequestKey → String
  | .request port peer op => "(" ++ toString port ++ ", " ++ toString peer ++ ", " ++ toString op ++ ")"
  | .uncounted => "('uncounted',)"

structure RequestEntry where
  port : ℕ
  peer : ℕ
  op : ℕ
  n : ℕ

structure SentEntry where
  peer : ℕ
  op : ℕ
  n : ℕ

structure FlowEntry where
  flow : ℕ
  fpp : ℕ
  packets : ℕ

/-- The counts of a device's status. -/
structure Status where
  requests : List RequestEntry
  uncounted : ℕ
  sent : List SentEntry
  tx : List FlowEntry
  rx : List FlowEntry
  polls : ℕ

/-- One read of the device's status: the status was taken within `t ± u`. -/
structure Sample (K : Type) where
  t : K
  u : K
  requests : Dict RequestKey ℕ
  flowRequests : Dict ℕ ℕ
  arcReads : Dict ℕ ℕ
  tx : Dict ℕ (ℕ × ℕ)
  rx : Dict ℕ (ℕ × ℕ)
  polls : ℕ

/-- A cumulative count's key. -/
inductive CounterKey where
  | req (key : RequestKey)
  | sent (peer : ℕ)
  | arc (peer : ℕ)
  | tx (flow : ℕ)
  | rx (flow : ℕ)
  | polls
deriving DecidableEq

/-- Every cumulative count of a sample, keyed. -/
def counters {K : Type} (s : Sample K) : Dict CounterKey ℕ :=
  let out := Dict.ofItems ((Dict.items s.requests).map fun item => (CounterKey.req item.1, item.2))
  let out := Dict.update out ((Dict.items s.flowRequests).map fun item => (CounterKey.sent item.1, item.2))
  let out := Dict.update out ((Dict.items s.arcReads).map fun item => (CounterKey.arc item.1, item.2))
  let out := Dict.update out ((Dict.items s.tx).map fun item => (CounterKey.tx item.1, item.2.2))
  let out := Dict.update out ((Dict.items s.rx).map fun item => (CounterKey.rx item.1, item.2.2))
  out.insert .polls s.polls

/-- A count that goes back means the device started again. -/
def wentBack {K : Type} (a b : Sample K) : Bool :=
  let later := counters b
  (Dict.items (counters a)).any fun item => decide (Dict.get later item.1 0 < item.2)

section
variable {K : Type} [Field K]

/-- The numbers of one status read between `t0` and `t1`. -/
def sample (t0 t1 : K) (status : Status) : Sample K where
  t := (t0 + t1) / (2 : ℕ)
  u := (t1 - t0) / (2 : ℕ)
  requests :=
    (Dict.ofItems (status.requests.map fun e => (RequestKey.request e.port e.peer e.op, e.n))).insert .uncounted
      status.uncounted
  flowRequests := Dict.ofItems ((status.sent.filter fun e => e.op == flowRequest).map fun e => (e.peer, e.n))
  arcReads := Dict.ofItems ((status.sent.filter fun e => e.op == arcRead).map fun e => (e.peer, e.n))
  tx := Dict.ofItems (status.tx.map fun e => (e.flow, (e.fpp, e.packets)))
  rx := Dict.ofItems (status.rx.map fun e => (e.flow, (e.fpp, e.packets)))
  polls := status.polls

/-- The widest the gap between two statuses can be. -/
def width (a s : Sample K) : K := (s.t + s.u) - (a.t - a.u)

variable [LinearOrder K] [FloorRing K]

/-- `round(x, 1)`: the nearest tenth, a tie to the even one. -/
def round1 (x : K) : K :=
  let tenths := (10 : ℕ) * x
  let low := ⌊tenths⌋
  let part := tenths - low
  let near := if part + part < 1 then low else if 1 < part + part then low + 1 else if low % 2 = 0 then low else low + 1
  near / (10 : ℕ)

inductive Direction where
  | tx
  | rx
deriving DecidableEq

/-- A bound that broke, and the numbers it broke by. -/
inductive Trip (K : Type) where
  | requests (key : RequestKey) (rate seconds : K)
  | flowRequests (peer : ℕ) (requests : ℤ) (withinS : K)
  | arcReads (peer : ℕ) (reads : ℤ) (withinS : K)
  | packets (direction : Direction) (flow : ℕ) (pps limit : K)

/-- The largest values seen since the last line. -/
structure Peaks (K : Type) where
  requestRate : K
  flowRequests : ℤ
  packetRatio : K
  arcReads : ℤ

def Peaks.zero : Peaks K := { requestRate := 0, flowRequests := 0, packetRatio := 0, arcReads := 0 }

structure Watch (K : Type) where
  rate : ℕ
  last : Option (Sample K)
  /-- When each request key's run above the rate began. -/
  overSince : Dict RequestKey K
  /-- The samples a span may reach back to. -/
  recent : List (Sample K)
  peaks : Peaks K
  restarts : ℕ

def Watch.new (rate : ℕ) : Watch K :=
  { rate, last := none, overSince := ∅, recent := [], peaks := .zero, restarts := 0 }

/-- The rate of a request key over the widest gap between two statuses. -/
def rateOf (a s : Sample K) (key : RequestKey) : K :=
  (((Dict.get s.requests key 0 : ℕ) : K) - ((Dict.get a.requests key 0 : ℕ) : K)) / width a s

/-- The loop of `requests` over the keys. -/
def Watch.requestsOver (a s : Sample K) : List RequestKey → Watch K → Watch K × Option (Trip K)
  | [], w => (w, none)
  | key :: keys, w =>
    let rate := rateOf a s key
    let w := { w with peaks := { w.peaks with requestRate := max w.peaks.requestRate rate } }
    if rate ≤ (requestRate : ℕ) then Watch.requestsOver a s keys { w with overSince := w.overSince.erase key }
    else
      let since := Dict.get w.overSince key a.t
      let w := { w with overSince := w.overSince.insert key since }
      if (sustainS : ℕ) ≤ s.t - since then (w, some (.requests key (round1 rate) (round1 (s.t - since))))
      else Watch.requestsOver a s keys w

/-- The request keys of two samples, in the guard's order. -/
def requestKeys (a s : Sample K) : List RequestKey :=
  (a.requests.keys ++ s.requests.keys).dedup.insertionSort fun one other => one.str ≤ other.str

def Watch.requests (w : Watch K) (a s : Sample K) : Watch K × Option (Trip K) :=
  Watch.requestsOver a s (requestKeys a s) w

/-- A loop of `flows` over the peers: the peak after it, and the first peer with more than `most`
since the earlier read. -/
def moreThan (most : ℕ) (before : Dict ℕ ℕ) : List (ℕ × ℕ) → ℤ → ℤ × Option (ℕ × ℤ)
  | [], peak => (peak, none)
  | (peer, n) :: peers, peak =>
    let more : ℤ := n - Dict.get before peer 0
    if most < more then (max peak more, some (peer, more)) else moreThan most before peers (max peak more)

/-- The loop of `flows` over the earlier samples. -/
def flowsAgainst (s : Sample K) : List (Sample K) → Peaks K → Peaks K × Option (Trip K)
  | [], peaks => (peaks, none)
  | a :: rest, peaks =>
    match moreThan arcReadsMax a.arcReads (Dict.sortedItems s.arcReads) peaks.arcReads with
    | (peak, some (peer, reads)) => ({ peaks with arcReads := peak }, some (.arcReads peer reads (round1 (width a s))))
    | (peak, none) =>
      let peaks := { peaks with arcReads := peak }
      match moreThan flowRequestsMax a.flowRequests (Dict.sortedItems s.flowRequests) peaks.flowRequests with
      | (peak, some (peer, requests)) =>
        ({ peaks with flowRequests := peak }, some (.flowRequests peer requests (round1 (width a s))))
      | (peak, none) => flowsAgainst s rest { peaks with flowRequests := peak }

def Watch.flows (w : Watch K) (s : Sample K) : Watch K × Option (Trip K) :=
  let recent := (w.recent.filter fun a => width a s ≤ (flowSpanS : ℕ)) ++ [s]
  let (peaks, trip) := flowsAgainst s recent.dropLast w.peaks
  ({ w with recent, peaks }, trip)

/-- `PACKET_MARGIN`, 1.25. -/
def packetMargin : K := (5 : ℕ) / (4 : ℕ)

/-- What a flow may send a second: the lenient limit when a slot's flow changed between the reads. -/
def perSecond (rate fpp fppBefore : ℕ) : K := (rate : K) / ((([fpp, fppBefore].filter (0 < ·)).min?.getD 1 : ℕ) : K)

/-- The loop of `packets` over one direction's flows. -/
def packetsOf (rate : ℕ) (direction : Direction) (width : K) (before : Dict ℕ (ℕ × ℕ)) :
    List (ℕ × ℕ × ℕ) → Peaks K → Peaks K × Option (Trip K)
  | [], peaks => (peaks, none)
  | (flow, fpp, packets) :: flows, peaks =>
    let was := Dict.get before flow (0, 0)
    let allowed : K := perSecond rate fpp was.1
    let pps := ((packets : K) - was.2) / width
    let peaks := { peaks with packetRatio := max peaks.packetRatio (pps / allowed) }
    if packetMargin * allowed < pps then
      (peaks, some (.packets direction flow (round1 pps) (round1 (packetMargin * allowed))))
    else packetsOf rate direction width before flows peaks

def Watch.packets (w : Watch K) (a s : Sample K) : Watch K × Option (Trip K) :=
  match packetsOf w.rate .tx (width a s) a.tx (Dict.sortedItems s.tx) w.peaks with
  | (peaks, some trip) => ({ w with peaks }, some trip)
  | (peaks, none) =>
    let (peaks, trip) := packetsOf w.rate .rx (width a s) a.rx (Dict.sortedItems s.rx) peaks
    ({ w with peaks }, trip)

/-- One sample after another. -/
def Watch.feed (w : Watch K) (s : Sample K) : Watch K × Option (Trip K) :=
  match w.last with
  | none => ({ w with last := some s, overSince := ∅, recent := [s] }, none)
  | some a =>
    -- no time between them: wait for the next
    if s.t + s.u ≤ a.t - a.u then (w, none)
    else if wentBack a s then
      ({ w with last := some s, restarts := w.restarts + 1, overSince := ∅, recent := [s] }, none)
    else
      match Watch.requests { w with last := some s } a s with
      | (w, some trip) => (w, some trip)
      | (w, none) =>
        match w.flows s with
        | (w, some trip) => (w, some trip)
        | (w, none) => w.packets a s

/-- A turn of the guard's loop: a read from `start` to `stop`, which may fail, and whether a line was
due after it. -/
structure Read (K : Type) where
  start : K
  stop : K
  status : Option Status
  line : Bool

def Read.sample? (r : Read K) : Option (Sample K) := r.status.map (sample r.start r.stop)

/-- The reads of a session, up to the first trip. -/
def Watch.run (w : Watch K) : List (Read K) → Watch K × Option (Trip K)
  | [] => (w, none)
  | r :: later =>
    let fed := match r.sample? with
      | none => (w, none)
      | some s => w.feed s
    match fed with
    | (w, some trip) => (w, some trip)
    | (w, none) => Watch.run (if r.line then { w with peaks := .zero } else w) later

end
end IemMixer.Guard
