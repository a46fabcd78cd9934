import IemMixer.Server.BackupStore

/-! The backup daemon: at each of its ticks it captures a slot of the schedule that is due, and a
refusal goes to the engineer's devices. -/
namespace IemMixer.Server
open Lib

structure PushSubscription where
  endpoint : String
  p256dh : String
  auth : String
  deriving DecidableEq

abbrev PushStore := List PushSubscription

namespace PushStore

/-- One subscription for an endpoint, with the keys it came with last. -/
def add (s : PushStore) (sub : PushSubscription) : PushStore :=
  match s.findIdx? (·.endpoint == sub.endpoint) with
  | some i => s.modify i fun existing => { existing with p256dh := sub.p256dh, auth := sub.auth }
  | none => s ++ [sub]

def removeEndpoint (s : PushStore) (endpoint : String) : PushStore := s.filter fun sub => sub.endpoint != endpoint

end PushStore

/-- What a push comes to at one device. -/
inductive PushAnswer where
  | took
  | expired
  | failed (error : String)

/-- What becomes of a push: each device's answer, and who subscribes while it is on its way. -/
structure Push where
  answer : PushSubscription → PushAnswer := fun _ => .took
  meanwhile : List PushSubscription := []

/-- A push to every subscription; those that answered as expired are removed. How many took it. -/
def sendPushToEngineers (store : PushStore) (push : Push) : ℕ × PushStore :=
  let sent := store.countP fun sub => match push.answer sub with
    | .took => true
    | _ => false
  let expired := store.filterMap fun sub => match push.answer sub with
    | .expired => some sub.endpoint
    | _ => none
  (sent, expired.foldl .removeEndpoint (push.meanwhile.foldl .add store))

/-- Nobody hears of anything without a VAPID key. -/
def pushEngineers (vapid : Bool) (store : PushStore) (push : Push) : ℕ × PushStore :=
  if vapid then sendPushToEngineers store push else (0, store)

/-- An alarm's title and body. -/
structure PushAlarm where
  title : String
  body : String
  deriving DecidableEq

namespace BackupStore.Stamp

/-- `%Y-%m-%d` -/
def today (s : Stamp) : List Char := s.year ++ '-' :: s.month ++ '-' :: s.day

/-- `%H:%M` -/
def hhmm (s : Stamp) : List Char := s.hour ++ ':' :: s.minute

end BackupStore.Stamp

namespace BackupDaemon
open BackupStore (Stamp)

/-- A slot of a day that ran. -/
def key (today hhmm : List Char) : List Char := today ++ ' ' :: hhmm

/-- The schedule entry due at `hhmm` on `today` that has not run yet. -/
def due (schedule : List (List Char)) (today hhmm : List Char) (done : List (List Char)) : Option (List Char) :=
  (if schedule.any (· == hhmm) then some (key today hhmm) else none).filter fun key => !done.contains key

/-- The refusals whose alarm reached a device since the last success. -/
structure RefusalAlarms where
  raised : List String := []

namespace RefusalAlarms

/-- Whether a refusal still needs its alarm. -/
def due (a : RefusalAlarms) (error : String) : Bool := !a.raised.contains error

def raise (a : RefusalAlarms) (error : String) : RefusalAlarms := ⟨error :: a.raised⟩

/-- Every refusal alarms again. -/
def succeeded (_ : RefusalAlarms) : RefusalAlarms := {}

end RefusalAlarms

def refusalAlarm (slot : List Char) (error : String) : PushAlarm where
  title := "Záloha zlyhala"
  body := "Plánovaná záloha iemmixera o " ++ String.ofList slot ++ " neprebehla: " ++ error

structure Daemon where
  done : List (List Char) := []
  alarms : RefusalAlarms := {}
  store : PushStore := []

/-- What the daemon finds at a tick: the local time, the schedule, what a capture comes to, and
what an alarm does. -/
structure Tick where
  now : Stamp
  schedule : List (List Char)
  capture : Except String String
  vapid : Bool := true
  push : Push := {}

/-- What it does then: the capture it made, and the alarm it sent with the devices that took it. -/
structure Deed where
  tick : Tick
  captured : Option (Except String String) := none
  alarm : Option (PushAlarm × ℕ) := none
  /-- Old backups are deleted. -/
  prunes : Bool := false

/-- A capture's outcome: whether the slot is done, and the alarm sent. -/
def settle (d : Daemon) (t : Tick) : Bool × Option (PushAlarm × ℕ) × Daemon :=
  match t.capture with
  | .ok _ => (true, none, { d with alarms := d.alarms.succeeded })
  | .error error =>
    if d.alarms.due error then
      let alarm := refusalAlarm t.now.hhmm error
      let (devices, store) := pushEngineers t.vapid d.store t.push
      (false, some (alarm, devices),
        { d with store, alarms := if 0 < devices then d.alarms.raise error else d.alarms })
    else (false, none, d)

def tick (d : Daemon) (t : Tick) : Deed × Daemon :=
  let d := { d with done := d.done.filter fun key => t.now.today.isPrefixOf key }
  match due t.schedule t.now.today t.now.hhmm d.done with
  | none => ({ tick := t }, d)
  | some key =>
    let (slotDone, alarm, d) := settle d t
    ({ tick := t, captured := some t.capture, alarm, prunes := slotDone },
      if slotDone then { d with done := key :: d.done } else d)

/-- The daemon ticks, or a device subscribes. -/
inductive Event where
  | tick (t : Tick)
  | subscribe (sub : PushSubscription)

/-- What a run of the daemon did, and where it left it. -/
def run (events : List Event) : List Deed × Daemon :=
  events.foldl (fun (deeds, d) event => match event with
    | .tick t => (deeds ++ [(tick d t).1], (tick d t).2)
    | .subscribe sub => (deeds, { d with store := d.store.add sub })) ([], {})

end BackupDaemon

end IemMixer.Server
