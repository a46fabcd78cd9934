import Mathlib.Algebra.Group.Nat.Defs
import IemMixer.Lib.Recent
import Mathlib.Data.List.AList

/-! Login protection, the clock given. Failures are counted, by client and member, by
client and by origin; over a budget the next try waits, never longer than a minute. Times
and durations are in nanoseconds. -/
namespace IemMixer.Server.LoginGuard
open Lib.Recent

/-- `n` seconds. -/
def seconds (n : ℕ) : ℕ := n * 1000000000

/-- Consecutive failures per (client, member) that carry no delay. -/
def freeFailures : ℕ := 3
/-- A streak is forgotten after this long without a failure. -/
def streakDecay : ℕ := seconds (15 * 60)
/-- Upper bound of every delay. -/
def maxDelay : ℕ := seconds 60
def clientWindow : ℕ := seconds (10 * 60)
def clientWindowFailures : ℕ := 20
def clientSpacing : ℕ := seconds 60
def engineerWindow : ℕ := seconds (60 * 60)
def engineerWindowFailures : ℕ := 30
def engineerSpacing : ℕ := seconds 5
/-- Upper bound of tracked keys per map. -/
def maxTracked : ℕ := 4096

def u32Max : ℕ := 2 ^ 32 - 1

/-- Where a login comes from. -/
inductive Origin where
  | lan
  | tunnel
  deriving DecidableEq

/-- Budget key of a client; `ip` in canonical form. -/
structure ClientKey where
  origin : Origin
  ip : BitVec 128
  deriving DecidableEq

inductive FailureEffect where
  | counted
  /-- This failure pushed its origin over the engineer budget. -/
  | engineerBudgetExhausted
  deriving DecidableEq

structure LoginStats where
  lanFailures : ℕ := 0
  tunnelFailures : ℕ := 0
  engineerBudgetTrips : ℕ := 0

structure Streak where
  failures : ℕ
  lastFailure : ℕ

structure OriginBudget where
  failures : List ℕ := []
  lastAdmitted : Option ℕ := none

/-- A `HashMap`, in some order. -/
abbrev HashMap (K V : Type) [DecidableEq K] := AList fun _ : K => V

structure Guard where
  streaks : HashMap (ClientKey × String) Streak := ∅
  clients : HashMap ClientKey (List ℕ) := ∅
  lan : OriginBudget := {}
  tunnel : OriginBudget := {}
  stats : LoginStats := {}

/-- Delay owed after `failures` consecutive failures. -/
def streakDelay (failures : ℕ) : ℕ :=
  if failures < freeFailures then 0
  else
    let exponent := failures - freeFailures
    if 6 ≤ exponent then maxDelay else min (seconds (2 ^ exponent)) maxDelay

/-- `map` without the first entry of the least `age`. -/
def evictOldest {K V : Type} [DecidableEq K] (age : V → ℕ) (map : HashMap K V) : HashMap K V :=
  let oldest := map.entries.foldl (fun best e => match best with
    | some (k, a) => if age e.2 < a then some (e.1, age e.2) else some (k, a)
    | none => some (e.1, age e.2)) none
  match oldest with
  | some (k, _) => map.erase k
  | none => map

namespace Guard

def budget (g : Guard) : Origin → OriginBudget
  | .lan => g.lan
  | .tunnel => g.tunnel

def setBudget (g : Guard) (origin : Origin) (b : OriginBudget) : Guard :=
  match origin with
  | .lan => { g with lan := b }
  | .tunnel => { g with tunnel := b }

/-- The streak's part of an admission. -/
def checkStreak (g : Guard) (key : ClientKey × String) (now : ℕ) : Except ℕ Unit × Guard :=
  match g.streaks.lookup key with
  | some streak =>
    let since := now - streak.lastFailure
    if streakDecay ≤ since then (.ok (), { g with streaks := g.streaks.erase key })
    else
      let delay := streakDelay streak.failures
      if since < delay then (.error (delay - since), g) else (.ok (), g)
  | none => (.ok (), g)

/-- The client budget's part. -/
def checkClient (g : Guard) (client : ClientKey) (now : ℕ) : Except ℕ Unit × Guard :=
  match g.clients.lookup client with
  | some window =>
    let window := prune clientWindow now window
    let g := { g with clients := g.clients.insert client window }
    match window.getLast? with
    | some last =>
      if clientWindowFailures ≤ window.length ∧ now - last < clientSpacing then
        (.error (clientSpacing - (now - last)), g)
      else (.ok (), g)
    | none => (.ok (), g)
  | none => (.ok (), g)

/-- The engineer budget's part. -/
def checkOrigin (g : Guard) (origin : Origin) (now : ℕ) : Except ℕ Unit × Guard :=
  let failures := prune engineerWindow now (g.budget origin).failures
  let refused := g.setBudget origin { g.budget origin with failures }
  let admitted := g.setBudget origin { failures, lastAdmitted := some now }
  match (g.budget origin).lastAdmitted with
  | some last =>
    if engineerWindowFailures < failures.length ∧ now - last < engineerSpacing then
      (.error (engineerSpacing - (now - last)), refused)
    else (.ok (), admitted)
  | none => (.ok (), admitted)

/-- Admission before any hashing; the error is how long to wait. -/
def check (g : Guard) (client : ClientKey) (member : String) (now : ℕ) : Except ℕ Unit × Guard :=
  match g.checkStreak (client, member) now with
  | (.error wait, g) => (.error wait, g)
  | (.ok (), g) => match g.checkClient client now with
    | (.error wait, g) => (.error wait, g)
    | (.ok (), g) => g.checkOrigin client.origin now

def bumpStreak (g : Guard) (key : ClientKey × String) (now : ℕ) : Guard :=
  let failures := match g.streaks.lookup key with
    | some streak => if now - streak.lastFailure < streakDecay then min (streak.failures + 1) u32Max else 1
    | none => 1
  let streaks := if (g.streaks.lookup key).isNone && decide (maxTracked ≤ g.streaks.entries.length) then
      evictOldest (·.lastFailure) g.streaks
    else g.streaks
  { g with streaks := streaks.insert key { failures, lastFailure := now } }

def bumpClient (g : Guard) (client : ClientKey) (now : ℕ) : Guard :=
  let clients := if (g.clients.lookup client).isNone && decide (maxTracked ≤ g.clients.entries.length) then
      -- An empty queue is older than any other.
      evictOldest (fun window => (window.getLast?.map (· + 1)).getD 0) g.clients
    else g.clients
  let window := prune clientWindow now ((clients.lookup client).getD [])
  { g with clients := clients.insert client (push clientWindowFailures now window) }

def bumpStats (g : Guard) (origin : Origin) : Guard :=
  match origin with
  | .lan => { g with stats := { g.stats with lanFailures := g.stats.lanFailures + 1 } }
  | .tunnel => { g with stats := { g.stats with tunnelFailures := g.stats.tunnelFailures + 1 } }

/-- Counts a failed PIN check. -/
def recordFailure (g : Guard) (client : ClientKey) (member : String) (now : ℕ) : FailureEffect × Guard :=
  let g := ((g.bumpStreak (client, member) now).bumpClient client now).bumpStats client.origin
  let budget := g.budget client.origin
  let failures := prune engineerWindow now budget.failures
  let g := g.setBudget client.origin { budget with failures := push (engineerWindowFailures + 1) now failures }
  if failures.length = engineerWindowFailures then
    (.engineerBudgetExhausted, { g with stats := { g.stats with engineerBudgetTrips := g.stats.engineerBudgetTrips + 1 } })
  else (.counted, g)

/-- A successful PIN check ends that streak. -/
def recordSuccess (g : Guard) (client : ClientKey) (member : String) : Guard :=
  { g with streaks := g.streaks.erase (client, member) }

end Guard

end IemMixer.Server.LoginGuard
