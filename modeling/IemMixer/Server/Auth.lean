import Mathlib.Logic.Relation
import IemMixer.Server.LoginGuard
import IemMixer.Server.PinStore
import IemMixer.Server.View

/-! Logins and PIN changes while rosters come into use: requests are checked, wait for the
hashing gate, are hashed, and are counted or stored, each at its own pace. The engine of the
hashes is the `Argon2` class. -/
namespace IemMixer.Server
open Lib LoginGuard

/-- What the program takes from `argon2`, its pepper given: a PIN's hash under a salt, and
whether a PIN is the one of a hash. -/
class Argon2 where
  hash : String → String → String
  verify : String → String → Bool

def pinLen : ℕ := 4

/-- Exactly four ASCII digits. -/
def validPinFormat (pin : String) : Bool := pin.length == pinLen && pin.toList.all (·.isDigit)

/-- No stored hash, no match. -/
def verifyOptional [Argon2] (pin : String) (phc : Option String) : Bool := phc.any (Argon2.verify pin)

/-- argon2id hashes running at once. -/
def hashConcurrency : ℕ := 2
/-- Requests allowed to wait for a hashing slot. -/
def hashQueue : ℕ := 8

/-- The requests that hash, and those that wait to. -/
structure HashGate where
  concurrency : ℕ := hashConcurrency
  maxWaiting : ℕ := hashQueue
  running : List ℕ := []
  waiting : List ℕ := []

namespace HashGate

/-- A slot or a place in the queue; none when that is full. -/
def acquire (g : HashGate) (n : ℕ) : Option HashGate :=
  if g.running.length < g.concurrency then some { g with running := n :: g.running }
  else if g.maxWaiting ≤ g.waiting.length then none
  else some { g with waiting := g.waiting ++ [n] }

/-- A free slot goes to one that waits. -/
def grant (g : HashGate) (n : ℕ) : Option HashGate :=
  if g.running.length < g.concurrency ∧ n ∈ g.waiting then
    some { g with running := n :: g.running, waiting := g.waiting.erase n }
  else none

def release (g : HashGate) (n : ℕ) : HashGate := { g with running := g.running.erase n }

/-- A client that is gone waits no more; what hashes for it goes on. -/
def cancel (g : HashGate) (n : ℕ) : HashGate := { g with waiting := g.waiting.erase n }

end HashGate

inductive PinMatch where
  | engineer
  | member
  | none
  deriving DecidableEq

structure Login where
  client : ClientKey
  member : String
  pin : String
  arrived : ℕ

structure ChangePin where
  client : ClientKey
  claims : Viewer
  oldPin : Option String
  newPin : String
  member : Option String

/-- How far a request came. `checked`: how many rosters had come into use when it was found
that its target is somebody. -/
inductive Phase where
  | loginRead (r : Login)
  | loginHash (r : Login) (engineer member : Option String)
  | loginDone (r : Login) (matched : PinMatch)
  | asked (c : ChangePin)
  | oldRead (c : ChangePin) (arrived checked : ℕ)
  | oldHash (c : ChangePin) (arrived checked : ℕ) (current : Option String)
  | oldDone (c : ChangePin) (arrived checked : ℕ) (ok : Bool)
  | newHash (target newPin : String) (checked : ℕ)
  | newDone (target phc : String) (checked : ℕ)

/-- Whether the request is one to be hashed. -/
def Phase.toHash : Phase → Bool
  | .loginHash .. | .oldHash .. | .newHash .. => true
  | _ => false

inductive Response where
  | ok
  | token (member : String) (engineer : Bool)
  | refused (status : ℕ) (code text : String)
  /-- 429, with `Retry-After`. -/
  | later (secs : ℕ)
  deriving DecidableEq

/-- The wait, in whole seconds, at least one. -/
def tooManyAttempts (wait : ℕ) : Response := .later (max 1 ((wait / 1000000 + 999) / 1000))

def memberNotFound : Response := .refused 404 "NOT_FOUND" "Member not found"

def subjectGone : Response := .refused 401 "UNAUTHORIZED" "Authentication required"

/-- How far a roster on its way into use came. -/
inductive Watch where
  | rest
  /-- The first one; its people's data follows it already. -/
  | adopted (roster : Roster)
  /-- A reloaded one, in use; these people are to be removed. -/
  | following (removed : List String)

/-- `lost`: people whose removal ended well and whom no roster put in use since holds.
`rosters`: how many came into use. `counted`: the failures counted, in order, with the times
the requests arrived. -/
structure Auth where
  site : List String
  roster : Option Roster := none
  pins : PinStore := {}
  guard : Guard := {}
  gate : HashGate := {}
  requests : BTreeMap ℕ Phase := ∅
  watch : Watch := .rest
  lost : List String := []
  rosters : ℕ := 0
  counted : List (ClientKey × ℕ) := []
  clock : ℕ := 0

namespace Auth

/-- Whether `member` logs in and owns a PIN. -/
def memberExists (a : Auth) (member : String) : Bool :=
  match a.roster with
  | some r => (r.person member).isSome || member == engineerId && a.site.contains member
  | none => a.site.contains member

def subjectKnown (a : Auth) (claims : Viewer) : Bool := claims.engineer || a.memberExists claims.sub

/-- The request goes on. -/
def goes (a : Auth) (n : ℕ) (phase : Phase) : Option (Auth × Option Response) :=
  some ({ a with requests := a.requests.insert n phase }, none)

/-- The request is answered. -/
def answers (a : Auth) (n : ℕ) (reply : Response) : Option (Auth × Option Response) :=
  some ({ a with requests := a.requests.erase n }, some reply)

def recordFailure (a : Auth) (client : ClientKey) (member : String) (arrived : ℕ) : Auth :=
  { a with guard := (a.guard.recordFailure client member arrived).2, counted := a.counted ++ [(client, arrived)] }

def recordSuccess (a : Auth) (client : ClientKey) (member : String) : Auth :=
  { a with guard := a.guard.recordSuccess client member }

/-- A login on its arrival. -/
def login (a : Auth) (n : ℕ) (client : ClientKey) (member pin : String) : Option (Auth × Option Response) :=
  let (verdict, guard) := a.guard.check client member a.clock
  let a := { a with guard }
  match verdict with
  | .error wait => a.answers n (tooManyAttempts wait)
  | .ok () =>
    if member ≠ "" ∧ !a.memberExists member then a.answers n memberNotFound
    else a.goes n (.loginRead ⟨client, member, pin, a.clock⟩)

/-- A PIN change up to its first wait. -/
def admission (a : Auth) (n : ℕ) (c : ChangePin) : Option (Auth × Option Response) :=
  if !a.subjectKnown c.claims then a.answers n subjectGone
  else if !validPinFormat c.newPin then
    a.answers n (.refused 400 "INVALID_FORMAT" "PIN must be exactly 4 digits")
  else if c.claims.engineer then
    let member := c.member.getD ""
    if member = "" then a.answers n (.refused 400 "MISSING_MEMBER" "Engineer must specify target member")
    else if member ≠ engineerId ∧ !a.memberExists member then a.answers n memberNotFound
    else a.goes n (.newHash member c.newPin a.rosters)
  else if c.oldPin.getD "" = "" then a.answers n (.refused 400 "MISSING_OLD_PIN" "Current PIN is required")
  else
    let (verdict, guard) := a.guard.check c.client c.claims.sub a.clock
    let a := { a with guard }
    match verdict with
    | .error wait => a.answers n (tooManyAttempts wait)
    | .ok () => a.goes n (.oldRead c a.clock a.rosters)

/-- What the request reads of the store. -/
def read (a : Auth) (n : ℕ) : Phase → Option (Auth × Option Response)
  | .loginRead r => a.goes n (.loginHash r a.pins.file.engineer (a.pins.memberHash r.member))
  | .oldRead c arrived checked => a.goes n (.oldHash c arrived checked (a.pins.memberHash c.claims.sub))
  | _ => none

/-- The work on the blocking pool. -/
def hashed [Argon2] (salt : String) : Phase → Phase
  | .loginHash r engineer member => .loginDone r
      (if verifyOptional r.pin engineer then .engineer else if verifyOptional r.pin member then .member else .none)
  | .oldHash c arrived checked current =>
    .oldDone c arrived checked (verifyOptional (c.oldPin.getD "") current)
  | .newHash target newPin checked => .newDone target (Argon2.hash salt newPin) checked
  | phase => phase

/-- What the request does with a check's result. -/
def finish (a : Auth) (n : ℕ) : Phase → Option (Auth × Option Response)
  | .loginDone r .engineer => (a.recordSuccess r.client r.member).answers n (.token engineerId true)
  | .loginDone r .member => (a.recordSuccess r.client r.member).answers n (.token r.member false)
  | .loginDone r .none =>
    (a.recordFailure r.client r.member r.arrived).answers n (.refused 401 "INVALID_PIN" "Invalid PIN")
  | .oldDone c arrived _ false =>
    (a.recordFailure c.client c.claims.sub arrived).answers n (.refused 401 "INVALID_PIN" "Current PIN is incorrect")
  | .oldDone c _ checked true =>
    (a.recordSuccess c.client c.claims.sub).goes n (.newHash c.claims.sub c.newPin checked)
  | _ => none

/-- The new hash is stored, or the old one stays. -/
def store (a : Auth) (n : ℕ) (write : Write) : Phase → Option (Auth × Option Response)
  | .newDone target phc _ =>
    let saved :=
      if target = engineerId then a.pins.setEngineerHash phc write else a.pins.setMemberHash target phc write
    { a with pins := saved.2 }.answers n (match saved.1 with
      | .ok () => .ok
      | .error _ => .refused 500 "IO_ERROR" "Failed to save PIN")
  | _ => none

/-- The roster is in use: whom it holds is nobody's loss. -/
def setRoster (a : Auth) (r : Roster) : Auth :=
  { a with roster := some r, rosters := a.rosters + 1, lost := a.lost.filter fun id => !(r.person id).isSome }

/-- The migration's removals of former members, up to the first that fails; whether none did. -/
def removeFormer (r : Roster) (deletion : String → Deletion) : List String → List String × PinStore → Bool × List String × PinStore
  | [], (gone, pins) => (true, gone, pins)
  | id :: rest, (gone, pins) =>
    if (r.person id).isSome then removeFormer r deletion rest (gone, pins)
    else match removePerson pins id (deletion id) with
      | (.ok _, pins) => removeFormer r deletion rest (gone ++ [id], pins)
      | (.error _, pins) => (false, gone, pins)

/-- A running legacy server takes its first roster on the files' side. `fine`: the recorded
lineup is one of the roster's. -/
def adopt (a : Auth) (r : Roster) (former : List String) (deletion : String → Deletion) (fine : Bool) (work : Work) : Auth :=
  let (migrated, gone, pins) := removeFormer r deletion former ([], a.pins)
  if !migrated || !fine then { a with pins, lost := a.lost ++ gone }
  else
    let (people, pins) := followPeople r pins [] work
    { a with pins, lost := a.lost ++ gone ++ people.gone, watch := .adopted r }

def removedPeople (old new : Roster) : List String :=
  (old.people.map (·.id)).filter fun id => (new.person id).isNone

inductive Move where
  | pass (time : ℕ)
  | login (n : ℕ) (client : ClientKey) (member pin : String)
  | change (n : ℕ) (c : ChangePin)
  | admission (n : ℕ)
  | read (n : ℕ)
  | acquire (n : ℕ)
  | grant (n : ℕ)
  | hash (n : ℕ) (salt : String)
  /-- The hashing task failed. -/
  | crash (n : ℕ)
  | finish (n : ℕ)
  | store (n : ℕ) (write : Write)
  | leave (n : ℕ)
  | adopt (r : Roster) (former : List String) (deletion : String → Deletion) (fine : Bool) (work : Work)
  | takeFirst
  | reload (r : Roster)
  | follow (work : Work)

/-- A number no request has and no hashing slot serves. -/
def free (a : Auth) (n : ℕ) : Bool := !a.requests.contains n && !a.gate.running.contains n

/-- A move, and what is answered at it. -/
def move [Argon2] (a : Auth) : Move → Option (Auth × Option Response)
  | .pass time => some ({ a with clock := a.clock + time }, none)
  | .login n client member pin => if a.free n then a.login n client member pin else none
  | .change n c => if a.free n then a.goes n (.asked c) else none
  | .admission n => match a.requests[n]? with
    | some (.asked c) => a.admission n c
    | _ => none
  | .read n => a.requests[n]?.bind (a.read n)
  | .acquire n => a.requests[n]?.bind fun phase =>
    if phase.toHash && !a.gate.running.contains n && !a.gate.waiting.contains n then
      match a.gate.acquire n with
      | some gate => some ({ a with gate }, none)
      | none => a.answers n (tooManyAttempts (seconds 1))
    else none
  | .grant n => (a.gate.grant n).map fun gate => ({ a with gate }, none)
  | .hash n salt =>
    if a.gate.running.contains n then
      some ({ a with
        gate := a.gate.release n
        requests := a.requests.modify n (hashed salt) }, none)
    else none
  | .crash n =>
    if a.gate.running.contains n then
      { a with gate := a.gate.release n }.answers n (.refused 500 "HASH_ERROR" "PIN check failed")
    else none
  | .finish n => a.requests[n]?.bind (a.finish n)
  | .store n write => a.requests[n]?.bind (a.store n write)
  | .leave n => some ({ a with requests := a.requests.erase n, gate := a.gate.cancel n }, none)
  | .adopt r former deletion fine work => match a.watch, a.roster with
    | .rest, none => some (a.adopt r former deletion fine work, none)
    | _, _ => none
  | .takeFirst => match a.watch with
    | .adopted r => some ({ a.setRoster r with watch := .rest }, none)
    | _ => none
  | .reload r => match a.watch, a.roster with
    | .rest, some old => some ({ a.setRoster r with watch := .following (removedPeople old r) }, none)
    | _, _ => none
  | .follow work => match a.watch, a.roster with
    | .following removed, some r =>
      let (people, pins) := followPeople r a.pins removed work
      some ({ a with pins, lost := a.lost ++ people.gone, watch := .rest }, none)
    | _, _ => none

section
variable [Argon2]

/-- From its start, each move meeting `ok`. -/
def Reaches (ok : Auth → Move → Prop) : Auth → Auth → Prop :=
  Relation.ReflTransGen fun a a' => ∃ m out, ok a m ∧ a.move m = some (a', out)

/-- Where the moves lead when each meets `ok`. -/
def run (ok : Auth → Move → Bool) (a : Auth) : List Move → Option Auth
  | [] => some a
  | m :: rest => if ok a m then (a.move m).bind fun r => run ok r.1 rest else none

theorem reaches_run {ok : Auth → Move → Prop} {test : Auth → Move → Bool} (meets : ∀ a m, test a m = true → ok a m)
    {a a' : Auth} {moves : List Move} (ran : a.run test moves = some a') : Reaches ok a a' := by
  induction moves generalizing a with
  | nil =>
    cases ran
    exact .refl
  | cons m rest ih =>
    unfold run at ran
    split at ran
    · rename_i fine
      obtain ⟨⟨between, out⟩, moved, later⟩ := Option.bind_eq_some_iff.mp ran
      exact .head ⟨m, out, meets a m fine, moved⟩ (ih later)
    · cases ran

end

end Auth

/-- Hashes one can read: a codec to evaluate with. -/
abbrev plainArgon2 : Argon2 where
  hash salt pin := argon2id ++ salt ++ pin
  verify pin phc := (phc.toList.drop (phc.length - pin.length)) == pin.toList

end IemMixer.Server
