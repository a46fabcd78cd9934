import IemMixer.Server.Freeze
import IemMixer.Server.PagesProofs
import IemMixer.Server.Switch

/-! Which band plays, as a page reads it before it connects, and the door of the page's socket.
Both look at the same roster on their own; they agree. -/
namespace IemMixer.Server
open Lib Proto

/-- A lineup as the pages know it. -/
structure LineupRef where
  id : String
  name : String
  deriving DecidableEq

/-- What a page reads: the band that plays, every band, and what the bearer may do. -/
structure LineupInfo where
  active : LineupRef
  lineups : List LineupRef
  playing : Bool
  leader : Bool
  canSwitch : Bool
  deriving DecidableEq

/-- A refused request. -/
structure Reject where
  status : ℕ
  code : String
  text : String
  deriving DecidableEq

/-- A request's token, as its check finds it. -/
inductive Token where
  | invalid
  | expired
  | valid (claims : AuthClaims)

def unauthorized : Reject := ⟨401, "UNAUTHORIZED", "Authentication required"⟩

def forbidden (text : String) : Reject := ⟨403, "FORBIDDEN", text⟩

def notFound (what : String) : Reject := ⟨404, "NOT_FOUND", what ++ " not found"⟩

def AuthClaims.viewer (claims : AuthClaims) : Viewer := ⟨claims.sub, claims.engineer⟩

def claimsOf : Token → Except Reject AuthClaims
  | .invalid => .error unauthorized
  | .expired => .error ⟨401, "TOKEN_EXPIRED", "Token has expired"⟩
  | .valid claims => .ok claims

namespace App

/-- Whether `member` logs in. -/
def memberExists (s : App) (member : String) : Bool := match s.roster with
  | some r => (r.roster.person member).isSome || member == engineerId && (s.siteConfig.member member).isSome
  | none => (s.siteConfig.member member).isSome

/-- The token of a person who left the roster is nobody's. -/
def subjectKnown (s : App) (claims : AuthClaims) : Bool := claims.engineer || s.memberExists claims.sub

/-- A valid token of somebody. -/
def bearer (s : App) (token : Token) : Except Reject AuthClaims := do
  let claims ← claimsOf token
  if s.subjectKnown claims then return claims else .error unauthorized

end App

def reference (l : Lineup) : LineupRef := ⟨l.id, l.name⟩

/-- What `claims` learns of the roster while `active` plays, and may do. -/
def lineupInfo (roster : Roster) (active : Lineup) (claims : AuthClaims) : LineupInfo where
  active := reference active
  lineups := roster.lineups.map reference
  playing := claims.engineer || active.plays claims.sub
  leader := active.leads claims.sub
  canSwitch := maySwitch roster claims

/-- Whether the page `page` plays while `active` does: a person's while they do, a page without a
person always. -/
def pagePlays (roster : Roster) (active : Lineup) (claims : AuthClaims) (page : String) (there : Bool) :
    Except Reject Bool :=
  if !(claims.engineer || page == claims.sub) then .error (forbidden "not a page this token may open")
  else if (roster.person page).isSome then .ok (active.plays page)
  else if there then .ok true
  else .error (notFound "Member")

/-- `GET /api/lineup`; none on a site without a roster. The outer `none` is no answer: the roster
has neither its active lineup nor a main one. -/
def getLineup (s : App) (mirror : Mirror) (token : Token) (page : Option String) :
    Option (Except Reject (Option LineupInfo)) := match s.bearer token with
  | .error refusal => some (.error refusal)
  | .ok claims => match s.roster with
    | none => some (.ok none)
    | some r => r.lineup.map fun active =>
      let info := lineupInfo r.roster active claims
      match page with
      | none => .ok (some info)
      | some page => (pagePlays r.roster active claims page (s.page mirror page).isSome).map fun playing =>
        some { info with playing }

/-- The page that was found, where `claims` may open it. -/
def openFor (claims : AuthClaims) : Option Page → Except Reject Page
  | none => .error (notFound "Member")
  | some page =>
    if mayOpen claims.viewer page then .ok page else .error (forbidden "This page is the engineer's")

/-- The upgrade of a page's socket. -/
def wsMixer (s : App) (mirror : Mirror) (token : Token) (id : String) : Except Reject Page := do
  let claims ← s.bearer token
  if !claims.engineer && claims.sub != id then .error (forbidden "Access denied to this member's mixer")
  else openFor claims (s.page mirror id)

end IemMixer.Server
