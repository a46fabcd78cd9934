import IemMixer.Lib.OrdMap
import IemMixer.Lib.Except
import IemMixer.Lib.Base64
import IemMixer.Lib.Text

/-! The login tokens, HS256 as RFC 7519 has it: how one is made of claims, and which texts
are taken for one. Base64url, JSON and HMAC-SHA-256 are the classes. -/
namespace IemMixer.Jwt
open Lib Text

/-- A `serde_json` value; the members of an inner object are a list. -/
inductive Value where
  | null
  | bool (b : Bool)
  | unsigned (n : UInt64)
  | negative (n : Int64)
  | float (bits : UInt64)
  | string (s : String)
  | array (items : List Value)
  | object (members : List (String × Value))

def Value.asStr : Value → Option String
  | .string s => some s
  | _ => none

def Value.asU64 : Value → Option UInt64
  | .unsigned n => some n
  | _ => none

def Value.isNull : Value → Bool
  | .null => true
  | _ => false

/-- A JSON object. -/
abbrev Object := BTreeMap String Value

/-- The bytes of a text in UTF-8. -/
def utf8 (text : List Char) : List UInt8 := text.flatMap String.utf8EncodeChar

def leewaySecs : UInt64 := 60

def hs256Header : List Char := "\x7b\"typ\":\"JWT\",\"alg\":\"HS256\"\x7d".toList

/-- What the program takes from `base64`: the URL-safe alphabet without padding, which holds
no dot. -/
class Base64Url where
  encode : List UInt8 → List Char
  decode : List Char → Option (List UInt8)
  decode_encode : ∀ bytes, decode (encode bytes) = some bytes
  no_dot : ∀ text bytes, decode text = some bytes → '.' ∉ text

/-- What it takes from `serde_json`, for claims of type `T`: reading undoes writing, and the
token's header is the object it spells. -/
class Json (T : Type) where
  /-- `to_vec` -/
  write : T → Option (List UInt8)
  /-- `from_slice` to an object -/
  read : List UInt8 → Option Object
  /-- `from_value` of an object -/
  claims : Object → Option T
  read_write : ∀ c bytes, write c = some bytes → ∃ object, read bytes = some object ∧ claims object = some c
  read_header : read (utf8 hs256Header) = some (.collect [("alg", .string "HS256"), ("typ", .string "JWT")])

/-- HMAC-SHA-256 under a key. -/
class Hmac where
  tag : List UInt8 → List UInt8 → List UInt8

inductive JwtError where
  | malformed
  | algorithm
  | signature
  | expired
  | claims
  | encode
  deriving DecidableEq

def okOr {α : Type} (x : Option α) (e : JwtError) : Except JwtError α :=
  match x with
  | some a => .ok a
  | none => .error e

def refuse (bad : Prop) [Decidable bad] (e : JwtError) : Except JwtError Unit := if bad then .error e else .ok ()

def saturatingSub (a b : UInt64) : UInt64 := if b ≤ a then a - b else 0

section
variable [Base64Url] [Hmac] (T : Type) [Json T]

/-- A part's bytes. -/
def unbase (part : List Char) : Except JwtError (List UInt8) := okOr (Base64Url.decode part) .malformed

/-- The JSON object a part holds. -/
def object (part : List Char) : Except JwtError Object := do
  let bytes ← unbase part
  okOr (Json.read T bytes) .malformed

/-- The tag of `input` under `secret`; `none` for an empty secret. -/
def mac (secret : List UInt8) (input : List Char) : Option (List UInt8) :=
  if secret.isEmpty then none else some (Hmac.tag secret (utf8 input))

variable {T}

/-- `<header>.<claims>`, each in base64url. -/
def signingInput (header : List Char) (claims : T) : Except JwtError (List Char) := do
  let claims ← okOr (Json.write claims) .encode
  return Base64Url.encode (utf8 header) ++ '.' :: Base64Url.encode claims

/-- `input` with its signature appended. -/
def signed (input : List Char) (signature : List UInt8) : List Char := input ++ '.' :: Base64Url.encode signature

def encodeHs256 (claims : T) (secret : List UInt8) : Except JwtError (List Char) := do
  let input ← signingInput hs256Header claims
  let tag ← okOr (mac secret input) .encode
  return signed input tag

variable (T)

/-- The claims of a token signed with `secret`, read at the Unix second `now`. -/
def decodeHs256 (token : List Char) (secret : List UInt8) (now : UInt64) : Except JwtError T := do
  let (input, signature) ← okOr (rsplitOnce '.' token) .malformed
  let (header, claims) ← okOr (splitOnce '.' input) .malformed
  let header ← object T header
  let alg ← okOr (header["alg"]?.bind Value.asStr) .malformed
  refuse (alg ≠ "HS256" ∨ header.contains "crit") .algorithm
  let tag ← okOr (mac secret input) .signature
  let given ← unbase signature
  refuse (given ≠ tag) .signature
  let claims ← object T claims
  let exp ← okOr (claims["exp"]?.bind Value.asU64) .claims
  refuse (claims["aud"]?.any (!·.isNull)) .claims
  refuse (exp < saturatingSub now leewaySecs) .expired
  okOr (Json.claims claims) .claims

end
end IemMixer.Jwt
