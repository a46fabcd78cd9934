import IemMixer.Jwt

/-! What is accepted as a login token. -/
namespace IemMixer.Jwt
open Lib Text

theorem okOr_ok {α : Type} {x : Option α} {e : JwtError} {a : α} : okOr x e = .ok a ↔ x = some a := by
  cases x <;> simp [okOr]

theorem refuse_ok {bad : Prop} [Decidable bad] {e : JwtError} {u : Unit} : refuse bad e = .ok u ↔ ¬bad := by
  by_cases held : bad <;> simp [refuse, held]

theorem saturatingSub_toNat (a b : UInt64) : (saturatingSub a b).toNat = a.toNat - b.toNat := by
  unfold saturatingSub
  split
  · rename_i fits
    exact UInt64.toNat_sub_of_le _ _ fits
  · rename_i short
    have : a.toNat < b.toNat := UInt64.lt_iff_toNat_lt.mp (UInt64.not_le.mp short)
    simp only [UInt64.toNat_zero]
    omega

theorem asStr_iff {v : Value} {s : String} : v.asStr = some s ↔ v = .string s := by
  cases v <;> simp [Value.asStr]

theorem asU64_iff {v : Value} {n : UInt64} : v.asU64 = some n ↔ v = .unsigned n := by
  cases v <;> simp [Value.asU64]

section
variable [Base64Url] [Hmac] {T : Type} [Json T]

variable (T) in
/-- A part that is an object with `alg` HS256 and without `crit`. -/
def HeaderOk (part : List Char) : Prop :=
  ∃ bytes object, Base64Url.decode part = some bytes ∧ Json.read T bytes = some object ∧
    object["alg"]? = some (.string "HS256") ∧ object["crit"]? = none

/-- A part that is an object with an `exp` not more than 60 s before `now` and without an
audience, and that `claims` are read from. -/
def ClaimsOk (part : List Char) (now : UInt64) (claims : T) : Prop :=
  ∃ bytes object exp, Base64Url.decode part = some bytes ∧ Json.read T bytes = some object ∧
    object["exp"]? = some (.unsigned exp) ∧ now.toNat ≤ exp.toNat + 60 ∧
    (∀ aud, object["aud"]? = some aud → aud.isNull = true) ∧ Json.claims object = some claims

/-- Three parts between dots, the last the signature of the bytes before the last dot. -/
structure Parts (token : List Char) (secret : List UInt8) (header body signature : List Char) : Prop where
  token : token = header ++ '.' :: (body ++ '.' :: signature)
  plain : '.' ∉ header ∧ '.' ∉ body ∧ '.' ∉ signature
  keyed : secret ≠ []
  signed : Base64Url.decode signature = some (Hmac.tag secret (utf8 (header ++ '.' :: body)))

omit [Base64Url] in
theorem mac_iff {secret : List UInt8} {input : List Char} {tag : List UInt8} :
    mac secret input = some tag ↔ secret ≠ [] ∧ tag = Hmac.tag secret (utf8 input) := by
  unfold mac
  cases secret with
  | nil => simp
  | cons b rest => simp [eq_comm]

omit [Hmac] in
theorem object_ok {part : List Char} {o : Object} :
    object T part = .ok o ↔ ∃ bytes, Base64Url.decode part = some bytes ∧ Json.read T bytes = some o := by
  unfold object unbase
  simp only [bind_ok_iff, okOr_ok]

omit [Base64Url] [Hmac] in
theorem in_time {now exp : UInt64} : ¬exp < saturatingSub now leewaySecs ↔ now.toNat ≤ exp.toNat + 60 := by
  rw [UInt64.lt_iff_toNat_lt, saturatingSub_toNat]
  have leeway : leewaySecs.toNat = 60 := rfl
  omega

omit [Base64Url] [Hmac] in
theorem absent_iff {o : Object} {name : String} : o.contains name = false ↔ o[name]? = none := by
  rw [Std.ExtTreeMap.contains_eq_isSome_getElem?, Option.isSome_eq_false_iff, Option.isNone_iff_eq_none]

omit [Base64Url] [Hmac] in
theorem open_iff {value : Option Value} : value.any (!·.isNull) = false ↔ ∀ v, value = some v → v.isNull = true := by
  cases value with
  | none => simp
  | some v => simp

/-- Exactly which texts are taken. -/
theorem decode_ok_iff {token : List Char} {secret : List UInt8} {now : UInt64} {claims : T} :
    decodeHs256 T token secret now = .ok claims ↔ ∃ header body signature,
      Parts token secret header body signature ∧ HeaderOk T header ∧ ClaimsOk body now claims := by
  unfold decodeHs256
  simp only [bind_ok_iff, okOr_ok, object_ok, refuse_ok, mac_iff, unbase, in_time, open_iff, Prod.exists,
    rsplitOnce_iff, splitOnce_iff, Option.bind_eq_some_iff, asStr_iff, asU64_iff, ne_eq, not_or, not_not,
    Bool.not_eq_true, absent_iff]
  constructor
  · rintro ⟨input, signature, ⟨rfl, last⟩, header, body, ⟨rfl, first⟩, headerObject, ⟨headerBytes, base, read⟩,
      alg, ⟨-, named, rfl⟩, -, ⟨rfl, plain⟩, tag, ⟨keyed, rfl⟩, given, signed, -, same, bodyObject,
      ⟨bodyBytes, base', read'⟩, exp, ⟨-, timed, rfl⟩, -, unaddressed, -, inTime, typed⟩
    exact ⟨header, body, signature,
      ⟨by simp, ⟨first, Base64Url.no_dot body _ base', last⟩, keyed, same ▸ signed⟩,
      ⟨headerBytes, headerObject, base, read, named, plain⟩,
      ⟨bodyBytes, bodyObject, exp, base', read', timed, inTime, unaddressed, typed⟩⟩
  · rintro ⟨header, body, signature, ⟨rfl, ⟨first, -, last⟩, keyed, signed⟩,
      ⟨headerBytes, headerObject, base, read, named, plain⟩,
      ⟨bodyBytes, bodyObject, exp, base', read', timed, inTime, unaddressed, typed⟩⟩
    exact ⟨header ++ '.' :: body, signature, ⟨by simp, last⟩, header, body, ⟨rfl, first⟩, headerObject,
      ⟨headerBytes, base, read⟩, "HS256", ⟨_, named, rfl⟩, (), ⟨rfl, plain⟩, _, ⟨keyed, rfl⟩, _, signed, (), rfl,
      bodyObject, ⟨bodyBytes, base', read'⟩, exp, ⟨_, timed, rfl⟩, (), unaddressed, (), inTime, typed⟩

omit [Hmac] in
theorem header_ok : HeaderOk T (Base64Url.encode (utf8 hs256Header)) := by
  refine ⟨_, _, Base64Url.decode_encode _, (Json.read_header : Json.read T _ = _), ?_, ?_⟩
  · rw [BTreeMap.getElem?_collect_iff _ (by simp)]
    simp
  · rw [← absent_iff, Bool.eq_false_iff, ne_eq, Std.ExtTreeMap.contains_eq_isSome_getElem?,
      BTreeMap.isSome_collect_iff]
    simp

/-- A token of these parts is what is made of `claims`. -/
theorem encode_ok {claims : T} {bytes secret : List UInt8} (written : Json.write claims = some bytes)
    (keyed : secret ≠ []) :
    let header := Base64Url.encode (utf8 hs256Header)
    let body := Base64Url.encode bytes
    let signature := Base64Url.encode (Hmac.tag secret (utf8 (header ++ '.' :: body)))
    encodeHs256 claims secret = .ok (header ++ '.' :: (body ++ '.' :: signature)) := by
  intro header body signature
  unfold encodeHs256 signingInput
  simp only [bind_ok_iff, okOr_ok, mac_iff]
  exact ⟨header ++ '.' :: body, ⟨bytes, written, rfl⟩, _, ⟨keyed, rfl⟩, by simp [signed, signature]; rfl⟩

/-- A token reads back as its claims while they are in date, and whatever is taken is three
parts of which the first names the algorithm, the second is in date and the last signs the two. -/
theorem taken_as_signed (secret : List UInt8) (now : UInt64) :
    (∀ (claims : T) bytes object exp, secret ≠ [] → Json.write claims = some bytes →
      Json.read T bytes = some object → object["exp"]? = some (.unsigned exp) → now.toNat ≤ exp.toNat + 60 →
      (∀ aud, object["aud"]? = some aud → aud.isNull = true) →
      ∃ token, encodeHs256 claims secret = .ok token ∧ decodeHs256 T token secret now = .ok claims) ∧
    ∀ (token : List Char) (claims : T), decodeHs256 T token secret now = .ok claims →
      ∃ header body signature, Parts token secret header body signature ∧ HeaderOk T header ∧
        ClaimsOk body now claims := by
  refine ⟨fun claims bytes object exp keyed written read timed inTime unaddressed => ?_,
    fun token claims taken => decode_ok_iff.mp taken⟩
  obtain ⟨object', read', typed⟩ := Json.read_write claims bytes written
  obtain rfl : object = object' := Option.some.inj (read.symm.trans read')
  have dotless : ∀ bytes, '.' ∉ Base64Url.encode bytes := fun bytes =>
    Base64Url.no_dot _ bytes (Base64Url.decode_encode bytes)
  refine ⟨_, encode_ok written keyed, decode_ok_iff.mpr ⟨_, _, _, ⟨rfl, ⟨dotless _, dotless _, dotless _⟩, keyed,
    Base64Url.decode_encode _⟩, header_ok, bytes, object, exp, Base64Url.decode_encode _, read, timed, inTime,
    unaddressed, typed⟩⟩

end

structure AuthClaims where
  sub : String
  engineer : Bool
  exp : UInt64
  iat : UInt64
  deriving DecidableEq

def memberClaims : AuthClaims := { sub := "member1", engineer := false, exp := 2000000000, iat := 1999999000 }

def memberBytes : List UInt8 :=
  utf8 "\x7b\"sub\":\"member1\",\"engineer\":false,\"exp\":2000000000,\"iat\":1999999000\x7d".toList

def Value.asBool : Value → Option Bool
  | .bool b => some b
  | _ => none

def memberEntries : List (String × Value) :=
  [("sub", .string "member1"), ("engineer", .bool false), ("exp", .unsigned 2000000000), ("iat", .unsigned 1999999000)]

def memberObject : Object := .collect memberEntries

theorem member_holds {name : String} {value : Value} :
    memberObject[name]? = some value ↔ (name, value) ∈ memberEntries :=
  BTreeMap.getElem?_collect_iff _ (by simp [memberEntries]) _ _

local instance unpadded : Base64Url where
  encode := Base64.encode
  decode := Base64.decode
  decode_encode := Base64.decode_encode
  no_dot text bytes ok member := absurd (Base64.decode_letters ok _ member) (by decide)

theorem member_ne_header : memberBytes ≠ utf8 hs256Header := by decide

local instance memberJson : Json AuthClaims where
  write claims := if claims = memberClaims then some memberBytes else none
  read bytes :=
    if bytes = utf8 hs256Header then some (.collect [("alg", .string "HS256"), ("typ", .string "JWT")])
    else if bytes = memberBytes then some memberObject
    else none
  claims object := do
    let sub ← object["sub"]?.bind Value.asStr
    let engineer ← object["engineer"]?.bind Value.asBool
    let exp ← object["exp"]?.bind Value.asU64
    let iat ← object["iat"]?.bind Value.asU64
    return { sub, engineer, exp, iat }
  read_write c bytes written := by
    obtain ⟨rfl, rfl⟩ : c = memberClaims ∧ memberBytes = bytes := by simpa using written
    refine ⟨memberObject, by rw [if_neg member_ne_header, if_pos rfl], ?_⟩
    have sub : memberObject["sub"]? = some (.string "member1") := member_holds.mpr (by simp [memberEntries])
    have engineer : memberObject["engineer"]? = some (.bool false) := member_holds.mpr (by simp [memberEntries])
    have exp : memberObject["exp"]? = some (.unsigned 2000000000) := member_holds.mpr (by simp [memberEntries])
    have iat : memberObject["iat"]? = some (.unsigned 1999999000) := member_holds.mpr (by simp [memberEntries])
    rw [sub, engineer, exp, iat]
    rfl
  read_header := if_pos rfl

/-- What HMAC-SHA-256 makes of `memberClaims`' token under `synthetic-jwt-secret`. -/
local instance memberTag : Hmac where
  tag _ _ := [195, 187, 217, 176, 30, 252, 239, 184, 99, 192, 216, 172, 159, 116, 185, 142, 87, 151, 157, 127, 21, 206,
    135, 18, 94, 142, 35, 19, 192, 141, 218, 183]

def memberSecret : List UInt8 := utf8 "synthetic-jwt-secret".toList

theorem member_token_taken :
    ∃ token, encodeHs256 memberClaims memberSecret = .ok token ∧
      decodeHs256 AuthClaims token memberSecret 2000000060 = .ok memberClaims ∧
      ∃ header body signature, Parts token memberSecret header body signature ∧ HeaderOk AuthClaims header ∧
        ClaimsOk body 2000000060 memberClaims := by
  have ⟨back, only⟩ := taken_as_signed (T := AuthClaims) memberSecret 2000000060
  have ⟨token, made, taken⟩ := back memberClaims memberBytes memberObject 2000000000 (by decide) rfl
    (by rw [show Json.read AuthClaims memberBytes = _ from if_neg member_ne_header, if_pos rfl])
    (member_holds.mpr (by simp [memberEntries])) (by decide) (fun aud held => ?_)
  · exact ⟨token, made, taken, only token memberClaims taken⟩
  · exact absurd (member_holds.mp held) (by simp [memberEntries])

end IemMixer.Jwt
