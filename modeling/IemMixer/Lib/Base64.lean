import Mathlib.Data.List.Basic
import Mathlib.Data.Nat.Notation

/-! Base64url without padding: three bytes are four letters, and what is left is two or three
letters whose spare bits are zero. -/
namespace IemMixer.Lib.Base64

def letters : List Char := "ABCDEFGHIJKLMNOPQRSTUVWXYZabcdefghijklmnopqrstuvwxyz0123456789-_".toList

def letter (n : ℕ) : Char := letters.getD n 'A'

def digit (c : Char) : Option ℕ := letters.findIdx? (· == c)

def encode : List UInt8 → List Char
  | a :: b :: c :: rest =>
    letter (a.toNat / 4) :: letter (a.toNat % 4 * 16 + b.toNat / 16) ::
      letter (b.toNat % 16 * 4 + c.toNat / 64) :: letter (c.toNat % 64) :: encode rest
  | [a, b] => [letter (a.toNat / 4), letter (a.toNat % 4 * 16 + b.toNat / 16), letter (b.toNat % 16 * 4)]
  | [a] => [letter (a.toNat / 4), letter (a.toNat % 4 * 16)]
  | [] => []

def decode : List Char → Option (List UInt8)
  | w :: x :: y :: z :: rest => do
    let w ← digit w
    let x ← digit x
    let y ← digit y
    let z ← digit z
    let bytes ← decode rest
    return .ofNat (w * 4 + x / 16) :: .ofNat (x % 16 * 16 + y / 4) :: .ofNat (y % 4 * 64 + z) :: bytes
  | [w, x, y] => do
    let w ← digit w
    let x ← digit x
    let y ← digit y
    if y % 4 = 0 then some [.ofNat (w * 4 + x / 16), .ofNat (x % 16 * 16 + y / 4)] else none
  | [w, x] => do
    let w ← digit w
    let x ← digit x
    if x % 16 = 0 then some [.ofNat (w * 4 + x / 16)] else none
  | [_] => none
  | [] => some []

theorem digit_letter {n : ℕ} (small : n < 64) : digit (letter n) = some n := by
  have all : ∀ n < 64, digit (letter n) = some n := by decide
  exact all n small

theorem decode_encode (bytes : List UInt8) : decode (encode bytes) = some bytes := by
  have byte : ∀ (b : UInt8) (n : ℕ), n = b.toNat → UInt8.ofNat n = b := by
    rintro b n rfl
    exact UInt8.ofNat_toNat
  induction bytes using encode.induct with
  | case1 a b c rest ih =>
    have inA := a.toNat_lt
    have inB := b.toNat_lt
    have inC := c.toNat_lt
    simp only [encode, decode, digit_letter (show a.toNat / 4 < 64 by omega),
      digit_letter (show a.toNat % 4 * 16 + b.toNat / 16 < 64 by omega),
      digit_letter (show b.toNat % 16 * 4 + c.toNat / 64 < 64 by omega),
      digit_letter (show c.toNat % 64 < 64 by omega), ih, Option.bind_eq_bind, Option.bind_some]
    rw [byte a _ (by omega), byte b _ (by omega), byte c _ (by omega)]
    rfl
  | case2 a b =>
    have inA := a.toNat_lt
    have inB := b.toNat_lt
    simp only [encode, decode, digit_letter (show a.toNat / 4 < 64 by omega),
      digit_letter (show a.toNat % 4 * 16 + b.toNat / 16 < 64 by omega),
      digit_letter (show b.toNat % 16 * 4 < 64 by omega), Option.bind_eq_bind, Option.bind_some]
    rw [if_pos (by omega), byte a _ (by omega), byte b _ (by omega)]
  | case3 a =>
    have inA := a.toNat_lt
    simp only [encode, decode, digit_letter (show a.toNat / 4 < 64 by omega),
      digit_letter (show a.toNat % 4 * 16 < 64 by omega), Option.bind_eq_bind, Option.bind_some]
    rw [if_pos (by omega), byte a _ (by omega)]
  | case4 => rfl

theorem digit_known {c : Char} {n : ℕ} (known : digit c = some n) : c ∈ letters := by
  obtain ⟨bound, same, -⟩ := List.findIdx?_eq_some_iff_getElem.mp known
  have held : letters[n] = c := by simpa using same
  exact held ▸ List.getElem_mem bound

/-- What is decoded is written in the alphabet alone. -/
theorem decode_letters {text : List Char} {bytes : List UInt8} (ok : decode text = some bytes) :
    ∀ c ∈ text, c ∈ letters := by
  induction text using decode.induct generalizing bytes with
  | case1 w x y z rest ih =>
    simp only [decode, Option.bind_eq_bind, Option.bind_eq_some_iff] at ok
    obtain ⟨_, inW, _, inX, _, inY, _, inZ, _, later, -⟩ := ok
    intro c member
    simp only [List.mem_cons] at member
    rcases member with rfl | rfl | rfl | rfl | member
    · exact digit_known inW
    · exact digit_known inX
    · exact digit_known inY
    · exact digit_known inZ
    · exact ih later c member
  | case2 w x y =>
    simp only [decode, Option.bind_eq_bind, Option.bind_eq_some_iff] at ok
    obtain ⟨_, inW, _, inX, _, inY, -⟩ := ok
    intro c member
    simp only [List.mem_cons, List.not_mem_nil, or_false] at member
    rcases member with rfl | rfl | rfl
    · exact digit_known inW
    · exact digit_known inX
    · exact digit_known inY
  | case3 w x =>
    simp only [decode, Option.bind_eq_bind, Option.bind_eq_some_iff] at ok
    obtain ⟨_, inW, _, inX, -⟩ := ok
    intro c member
    simp only [List.mem_cons, List.not_mem_nil, or_false] at member
    rcases member with rfl | rfl
    · exact digit_known inW
    · exact digit_known inX
  | case4 => cases ok
  | case5 => exact fun c none => by cases none

end IemMixer.Lib.Base64
