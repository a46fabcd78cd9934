import Mathlib.Algebra.Group.Nat.Defs
import Mathlib.Tactic.Common
import Mathlib.Data.List.Basic

/-! Bytes that arrive in pieces, and the loops that fill a buffer from them. A read
gives at most what it was asked for and at most one piece; none at the end. -/
namespace IemMixer.Lib.Bytes

inductive ErrorKind where
  | interrupted
  | wouldBlock
  | timedOut
  | unexpectedEof
  | invalidInput
  | invalidData
  | other
  deriving DecidableEq, Repr

structure IoError where
  kind : ErrorKind
  text : String
  deriving DecidableEq, Repr

/-- What the reads to come will find, then the end. -/
abbrev Source := List (Except IoError (List UInt8))

abbrev ReadM (ε α : Type) := EStateM ε Source α

/-- Up to `n` bytes of the next piece. -/
def read (n : ℕ) : ReadM IoError (List UInt8)
  | [] => .ok [] []
  | .error e :: rest => .error e rest
  | .ok piece :: rest =>
    if piece.length ≤ n then .ok piece rest
    else .ok (piece.take n) (.ok (piece.drop n) :: rest)

namespace Source

/-- The bytes still to come. -/
def bytes (src : Source) : List UInt8 :=
  src.flatMap fun | .ok piece => piece | .error _ => []

/-- Every read finds bytes until the end. -/
def Plain (src : Source) : Prop := ∀ found ∈ src, ∃ piece, found = .ok piece ∧ piece ≠ []

/-- A slice is read in one piece. -/
def slice (b : List UInt8) : Source := if b.isEmpty then [] else [.ok b]

@[simp] theorem bytes_nil : bytes [] = [] := rfl

@[simp] theorem bytes_ok (piece : List UInt8) (rest : Source) :
    bytes (.ok piece :: rest) = piece ++ bytes rest := rfl

@[simp] theorem bytes_error (e : IoError) (rest : Source) : bytes (.error e :: rest) = bytes rest := rfl

@[simp] theorem bytes_slice (b : List UInt8) : (slice b).bytes = b := by
  unfold slice
  cases b <;> simp

theorem plain_slice (b : List UInt8) : (slice b).Plain := by
  unfold slice
  cases b <;> simp [Plain]

end Source

theorem read_error {n : ℕ} {src rest : Source} {e : IoError} (found : read n src = .error e rest) :
    src = .error e :: rest := by
  unfold read at found
  split at found
  · cases found
  · cases found
    rfl
  · split at found <;> cases found

theorem read_ok {n : ℕ} {src rest : Source} {more : List UInt8} (found : read n src = .ok more rest) :
    src.bytes = more ++ rest.bytes ∧ more.length ≤ n := by
  unfold read at found
  split at found
  · cases found
    simp
  · cases found
  · split at found
    · rename_i fits
      cases found
      exact ⟨rfl, fits⟩
    · cases found
      simp only [Source.bytes_ok, ← List.append_assoc, List.take_append_drop, List.length_take]
      exact ⟨trivial, Nat.min_le_left ..⟩

/-- A read of a plain source finds nothing only at the end. -/
theorem read_plain {n : ℕ} {src rest : Source} {more : List UInt8} (plain : src.Plain) (asked : 0 < n)
    (found : read n src = .ok more rest) : rest.Plain ∧ (more = [] → src.bytes = []) := by
  unfold read at found
  split at found
  · cases found
    exact ⟨plain, fun _ => rfl⟩
  · cases found
  · rename_i piece after
    obtain ⟨here, later⟩ := List.forall_mem_cons.mp plain
    obtain ⟨_, same, nonempty⟩ := here
    cases same
    split at found
    · cases found
      exact ⟨later, fun none => absurd none nonempty⟩
    · cases found
      refine ⟨List.forall_mem_cons.mpr ⟨⟨_, rfl, by simp; omega⟩, later⟩, fun none => ?_⟩
      rcases List.take_eq_nil_iff.mp none with zero | none
      · omega
      · exact absurd none nonempty

theorem read_of_plain {n : ℕ} {src rest : Source} {e : IoError} (plain : src.Plain)
    (found : read n src = .error e rest) : False := by
  rw [read_error found] at plain
  simp [Source.Plain] at plain

section
variable {ε : Type}

/-- `n` bytes, `got` of them there: reads until all are. An error for which `retry` holds
is read over, `atEnd` is the error of an end before (told whether nothing was read),
`failed` that of another error. -/
def gather (retry : IoError → Bool) (atEnd : Bool → ε) (failed : IoError → ε) (n : ℕ)
    (got : List UInt8) (src : Source) : EStateM.Result ε Source (List UInt8) :=
  if n ≤ got.length then .ok got src
  else
    match _found : read (n - got.length) src with
    | .ok [] rest => .error (atEnd got.isEmpty) rest
    | .ok (b :: more) rest => gather retry atEnd failed n (got ++ b :: more) rest
    | .error e rest =>
      if retry e then gather retry atEnd failed n got rest else .error (failed e) rest
termination_by (n - got.length, src.length)
decreasing_by
  · simp only [Prod.lex_def, List.length_append, List.length_cons]
    omega
  · simp [Prod.lex_def, read_error _found]

variable {retry : IoError → Bool} {atEnd : Bool → ε} {failed : IoError → ε}

/-- What was gathered is what is gone from the source. -/
theorem gather_ok {n : ℕ} {got v : List UInt8} {src rest : Source} (fits : got.length ≤ n)
    (ran : gather retry atEnd failed n got src = .ok v rest) :
    v.length = n ∧ got ++ src.bytes = v ++ rest.bytes := by
  fun_induction gather retry atEnd failed n got src with
  | case1 got src full =>
    cases ran
    exact ⟨by omega, rfl⟩
  | case2 => cases ran
  | case3 got src less b more after found ih =>
    obtain ⟨bytes, size⟩ := read_ok found
    obtain ⟨length, same⟩ := ih (by simp only [List.length_append]; omega) ran
    exact ⟨length, by rw [bytes, ← List.append_assoc]; exact same⟩
  | case4 got src less e after found again ih =>
    rw [read_error found]
    exact ih fits ran
  | case5 => cases ran

variable (retry atEnd failed) in
/-- From reads that bring bytes the buffer is filled when enough come, however they are
cut. -/
theorem gather_enough {n : ℕ} (got : List UInt8) {src : Source} (plain : src.Plain)
    (fits : got.length ≤ n) (enough : n ≤ got.length + src.bytes.length) :
    ∃ rest, gather retry atEnd failed n got src = .ok (got ++ src.bytes.take (n - got.length)) rest ∧
      rest.Plain ∧ rest.bytes = src.bytes.drop (n - got.length) := by
  fun_induction gather retry atEnd failed n got src with
  | case1 got src full =>
    have none : n - got.length = 0 := by omega
    exact ⟨src, by simp [none], plain, by simp [none]⟩
  | case2 got src less after found =>
    have ended := (read_plain plain (by omega) found).2 rfl
    simp only [ended, List.length_nil] at enough
    omega
  | case3 got src less b more after found ih =>
    obtain ⟨bytes, size⟩ := read_ok found
    have total : (got ++ b :: more).length = got.length + (b :: more).length := List.length_append
    rw [bytes, List.length_append] at enough
    obtain ⟨rest, ran, later, left⟩ := ih (read_plain plain (by omega) found).1 (by omega) (by omega)
    have rest_size : n - (got ++ b :: more).length = n - got.length - (b :: more).length := by omega
    refine ⟨rest, ?_, later, ?_⟩
    · rw [ran, bytes, List.take_append, List.take_of_length_le size, List.append_assoc, rest_size]
    · rw [left, bytes, List.drop_append, List.drop_of_length_le size, List.nil_append, rest_size]
  | case4 got src less e after found again ih => exact (read_of_plain plain found).elim
  | case5 got src less e after found stays => exact (read_of_plain plain found).elim

variable (retry atEnd failed) in
theorem gather_short {n : ℕ} (got : List UInt8) {src : Source} (plain : src.Plain)
    (less : got.length + src.bytes.length < n) :
    ∃ rest, gather retry atEnd failed n got src = .error (atEnd (got ++ src.bytes).isEmpty) rest := by
  fun_induction gather retry atEnd failed n got src with
  | case1 got src full => omega
  | case2 got src less' after found =>
    rw [(read_plain plain (by omega) found).2 rfl, List.append_nil]
    exact ⟨after, rfl⟩
  | case3 got src less' b more after found ih =>
    obtain ⟨bytes, size⟩ := read_ok found
    rw [bytes] at less ⊢
    rw [← List.append_assoc]
    refine ih (read_plain plain (by omega) found).1 ?_
    simp only [List.length_append] at less ⊢
    omega
  | case4 got src less' e after found again ih => exact (read_of_plain plain found).elim
  | case5 got src less' e after found stays => exact (read_of_plain plain found).elim

end

section
variable {ε α : Type} (retry again : IoError → Bool) (atEnd : Bool → ε) (cutOff : ε)
  (failed : IoError → ε) (size : ℕ) (look : List UInt8 → Except ε ℕ)
  (make : List UInt8 → List UInt8 → Except ε α)

/-- Reads a header, as many bytes as `look` finds announced in it, and makes the item. -/
def readHeaded (src : Source) : EStateM.Result ε Source α :=
  match gather retry atEnd failed size [] src with
  | .error e rest => .error e rest
  | .ok head rest =>
    match look head with
    | .error e => .error e rest
    | .ok n =>
      match gather again (fun _ => cutOff) failed n [] rest with
      | .error e rest => .error e rest
      | .ok body rest =>
        match make head body with
        | .error e => .error e rest
        | .ok item => .ok item rest

variable {retry again atEnd cutOff failed size look make}

theorem readHeaded_shrinks (some : 0 < size) {src rest : Source} {item : α}
    (ran : readHeaded retry again atEnd cutOff failed size look make src = .ok item rest) :
    rest.bytes.length < src.bytes.length := by
  unfold readHeaded at ran
  split at ran
  · cases ran
  rename_i head after first
  obtain ⟨whole, taken⟩ := gather_ok (Nat.zero_le size) first
  split at ran
  · cases ran
  split at ran
  · cases ran
  rename_i body last second
  obtain ⟨-, rest'⟩ := gather_ok (Nat.zero_le _) second
  split at ran
  · cases ran
  cases ran
  simp only [List.nil_append] at taken rest'
  rw [taken, rest', List.length_append, List.length_append]
  omega

end

/-- `to_le_bytes` of `w` bytes. -/
def toLe : ℕ → ℕ → List UInt8
  | 0, _ => []
  | w + 1, v => UInt8.ofNat v :: toLe w (v / 256)

/-- `from_le_bytes`. -/
def fromLe : List UInt8 → ℕ
  | [] => 0
  | b :: rest => b.toNat + 256 * fromLe rest

@[simp] theorem length_toLe (w v : ℕ) : (toLe w v).length = w := by
  induction w generalizing v with
  | zero => rfl
  | succ w ih => simp [toLe, ih]

theorem fromLe_toLe {w v : ℕ} (fits : v < 256 ^ w) : fromLe (toLe w v) = v := by
  induction w generalizing v with
  | zero =>
    have none : v = 0 := by simpa using fits
    rw [none]
    rfl
  | succ w ih =>
    have rest : fromLe (toLe w (v / 256)) = v / 256 := ih (by
      rw [Nat.pow_succ] at fits
      omega)
    simp only [toLe, fromLe, rest, UInt8.toNat_ofNat']
    omega

theorem fromLe_lt (b : List UInt8) : fromLe b < 256 ^ b.length := by
  induction b with
  | nil => simp [fromLe]
  | cons b rest ih =>
    have := b.toNat_lt
    simp only [fromLe, List.length_cons, Nat.pow_succ]
    omega

end IemMixer.Lib.Bytes
