import IemMixer.Lib.Bytes

/-! Frames on the two pipes. A control frame is a little-endian `u32` length and that
many bytes of JSON; a media frame is a 20-byte header and f32 little-endian samples,
here their bits. A peer that announces a larger frame is refused before its body is
read. -/
namespace IemMixer.Proto
open Lib.Bytes

/-- Largest control frame body in bytes. -/
def maxFrame : ℕ := 2 ^ 20

inductive FrameError where
  | io (e : IoError)
  /-- The announced or produced body exceeds the limit. -/
  | tooLarge (n : ℕ)
  /-- The peer closed the stream between frames. -/
  | closed
  deriving DecidableEq

def FrameError.text : FrameError → String
  | .io e => "pipe i/o: " ++ e.text
  | .tooLarge n => s!"frame of {n} bytes exceeds {maxFrame}"
  | .closed => "pipe closed"

/-- `ErrorKind::UnexpectedEof.into()`. -/
def unexpectedEof : IoError := ⟨.unexpectedEof, "unexpected end of file"⟩

/-- An end of the stream in a header: before its first byte, or inside. -/
def headEnd (fresh : Bool) : FrameError := if fresh then .closed else .io unexpectedEof

/-- Fills a header of `n` bytes; interruptions are retried. -/
def readHead (n : ℕ) : ReadM FrameError (List UInt8) :=
  gather (·.kind = .interrupted) headEnd .io n []

/-- How the library's `read_exact` fails at the end of the stream. -/
def exactEnd : IoError := ⟨.unexpectedEof, "failed to fill whole buffer"⟩

/-- The library's `read_exact`. -/
def readExact (n : ℕ) : ReadM FrameError (List UInt8) :=
  gather (·.kind = .interrupted) (fun _ => .io exactEnd) .io n []

/-- One frame around the serialised message. -/
def writeFrame (body : List UInt8) : Except FrameError (List UInt8) :=
  if body.length < 2 ^ 32 ∧ body.length ≤ maxFrame then .ok (toLe 4 body.length ++ body)
  else .error (.tooLarge body.length)

/-- One frame's body. -/
def readFrame : ReadM FrameError (List UInt8) := do
  let head ← readHead 4
  let len := fromLe head
  if len > maxFrame then throw (.tooLarge len)
  readExact len

def mediaHeader : ℕ := 20

/-- 20 ms at 48 kHz. -/
def frame48k : ℕ := 960

/-- Most `frames × channels` a frame may carry. -/
def maxSamples : ℕ := 4 * frame48k

/-- `b"IEMF"`. -/
def magic : List UInt8 := [73, 69, 77, 70]

def version : UInt8 := 1

structure MediaHeader where
  stream : UInt8
  channels : UInt8
  seq : UInt64
  frames : UInt16
  deriving DecidableEq

def MediaHeader.samples (h : MediaHeader) : ℕ := h.frames.toNat * h.channels.toNat

/-- The bytes of a header. -/
def MediaHeader.bytes (h : MediaHeader) : List UInt8 :=
  magic ++ [version, h.stream, h.channels, 0] ++ toLe 8 h.seq.toNat ++ toLe 2 h.frames.toNat ++ [0, 0]

/-- One frame; `samples` must hold `frames × channels` values. -/
def writeMedia (h : MediaHeader) (samples : List UInt32) : Except IoError (List UInt8) :=
  if samples.length ≠ h.samples ∨ h.samples > maxSamples then
    .error ⟨.invalidInput, "media frame size does not match its header"⟩
  else .ok (h.bytes ++ samples.flatMap fun s => toLe 4 s.toNat)

def bad (msg : String) : FrameError := .io ⟨.invalidData, msg⟩

/-- `as_chunks::<4>`, each four bytes a sample's bits; a shorter rest is left out. -/
def samplesOf : List UInt8 → List UInt32
  | a :: b :: c :: d :: rest => UInt32.ofNat (fromLe [a, b, c, d]) :: samplesOf rest
  | _ => []

/-- The header in 20 bytes: `magic`, version, stream, channels, 0, sequence, frames, 0 0. -/
def headerOf (head : List UInt8) : Except FrameError MediaHeader :=
  if head.take 4 ≠ magic then .error (bad "not a media frame")
  else if head.getD 4 0 ≠ version then .error (bad "unsupported media frame version")
  else .ok {
    stream := head.getD 5 0
    channels := head.getD 6 0
    seq := UInt64.ofNat (fromLe ((head.drop 8).take 8))
    frames := UInt16.ofNat (fromLe ((head.drop 16).take 2)) }

/-- One frame's header and samples. -/
def readMedia : ReadM FrameError (MediaHeader × List UInt32) := do
  let head ← readHead mediaHeader
  let h ← match headerOf head with
    | .ok h => pure h
    | .error e => throw e
  let n := h.samples
  if n > maxSamples then throw (.tooLarge n)
  let bytes ← readExact (4 * n)
  return (h, samplesOf bytes)

end IemMixer.Proto
