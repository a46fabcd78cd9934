import IemMixer.Pipe

/-! The server's reader of the engine's pipes. It waits for each frame whole, and reads a
media frame's body before the header's magic and version are looked at. -/
namespace IemMixer.Server
open Lib.Bytes Proto Pipe

inductive WireError where
  | io (e : IoError)
  | tooLarge (n : ℕ)
  | tooManySamples (n : ℕ)
  | closed
  | malformed (text : String)
  deriving DecidableEq

/-- An end of the stream in a header: before its first byte, or inside. -/
def headEnd (fresh : Bool) : WireError := if fresh then .closed else .io unexpectedEof

/-- Fills `n` bytes; a clean end before the first is `closed`. -/
def readExactOrClosed (n : ℕ) : ReadM WireError (List UInt8) :=
  gather (fun _ => false) headEnd .io n []

/-- How the async library's `read_exact` fails at the end of the stream. -/
def exactEnd : IoError := ⟨.unexpectedEof, "early eof"⟩

/-- The async library's `read_exact`. -/
def readExact (n : ℕ) : ReadM WireError (List UInt8) :=
  gather (fun _ => false) (fun _ => .io exactEnd) .io n []

/-- One control frame's body. -/
def readFrame : ReadM WireError (List UInt8) := do
  let head ← readExactOrClosed 4
  let len := fromLe head
  if len > maxFrame then throw (.tooLarge len)
  readExact len

/-- One media frame, header and samples. -/
def readMediaFrame : ReadM WireError (MediaHeader × List UInt32) := do
  let head ← readExactOrClosed mediaHeader
  let channels := (head.getD 6 0).toNat
  let frames := fromLe ((head.drop 16).take 2)
  let n := channels * frames
  if n > maxSamples then throw (.tooManySamples n)
  let body ← readExact (4 * n)
  match readMedia (Lib.Bytes.Source.slice (head ++ body)) with
  | .ok v _ => return v
  | .error e _ => throw (.malformed e.text)

/-- The size a control frame's header announces. -/
def announced (head : List UInt8) : Except WireError ℕ :=
  if fromLe head > maxFrame then .error (.tooLarge (fromLe head)) else .ok (fromLe head)

theorem readFrame_headed : readFrame = readHeaded (fun _ => false) (fun _ => false)
    headEnd (.io exactEnd) .io 4 announced (fun _ body => .ok body) := by
  funext src
  show EStateM.bind (readExactOrClosed 4) _ src = _
  unfold EStateM.bind readHeaded readExactOrClosed
  rcases gather (fun _ => false) headEnd .io 4 [] src with ⟨head, rest⟩ | ⟨e, rest⟩
  · by_cases large : fromLe head > maxFrame
    · simp [announced, large]
      rfl
    · simp only [announced, large, if_false]
      show readExact (fromLe head) rest = _
      unfold readExact
      rcases gather _ _ _ (fromLe head) [] rest with ⟨body, rest⟩ | ⟨e, rest⟩ <;> rfl
  · rfl

/-- The server's parser of the control pipe. -/
def controlFrame : Parser WireError (List UInt8) where
  run := readFrame
  shrinks := fun ran => readHeaded_shrinks (by decide) (readFrame_headed ▸ ran)

/-- The samples a media frame's header announces, whatever else it says. -/
def samplesSaid (head : List UInt8) : ℕ := (head.getD 6 0).toNat * fromLe ((head.drop 16).take 2)

def announcedSamples (head : List UInt8) : Except WireError ℕ :=
  if samplesSaid head > maxSamples then .error (.tooManySamples (samplesSaid head))
  else .ok (4 * samplesSaid head)

/-- The frame of a header and its body. -/
def mediaOf (head body : List UInt8) : Except WireError (MediaHeader × List UInt32) :=
  match readMedia (Lib.Bytes.Source.slice (head ++ body)) with
  | .ok v _ => .ok v
  | .error e _ => .error (.malformed e.text)

theorem readMediaFrame_headed : readMediaFrame = readHeaded (fun _ => false) (fun _ => false)
    headEnd (.io exactEnd) .io mediaHeader announcedSamples mediaOf := by
  funext src
  show EStateM.bind (readExactOrClosed mediaHeader) _ src = _
  unfold EStateM.bind readHeaded readExactOrClosed
  rcases gather (fun _ => false) headEnd .io mediaHeader [] src with ⟨head, rest⟩ | ⟨e, rest⟩
  · show (if samplesSaid head > maxSamples then _ else _ : ReadM _ _) rest = _
    by_cases large : samplesSaid head > maxSamples
    · simp only [announcedSamples, if_pos large]
      rfl
    · simp only [announcedSamples, if_neg large]
      show EStateM.bind (readExact (4 * samplesSaid head)) _ rest = _
      unfold EStateM.bind readExact
      rcases gather _ _ _ (4 * samplesSaid head) [] rest with ⟨body, rest⟩ | ⟨e, rest⟩
      · simp only [mediaOf]
        rcases readMedia (Lib.Bytes.Source.slice (head ++ body)) with ⟨v, left⟩ | ⟨e, left⟩ <;> rfl
      · rfl
  · rfl

/-- The server's parser of the media pipe. -/
def mediaFrame : Parser WireError (MediaHeader × List UInt32) where
  run := readMediaFrame
  shrinks := fun ran => readHeaded_shrinks (by decide) (readMediaFrame_headed ▸ ran)

/-- Frames read one after the other until one fails. -/
def readAll (p : Parser WireError α) (src : Lib.Bytes.Source) : List α × WireError :=
  match _ran : p.run src with
  | .ok item rest =>
    let (items, e) := readAll p rest
    (item :: items, e)
  | .error e _ => ([], e)
termination_by src.bytes.length
decreasing_by exact p.shrinks _ran

end IemMixer.Server
