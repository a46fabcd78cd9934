import IemMixer.Proto.Frame

/-! The engine's reader of a pipe. Its reads time out, so what comes is gathered in a
buffer and cut into frames by a parser that fails with `unexpectedEof` or `closed`
while a frame is incomplete. -/
namespace IemMixer.Pipe
open Lib.Bytes Proto

/-- A parser of one frame, which consumes bytes of its source. -/
structure Parser (ε α : Type) where
  run : ReadM ε α
  shrinks : ∀ {src item rest}, run src = .ok item rest → rest.bytes.length < src.bytes.length

/-- The size a control frame's header announces. -/
def announced (head : List UInt8) : Except FrameError ℕ :=
  if fromLe head > maxFrame then .error (.tooLarge (fromLe head)) else .ok (fromLe head)

theorem readFrame_headed : readFrame = readHeaded (·.kind = .interrupted) (·.kind = .interrupted)
    headEnd (.io exactEnd) .io 4 announced (fun _ body => .ok body) := by
  funext src
  show EStateM.bind (readHead 4) _ src = _
  unfold EStateM.bind readHeaded readHead
  rcases gather (·.kind = .interrupted) headEnd .io 4 [] src with ⟨head, rest⟩ | ⟨e, rest⟩
  · by_cases large : fromLe head > maxFrame
    · simp [announced, large]
      rfl
    · simp only [announced, large, if_false]
      show readExact (fromLe head) rest = _
      unfold readExact
      rcases gather _ _ _ (fromLe head) [] rest with ⟨body, rest⟩ | ⟨e, rest⟩ <;> rfl
  · rfl

/-- The parser of `next_frame`. -/
def controlFrame : Parser FrameError (List UInt8) where
  run := readFrame
  shrinks := fun ran => readHeaded_shrinks (by decide) (readFrame_headed ▸ ran)

/-- The samples a media frame's header announces, four bytes each. -/
def announcedSamples (head : List UInt8) : Except FrameError ℕ :=
  match headerOf head with
  | .error e => .error e
  | .ok h => if h.samples > maxSamples then .error (.tooLarge h.samples) else .ok (4 * h.samples)

theorem readMedia_headed : readMedia = readHeaded (·.kind = .interrupted) (·.kind = .interrupted)
    headEnd (.io exactEnd) .io mediaHeader announcedSamples
    (fun head body => (headerOf head).map (·, samplesOf body)) := by
  funext src
  show EStateM.bind (readHead mediaHeader) _ src = _
  unfold EStateM.bind readHeaded readHead
  rcases gather (·.kind = .interrupted) headEnd .io mediaHeader [] src with ⟨head, rest⟩ | ⟨e, rest⟩
  · cases said : headerOf head with
    | error e =>
      simp only [announcedSamples, said]
      rfl
    | ok h =>
      simp only [announcedSamples, said]
      show (if h.samples > maxSamples then _ else _ : ReadM _ _) rest = _
      by_cases large : h.samples > maxSamples
      · rw [if_pos large, if_pos large]
        rfl
      · rw [if_neg large, if_neg large]
        show EStateM.bind (readExact (4 * h.samples)) _ rest = _
        unfold EStateM.bind readExact
        dsimp only
        rcases gather _ _ _ (4 * h.samples) [] rest with ⟨body, rest⟩ | ⟨e, rest⟩ <;> rfl
  · rfl

/-- The parser of `next_media`. -/
def mediaFrame : Parser FrameError (MediaHeader × List UInt32) where
  run := readMedia
  shrinks := fun ran => readHeaded_shrinks (by decide) (readMedia_headed ▸ ran)

structure Framer where
  buf : List UInt8 := []

variable {α : Type}

/-- The next complete frame, if the buffer holds one. -/
def Framer.next (f : Framer) (parse : ReadM FrameError α) : Except FrameError (Option α) × Framer :=
  match parse (Lib.Bytes.Source.slice f.buf) with
  | .ok v rest =>
    let used := f.buf.length - rest.bytes.length
    (.ok (some v), ⟨f.buf.drop used⟩)
  | .error .closed _ => (.ok none, f)
  | .error (.io e) _ => if e.kind = .unexpectedEof then (.ok none, f) else (.error (.io e), f)
  | .error e _ => (.error e, f)

def timedOut (e : IoError) : Bool :=
  e.kind = .wouldBlock || e.kind = .timedOut || e.kind = .interrupted

/-- Takes what a read found: `false` when nothing came, `closed` when the peer is gone. A
read brings at most 16 KiB; nothing here depends on it. -/
def Framer.fill (f : Framer) : Except IoError (List UInt8) → Except FrameError Bool × Framer
  | .ok [] => (.error .closed, f)
  | .ok chunk => (.ok true, ⟨f.buf ++ chunk⟩)
  | .error e => if timedOut e then (.ok false, f) else (.error (.io e), f)

/-- What one turn of the loop finds: the connection's flag set, or what a read gave. -/
inductive Turn where
  | closed
  | read (found : Except IoError (List UInt8))

/-- The loop's state: what it delivered, and why it stopped. -/
structure Reading (α : Type) where
  framer : Framer := {}
  delivered : List α := []
  ended : Option FrameError := none

theorem Framer.next_shrinks {f f' : Framer} {p : Parser FrameError α} {item : α}
    (took : f.next p.run = (.ok (some item), f')) : f'.buf.length < f.buf.length := by
  unfold Framer.next at took
  split at took
  · rename_i v rest ran
    cases took
    have less := p.shrinks ran
    simp only [Lib.Bytes.Source.bytes_slice] at less
    simp only [List.length_drop]
    omega
  · cases took
  · split at took <;> cases took
  · cases took

/-- The inner loop: every frame the buffer holds, each handed to `deliver` (told what went
before it). -/
def Reading.drain (p : Parser FrameError α) (deliver : List α → α → Bool) (r : Reading α) : Reading α :=
  match _took : r.framer.next p.run with
  | (.ok (some item), framer) =>
    if deliver r.delivered item then
      drain p deliver { r with framer, delivered := r.delivered ++ [item] }
    else { r with framer, ended := some .closed }
  | (.ok none, framer) => { r with framer }
  | (.error e, framer) => { r with framer, ended := some e }
termination_by r.framer.buf.length
decreasing_by exact Framer.next_shrinks _took

/-- One turn: the flag, a read, and the frames it completed. -/
def Reading.turn (p : Parser FrameError α) (deliver : List α → α → Bool) (r : Reading α) (t : Turn) :
    Reading α :=
  if r.ended.isSome then r
  else match t with
    | .closed => { r with ended := some .closed }
    | .read found =>
      match r.framer.fill found with
      | (.ok _, framer) => Reading.drain p deliver { r with framer }
      | (.error e, framer) => { r with framer, ended := some e }

/-- The reader's loop over these turns. -/
def readLoop (p : Parser FrameError α) (deliver : List α → α → Bool) (turns : List Turn) : Reading α :=
  turns.foldl (Reading.turn p deliver) (Reading.drain p deliver {})

end IemMixer.Pipe
