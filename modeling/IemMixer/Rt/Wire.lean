import IemMixer.Rt.Ring

/-! The control thread and the RT callback at the two ends of the command ring, in any
interleaving: the control thread publishes and pushes group after group; the callback
looks at the ring's head, pops command after command and renders segment after segment.
What a command or a segment does to the processor is a parameter. -/
namespace IemMixer.Rt

/-- Longest stretch the processor renders between command boundaries. -/
def seg : ℕ := 256

/-- What the callback does to the processor: one command, a number of frames; and when
the test signal ends, if one runs. -/
structure Machine (σ : Type) where
  apply : σ → RtOp → σ
  render : σ → ℕ → σ
  testEnd : σ → Option ℕ

/-- A block in progress: `start` and `due` are the number of commands applied before it
and the length of the group that was due at the ring's head then. -/
structure InBlock where
  frames : ℕ
  done : ℕ := 0
  budget : ℕ := maxCmdsPerBlock
  left : Bool := false
  start : ℕ
  due : ℕ

/-- Where the callback is: between blocks, at `apply_due`'s look at the ring, with `n`
commands of a group of `len` still to pop, or before a segment. -/
inductive Phase where
  | idle
  | look (b : InBlock)
  | pop (b : InBlock) (len n : ℕ)
  | segment (b : InBlock)

/-- A finished block: commands applied before it, due at its start, applied after it. -/
structure BlockRecord where
  frames : ℕ
  start : ℕ
  due : ℕ
  finish : ℕ

/-- The last four fields are the record of the run: the outcomes published, the groups
pushed, the commands applied with the sample time of each, and the blocks finished. -/
structure Wire (σ : Type) where
  pending : List (List RtOp) := []
  ring : List RtCmd := []
  proc : σ
  time : ℕ := 0
  phase : Phase := .idle
  deferred : ℕ := 0
  outcomes : List (List RtOp) := []
  pushed : List (List RtOp) := []
  log : List (ℕ × RtOp) := []
  blocks : List BlockRecord := []

/-- What happens next: the control thread publishes an outcome or pushes its first waiting
group; a block of `frames` begins; the callback takes its next step. -/
inductive Move where
  | publish (rt : List RtOp)
  | push (stamp : ℕ)
  | block (frames : ℕ)
  | callback

namespace Wire
variable {σ : Type} (m : Machine σ)

/-- The group at the ring's head when it is due, else 0. -/
def dueLen (w : Wire σ) : ℕ :=
  match w.ring with
  | [] => 0
  | head :: _ => if head.stamp ≤ w.time then max head.group 1 else 0

/-- The block ends when every frame is rendered. -/
def next (w : Wire σ) (b : InBlock) : Wire σ :=
  if b.done < b.frames then { w with phase := .look b }
  else
    { w with
      phase := .idle
      deferred := if b.left then w.deferred + 1 else w.deferred
      blocks := w.blocks ++ [⟨b.frames, b.start, b.due, w.log.length⟩] }

/-- One turn of `apply_due`'s loop up to its pops. -/
def look (w : Wire σ) (b : InBlock) : Wire σ :=
  match w.ring with
  | [] => { w with phase := .segment b }
  | head :: _ =>
    if w.time < head.stamp then { w with phase := .segment b }
    else
      let len := max head.group 1
      if b.budget < len then { w with phase := .segment { b with left := true } }
      else { w with phase := .pop b len len }

/-- One pop, or the budget's charge after the last one. -/
def pop (w : Wire σ) (b : InBlock) (len : ℕ) : ℕ → Wire σ
  | 0 => { w with phase := .look { b with budget := b.budget - len } }
  | n + 1 =>
    match w.ring with
    | [] => { w with phase := .pop b len n }
    | cmd :: ring =>
      { w with
        phase := .pop b len n
        ring
        proc := m.apply w.proc cmd.op
        log := w.log ++ [(w.time, cmd.op)] }

/-- `n` cut at `stop` when that lies ahead. -/
def cut (time : ℕ) (stop : Option ℕ) (n : ℕ) : ℕ :=
  match stop with
  | some stop => if time < stop then min n (stop - time) else n
  | none => n

/-- One segment: to the next command's stamp, the end of the test, or the longest stretch. A
spent budget does not cut the block. -/
def segment (w : Wire σ) (b : InBlock) : Wire σ :=
  let n := min (b.frames - b.done) seg
  let stamp := w.ring.head?.map (·.stamp)
  let left := b.left || (b.budget == 0 && stamp.any (· < w.time + n))
  let n := if 0 < b.budget then cut w.time stamp n else n
  let n := cut w.time (m.testEnd w.proc) n
  { w with proc := m.render w.proc n, time := w.time + n }.next
    { b with left, done := b.done + n }

def move (w : Wire σ) : Move → Wire σ
  | .publish rt =>
    { w with pending := w.pending ++ chunks maxCmdsPerBlock rt, outcomes := w.outcomes ++ [rt] }
  | .push stamp =>
    match w.pending with
    | [] => w
    | group :: rest =>
      match pushGroup w.ring stamp group with
      | none => w
      | some ring => { w with ring, pending := rest, pushed := w.pushed ++ [group] }
  | .block frames =>
    match w.phase with
    | .idle => w.next { frames, start := w.log.length, due := w.dueLen }
    | _ => w
  | .callback =>
    match w.phase with
    | .idle => w
    | .look b => w.look b
    | .pop b len n => w.pop m b len n
    | .segment b => w.segment m b

/-- Any interleaving, from a processor just made. -/
def run (proc : σ) (moves : List Move) : Wire σ := moves.foldl (move m) { proc }

end Wire
end IemMixer.Rt
