import Mathlib.Algebra.Notation.Defs
import Mathlib.Data.Nat.Notation

/-! Talkback playout: the browser's Opus packets wait in a short queue and are decoded on a
20 ms clock after a pre-roll; a packet that is not there in time is concealed, and after
three concealed ones the talker is taken as silent. -/
namespace IemMixer.Media

/-- Packets buffered before playout starts. -/
def preroll : ℕ := 2
/-- Packets buffered at most; the oldest goes first. -/
def cap : ℕ := 6
/-- Concealed frames in a row before playout stops. -/
def maxConceal : ℕ := 3
/-- Samples of a 20 ms frame. -/
def talkFrame : ℕ := 960

abbrev Packet := List UInt8

/-- The Opus decoder with its state: `decode_float`, which conceals when the packet is
empty and may fail, and `reset_state`. -/
structure Opus (D S : Type) where
  decode : D → Packet → D × Option (List S)
  reset : D → D

structure TalkbackDecoder (D : Type) where
  dec : D
  queue : List Packet := []
  playing : Bool := false
  empty : ℕ := 0
  overflows : ℕ := 0
  concealed : ℕ := 0
  errors : ℕ := 0

/-- What a tick decodes: nothing (`idle`, and `stop` where playout ends), a packet, or the
concealment of a missing one. -/
inductive Due where
  | idle
  | packet (p : Packet)
  | lost
  | stop
  deriving DecidableEq

namespace TalkbackDecoder

section
variable {D S : Type} [Zero S] (opus : Opus D S)

/-- One Opus packet from the browser. -/
def push (d : TalkbackDecoder D) (packet : Packet) : TalkbackDecoder D :=
  let d := if cap ≤ d.queue.length then { d with queue := d.queue.tail, overflows := d.overflows + 1 } else d
  { d with queue := d.queue ++ [packet] }

def conceal (d : TalkbackDecoder D) : TalkbackDecoder D × Option (List S) :=
  let d := { d with concealed := d.concealed + 1 }
  match opus.decode d.dec [] with
  | (dec, some out) => ({ d with dec }, some out)
  | (dec, none) => ({ d with dec }, some (.replicate talkFrame 0))

/-- A tick up to the decoding. -/
def take (d : TalkbackDecoder D) : TalkbackDecoder D × Due :=
  if !d.playing && d.queue.length < preroll then (d, .idle)
  else
    let d := { d with playing := true }
    match d.queue with
    | p :: rest => ({ d with queue := rest, empty := 0 }, .packet p)
    | [] =>
      let d := { d with empty := d.empty + 1 }
      if maxConceal < d.empty then ({ d with playing := false, empty := 0, dec := opus.reset d.dec }, .stop)
      else (d, .lost)

/-- The frame for this 20 ms tick, if the talker is playing. -/
def tick (d : TalkbackDecoder D) : TalkbackDecoder D × Option (List S) :=
  match d.take opus with
  | (d, .idle) | (d, .stop) => (d, none)
  | (d, .packet p) =>
    match opus.decode d.dec p with
    | (dec, some out) => ({ d with dec }, some out)
    | (dec, none) => { d with dec, errors := d.errors + 1 }.conceal opus
  | (d, .lost) => d.conceal opus

/-- Drops what is buffered. -/
def clear (d : TalkbackDecoder D) : TalkbackDecoder D := { d with queue := [], playing := false, empty := 0 }

inductive Op where
  | push (packet : Packet)
  | tick
  | clear

def step (d : TalkbackDecoder D) : Op → TalkbackDecoder D
  | .push packet => d.push packet
  | .tick => (d.tick opus).1
  | .clear => d.clear

def after (d : TalkbackDecoder D) (ops : List Op) : TalkbackDecoder D := ops.foldl (step opus) d

/-- What the ticks decoded, in order. -/
def dues (d : TalkbackDecoder D) : List Op → List Due
  | [] => []
  | .tick :: rest => (d.take opus).2 :: dues (d.step opus .tick) rest
  | op :: rest => dues (d.step opus op) rest

/-- What the ticks gave, in order. -/
def frames (d : TalkbackDecoder D) : List Op → List (Option (List S))
  | [] => []
  | .tick :: rest => (d.tick opus).2 :: frames (d.step opus .tick) rest
  | op :: rest => frames (d.step opus op) rest

end

def pushedBy : Op → Option Packet
  | .push packet => some packet
  | _ => none

def pushed (ops : List Op) : List Packet := ops.filterMap pushedBy

def handedBy : Due → Option Packet
  | .packet p => some p
  | _ => none

end TalkbackDecoder
end IemMixer.Media
