import IemMixer.Lib.Sequence

/-! What of a content the denylist scan reads: the lines of text in batches, and a line or run longer
than a chunk in segments that overlap. -/
namespace IemMixer.Denylist
open Lib.Sequence

/-- What a content holds: the bytes of a blob, or the code points of text decoded already. -/
inductive Kind where
  | bytes
  | str
deriving DecidableEq

def Kind.bound : Kind → ℕ
  | .bytes => 0x100
  | .str => 0x110000

structure Content where
  kind : Kind
  data : List ℕ
  inRange : ∀ x ∈ data, x < kind.bound

def Content.size (c : Content) : ℤ := c.data.length

/-- `CHUNK`. -/
def chunk : ℕ := 1 <<< 18

/-- `\n`, a byte or a character. -/
def newline : ℕ := 0x0A

/-- A UTF-8 continuation byte. -/
def isContinuation (x : ℕ) : Bool := 0x80 ≤ x && x < 0xC0

/-- The character that starts with byte `a` before `rest`, and how many bytes of `rest` it takes. A
byte that starts no valid sequence is the lone surrogate that stands for it. -/
def character (a : ℕ) (rest : List ℕ) : ℕ × ℕ :=
  let b := rest.getD 0 0
  let c := rest.getD 1 0
  let d := rest.getD 2 0
  if a < 0x80 then (a, 0)
  else if 0xC2 ≤ a ∧ a < 0xE0 ∧ isContinuation b then ((a - 0xC0) * 0x40 + (b - 0x80), 1)
  else if 0xE0 ≤ a ∧ a < 0xF0 ∧ isContinuation b ∧ isContinuation c ∧ (a = 0xE0 → 0xA0 ≤ b) ∧ (a = 0xED → b < 0xA0) then
    ((a - 0xE0) * 0x1000 + (b - 0x80) * 0x40 + (c - 0x80), 2)
  else if 0xF0 ≤ a ∧ a < 0xF5 ∧ isContinuation b ∧ isContinuation c ∧ isContinuation d ∧
      (a = 0xF0 → 0x90 ≤ b) ∧ (a = 0xF4 → b < 0x90) then
    ((a - 0xF0) * 0x40000 + (b - 0x80) * 0x1000 + (c - 0x80) * 0x40 + (d - 0x80), 3)
  else (0xDC00 + a, 0)

/-- The characters of `data` after its first `skip` bytes, which the character before took. -/
def decodeAfter : ℕ → List ℕ → List ℕ
  | _, [] => []
  | 0, a :: rest => (character a rest).1 :: decodeAfter (character a rest).2 rest
  | skip + 1, _ :: rest => decodeAfter skip rest

/-- A piece of a content as text: `decode` of bytes, text itself. -/
def Kind.decode : Kind → List ℕ → List ℕ
  | .bytes, piece => decodeAfter 0 piece
  | .str, piece => piece

/-- A code point in UTF-8, a lone surrogate U+DC80–DCFF as the byte it stands for; `none` is a
`UnicodeEncodeError`. -/
def encodePoint (x : ℕ) : Option (List ℕ) :=
  if x < 0x80 then some [x]
  else if x < 0x800 then some [0xC0 + x / 0x40, 0x80 + x % 0x40]
  else if 0xD800 ≤ x ∧ x < 0xE000 then if 0xDC80 ≤ x ∧ x < 0xDD00 then some [x - 0xDC00] else none
  else if x < 0x10000 then some [0xE0 + x / 0x1000, 0x80 + x / 0x40 % 0x40, 0x80 + x % 0x40]
  else some [0xF0 + x / 0x40000, 0x80 + x / 0x1000 % 0x40, 0x80 + x / 0x40 % 0x40, 0x80 + x % 0x40]

def encode : List ℕ → Option (List ℕ)
  | [] => some []
  | x :: rest => do
    let here ← encodePoint x
    let more ← encode rest
    return here ++ more

structure Batch where
  /-- The units, decoded, separated by `sep`. -/
  source : List ℕ
  sep : ℕ
  /-- The number of the first unit. -/
  first : ℕ
  label : String
  runs : Bool
  /-- A segment's: the key of the unit it is of. -/
  key : Option (List ℕ)

def Batch.texts (b : Batch) : List (List ℕ) := b.source.splitOn b.sep

def Batch.keys (b : Batch) : List (List ℕ) :=
  match b.key with
  | some key => [key]
  | none => b.texts

/-- How a generator stopped: with its value, with an exception, or not yet. -/
inductive Ending (α : Type) where
  | returned (value : α)
  | raised
  | running

section
variable (hexdigest : List ℕ → List ℕ)

/-- The bytes a text unit's digest is updated with, a chunk at a time. -/
def digested (data : List ℕ) (stop : ℤ) : ℕ → ℤ → Option (List ℕ)
  | 0, _ => some []
  | pieces + 1, place =>
    if place < stop then do
      let here ← encode (slice data place (min stop (place + chunk)))
      let more ← digested data stop pieces (place + chunk)
      return here ++ more
    else some []

/-- The key of a unit longer than a chunk: a NUL, `sha256:` and the digest of its bytes. -/
def longKey (c : Content) (start stop : ℤ) : Option (List ℕ) :=
  let bytes := match c.kind with
    | .bytes => some (slice c.data start stop)
    | .str => digested c.data stop (stop - start).toNat start
  bytes.map fun bytes => 0 :: "sha256:".toList.map Char.toNat ++ hexdigest bytes

/-- `_SEGMENT_CUTS`: a space, a tab, a comma and a semicolon. -/
def segmentCuts : List ℕ := [0x20, 0x09, 0x2C, 0x3B]

/-- `place` moved past up to `moves` continuation bytes. -/
def pastContinuation (data : List ℕ) : ℕ → ℤ → Option ℤ
  | 0, place => some place
  | moves + 1, place =>
    if place < data.length then
      match item? data place with
      | none => none
      | some x => pastContinuation data moves (if isContinuation x then place + 1 else place)
    else pastContinuation data moves place

/-- A segment's edge in `data[low:place]`: right after its last cut character, else `place` itself
past the continuation bytes there. `none` is an `IndexError`. -/
def segmentEdge (c : Content) (low place : ℤ) : Option ℤ :=
  let found := segmentCuts.foldl (fun found cut => max found (rfind c.data cut low place)) (-1)
  if 0 ≤ found then some (found + 1)
  else
    match c.kind with
    | .bytes => pastContinuation c.data 3 place
    | .str => some place

def step (overlap : ℕ) : ℕ := max chunk (6 * overlap)

/-- Where the step from `stepStart` ends. -/
def stepEnd (c : Content) (stop : ℤ) (overlap : ℕ) (stepStart : ℤ) : Option ℤ :=
  if stop - stepStart ≤ step overlap then some stop
  else segmentEdge c (stepStart + step overlap / 2) (stepStart + step overlap)

/-- The segments the loop yields, `data[segment_start:step_end]` each. -/
def segmentsFrom (c : Content) (start stop : ℤ) (overlap : ℕ) : ℕ → ℤ → ℤ → List (ℤ × ℤ) × Ending Unit
  | 0, _, _ => ([], .running)
  | fuel + 1, segmentStart, stepStart =>
    if stepStart < stop then
      match stepEnd c stop overlap stepStart with
      | none => ([], .raised)
      | some stepEnd =>
        match segmentEdge c (stepEnd - 2 * overlap) (stepEnd - overlap) with
        | none => ([(segmentStart, stepEnd)], .raised)
        | some edge =>
          let later := segmentsFrom c start stop overlap fuel (max start edge) stepEnd
          ((segmentStart, stepEnd) :: later.1, later.2)
    else ([], .returned ())

/-- A step takes a position at least, so the unit's length bounds the loop. -/
def segments (c : Content) (start stop : ℤ) (overlap : ℕ) : List (ℤ × ℤ) × Ending Unit :=
  segmentsFrom c start stop overlap ((stop - start).toNat + 1) start start

/-- One segment of a unit as a batch of its own. -/
def segmentBatch (c : Content) (number : ℕ) (label : String) (runs : Bool) (key : List ℕ) (segment : ℤ × ℤ) :
    Batch where
  source := c.kind.decode (slice c.data segment.1 segment.2)
  sep := if label = "" then newline else 0
  first := number
  label := label
  runs := runs
  key := some key

def longUnitBatches (c : Content) (start stop : ℤ) (number : ℕ) (label : String) (runs : Bool) (overlap : ℕ) :
    List Batch × Ending Unit :=
  match longKey hexdigest c start stop with
  | none => ([], .raised)
  | some key =>
    let read := segments c start stop overlap
    (read.1.map (segmentBatch c number label runs key), read.2)

/-- The loop of `line_batches` from position `start`, whose line is number `first`. -/
def lineBatchesFrom (c : Content) (overlap : ℕ) : ℕ → ℤ → ℕ → List Batch × Ending ℕ
  | 0, _, _ => ([], .running)
  | fuel + 1, start, first =>
    -- the rest of the content, or the last line break within a chunk
    let cut := if c.size - start ≤ chunk then c.size else rfind c.data newline start (start + chunk + 1)
    if 0 ≤ cut then
      let source := c.kind.decode (slice c.data start cut)
      let batch : Batch := { source, sep := newline, first, label := "", runs := false, key := none }
      let next := first + source.count newline + 1
      if cut = c.size then ([batch], .returned next)
      else
        let later := lineBatchesFrom c overlap fuel (cut + 1) next
        (batch :: later.1, later.2)
    else
      let found := find c.data newline (start + chunk)
      let stop := if found < 0 then c.size else found
      match longUnitBatches hexdigest c start stop first "" false overlap with
      | (read, .raised) => (read, .raised)
      | (read, .running) => (read, .running)
      | (read, .returned ()) =>
        if stop = c.size then (read, .returned (first + 1))
        else
          let later := lineBatchesFrom c overlap fuel (stop + 1) (first + 1)
          (read ++ later.1, later.2)

/-- A turn takes a position at least, so the content's length bounds the loop. -/
def lineBatches (c : Content) (first overlap : ℕ) : List Batch × Ending ℕ :=
  lineBatchesFrom hexdigest c overlap (c.data.length + 1) 0 first

end

/-- The loop of `unit_key` over a content's batches; `none` is its `IndexError`. -/
def unitKey (number : ℕ) : List Batch → Option (List ℕ)
  | [] => none
  | batch :: later =>
    if number < batch.first + batch.keys.length then batch.keys[number - batch.first]? else unitKey number later

end IemMixer.Denylist
