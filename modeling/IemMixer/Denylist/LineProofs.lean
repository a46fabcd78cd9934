import IemMixer.Denylist.SegmentProofs

/-! The lines of a content in batches: decoding keeps line breaks, so a batch's keys are the decoded
lines of its piece, and the loop gives every line its number once. -/
namespace IemMixer.Denylist
open Lib.Sequence

/-- A text is one line, or a line, a break and a text. -/
theorem lines_induction {motive : List ℕ → Prop} (one : ∀ line, newline ∉ line → motive line)
    (more : ∀ line rest, newline ∉ line → motive rest → motive (line ++ newline :: rest)) (text : List ℕ) :
    motive text := by
  by_cases broken : newline ∈ text
  · obtain ⟨line, rest, rfl, plain⟩ := List.eq_append_cons_of_mem broken
    exact more line rest plain (lines_induction one more rest)
  · exact one text broken
termination_by text.length

theorem character_append (a : ℕ) (rest tail : List ℕ) : character a (rest ++ newline :: tail) = character a rest := by
  match rest with
  | [] => simp [character, isContinuation, newline]
  | [b] => simp [character, isContinuation, newline]
  | [b, c] => simp [character, isContinuation, newline]
  | b :: c :: d :: rest => simp [character]

theorem character_fits (a : ℕ) (rest : List ℕ) : (character a rest).2 ≤ rest.length := by
  match rest with
  | [] =>
    simp only [character, isContinuation]
    grind
  | [b] =>
    simp only [character, isContinuation]
    grind
  | [b, c] =>
    simp only [character, isContinuation]
    grind
  | b :: c :: d :: rest =>
    simp only [character]
    grind

theorem character_newline (rest : List ℕ) : character newline rest = (newline, 0) := rfl

theorem character_ne_newline {a : ℕ} (other : a ≠ newline) (rest : List ℕ) : (character a rest).1 ≠ newline := by
  simp only [newline] at other ⊢
  simp only [character, isContinuation, Bool.and_eq_true, decide_eq_true_eq]
  split
  · exact other
  split
  · simp only; omega
  split
  · simp only; omega
  split
  · simp only; omega
  · simp only; omega

theorem decodeAfter_append {skip : ℕ} {line : List ℕ} (fits : skip ≤ line.length) (rest : List ℕ) :
    decodeAfter skip (line ++ newline :: rest) = decodeAfter skip line ++ newline :: decodeAfter 0 rest := by
  induction line generalizing skip with
  | nil =>
    obtain rfl : skip = 0 := by simpa using fits
    simp [decodeAfter, character_newline]
  | cons a line ih =>
    cases skip with
    | zero =>
      rw [List.cons_append, decodeAfter, decodeAfter, character_append, ih (character_fits a line), List.cons_append]
    | succ skip =>
      rw [List.cons_append, decodeAfter, decodeAfter, ih (by simpa using fits)]

theorem decodeAfter_plain {skip : ℕ} {line : List ℕ} (plain : newline ∉ line) : newline ∉ decodeAfter skip line := by
  induction line generalizing skip with
  | nil => simp [decodeAfter]
  | cons a line ih =>
    simp only [List.mem_cons, not_or] at plain
    cases skip with
    | zero =>
      rw [decodeAfter, List.mem_cons, not_or]
      exact ⟨(character_ne_newline (Ne.symm plain.1) line).symm, ih plain.2⟩
    | succ skip => exact ih plain.2

variable {kind : Kind}

theorem decode_append (kind : Kind) (line rest : List ℕ) :
    kind.decode (line ++ newline :: rest) = kind.decode line ++ newline :: kind.decode rest := by
  cases kind with
  | bytes => exact decodeAfter_append (Nat.zero_le _) rest
  | str => rfl

theorem decode_plain {line : List ℕ} (plain : newline ∉ line) : newline ∉ kind.decode line := by
  cases kind with
  | bytes => exact decodeAfter_plain plain
  | str => exact plain

theorem decode_splitOn (kind : Kind) (text : List ℕ) :
    (kind.decode text).splitOn newline = (text.splitOn newline).map kind.decode := by
  induction text using lines_induction with
  | one line plain =>
    rw [List.splitOn_eq_singleton plain, List.splitOn_eq_singleton (decode_plain plain), List.map_singleton]
  | more line rest plain ih =>
    rw [decode_append, List.splitOn_append_cons_self_of_not_mem plain,
      List.splitOn_append_cons_self_of_not_mem (decode_plain plain), ih, List.map_cons]

theorem length_splitOn (text : List ℕ) : (text.splitOn newline).length = text.count newline + 1 := by
  induction text using lines_induction with
  | one line plain => rw [List.splitOn_eq_singleton plain, List.count_eq_zero.mpr plain, List.length_singleton]
  | more line rest plain ih =>
    rw [List.splitOn_append_cons_self_of_not_mem plain, List.length_cons, ih, List.count_append,
      List.count_eq_zero.mpr plain, List.count_cons_self, Nat.zero_add]

theorem length_of_mem_splitOn {text line : List ℕ} (member : line ∈ text.splitOn newline) :
    line.length ≤ text.length := by
  induction text using lines_induction with
  | one only plain =>
    rw [List.splitOn_eq_singleton plain, List.mem_singleton] at member
    rw [member]
  | more first rest plain ih =>
    rw [List.splitOn_append_cons_self_of_not_mem plain, List.mem_cons] at member
    rw [List.length_append, List.length_cons]
    rcases member with rfl | member
    · omega
    · have := ih member
      omega

/-- A lone surrogate that stands for no byte, which UTF-8 cannot write. -/
def Unwritable (x : ℕ) : Prop := 0xD800 ≤ x ∧ x < 0xE000 ∧ ¬(0xDC80 ≤ x ∧ x < 0xDD00)

theorem encodePoint_none (x : ℕ) : encodePoint x = none ↔ Unwritable x := by
  unfold encodePoint Unwritable
  split
  · simp; omega
  split
  · simp; omega
  split
  · split <;> simp <;> omega
  split
  · simp; omega
  · simp; omega

theorem encode_append (front back : List ℕ) : encode (front ++ back) = do
    let here ← encode front
    let more ← encode back
    return here ++ more := by
  induction front with
  | nil => cases h : encode back <;> simp [encode, h]
  | cons x front ih =>
    rw [List.cons_append, encode, encode, ih]
    cases encodePoint x <;> cases encode front <;> cases encode back <;> simp

theorem encode_none (text : List ℕ) : encode text = none ↔ ∃ x ∈ text, Unwritable x := by
  induction text with
  | nil => simp [encode]
  | cons x rest ih =>
    have here : (∃ y ∈ x :: rest, Unwritable y) ↔ Unwritable x ∨ ∃ y ∈ rest, Unwritable y := by simp
    rw [here, ← ih, ← encodePoint_none, encode]
    cases encodePoint x <;> cases encode rest <;> simp

section
variable (hexdigest : List ℕ → List ℕ)

/-- The key of a line: its text, or the digest of one longer than a chunk. -/
def lineKey (kind : Kind) (line : List ℕ) : Option (List ℕ) :=
  if line.length ≤ chunk then some (kind.decode line)
  else
    let bytes := match kind with
      | .bytes => some line
      | .str => encode line
    bytes.map fun bytes => 0 :: "sha256:".toList.map Char.toNat ++ hexdigest bytes

variable {hexdigest} in
theorem lineKey_short {line : List ℕ} (short : line.length ≤ chunk) :
    lineKey hexdigest kind line = some (kind.decode line) :=
  if_pos short

variable {c : Content} {start stop : ℤ} {overlap : ℕ}

theorem digested_eq {data : List ℕ} {pieces : ℕ} {place : ℤ} (first : 0 ≤ place) (order : place ≤ stop)
    (last : stop ≤ data.length) (enough : stop - place ≤ pieces) :
    digested data stop pieces place = encode (slice data place stop) := by
  have size := chunk_eq
  induction pieces generalizing place with
  | zero =>
    obtain rfl : place = stop := by omega
    rw [slice_self first last]
    rfl
  | succ pieces ih =>
    rcases order.eq_or_lt with rfl | before
    · rw [slice_self first last, digested, if_neg (by omega)]
      rfl
    · rw [digested, if_pos before]
      by_cases more : place + chunk ≤ stop
      · rw [min_eq_right more, ih (by omega) more (by omega),
          ← slice_append first (show place ≤ place + chunk by omega) more last, encode_append]
      · have finished : digested data stop pieces (place + chunk) = some [] := by
          cases pieces with
          | zero => rfl
          | succ pieces => rw [digested, if_neg (by omega)]
        rw [min_eq_left (by omega), finished]
        cases encode (slice data place stop) <;> simp

theorem longKey_eq (first : 0 ≤ start) (long : chunk < stop - start) (last : stop ≤ c.size) :
    longKey hexdigest c start stop = lineKey hexdigest c.kind (slice c.data start stop) := by
  have length : ((slice c.data start stop).length : ℤ) = stop - start := length_slice first (by omega) last
  simp only [longKey, lineKey, if_neg (show ¬(slice c.data start stop).length ≤ chunk by omega)]
  cases c.kind with
  | bytes => rfl
  | str =>
    have enough : stop - start ≤ (stop - start).toNat := by omega
    simp only [digested_eq first (show start ≤ stop by omega) last enough]

/-- `batches` number the lines from `number` on, each once: whole lines together in one batch, a line
longer than a chunk in segments that all carry its number and its key. -/
inductive Numbers (kind : Kind) : ℕ → List (List ℕ) → List Batch → Prop where
  | done {number : ℕ} : Numbers kind number [] []
  | whole {number : ℕ} {lines rest : List (List ℕ)} {batch : Batch} {later : List Batch}
      (short : ∀ line ∈ lines, line.length ≤ chunk) (first : batch.first = number)
      (keys : batch.keys.map some = lines.map (lineKey hexdigest kind))
      (after : Numbers kind (number + lines.length) rest later) : Numbers kind number (lines ++ rest) (batch :: later)
  | long {number : ℕ} {line : List ℕ} {rest : List (List ℕ)} {read later : List Batch}
      (long : chunk < line.length) (nonempty : read ≠ [])
      (keys : ∀ batch ∈ read, batch.first = number ∧ batch.keys.map some = [lineKey hexdigest kind line])
      (after : Numbers kind (number + 1) rest later) : Numbers kind number (line :: rest) (read ++ later)

variable {hexdigest}

theorem unitKey_skip {number : ℕ} {read later : List Batch}
    (before : ∀ batch ∈ read, batch.first + batch.keys.length ≤ number) :
    unitKey number (read ++ later) = unitKey number later := by
  induction read with
  | nil => rfl
  | cons batch read ih =>
    rw [List.cons_append, unitKey, if_neg (by have := before batch List.mem_cons_self; omega)]
    exact ih fun other member => before other (List.mem_cons_of_mem _ member)

/-- The key a unit is allowed by is its line's, whatever the segments. -/
theorem Numbers.unitKey {number : ℕ} {lines : List (List ℕ)} {batches : List Batch}
    (numbers : Numbers hexdigest kind number lines batches) {n : ℕ} {line : List ℕ} (there : lines[n]? = some line) :
    unitKey (number + n) batches = lineKey hexdigest kind line := by
  induction numbers generalizing n with
  | done => simp at there
  | @whole number lines rest batch later short first keys after ih =>
    have count : batch.keys.length = lines.length := by simpa using congrArg List.length keys
    rw [Denylist.unitKey, first, count]
    by_cases inside : n < lines.length
    · rw [if_pos (by omega), Nat.add_sub_cancel_left]
      rw [List.getElem?_append_left inside] at there
      have same := congrArg (·[n]?) keys
      simp only [List.getElem?_map, there, Option.map_some] at same
      cases held : batch.keys[n]? with
      | none => simp [held] at same
      | some key => simpa [held] using same
    · rw [if_neg (by omega)]
      rw [List.getElem?_append_right (by omega)] at there
      have later := ih there
      rwa [show number + lines.length + (n - lines.length) = number + n by omega] at later
  | @long number line' rest read later long nonempty keys after ih =>
    cases n with
    | zero =>
      obtain rfl : line' = line := by simpa using there
      cases read with
      | nil => exact absurd rfl nonempty
      | cons batch read =>
        obtain ⟨first, key⟩ := keys batch List.mem_cons_self
        have count : batch.keys.length = 1 := by simpa using congrArg List.length key
        rw [List.cons_append, Denylist.unitKey, first, count, if_pos (by omega), Nat.add_zero, Nat.sub_self]
        have same := congrArg (·[0]?) key
        cases held : batch.keys[0]? with
        | none => simp [held] at same
        | some key => simpa [held] using same
    | succ n =>
      rw [unitKey_skip fun batch member => ?_, show number + (n + 1) = number + 1 + n by omega]
      · exact ih (by simpa using there)
      · obtain ⟨first, key⟩ := keys batch member
        have count : batch.keys.length = 1 := by simpa using congrArg List.length key
        omega

theorem slice_break {start cut : ℤ} (first : 0 ≤ start) (order : start ≤ cut) (last : cut < c.size)
    (held : item? c.data cut = some newline) :
    slice c.data start c.size = slice c.data start cut ++ newline :: slice c.data (cut + 1) c.size := by
  rw [← slice_append first order last.le le_rfl, slice_cons (by omega) last le_rfl held]

/-- A unit's loop that returns gives its segments, every one with its number and its key. -/
theorem longUnitBatches_returned {ends : UnitKind} (unit : IsUnit ends c start stop) (positive : 1 ≤ overlap)
    (returned : (segments c start stop overlap).2 = .returned ())
    (writable : longKey hexdigest c start stop ≠ none) (number : ℕ) (label : String) (runs : Bool) :
    ∃ read, longUnitBatches hexdigest c start stop number label runs overlap = (read, .returned ()) ∧ read ≠ [] ∧
      ∀ batch ∈ read, batch.first = number ∧
        batch.keys.map some = [lineKey hexdigest c.kind (slice c.data start stop)] := by
  cases held : longKey hexdigest c start stop with
  | none => exact absurd held writable
  | some key =>
    refine ⟨(segments c start stop overlap).1.map (segmentBatch c number label runs key), ?_, ?_,
      fun batch member => ?_⟩
    · rw [longUnitBatches, held, ← returned]
    · simpa using segments_ne_nil unit positive
    · obtain ⟨segment, -, rfl⟩ := List.mem_map.mp member
      rw [← longKey_eq hexdigest unit.first unit.long unit.last, held]
      exact ⟨rfl, rfl⟩

variable (hexdigest) in
/-- A piece of whole lines, each short: its keys are theirs and its count is how many. -/
theorem piece_lines {start cut : ℤ} (first : 0 ≤ start) (order : start ≤ cut) (inside : cut ≤ c.size)
    (short : cut - start ≤ chunk) (number : ℕ) :
    (∀ line ∈ (slice c.data start cut).splitOn newline, line.length ≤ chunk) ∧
      ((c.kind.decode (slice c.data start cut)).splitOn newline).map some =
        ((slice c.data start cut).splitOn newline).map (lineKey hexdigest c.kind) ∧
      number + (c.kind.decode (slice c.data start cut)).count newline + 1 =
        number + ((slice c.data start cut).splitOn newline).length := by
  have length : ((slice c.data start cut).length : ℤ) = cut - start := length_slice first order inside
  have lines (line : List ℕ) (member : line ∈ (slice c.data start cut).splitOn newline) : line.length ≤ chunk := by
    have := length_of_mem_splitOn member
    omega
  refine ⟨lines, ?_, ?_⟩
  · rw [decode_splitOn, List.map_map]
    exact List.map_congr_left fun line member => (lineKey_short (lines line member)).symm
  · have count := length_splitOn (c.kind.decode (slice c.data start cut))
    rw [decode_splitOn, List.length_map] at count
    omega

/-- Without a break in the first chunk, the line up to the next break is a unit of its own. -/
theorem line_isUnit {start stop : ℤ} (first : 0 ≤ start)
    (opened : start = 0 ∨ ∃ x, item? c.data (start - 1) = some x ∧ UnitKind.line.Ends x)
    (clean : ∀ p, start ≤ p → p < start + chunk + 1 → item? c.data p ≠ some newline)
    (plain : ∀ p, start + chunk ≤ p → p < stop → item? c.data p ≠ some newline)
    (order : start + chunk < stop) (inside : stop ≤ c.size)
    (closed : stop = c.size ∨ item? c.data stop = some newline) : IsUnit .line c start stop where
  first := first
  long := by omega
  last := inside
  opened := opened
  closed := closed.imp_right fun held => ⟨newline, held, rfl⟩
  plain p from_ below x held ends := by
    obtain rfl : x = newline := ends
    by_cases near : p < start + chunk + 1
    · exact clean p from_ near held
    · exact plain p (by omega) below held

theorem IsUnit.plain_line (unit : IsUnit .line c start stop) : newline ∉ slice c.data start stop := by
  intro broken
  have long := unit.long
  have size := chunk_eq
  obtain ⟨p, from_, below, held⟩ := (mem_slice unit.first (by omega) unit.last).mp broken
  exact unit.plain p from_ below _ held rfl

theorem IsUnit.length {kind : UnitKind} (unit : IsUnit kind c start stop) :
    chunk < (slice c.data start stop).length := by
  have long := unit.long
  have size := chunk_eq
  have length : ((slice c.data start stop).length : ℤ) = stop - start := length_slice unit.first (by omega) unit.last
  omega

variable (hexdigest) in
theorem lineBatchesFrom_numbers (positive : 1 ≤ overlap)
    (reads : ∀ start stop, IsUnit .line c start stop →
      (segments c start stop overlap).2 = .returned () ∧ longKey hexdigest c start stop ≠ none)
    (fuel : ℕ) {start : ℤ} (number : ℕ) (first : 0 ≤ start) (last : start ≤ c.size)
    (opened : start = 0 ∨ ∃ x, item? c.data (start - 1) = some x ∧ UnitKind.line.Ends x)
    (enough : c.size - start < fuel) :
    ∃ batches, lineBatchesFrom hexdigest c overlap fuel start number =
        (batches, .returned (number + ((slice c.data start c.size).splitOn newline).length)) ∧
      Numbers hexdigest c.kind number ((slice c.data start c.size).splitOn newline) batches := by
  induction fuel generalizing start number with
  | zero => omega
  | succ fuel ih =>
    have size := chunk_eq
    rw [lineBatchesFrom]
    by_cases rest : c.size - start ≤ chunk
    · obtain ⟨short, keys, next⟩ := piece_lines hexdigest first last le_rfl rest number
      rw [if_pos rest, if_pos (by omega), if_pos rfl]
      refine ⟨_, by rw [next], ?_⟩
      rw [← List.append_nil ((slice c.data start c.size).splitOn newline)]
      exact .whole short rfl keys .done
    · rw [if_neg rest]
      rcases rfind_cases newline first (show start ≤ start + chunk + 1 by omega)
          (show start + chunk + 1 ≤ c.size by omega) with ⟨missing, clean⟩ | ⟨cut, found, after, before, held, -⟩
      · -- no line break within a chunk: a long line up to the next one
        rw [missing, if_neg (by omega)]
        rcases find_cases c.data newline (show 0 ≤ start + chunk by omega) (show start + chunk ≤ c.size by omega) with
          ⟨none_, clean'⟩ | ⟨stop, found, after, before, held, clean'⟩
        · have unit := line_isUnit first opened clean (fun p from_ _ => clean' p from_) (by omega) le_rfl (.inl rfl)
          obtain ⟨returned, writable⟩ := reads start c.size unit
          obtain ⟨read, same, nonempty, keys⟩ :=
            longUnitBatches_returned unit positive returned writable number "" false
          have line := List.splitOn_eq_singleton unit.plain_line
          simp only [none_, if_pos (show (-1 : ℤ) < 0 by omega), same, if_true, line]
          refine ⟨read, rfl, ?_⟩
          rw [← List.append_nil read]
          exact .long unit.length nonempty keys .done
        · have further : start + chunk < stop := by
            rcases after.eq_or_lt with same | later
            · exact absurd held (clean stop (by omega) (by omega))
            · exact later
          have unit := line_isUnit first opened clean clean' further before.le (.inr held)
          obtain ⟨returned, writable⟩ := reads start stop unit
          obtain ⟨read, same, nonempty, keys⟩ :=
            longUnitBatches_returned unit positive returned writable number "" false
          have lines : (slice c.data start c.size).splitOn newline =
              slice c.data start stop :: (slice c.data (stop + 1) c.size).splitOn newline := by
            rw [slice_break first (by omega) before held, List.splitOn_append_cons_self_of_not_mem unit.plain_line]
          obtain ⟨later, rest', numbers⟩ := ih (number + 1) (show 0 ≤ stop + 1 by omega) before
            (.inr ⟨newline, by rw [← held]; congr 1; omega, rfl⟩) (by omega)
          simp only [found, if_neg (show ¬stop < 0 by omega), same, if_neg (show stop ≠ c.size from before.ne), rest',
            lines]
          refine ⟨read ++ later, by rw [List.length_cons, Nat.add_assoc, Nat.add_comm 1], ?_⟩
          exact .long unit.length nonempty keys numbers
      · -- whole lines up to the last break within a chunk
        have inside : cut < c.size := by omega
        obtain ⟨short, keys, next⟩ := piece_lines hexdigest first after inside.le (by omega) number
        obtain ⟨later, rest', numbers⟩ := ih
          (number + ((slice c.data start cut).splitOn newline).length) (show 0 ≤ cut + 1 by omega) inside
          (.inr ⟨newline, by rw [← held]; congr 1; omega, rfl⟩) (by omega)
        have lines : (slice c.data start c.size).splitOn newline =
            (slice c.data start cut).splitOn newline ++ (slice c.data (cut + 1) c.size).splitOn newline := by
          rw [slice_break first after inside held, List.splitOn_append_cons_self]
        simp only [found, if_pos (show 0 ≤ cut by omega), if_neg (show cut ≠ c.size from inside.ne), next, rest', lines]
        refine ⟨_, by rw [List.length_append, Nat.add_assoc], ?_⟩
        exact .whole short rfl keys numbers

end

/-- What a unit longer than a chunk must be for its segments to read it: the overlap reaches back to no
place before the start of the bytes, no character is a surrogate UTF-8 cannot write, and an overlap of
one or two positions meets no torn step. -/
structure Legible (c : Content) (start stop : ℤ) (overlap : ℕ) : Prop where
  near : c.kind = .bytes → overlap ≤ stop + c.size
  writable : c.kind = .str → ∀ p, start ≤ p → p < stop → ∀ x, item? c.data p = some x → ¬Unwritable x
  joined : 3 ≤ overlap ∨ ¬SomeTorn c start stop overlap

section
variable (hexdigest : List ℕ → List ℕ)

/-- A content read in full: its lines numbered from `first`, each under its own key, and the segments
of every long unit whole. -/
structure Reads (c : Content) (first overlap : ℕ) : Prop where
  numbered : ∃ batches, lineBatches hexdigest c first overlap =
      (batches, .returned (first + (c.data.splitOn newline).length)) ∧
    Numbers hexdigest c.kind first (c.data.splitOn newline) batches ∧
    ∀ n line, (c.data.splitOn newline)[n]? = some line → unitKey (first + n) batches = lineKey hexdigest c.kind line
  ended : ∀ kind start stop, IsUnit kind c start stop → ∀ number label runs,
    (longUnitBatches hexdigest c start stop number label runs overlap).2 = .returned ()
  whole : ∀ kind start stop, IsUnit kind c start stop →
    ReadsWhole c start stop overlap (segments c start stop overlap).1

variable {hexdigest} {c : Content} {start stop : ℤ} {overlap : ℕ}

variable (hexdigest) in
theorem longKey_ne_none {kind : UnitKind} (unit : IsUnit kind c start stop) : longKey hexdigest c start stop ≠ none ↔
    (c.kind = .str → ∀ p, start ≤ p → p < stop → ∀ x, item? c.data p = some x → ¬Unwritable x) := by
  have size := chunk_eq
  have long := unit.long
  have order : start ≤ stop := by omega
  rw [longKey]
  cases c.kind with
  | bytes => simp
  | str =>
    rw [digested_eq unit.first order unit.last (by omega), ne_eq, Option.map_eq_none_iff, encode_none]
    simp only [mem_slice unit.first order unit.last, true_imp_iff]
    constructor
    · intro clean p after before x held bad
      exact clean ⟨x, ⟨p, after, before, held⟩, bad⟩
    · rintro clean ⟨x, ⟨p, after, before, held⟩, bad⟩
      exact clean p after before x held bad

variable (hexdigest) in
theorem longUnitBatches_ended {kind : UnitKind} (unit : IsUnit kind c start stop) (positive : 1 ≤ overlap)
    (number : ℕ) (label : String) (runs : Bool) :
    (longUnitBatches hexdigest c start stop number label runs overlap).2 = .returned () ↔
      (c.kind = .bytes → overlap ≤ stop + c.size) ∧
        (c.kind = .str → ∀ p, start ≤ p → p < stop → ∀ x, item? c.data p = some x → ¬Unwritable x) := by
  rw [← longKey_ne_none hexdigest unit, ← segments_returned_iff unit positive, longUnitBatches]
  cases longKey hexdigest c start stop with
  | none => simp
  | some key => simp

/-- Reading in segments misses nothing exactly when every long unit is legible. -/
theorem reads_iff_legible (c : Content) (first : ℕ) {overlap : ℕ} (positive : 1 ≤ overlap) :
    Reads hexdigest c first overlap ↔ ∀ kind start stop, IsUnit kind c start stop → Legible c start stop overlap := by
  constructor
  · intro reads kind start stop unit
    obtain ⟨near, writable⟩ := (longUnitBatches_ended hexdigest unit positive 0 "" false).mp
      (reads.ended kind start stop unit 0 "" false)
    exact ⟨near, writable, (readsWhole_iff unit positive).mp (reads.whole kind start stop unit)⟩
  · intro legible
    refine ⟨?_, fun kind start stop unit number label runs => ?_, fun kind start stop unit => ?_⟩
    · obtain ⟨batches, same, numbers⟩ := lineBatchesFrom_numbers hexdigest positive (fun start stop unit =>
        ⟨(segments_returned_iff unit positive).mpr (legible _ _ _ unit).near,
          (longKey_ne_none hexdigest unit).mpr (legible _ _ _ unit).writable⟩) (c.data.length + 1) first (le_refl 0)
        (show 0 ≤ c.size from Int.natCast_nonneg _) (.inl rfl)
        (by unfold Content.size; omega)
      have all : slice c.data 0 c.size = c.data := by
        rw [Content.size, slice_inside le_rfl (Int.natCast_nonneg _) le_rfl]
        simp
      rw [all] at same numbers
      exact ⟨batches, same, numbers, fun n line there => numbers.unitKey there⟩
    · have read := legible _ _ _ unit
      exact (longUnitBatches_ended hexdigest unit positive number label runs).mpr ⟨read.near, read.writable⟩
    · exact (readsWhole_iff unit positive).mpr (legible _ _ _ unit).joined

end

theorem letters_inRange : ∀ x ∈ List.replicate (chunk + 1) 0x78, x < Kind.bytes.bound := by
  intro x member
  obtain rfl := List.eq_of_mem_replicate member
  decide

/-- `x`, once more than a chunk holds. -/
def letters : Content where
  kind := .bytes
  data := List.replicate (chunk + 1) 0x78
  inRange := letters_inRange

theorem letters_size : letters.size = chunk + 1 := by
  simp [Content.size, letters]

theorem letters_unit : IsUnit .line letters 0 letters.size where
  first := le_rfl
  long := by rw [letters_size]; omega
  last := le_rfl
  opened := .inl rfl
  closed := .inl rfl
  plain p _ _ x held ends := by
    obtain rfl : x = 0x78 := List.eq_of_mem_replicate (item?_mem held)
    exact absurd (show 0x78 = 0x0A from ends) (by decide)

/-- With the overlap of short terms it is read. -/
theorem reads_letters : IsUnit .line letters 0 letters.size ∧ Reads (fun bytes => bytes) letters 1 4096 := by
  refine ⟨letters_unit, (reads_iff_legible letters 1 (by decide)).mpr fun kind start stop unit => ?_⟩
  refine ⟨fun _ => ?_, fun text => absurd text (by decide), .inl (by decide)⟩
  have first := unit.first
  have long := unit.long
  have size := letters_size
  rw [chunk_eq] at long size
  omega

/-- With the overlap of a term of 65536 characters the scan breaks off: the edge after the last segment lies
before the start of the bytes. -/
theorem letters_unread : ¬Reads (fun bytes => bytes) letters 1 (12 * 65536) := by
  intro reads
  have ended := reads.ended .line 0 letters.size letters_unit 1 "" false
  have near := ((longUnitBatches_ended _ letters_unit (by decide) 1 "" false).mp ended).1 rfl
  rw [letters_size, chunk_eq] at near
  omega

end IemMixer.Denylist
