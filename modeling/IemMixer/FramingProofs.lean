import IemMixer.Lib.Cutting
import IemMixer.Server.Wire

/-! Both ends read the same frames off the same bytes, however these are cut into reads.
Each reader is compared with a format, which decides on the bytes there so far; what
the engine's loop holds after any reads is the cut of their bytes. -/
namespace IemMixer.FramingProofs
open Lib Lib.Bytes Proto Pipe

variable {ε α : Type}

/-- The two errors of an end too early: between frames, and inside one. -/
structure Ends (ε : Type) where
  closed : ε
  io : IoError → ε

/-- `e` is how a source that holds `b` and no whole frame fails. -/
def Ends.Incomplete (ends : Ends ε) (b : List UInt8) (e : ε) : Prop :=
  if b = [] then e = ends.closed else ∃ i, e = ends.io i ∧ i.kind = .unexpectedEof

/-- What a reader gave on `src` is what the format decided on its bytes. -/
def Agrees (ends : Ends ε) (src : Bytes.Source) (ran : EStateM.Result ε Bytes.Source α) :
    Parsed UInt8 α ε → Prop
  | .done item left => ∃ rest, ran = .ok item rest ∧ rest.Plain ∧ rest.bytes = left
  | .refused e => ∃ rest, ran = .error e rest
  | .short => ∃ e rest, ran = .error e rest ∧ ends.Incomplete src.bytes e

/-- `run` decides as the format does, whatever the pieces its source comes in. -/
def Realises (ends : Ends ε) (run : ReadM ε α) (f : Format UInt8 α ε) : Prop :=
  ∀ src : Bytes.Source, src.Plain → Agrees ends src (run src) (f.parse src.bytes)

/-- A reader of a header and of the body it announces. -/
theorem realises_headed (ends : Ends ε) {size : ℕ} (some : 0 < size) {look : List UInt8 → Except ε ℕ}
    {make : List UInt8 → List UInt8 → Except ε α} {retry again : IoError → Bool}
    {atEnd : Bool → ε} (clean : atEnd true = ends.closed)
    (inside : ∃ i, atEnd false = ends.io i ∧ i.kind = .unexpectedEof)
    {cutOff : IoError} (kind : cutOff.kind = .unexpectedEof) :
    Realises ends (readHeaded retry again atEnd (ends.io cutOff) ends.io size look make)
      (.headed size some look make) := by
  intro src plain
  unfold readHeaded
  show Agrees ends src _ (Format.headedParse size look make src.bytes)
  unfold Format.headedParse
  by_cases short : src.bytes.length < size
  · obtain ⟨rest, ran⟩ := gather_short retry atEnd ends.io [] plain (by simpa using short)
    rw [ran, if_pos short]
    refine ⟨_, rest, rfl, ?_⟩
    unfold Ends.Incomplete
    split
    · rename_i none
      simpa [none] using clean
    · rename_i bytes
      have some : src.bytes.isEmpty = false := by simpa using bytes
      simpa [some] using inside
  obtain ⟨rest, ran, later, left⟩ := gather_enough retry atEnd ends.io [] plain (Nat.zero_le size) (by simpa using short)
  simp only [List.nil_append, List.length_nil, Nat.sub_zero] at ran left
  rw [ran, if_neg short]
  cases said : look (src.bytes.take size) with
  | error e => simpa only [said] using ⟨rest, rfl⟩
  | ok n =>
    simp only [said]
    have body : rest.bytes.length = src.bytes.length - size := by rw [left, List.length_drop]
    by_cases part : src.bytes.length < size + n
    · obtain ⟨after, ended⟩ := gather_short again (fun _ => ends.io cutOff) ends.io [] (n := n) later (by simp only [List.length_nil]; omega)
      rw [ended, if_pos part]
      refine ⟨_, after, rfl, ?_⟩
      have bytes : src.bytes ≠ [] := fun none => by simp [none, some] at short
      rw [Ends.Incomplete, if_neg bytes]
      exact ⟨cutOff, rfl, kind⟩
    · obtain ⟨after, filled, last, rest'⟩ := gather_enough again (fun _ => ends.io cutOff) ends.io []
        (n := n) later (Nat.zero_le n) (by simp only [List.length_nil]; omega)
      simp only [List.nil_append, List.length_nil, Nat.sub_zero, left, List.drop_drop] at filled rest'
      rw [filled, if_neg part]
      cases made : make (src.bytes.take size) ((src.bytes.drop size).take n) with
      | error e => simpa only [made] using ⟨after, rfl⟩
      | ok item => simpa only [made] using ⟨after, rfl, last, rest'⟩

def engineEnds : Ends FrameError := ⟨.closed, .io⟩

def serverEnds : Ends Server.WireError := ⟨.closed, .io⟩

/-- Control frames, as the engine decides on them. -/
def engineControl : Format UInt8 (List UInt8) FrameError :=
  .headed 4 (by decide) announced fun _ body => .ok body

def serverControl : Format UInt8 (List UInt8) Server.WireError :=
  .headed 4 (by decide) Server.announced fun _ body => .ok body

/-- Media frames, as the engine decides on them: at the header. -/
def engineMedia : Format UInt8 (MediaHeader × List UInt32) FrameError :=
  .headed mediaHeader (by decide) announcedSamples fun head body => (headerOf head).map (·, samplesOf body)

/-- Media frames, as the server decides on them: a header's magic and version after the
body it announces. -/
def serverMedia : Format UInt8 (MediaHeader × List UInt32) Server.WireError :=
  .headed mediaHeader (by decide) Server.announcedSamples Server.mediaOf

theorem controlFrame_realises : Realises engineEnds controlFrame.run engineControl := by
  show Realises engineEnds readFrame engineControl
  rw [readFrame_headed]
  exact realises_headed engineEnds (by decide) rfl ⟨_, rfl, rfl⟩ rfl

theorem mediaFrame_realises : Realises engineEnds mediaFrame.run engineMedia := by
  show Realises engineEnds readMedia engineMedia
  rw [readMedia_headed]
  exact realises_headed engineEnds (by decide) rfl ⟨_, rfl, rfl⟩ rfl

theorem server_controlFrame_realises : Realises serverEnds Server.controlFrame.run serverControl := by
  show Realises serverEnds Server.readFrame serverControl
  rw [Server.readFrame_headed]
  exact realises_headed serverEnds (by decide) rfl ⟨_, rfl, rfl⟩ rfl

theorem server_mediaFrame_realises : Realises serverEnds Server.mediaFrame.run serverMedia := by
  show Realises serverEnds Server.readMediaFrame serverMedia
  rw [Server.readMediaFrame_headed]
  exact realises_headed serverEnds (by decide) rfl ⟨_, rfl, rfl⟩ rfl

section
variable {p : Parser FrameError α} {f : Format UInt8 α FrameError}

/-- No refusal is one of the errors of an incomplete frame. -/
def Firm (f : Format UInt8 α FrameError) : Prop :=
  ∀ {b e}, f.parse b = .refused e → e ≠ .closed ∧ ∀ i, e = .io i → i.kind ≠ .unexpectedEof

theorem next_short (real : Realises engineEnds p.run f) {framer : Framer}
    (decided : f.parse framer.buf = .short) : framer.next p.run = (.ok none, framer) := by
  have agrees := real _ (Bytes.Source.plain_slice framer.buf)
  rw [Bytes.Source.bytes_slice, decided] at agrees
  obtain ⟨e, rest, ran, incomplete⟩ := agrees
  rw [Framer.next, ran]
  unfold Ends.Incomplete at incomplete
  split at incomplete
  · subst incomplete
    rfl
  · obtain ⟨i, rfl, kind⟩ := incomplete
    simp [engineEnds, kind]

theorem next_refused (real : Realises engineEnds p.run f) (firm : Firm f) {framer : Framer}
    {e : FrameError} (decided : f.parse framer.buf = .refused e) :
    framer.next p.run = (.error e, framer) := by
  have agrees := real _ (Bytes.Source.plain_slice framer.buf)
  rw [Bytes.Source.bytes_slice, decided] at agrees
  obtain ⟨rest, ran⟩ := agrees
  obtain ⟨between, whole⟩ := firm decided
  rw [Framer.next, ran]
  cases e with
  | closed => exact absurd rfl between
  | io i => simp [whole i rfl]
  | tooLarge n => rfl

theorem next_done (real : Realises engineEnds p.run f) {framer : Framer} {item : α} {left : List UInt8}
    (decided : f.parse framer.buf = .done item left) :
    framer.next p.run = (.ok (some item), ⟨left⟩) := by
  have agrees := real _ (Bytes.Source.plain_slice framer.buf)
  rw [Bytes.Source.bytes_slice, decided] at agrees
  obtain ⟨rest, ran, -, bytes⟩ := agrees
  obtain ⟨used, -, whole⟩ := f.consumes decided
  rw [Framer.next, ran]
  simp [bytes, whole]

/-- The loop's state is the cut of the bytes it took in. -/
def Holds (r : Reading α) (c : Cut UInt8 α FrameError) : Prop :=
  r.delivered = c.items ∧ match c.left with
    | .ok rest => r.ended = none ∧ r.framer.buf = rest
    | .error e => r.ended = some e

/-- A connection whose every frame is taken. -/
def taken : List α → α → Bool := fun _ _ => true

theorem drain_holds (real : Realises engineEnds p.run f) (firm : Firm f) {r : Reading α}
    (going : r.ended = none) : Holds (r.drain p taken)
      ⟨r.delivered ++ (f.cut r.framer.buf).items, (f.cut r.framer.buf).left⟩ := by
  induction size : r.framer.buf.length using Nat.strongRecOn generalizing r with
  | ind n ih =>
    rw [Reading.drain]
    cases decided : f.parse r.framer.buf with
    | short =>
      have same := next_short real decided
      split <;> simp_all [Format.cut_short decided, Holds]
    | refused e =>
      have same := next_refused real firm decided
      split <;> simp_all [Format.cut_refused decided, Holds]
    | done item left =>
      have same := next_done real decided
      have smaller := f.shrinks decided
      split
      · rename_i other framer took
        obtain ⟨rfl, rfl⟩ : other = item ∧ framer = ⟨left⟩ := by simpa [same] using took.symm
        rw [Format.cut_done decided]
        have rest := ih left.length (by omega)
          (r := { r with framer := ⟨left⟩, delivered := r.delivered ++ [other] }) going rfl
        simpa [taken] using rest
      · simp_all
      · simp_all

theorem turn_holds (real : Realises engineEnds p.run f) (firm : Firm f) {r : Reading α}
    {b chunk : List UInt8} (holds : Holds r (f.cut b)) (bytes : chunk ≠ []) :
    Holds (r.turn p taken (.read (.ok chunk))) (f.cut (b ++ chunk)) := by
  obtain ⟨delivered, state⟩ := holds
  rw [Format.cut_append]
  unfold Format.goOn
  cases left : (f.cut b).left with
  | error e =>
    simp only [left] at state ⊢
    exact ⟨by simp [Reading.turn, state, delivered], by simp [left, Reading.turn, state]⟩
  | ok rest =>
    simp only [left] at state ⊢
    obtain ⟨going, buf⟩ := state
    have filled : r.framer.fill (.ok chunk) = (.ok true, ⟨rest ++ chunk⟩) := by
      cases chunk with
      | nil => exact absurd rfl bytes
      | cons b more => simp [Framer.fill, buf]
    have drained := drain_holds real firm (r := { r with framer := ⟨rest ++ chunk⟩ }) going
    simpa [Reading.turn, going, filled, delivered] using drained

theorem turn_idle (real : Realises engineEnds p.run f) (firm : Firm f) {r : Reading α}
    {b : List UInt8} (holds : Holds r (f.cut b)) {e : IoError} (late : timedOut e = true) :
    Holds (r.turn p taken (.read (.error e))) (f.cut b) := by
  obtain ⟨delivered, state⟩ := holds
  cases left : (f.cut b).left with
  | error e =>
    simp only [left] at state
    exact ⟨by simp [Reading.turn, state, delivered], by simp [left, Reading.turn, state]⟩
  | ok rest =>
    simp only [left] at state
    obtain ⟨going, buf⟩ := state
    have drained := drain_holds real firm (r := r) going
    rw [buf, Format.cut_short (Format.cut_waits left)] at drained
    rw [List.append_nil] at drained
    have same : r.turn p taken (.read (.error e)) = r.drain p taken := by
      obtain ⟨framer, items, ended⟩ := r
      cases going
      simp [Reading.turn, Framer.fill, late]
    rw [same]
    exact ⟨drained.1.trans delivered, by simpa [left] using drained.2⟩

/-- Reads that bring bytes or find none yet. -/
def Flowing (src : Bytes.Source) : Prop :=
  ∀ found ∈ src, (∃ chunk, found = .ok chunk ∧ chunk ≠ []) ∨ ∃ e, found = .error e ∧ timedOut e = true

/-- The engine's loop over these reads. -/
def reading (p : Parser FrameError α) (src : Bytes.Source) : Reading α := readLoop p taken (src.map .read)

/-- However the bytes are cut into reads, the loop holds the cut of all of them. -/
theorem reading_holds (real : Realises engineEnds p.run f) (firm : Firm f) {src : Bytes.Source}
    (flowing : Flowing src) : Holds (reading p src) (f.cut src.bytes) := by
  have start : Holds (Reading.drain p taken {}) (f.cut []) := by
    simpa using drain_holds real firm (r := {}) rfl
  have run : ∀ (src : Bytes.Source) (r : Reading α) (b : List UInt8), Flowing src → Holds r (f.cut b) →
      Holds ((src.map Turn.read).foldl (Reading.turn p taken) r) (f.cut (b ++ src.bytes)) := by
    intro src
    induction src with
    | nil =>
      intro r b _ holds
      simpa using holds
    | cons found rest ih =>
      intro r b flowing holds
      obtain ⟨here, later⟩ := List.forall_mem_cons.mp flowing
      rcases here with ⟨chunk, rfl, bytes⟩ | ⟨e, rfl, late⟩
      · have := ih _ (b ++ chunk) later (turn_holds real firm holds bytes)
        simpa using this
      · exact ih _ b later (turn_idle real firm holds late)
  exact run src _ [] flowing start

/-- The engine's loop over these reads and the end of the stream. -/
def readingToEnd (p : Parser FrameError α) (src : Bytes.Source) : Reading α :=
  (reading p src).turn p taken (.read (.ok []))

/-- The end of the stream: `closed`, unless a frame was refused before. -/
def endOf : Except FrameError (List UInt8) → FrameError
  | .ok _ => .closed
  | .error e => e

theorem readingToEnd_ends (real : Realises engineEnds p.run f) (firm : Firm f) {src : Bytes.Source}
    (flowing : Flowing src) : (readingToEnd p src).delivered = (f.cut src.bytes).items ∧
      (readingToEnd p src).ended = some (endOf (f.cut src.bytes).left) := by
  obtain ⟨delivered, state⟩ := reading_holds real firm flowing
  cases left : (f.cut src.bytes).left <;> simp only [left] at state
  · simp [readingToEnd, Reading.turn, state, delivered, endOf]
  · simp [readingToEnd, Reading.turn, state, delivered, endOf, Framer.fill]

end

theorem readAll_cut {q : Parser Server.WireError α} {f : Format UInt8 α Server.WireError}
    (real : Realises serverEnds q.run f) {src : Bytes.Source} (plain : src.Plain) :
    (Server.readAll q src).1 = (f.cut src.bytes).items ∧
      match (f.cut src.bytes).left with
      | .ok rest => serverEnds.Incomplete rest (Server.readAll q src).2
      | .error e => (Server.readAll q src).2 = e := by
  induction size : src.bytes.length using Nat.strongRecOn generalizing src with
  | ind n ih =>
    have agrees := real src plain
    rw [Server.readAll]
    cases decided : f.parse src.bytes with
    | done item left =>
      rw [decided] at agrees
      obtain ⟨rest, ran, later, rfl⟩ := agrees
      have smaller := f.shrinks decided
      have after := ih rest.bytes.length (by omega) later rfl
      rw [Format.cut_done decided]
      split <;> simp_all
    | short =>
      rw [decided] at agrees
      obtain ⟨e, rest, ran, incomplete⟩ := agrees
      rw [Format.cut_short decided]
      split <;> simp_all
    | refused e =>
      rw [decided] at agrees
      obtain ⟨rest, ran⟩ := agrees
      rw [Format.cut_refused decided]
      split <;> simp_all

/-- What a writer put on the pipe. -/
def written (write : α → Except ε (List UInt8)) (item : α) : List UInt8 :=
  match write item with
  | .ok bytes => bytes
  | .error _ => []

theorem control_firm : Firm engineControl := by
  intro b e refused
  rcases Format.headed_refused refused with large | ⟨n, -, made⟩
  · unfold announced at large
    split at large <;> cases large
    simp
  · cases made

theorem control_writes {body : List UInt8} (small : body.length ≤ maxFrame) :
    Format.Writes engineControl (written writeFrame) body := by
  have size : fromLe (toLe 4 body.length) = body.length := fromLe_toLe (by
    unfold maxFrame at small
    omega)
  refine Format.headed_writes (toLe 4 body.length) body ?_ (by simp) ?_ rfl
  · have fits : body.length < 2 ^ 32 := by
      unfold maxFrame at small
      omega
    simp only [written, writeFrame, if_pos (And.intro fits small)]
  · rw [announced, size, if_neg (by omega)]

theorem headerOf_error {head : List UInt8} {e : FrameError} (refused : headerOf head = .error e) :
    ∃ msg, e = bad msg := by
  unfold headerOf at refused
  split at refused
  · cases refused
    exact ⟨_, rfl⟩
  split at refused
  · cases refused
    exact ⟨_, rfl⟩
  · cases refused

theorem headerOf_bytes (h : MediaHeader) : headerOf h.bytes = .ok h := by
  have seq : (h.bytes.drop 8).take 8 = toLe 8 h.seq.toNat := by simp [MediaHeader.bytes, magic]
  have frames : (h.bytes.drop 16).take 2 = toLe 2 h.frames.toNat := by simp [MediaHeader.bytes, magic]
  unfold headerOf
  rw [seq, frames, fromLe_toLe h.seq.toNat_lt, fromLe_toLe h.frames.toNat_lt]
  simp [MediaHeader.bytes, magic]

theorem samplesOf_written (samples : List UInt32) :
    samplesOf (samples.flatMap fun s => toLe 4 s.toNat) = samples := by
  induction samples with
  | nil => rfl
  | cons s rest ih =>
    have bits : fromLe (toLe 4 s.toNat) = s.toNat := fromLe_toLe s.toNat_lt
    rw [List.flatMap_cons]
    show UInt32.ofNat (fromLe (toLe 4 s.toNat)) :: samplesOf _ = _
    rw [bits, UInt32.ofNat_toNat]
    exact congrArg (s :: ·) ih

/-- A media frame that fits its header and the limit. -/
def Fits (frame : MediaHeader × List UInt32) : Prop :=
  frame.2.length = frame.1.samples ∧ frame.1.samples ≤ maxSamples

theorem media_firm : Firm engineMedia := by
  intro b e refused
  have header : ∀ {e}, headerOf (b.take mediaHeader) = .error e →
      e ≠ .closed ∧ ∀ i, e = .io i → i.kind ≠ .unexpectedEof := by
    intro e refused
    obtain ⟨msg, rfl⟩ := headerOf_error refused
    simp [bad]
  rcases Format.headed_refused refused with said | ⟨n, -, made⟩
  · unfold announcedSamples at said
    cases head : headerOf (b.take mediaHeader) with
    | error other =>
      simp only [head, Except.error.injEq] at said
      exact header (said ▸ head)
    | ok h =>
      simp only [head] at said
      split at said <;> cases said
      simp
  · cases head : headerOf (b.take mediaHeader) with
    | error other =>
      simp only [head, Except.map, Except.error.injEq] at made
      exact header (made ▸ head)
    | ok h => simp [head, Except.map] at made

theorem length_samples (samples : List UInt32) :
    (samples.flatMap fun s => toLe 4 s.toNat).length = 4 * samples.length := by
  simp [List.length_flatMap, Nat.mul_comm]

theorem media_writes {frame : MediaHeader × List UInt32} (fits : Fits frame) :
    Format.Writes engineMedia (written fun frame => writeMedia frame.1 frame.2) frame := by
  obtain ⟨h, samples⟩ := frame
  obtain ⟨count, small⟩ := fits
  simp only at count small
  refine Format.headed_writes h.bytes (samples.flatMap fun s => toLe 4 s.toNat) ?_
    (by simp [MediaHeader.bytes, magic, mediaHeader]) ?_ ?_
  · simp [written, writeMedia, count, Nat.not_lt.mpr small]
  · rw [announcedSamples, headerOf_bytes, length_samples, count]
    exact if_neg (by omega)
  · rw [headerOf_bytes, samplesOf_written]
    rfl

/-- How the two ends stop on the same control bytes. -/
inductive ControlEnds : FrameError → Server.WireError → Prop where
  | closed : ControlEnds .closed .closed
  /-- The stream ended inside a frame. -/
  | inside (e : IoError) (kind : e.kind = .unexpectedEof) : ControlEnds .closed (.io e)
  | tooLarge (n : ℕ) : ControlEnds (.tooLarge n) (.tooLarge n)

/-- How the two ends stop on the same media bytes. -/
inductive MediaEnds : FrameError → Server.WireError → Prop where
  | closed : MediaEnds .closed .closed
  /-- The stream ended inside a frame. -/
  | inside (e : IoError) (kind : e.kind = .unexpectedEof) : MediaEnds .closed (.io e)
  | tooLarge (n : ℕ) : MediaEnds (.tooLarge n) (.tooManySamples n)
  | malformed (msg : String) : MediaEnds (bad msg) (.malformed (bad msg).text)
  /-- A wrong header, which the server refused for the samples it announces. -/
  | alsoLarge (msg : String) (n : ℕ) : MediaEnds (bad msg) (.tooManySamples n)
  /-- A wrong header, and the stream ended inside the body it announces. -/
  | unread (msg : String) (e : IoError) (kind : e.kind = .unexpectedEof) : MediaEnds (bad msg) (.io e)

theorem samples_said {head : List UInt8} {h : MediaHeader} (read : headerOf head = .ok h) :
    Server.samplesSaid head = h.samples := by
  unfold headerOf at read
  split at read
  · cases read
  split at read
  · cases read
  cases read
  have frames : fromLe ((head.drop 16).take 2) < 2 ^ 16 := by
    have bound := fromLe_lt ((head.drop 16).take 2)
    have short : ((head.drop 16).take 2).length ≤ 2 := List.length_take_le ..
    have := Nat.pow_le_pow_right (n := 256) (by decide) short
    omega
  simp only [Server.samplesSaid, MediaHeader.samples, UInt16.toNat_ofNat', Nat.mod_eq_of_lt frames,
    Nat.mul_comm]

/-- The server's frame of a header and the body it announces is the engine's. -/
theorem mediaOf_whole {head body : List UInt8} (whole : head.length = mediaHeader)
    (size : body.length = 4 * Server.samplesSaid head) (small : Server.samplesSaid head ≤ maxSamples) :
    Server.mediaOf head body = match headerOf head with
      | .ok h => .ok (h, samplesOf body)
      | .error e => .error (.malformed e.text) := by
  have agrees := mediaFrame_realises _ (Bytes.Source.plain_slice (head ++ body))
  rw [Bytes.Source.bytes_slice] at agrees
  simp only [mediaFrame, engineMedia, Format.headed, Format.headedParse, announcedSamples] at agrees
  have here : (head ++ body).take mediaHeader = head := by rw [← whole, List.take_left]
  have after : (head ++ body).drop mediaHeader = body := by rw [← whole, List.drop_left]
  rw [if_neg (by simp [whole]), here, after] at agrees
  unfold Server.mediaOf
  cases said : headerOf head with
  | error e =>
    simp only [said] at agrees
    obtain ⟨rest, ran⟩ := agrees
    rw [ran]
  | ok h =>
    have samples := samples_said said
    simp only [said, ← samples, if_neg (Nat.not_lt.mpr small)] at agrees
    rw [if_neg (by simp [whole, size]), ← size, List.take_length] at agrees
    obtain ⟨rest, ran, -⟩ := agrees
    rw [ran]

/-- The two ends on the same control bytes. -/
theorem control_beside (b : List UInt8) :
    (∃ item rest, engineControl.parse b = .done item rest ∧ serverControl.parse b = .done item rest) ∨
      (engineControl.parse b = .short ∧ serverControl.parse b = .short) ∨
      ∃ n, engineControl.parse b = .refused (.tooLarge n) ∧ serverControl.parse b = .refused (.tooLarge n) := by
  simp only [engineControl, serverControl, Format.headed, Format.headedParse, announced, Server.announced]
  by_cases short : b.length < 4
  · simp [short]
  by_cases large : fromLe (b.take 4) > maxFrame
  · simp [short, large]
  by_cases part : b.length < 4 + fromLe (b.take 4)
  · simp [short, large, part]
  · simp [short, large, part]

/-- The two ends on the same media bytes. -/
theorem media_beside (b : List UInt8) :
    (∃ item rest, engineMedia.parse b = .done item rest ∧ serverMedia.parse b = .done item rest) ∨
      (engineMedia.parse b = .short ∧ serverMedia.parse b = .short) ∨
      (∃ n, engineMedia.parse b = .refused (.tooLarge n) ∧
        serverMedia.parse b = .refused (.tooManySamples n)) ∨
      ∃ msg, engineMedia.parse b = .refused (bad msg) ∧
        (serverMedia.parse b = .refused (.malformed (bad msg).text) ∨
          (∃ n, serverMedia.parse b = .refused (.tooManySamples n)) ∨
          serverMedia.parse b = .short ∧ b ≠ []) := by
  simp only [engineMedia, serverMedia, Format.headed, Format.headedParse, announcedSamples,
    Server.announcedSamples]
  by_cases short : b.length < mediaHeader
  · simp [short]
  have whole : (b.take mediaHeader).length = mediaHeader := by
    rw [List.length_take]
    omega
  generalize head : b.take mediaHeader = header at *
  simp only [short, if_false]
  by_cases large : Server.samplesSaid header > maxSamples
  · simp only [if_pos large]
    cases said : headerOf header with
    | error e =>
      obtain ⟨msg, rfl⟩ := headerOf_error said
      exact .inr (.inr (.inr ⟨msg, rfl, .inr (.inl ⟨_, rfl⟩)⟩))
    | ok h =>
      rw [samples_said said] at large ⊢
      exact .inr (.inr (.inl ⟨_, by simp [large], rfl⟩))
  simp only [if_neg large]
  by_cases part : b.length < mediaHeader + 4 * Server.samplesSaid header
  · simp only [if_pos part]
    cases said : headerOf header with
    | error e =>
      obtain ⟨msg, rfl⟩ := headerOf_error said
      refine .inr (.inr (.inr ⟨msg, rfl, .inr (.inr ⟨trivial, ?_⟩)⟩))
      rintro rfl
      simp [mediaHeader] at short
    | ok h =>
      rw [samples_said said] at large part
      exact .inr (.inl ⟨by simp [large, part], trivial⟩)
  · simp only [if_neg part]
    have size : ((b.drop mediaHeader).take (4 * Server.samplesSaid header)).length =
        4 * Server.samplesSaid header := by
      simp only [List.length_take, List.length_drop]
      omega
    rw [mediaOf_whole whole size (by omega)]
    cases said : headerOf header with
    | error e =>
      obtain ⟨msg, rfl⟩ := headerOf_error said
      exact .inr (.inr (.inr ⟨msg, rfl, .inl rfl⟩))
    | ok h =>
      rw [samples_said said] at large part ⊢
      exact .inl ⟨_, _, by simp [large, part, Except.map], rfl⟩

theorem control_alike (b : List UInt8) (item : List UInt8) (rest : List UInt8) :
    engineControl.parse b = .done item rest ↔ serverControl.parse b = .done item rest := by
  rcases control_beside b with ⟨_, _, e, s⟩ | ⟨e, s⟩ | ⟨_, e, s⟩ <;> simp [e, s]

theorem media_alike (b : List UInt8) (item : MediaHeader × List UInt32) (rest : List UInt8) :
    engineMedia.parse b = .done item rest ↔ serverMedia.parse b = .done item rest := by
  rcases media_beside b with ⟨_, _, e, s⟩ | ⟨e, s⟩ | ⟨_, e, s⟩ | ⟨_, e, s | ⟨_, s⟩ | ⟨s, -⟩⟩ <;> simp [e, s]

/-- The two ends read the same frames, from however the same bytes reach them, and `R`
relates how they stop. -/
def SameStream (p : Parser FrameError α) (q : Parser Server.WireError α)
    (R : FrameError → Server.WireError → Prop) : Prop :=
  ∀ src src' : Bytes.Source, Flowing src → src'.Plain → src'.bytes = src.bytes →
    (Server.readAll q src').1 = (readingToEnd p src).delivered ∧
      ∃ e, (readingToEnd p src).ended = some e ∧ R e (Server.readAll q src').2

theorem same_control : SameStream controlFrame Server.controlFrame ControlEnds := by
  intro src src' flowing plain same
  obtain ⟨delivered, ended⟩ := readingToEnd_ends controlFrame_realises control_firm flowing
  obtain ⟨frames, stops⟩ := readAll_cut server_controlFrame_realises plain
  obtain ⟨items, last, none, left, left'⟩ := Format.cut_alike control_alike src.bytes
  rw [same] at frames stops
  refine ⟨by rw [frames, delivered, items], _, ended, ?_⟩
  rw [left'] at stops
  rw [left]
  rcases control_beside last with ⟨_, _, e, s⟩ | ⟨e, s⟩ | ⟨n, e, s⟩
  · exact absurd e (none _ _)
  · simp only [Format.stop, e, s, Ends.Incomplete] at stops ⊢
    split at stops
    · rw [stops]
      exact .closed
    · obtain ⟨i, error, kind⟩ := stops
      rw [error]
      exact .inside i kind
  · simp only [Format.stop, e, s] at stops ⊢
    rw [stops]
    exact .tooLarge n

theorem same_media : SameStream mediaFrame Server.mediaFrame MediaEnds := by
  intro src src' flowing plain same
  obtain ⟨delivered, ended⟩ := readingToEnd_ends mediaFrame_realises media_firm flowing
  obtain ⟨frames, stops⟩ := readAll_cut server_mediaFrame_realises plain
  obtain ⟨items, last, none, left, left'⟩ := Format.cut_alike media_alike src.bytes
  rw [same] at frames stops
  refine ⟨by rw [frames, delivered, items], _, ended, ?_⟩
  rw [left'] at stops
  rw [left]
  rcases media_beside last with ⟨_, _, e, s⟩ | ⟨e, s⟩ | ⟨n, e, s⟩ | ⟨msg, e, s | ⟨n, s⟩ | ⟨s, some⟩⟩
  · exact absurd e (none _ _)
  · simp only [Format.stop, e, s, Ends.Incomplete] at stops ⊢
    split at stops
    · rw [stops]
      exact .closed
    · obtain ⟨i, error, kind⟩ := stops
      rw [error]
      exact .inside i kind
  · simp only [Format.stop, e, s] at stops ⊢
    rw [stops]
    exact .tooLarge n
  · simp only [Format.stop, e, s] at stops ⊢
    rw [stops]
    exact .malformed msg
  · simp only [Format.stop, e, s] at stops ⊢
    rw [stops]
    exact .alsoLarge msg n
  · simp only [Format.stop, e, s, Ends.Incomplete, if_neg some] at stops ⊢
    obtain ⟨i, error, kind⟩ := stops
    rw [error]
    exact .unread msg i kind

/-- Of written frames the loop has delivered, after any of the reads, exactly those whose
last byte has come, in order. -/
def CutsFree (p : Parser FrameError α) (enc : α → List UInt8) (Small : α → Prop) : Prop :=
  ∀ (frames : List α) (early late : Bytes.Source), (∀ frame ∈ frames, Small frame) →
    Flowing (early ++ late) → (early ++ late).bytes = frames.flatMap enc →
      ∃ k ≤ frames.length, (reading p early).delivered = frames.take k ∧ (reading p early).ended = none ∧
        ((frames.take k).flatMap enc).length ≤ early.bytes.length ∧
        (k < frames.length → early.bytes.length < ((frames.take (k + 1)).flatMap enc).length) ∧
        (late.bytes = [] → k = frames.length)

/-- A header for which `Large` holds is refused once it is there, after the frames before it. -/
def RefusesLarge (p : Parser FrameError α) (enc : α → List UInt8) (Small : α → Prop)
    (Large : List UInt8 → ℕ → Prop) : Prop :=
  ∀ (frames : List α) (head more : List UInt8) (n : ℕ) (src : Bytes.Source), (∀ frame ∈ frames, Small frame) →
    Flowing src → src.bytes = frames.flatMap enc ++ (head ++ more) → Large head n →
      (reading p src).delivered = frames ∧ (reading p src).ended = some (.tooLarge n)

theorem bytes_append (early late : Bytes.Source) : (early ++ late : Bytes.Source).bytes = early.bytes ++ late.bytes :=
  List.flatMap_append

theorem cutsFree {p : Parser FrameError α} {f : Format UInt8 α FrameError} {enc : α → List UInt8}
    {Small : α → Prop} (real : Realises engineEnds p.run f) (firm : Firm f)
    (writes : ∀ frame, Small frame → Format.Writes f enc frame) : CutsFree p enc Small := by
  intro frames early late small flowing wire
  rw [bytes_append] at wire
  obtain ⟨k, fits, cuts, there, next⟩ := Format.cut_beginning frames
    (fun frame member => writes frame (small frame member)) ⟨late.bytes, wire⟩
  obtain ⟨delivered, state⟩ := reading_holds real firm fun found member =>
    flowing found (List.mem_append_left late member)
  rw [cuts] at delivered state
  refine ⟨k, fits, delivered, state.1, there, next, fun nothing => ?_⟩
  by_contra short
  have all : (frames.take (k + 1)).flatMap enc <+: frames.flatMap enc :=
    ⟨(frames.drop (k + 1)).flatMap enc, by rw [← List.flatMap_append, List.take_append_drop]⟩
  have bound := all.length_le
  rw [nothing, List.append_nil] at wire
  have := next (by omega)
  rw [wire] at this
  omega

theorem refusesLarge {p : Parser FrameError α} {f : Format UInt8 α FrameError} {enc : α → List UInt8}
    {Small : α → Prop} {Large : List UInt8 → ℕ → Prop} (real : Realises engineEnds p.run f) (firm : Firm f)
    (writes : ∀ frame, Small frame → Format.Writes f enc frame)
    (large : ∀ head n, Large head n → f.parse head = .refused (.tooLarge n)) :
    RefusesLarge p enc Small Large := by
  intro frames head more n src small flowing wire announced
  have refused := f.refused_append more (large head n announced)
  obtain ⟨delivered, state⟩ := reading_holds real firm flowing
  rw [wire, Format.cut_wire frames fun frame member => writes frame (small frame member),
    Format.cut_refused refused] at delivered state
  exact ⟨by simpa using delivered, state⟩

/-- A header of a control frame that announces `n` bytes, above the limit. -/
def LargeFrame (head : List UInt8) (n : ℕ) : Prop := head.length = 4 ∧ fromLe head = n ∧ maxFrame < n

/-- A header of a media frame that announces `n` samples, above the limit. -/
def LargeMedia (head : List UInt8) (n : ℕ) : Prop :=
  head.length = mediaHeader ∧ ∃ h, headerOf head = .ok h ∧ h.samples = n ∧ maxSamples < n

/-- The frames of both pipes do not depend on how their bytes are cut into reads, the two
ends read the same ones, and they stop on the same bytes, as `ControlEnds` and `MediaEnds`
say. -/
theorem framing_chunk_independent :
    CutsFree controlFrame (written writeFrame) (fun body => body.length ≤ maxFrame) ∧
    RefusesLarge controlFrame (written writeFrame) (fun body => body.length ≤ maxFrame) LargeFrame ∧
    CutsFree mediaFrame (written fun frame => writeMedia frame.1 frame.2) Fits ∧
    RefusesLarge mediaFrame (written fun frame => writeMedia frame.1 frame.2) Fits LargeMedia ∧
    SameStream controlFrame Server.controlFrame ControlEnds ∧
    SameStream mediaFrame Server.mediaFrame MediaEnds := by
  refine ⟨cutsFree controlFrame_realises control_firm fun _ small => control_writes small,
    refusesLarge controlFrame_realises control_firm (fun _ small => control_writes small) ?_,
    cutsFree mediaFrame_realises media_firm fun _ fits => media_writes fits,
    refusesLarge mediaFrame_realises media_firm (fun _ fits => media_writes fits) ?_,
    same_control, same_media⟩
  · rintro head n ⟨size, rfl, large⟩
    have all : head.take 4 = head := by rw [← size, List.take_length]
    simp [engineControl, Format.headed, Format.headedParse, announced, size, all, large]
  · rintro head n ⟨size, h, said, rfl, large⟩
    have all : head.take mediaHeader = head := by rw [← size, List.take_length]
    simp [engineMedia, Format.headed, Format.headedParse, announcedSamples, size, all, said, large]

/-- Two frames, cut inside the first header and inside the first body. -/
def cutReads : Bytes.Source := [.ok [2, 0, 0], .error ⟨.timedOut, "timed out"⟩, .ok [0, 1], .ok [2, 1, 0, 0, 0, 3]]

theorem framing_chunk_independent_cut :
    (reading controlFrame cutReads).delivered = [[1, 2], [3]] := by
  obtain ⟨k, -, delivered, -, -, -, all⟩ := framing_chunk_independent.1 [[1, 2], [3]] cutReads []
    (by simp [maxFrame]) (by simp [Flowing, cutReads, timedOut]) (by decide)
  rw [delivered, all rfl]
  rfl

/-- A media header that is none, of one sample. -/
def wrongHeader : List UInt8 := [0, 0, 0, 0, 1, 0, 1, 0, 0, 0, 0, 0, 0, 0, 0, 0, 1, 0, 0, 0]

/-- The ends do not refuse the same streams: one that ends inside a frame is a clean end to
the engine and an error to the server; and where such an end is no refusal, one with a wrong
media header is refused by the engine alone until the body came. -/
theorem ends_refuse_apart :
    ¬ SameStream controlFrame Server.controlFrame (fun e e' => e = .closed ↔ e' = .closed) ∧
    ¬ SameStream mediaFrame Server.mediaFrame (fun e e' => e = .closed ↔
      e' = .closed ∨ ∃ i, e' = .io i ∧ i.kind = .unexpectedEof) := by
  constructor
  · intro same
    have flowing : Flowing [.ok [5, 0]] := by simp [Flowing]
    have plain : Bytes.Source.Plain [.ok [5, 0]] := by simp [Bytes.Source.Plain]
    obtain ⟨-, e, ended, iff⟩ := same _ _ flowing plain rfl
    have ends := (readingToEnd_ends controlFrame_realises control_firm flowing).2
    have stops := (readAll_cut server_controlFrame_realises plain).2
    rw [Format.cut_short (by decide), ended] at ends
    rw [Format.cut_short (by decide)] at stops
    obtain ⟨i, error, -⟩ : ∃ i, (Server.readAll Server.controlFrame [.ok [5, 0]]).2 = .io i ∧
      i.kind = .unexpectedEof := by simpa [Ends.Incomplete, serverEnds] using stops
    rw [error] at iff
    cases iff.mp (by simpa [endOf] using ends)
  · intro same
    have flowing : Flowing [.ok wrongHeader] := by simp [Flowing, wrongHeader]
    have plain : Bytes.Source.Plain [.ok wrongHeader] := by simp [Bytes.Source.Plain, wrongHeader]
    obtain ⟨-, e, ended, iff⟩ := same _ _ flowing plain rfl
    have ends := (readingToEnd_ends mediaFrame_realises media_firm flowing).2
    have stops := (readAll_cut server_mediaFrame_realises plain).2
    rw [Format.cut_refused (e := bad "not a media frame") (by decide), ended] at ends
    rw [Format.cut_short (by decide)] at stops
    have cut : ∃ i, (Server.readAll Server.mediaFrame [.ok wrongHeader]).2 = .io i ∧
      i.kind = .unexpectedEof := by simpa [Ends.Incomplete, serverEnds, wrongHeader] using stops
    cases (Option.some_inj.mp ends).symm.trans (iff.mpr (.inr cut))

end IemMixer.FramingProofs
