import Mathlib.Tactic.Common

/-! A parser's message without what it quotes: serde quotes the offending value and toml backticks
a key, and either may be a name. -/
namespace IemMixer.Server

/-- A double quote or a backtick. -/
def isQuote (c : Char) : Bool := c.toNat == 0x22 || c.toNat == 0x60

def isBackslash (c : Char) : Bool := c.toNat == 0x5C

/-- The ellipsis that stands for a span. -/
def ellipsis : Char := Char.ofNat 0x2026

structure Scan where
  out : List Char := []
  opened : Option Char := none
  escaped : Bool := false

def Scan.step (s : Scan) (c : Char) : Scan := match s.opened with
  | none =>
    if isQuote c then { s with out := s.out ++ [c, ellipsis, c], opened := some c }
    else { s with out := s.out ++ [c] }
  | some q =>
    if s.escaped then { s with escaped := false }
    else if isBackslash c then { s with escaped := true }
    else if c == q then { s with opened := none }
    else s

/-- `message` with every quoted span cut to its quote marks around an ellipsis. -/
def redact (message : String) : String := String.ofList (message.toList.foldl Scan.step {}).out

namespace Redact

/-- What a span of the mark `q` holds: a backslash escapes the next character. -/
inductive Held (q : Char) : List Char → Prop where
  | nil : Held q []
  | char {c cs} (other : c ≠ q) (plain : isBackslash c = false) (rest : Held q cs) : Held q (c :: cs)
  | escape {b c cs} (backslash : isBackslash b = true) (rest : Held q cs) : Held q (b :: c :: cs)

inductive Piece where
  | text (c : Char)
  | span (q : Char) (held : List Char)

/-- A message in pieces: characters outside its spans, and the spans. -/
inductive Reads : List Char → List Piece → Prop where
  | nil : Reads [] []
  | text {c cs ps} (plain : isQuote c = false) (rest : Reads cs ps) : Reads (c :: cs) (.text c :: ps)
  | span {q held cs ps} (mark : isQuote q = true) (body : Held q held) (rest : Reads cs ps) :
      Reads (q :: (held ++ q :: cs)) (.span q held :: ps)
  | unclosed {q held} (mark : isQuote q = true) (body : Held q held) : Reads (q :: held) [.span q held]
  /-- The message ends on an escape. -/
  | dangling {q held b} (mark : isQuote q = true) (body : Held q held) (backslash : isBackslash b = true) :
      Reads (q :: (held ++ [b])) [.span q (held ++ [b])]

/-- A piece without what it holds. -/
def Piece.cut : Piece → Piece
  | .text c => .text c
  | .span q _ => .span q []

def Piece.shown : Piece → List Char
  | .text c => [c]
  | .span q _ => [q, ellipsis, q]

@[simp] theorem Piece.shown_cut (p : Piece) : p.cut.shown = p.shown := by
  cases p <;> rfl

section
variable {q c : Char} (out : List Char)

theorem quote_apart (mark : isQuote q = true) : isBackslash q = false := by
  simp only [isQuote, isBackslash, Bool.or_eq_true, beq_iff_eq, beq_eq_false_iff_ne] at mark ⊢
  omega

theorem step_text (plain : isQuote c = false) : Scan.step ⟨out, none, false⟩ c = ⟨out ++ [c], none, false⟩ := by
  simp [Scan.step, plain]

theorem step_open (mark : isQuote q = true) :
    Scan.step ⟨out, none, false⟩ q = ⟨out ++ [q, ellipsis, q], some q, false⟩ := by
  simp [Scan.step, mark]

theorem step_close (mark : isQuote q = true) : Scan.step ⟨out, some q, false⟩ q = ⟨out, none, false⟩ := by
  simp [Scan.step, quote_apart mark]

theorem step_escape (backslash : isBackslash c = true) :
    Scan.step ⟨out, some q, false⟩ c = ⟨out, some q, true⟩ := by
  simp [Scan.step, backslash]

theorem step_char (other : c ≠ q) (plain : isBackslash c = false) :
    Scan.step ⟨out, some q, false⟩ c = ⟨out, some q, false⟩ := by
  simp [Scan.step, plain, other]

/-- Characters that are neither the mark nor a backslash stay in their span. -/
theorem held_plain {held : List Char} (plain : held.all (fun c => c != q && !isBackslash c) = true) :
    Held q held := by
  induction held with
  | nil => exact .nil
  | cons c held ih =>
    simp only [List.all_cons, Bool.and_eq_true, bne_iff_ne, Bool.not_eq_true'] at plain
    obtain ⟨⟨other, own⟩, rest⟩ := plain
    exact .char other own (ih (by simpa using rest))

/-- Within a span the scanner writes nothing. -/
theorem scan_held {held : List Char} (body : Held q held) (rest : List Char) :
    (held ++ rest).foldl Scan.step ⟨out, some q, false⟩ = rest.foldl Scan.step ⟨out, some q, false⟩ := by
  induction body with
  | nil => rfl
  | char other plain body ih =>
    rw [List.cons_append, List.foldl_cons, step_char out other plain, ih]
  | escape backslash body ih =>
    rw [List.cons_append, List.cons_append, List.foldl_cons, List.foldl_cons, step_escape out backslash]
    exact ih

end

/-- The scanner shows each piece cut. -/
theorem scan_reads {cs : List Char} {ps : List Piece} (reads : Reads cs ps) (out : List Char) :
    (cs.foldl Scan.step ⟨out, none, false⟩).out = out ++ ps.flatMap Piece.shown := by
  induction reads generalizing out with
  | nil => simp
  | text plain rest ih =>
    rw [List.foldl_cons, step_text out plain, ih]
    simp [Piece.shown]
  | span mark body rest ih =>
    rw [List.foldl_cons, step_open out mark, scan_held _ body, List.foldl_cons, step_close _ mark, ih]
    simp [Piece.shown]
  | @unclosed q held mark body =>
    have done := scan_held (out ++ [q, ellipsis, q]) body []
    rw [List.append_nil] at done
    rw [List.foldl_cons, step_open out mark, done]
    simp [Piece.shown]
  | dangling mark body backslash =>
    rw [List.foldl_cons, step_open out mark, scan_held _ body, List.foldl_cons, step_escape _ backslash]
    simp [Piece.shown]

/-- After a mark comes a closed span, an unclosed one, or one that ends on an escape. -/
theorem held_split (q : Char) : ∀ cs : List Char, (∃ held rest, Held q held ∧ cs = held ++ q :: rest) ∨ Held q cs ∨
    ∃ held b, Held q held ∧ isBackslash b = true ∧ cs = held ++ [b]
  | [] => .inr (.inl .nil)
  | c :: cs => by
    by_cases backslash : isBackslash c = true
    · cases cs with
      | nil => exact .inr (.inr ⟨[], c, .nil, backslash, rfl⟩)
      | cons d cs =>
        rcases held_split q cs with ⟨held, rest, body, rfl⟩ | body | ⟨held, b, body, last, rfl⟩
        · exact .inl ⟨c :: d :: held, rest, .escape backslash body, rfl⟩
        · exact .inr (.inl (.escape backslash body))
        · exact .inr (.inr ⟨c :: d :: held, b, .escape backslash body, last, rfl⟩)
    · have plain : isBackslash c = false := by simpa using backslash
      by_cases same : c = q
      · exact .inl ⟨[], cs, .nil, by rw [same]; rfl⟩
      · rcases held_split q cs with ⟨held, rest, body, rfl⟩ | body | ⟨held, b, body, last, rfl⟩
        · exact .inl ⟨c :: held, rest, .char same plain body, rfl⟩
        · exact .inr (.inl (.char same plain body))
        · exact .inr (.inr ⟨c :: held, b, .char same plain body, last, rfl⟩)

/-- Every message reads. -/
theorem reads_exists (cs : List Char) : ∃ ps, Reads cs ps := by
  induction size : cs.length using Nat.strongRecOn generalizing cs with
  | ind n ih =>
    subst size
    cases cs with
    | nil => exact ⟨[], .nil⟩
    | cons c cs =>
      cases mark : isQuote c with
      | false =>
        obtain ⟨ps, rest⟩ := ih cs.length (by simp) cs rfl
        exact ⟨_, .text mark rest⟩
      | true =>
        rcases held_split c cs with ⟨held, after, body, rfl⟩ | body | ⟨held, b, body, backslash, rfl⟩
        · obtain ⟨ps, rest⟩ := ih after.length (by simp; omega) after rfl
          exact ⟨_, .span mark body rest⟩
        · exact ⟨_, .unclosed mark body⟩
        · exact ⟨_, .dangling mark body backslash⟩

/-- What a redacted message shows: its pieces, cut. -/
theorem redact_eq {message : String} {ps : List Piece} (reads : Reads message.toList ps) :
    redact message = String.ofList ((ps.map Piece.cut).flatMap Piece.shown) := by
  have shown := scan_reads reads []
  rw [List.nil_append] at shown
  unfold redact
  rw [show ({} : Scan) = ⟨[], none, false⟩ from rfl, shown, List.flatMap_map]
  simp only [Piece.shown_cut]

end Redact

end IemMixer.Server
