import IemMixer.Denylist.Content
import Mathlib.Logic.Relation
import Mathlib.Order.MinMax
import Mathlib.Order.Nat

/-! The segments of a long unit. Steps and segments both end at edges that move, to a cut character
or past continuation bytes: what one edge may be is said once, and each fact about the segments is an
induction over the walk the loop makes. -/
namespace IemMixer.Denylist
open Lib.Sequence

variable {c : Content} {start stop low place edge : ℤ} {overlap : ℕ}

theorem chunk_eq : chunk = 262144 := rfl

theorem chunk_le_step (overlap : ℕ) : chunk ≤ step overlap := le_max_left _ _

theorem overlaps_le_step (overlap : ℕ) : 6 * overlap ≤ step overlap := le_max_right _ _

/-- A line of text, or a byte run of binary content. -/
inductive UnitKind where
  | line
  | run

/-- What ends a unit: a line break, or a control byte other than a tab. -/
def UnitKind.Ends : UnitKind → ℕ → Prop
  | .line, x => x = newline
  | .run, x => x < 0x20 ∧ x ≠ 0x09 ∨ x = 0x7F

/-- A line or run longer than a chunk. -/
structure IsUnit (kind : UnitKind) (c : Content) (start stop : ℤ) : Prop where
  first : 0 ≤ start
  long : chunk < stop - start
  last : stop ≤ c.size
  opened : start = 0 ∨ ∃ x, item? c.data (start - 1) = some x ∧ kind.Ends x
  closed : stop = c.size ∨ ∃ x, item? c.data stop = some x ∧ kind.Ends x
  plain : ∀ p, start ≤ p → p < stop → ∀ x, item? c.data p = some x → ¬kind.Ends x

/-- A UTF-8 continuation byte stands at `p`. -/
def Continues (c : Content) (p : ℤ) : Prop :=
  c.kind = .bytes ∧ ∃ x, item? c.data p = some x ∧ isContinuation x = true

def IsCut (c : Content) (p : ℤ) : Prop := ∃ x ∈ segmentCuts, item? c.data p = some x

theorem IsCut.not_continues (cut : IsCut c place) : ¬Continues c place := by
  rintro ⟨-, y, held, continuation⟩
  obtain ⟨x, member, same⟩ := cut
  obtain rfl : x = y := Option.some.inj (same.symm.trans held)
  simp only [segmentCuts, List.mem_cons, List.not_mem_nil, or_false] at member
  rcases member with rfl | rfl | rfl | rfl <;> simp [isContinuation] at continuation

/-- What ends a unit is a character of its own. -/
theorem IsUnit.closes {kind : UnitKind} (unit : IsUnit kind c start stop) : ¬Continues c stop := by
  rintro ⟨-, y, held, continuation⟩
  rcases unit.closed with all | ⟨x, same, ends⟩
  · rw [item?_past all.ge] at held
    cases held
  · obtain rfl : x = y := Option.some.inj (same.symm.trans held)
    simp only [isContinuation, Bool.and_eq_true, decide_eq_true_eq] at continuation
    cases kind with
    | line =>
      have := ends.trans (show newline = 10 from rfl)
      omega
    | run =>
      have : x < 0x20 ∧ x ≠ 0x09 ∨ x = 0x7F := ends
      omega

/-- Where an edge stands: right after the last cut character of its window, or, in a window without
one, at `place` moved past the continuation bytes there, three at most. -/
inductive Edge (c : Content) (low place edge : ℤ) : Prop where
  | cut (after : low < edge) (before : edge ≤ place) (cut : IsCut c (edge - 1))
      (final : ∀ p, edge ≤ p → p < place → ¬IsCut c p)
  | moved (uncut : ∀ p, low ≤ p → p < place → ¬IsCut c p) (after : place ≤ edge) (before : edge ≤ place + 3)
      (skipped : ∀ p, place ≤ p → p < edge → Continues c p) (stopped : edge < place + 3 → ¬Continues c edge)

theorem pastContinuation_spec (bytes : c.kind = .bytes) (moves : ℕ) (inside : -c.size ≤ place) :
    ∃ edge, pastContinuation c.data moves place = some edge ∧ place ≤ edge ∧ edge ≤ place + moves ∧
      (∀ p, place ≤ p → p < edge → Continues c p) ∧ (edge < place + moves → ¬Continues c edge) := by
  induction moves generalizing place with
  | zero => exact ⟨place, rfl, le_rfl, by omega, fun p after before => by omega, fun later => by omega⟩
  | succ moves ih =>
    have stay (still : ¬Continues c place)
        (same : pastContinuation c.data (moves + 1) place = pastContinuation c.data moves place) :
        ∃ edge, pastContinuation c.data (moves + 1) place = some edge ∧ place ≤ edge ∧ edge ≤ place + (moves + 1 : ℕ) ∧
          (∀ p, place ≤ p → p < edge → Continues c p) ∧ (edge < place + (moves + 1 : ℕ) → ¬Continues c edge) := by
      obtain ⟨edge, found, after, before, skipped, stopped⟩ := ih inside
      have here : edge = place := by
        by_contra moved
        exact still (skipped place le_rfl (by omega))
      exact ⟨edge, same.trans found, after, by omega, skipped, fun _ => here ▸ still⟩
    by_cases more : place < c.data.length
    · obtain ⟨x, held⟩ := item?_some inside more
      cases continuation : isContinuation x with
      | true =>
        obtain ⟨edge, found, after, before, skipped, stopped⟩ := ih (show -c.size ≤ place + 1 by omega)
        refine ⟨edge, ?_, by omega, by omega, fun p from_ below => ?_, fun short => stopped (by omega)⟩
        · rw [pastContinuation, if_pos more, held]
          simpa [continuation] using found
        · rcases from_.eq_or_lt with rfl | later
          · exact ⟨bytes, x, held, continuation⟩
          · exact skipped p (by omega) below
      | false =>
        refine stay ?_ ?_
        · rintro ⟨-, y, same, other⟩
          obtain rfl : x = y := Option.some.inj (held.symm.trans same)
          rw [continuation] at other
          cases other
        · rw [pastContinuation, if_pos more, held]
          simp [continuation]
    · refine stay ?_ ?_
      · rintro ⟨-, y, same, -⟩
        rw [item?_past (by omega)] at same
        cases same
      · rw [pastContinuation, if_neg more]

theorem latest_spec (data cuts : List ℕ) (low place found : ℤ) :
    let latest := cuts.foldl (fun found cut => max found (rfind data cut low place)) found
    found ≤ latest ∧ (∀ cut ∈ cuts, rfind data cut low place ≤ latest) ∧
      (latest = found ∨ ∃ cut ∈ cuts, rfind data cut low place = latest) := by
  induction cuts generalizing found with
  | nil => simp
  | cons cut rest ih =>
    obtain ⟨above, all, from_⟩ := ih (max found (rfind data cut low place))
    refine ⟨(le_max_left _ _).trans above, fun other member => ?_, ?_⟩
    · rcases List.mem_cons.mp member with rfl | member
      · exact (le_max_right _ _).trans above
      · exact all other member
    · rcases from_ with same | ⟨other, member, same⟩
      · rcases max_choice found (rfind data cut low place) with chosen | chosen
        · exact .inl (same.trans chosen)
        · exact .inr ⟨cut, List.mem_cons_self, (same.trans chosen).symm⟩
      · exact .inr ⟨other, List.mem_cons_of_mem _ member, same⟩

theorem segmentEdge_spec (first : 0 ≤ low) (order : low ≤ place) (last : place ≤ c.size) :
    ∃ edge, segmentEdge c low place = some edge ∧ Edge c low place edge := by
  obtain ⟨above, all, latest⟩ := latest_spec c.data segmentCuts low place (-1)
  unfold segmentEdge
  by_cases found : 0 ≤ segmentCuts.foldl (fun found cut => max found (rfind c.data cut low place)) (-1)
  · refine ⟨_, if_pos found, ?_⟩
    obtain ⟨cut, member, same⟩ := latest.resolve_left (by omega)
    rcases rfind_cases cut first order last with ⟨missing, -⟩ | ⟨there, same', after, before, held, -⟩
    · omega
    · refine .cut (by omega) (by omega) ⟨cut, member, by rw [← held]; congr 1; omega⟩ ?_
      rintro p from_ below ⟨other, member, held⟩
      have highest := all other member
      rcases rfind_cases other first order last with ⟨-, clean⟩ | ⟨place', same', -, -, -, clean⟩
      · exact clean p (by omega) below held
      · exact clean p (by omega) below held
  · have uncut (p : ℤ) (after : low ≤ p) (before : p < place) : ¬IsCut c p := by
      rintro ⟨cut, member, held⟩
      rcases rfind_cases cut first order last with ⟨-, clean⟩ | ⟨there, same, from_, -⟩
      · exact clean p after before held
      · have := all cut member
        omega
    rw [if_neg found]
    cases kind : c.kind with
    | str =>
      refine ⟨place, rfl, .moved uncut le_rfl (by omega) (fun p after before => by omega) fun _ other => ?_⟩
      rw [other.1] at kind
      cases kind
    | bytes =>
      obtain ⟨edge, moved, after, before, skipped, stopped⟩ := pastContinuation_spec kind 3
        (show -c.size ≤ place by unfold Content.size; omega)
      exact ⟨edge, moved, .moved uncut after before skipped stopped⟩

/-- Only a byte content raises, and only when the place lies more than its length before its start. -/
theorem segmentEdge_none (low : ℤ) (inside : place < c.size) :
    segmentEdge c low place = none ↔ c.kind = .bytes ∧ place < -c.size := by
  unfold segmentEdge
  constructor
  · intro raised
    simp only at raised
    split at raised
    · cases raised
    · split at raised
      next bytes =>
        refine ⟨bytes, ?_⟩
        by_contra above
        obtain ⟨edge, found, -⟩ := pastContinuation_spec bytes 3 (not_lt.mp above)
        rw [found] at raised
        cases raised
      · cases raised
  · rintro ⟨bytes, before⟩
    obtain ⟨-, -, latest⟩ := latest_spec c.data segmentCuts low place (-1)
    have missing : ¬0 ≤ segmentCuts.foldl (fun found cut => max found (rfind c.data cut low place)) (-1) := by
      rcases latest with same | ⟨cut, -, same⟩
      · omega
      · rw [← same, rfind_before cut low before]
        omega
    simp only [if_neg missing, bytes]
    rw [pastContinuation, if_pos (show place < c.data.length from inside), item?_none before]

theorem Edge.unique {one other : ℤ} (found : Edge c low place one) (again : Edge c low place other) : one = other := by
  have apart {one other : ℤ} (found : Edge c low place one) (again : Edge c low place other) : ¬one < other := by
    intro less
    cases found with
    | cut after before cut final =>
      cases again with
      | cut after' before' cut' => exact final _ (by omega) (by omega) cut'
      | moved uncut => exact uncut _ (by omega) (by omega) cut
    | moved uncut after before skipped stopped =>
      cases again with
      | cut after' before' cut' => exact uncut _ (by omega) (by omega) cut'
      | moved uncut' after' before' skipped' => exact stopped (by omega) (skipped' _ after less)
  exact le_antisymm (not_lt.mp (apart again found)) (not_lt.mp (apart found again))

/-- A step's edge does not pass the end of its unit. -/
theorem Edge.within (found : Edge c low place edge) (inside : place < stop) (closes : ¬Continues c stop) :
    edge ≤ stop := by
  cases found with
  | cut after before => omega
  | moved uncut after before skipped =>
    by_contra past
    exact closes (skipped stop (by omega) (by omega))

/-- What the loop does from a segment's start and its step's: nothing more at the unit's end, one last
segment, or a step and its segment and the rest. -/
inductive Walk (c : Content) (start stop : ℤ) (overlap : ℕ) : ℤ → ℤ → List (ℤ × ℤ) → Ending Unit → Prop where
  | done {segmentStart : ℤ} : Walk c start stop overlap segmentStart stop [] (.returned ())
  | last {segmentStart stepStart : ℤ} (before : stepStart < stop) (short : stop - stepStart ≤ step overlap)
      (inside : c.kind = .bytes → overlap ≤ stop + c.size) :
      Walk c start stop overlap segmentStart stepStart [(segmentStart, stop)] (.returned ())
  | broken {segmentStart stepStart : ℤ} (before : stepStart < stop) (short : stop - stepStart ≤ step overlap)
      (bytes : c.kind = .bytes) (outside : stop + c.size < overlap) :
      Walk c start stop overlap segmentStart stepStart [(segmentStart, stop)] .raised
  | more {segmentStart stepStart stepEnds edge : ℤ} {later : List (ℤ × ℤ)} {ending : Ending Unit}
      (long : step overlap < stop - stepStart)
      (cutting : Edge c (stepStart + step overlap / 2) (stepStart + step overlap) stepEnds) (within : stepEnds ≤ stop)
      (back : Edge c (stepEnds - 2 * overlap) (stepEnds - overlap) edge)
      (rest : Walk c start stop overlap (max start edge) stepEnds later ending) :
      Walk c start stop overlap segmentStart stepStart ((segmentStart, stepEnds) :: later) ending

/-- A step takes half its length at least. -/
theorem Edge.progress {stepStart stepEnds : ℤ}
    (cutting : Edge c (stepStart + step overlap / 2) (stepStart + step overlap) stepEnds) :
    stepStart + step overlap / 2 ≤ stepEnds ∧ stepEnds ≤ stepStart + step overlap + 3 := by
  cases cutting with
  | cut after before => omega
  | moved uncut after before => omega

theorem walk_segmentsFrom {kind : UnitKind} (unit : IsUnit kind c start stop) (positive : 1 ≤ overlap) {fuel : ℕ}
    {segmentStart stepStart : ℤ} (first : start ≤ stepStart) (last : stepStart ≤ stop)
    (enough : stop - stepStart < fuel) :
    Walk c start stop overlap segmentStart stepStart (segmentsFrom c start stop overlap fuel segmentStart stepStart).1
      (segmentsFrom c start stop overlap fuel segmentStart stepStart).2 := by
  induction fuel generalizing segmentStart stepStart with
  | zero => omega
  | succ fuel ih =>
    have opened := unit.first
    have inside := unit.last
    have chunks := chunk_le_step overlap
    have overlaps := overlaps_le_step overlap
    have size := chunk_eq
    rcases last.eq_or_lt with rfl | before
    · rw [segmentsFrom, if_neg (by omega)]
      exact .done
    rw [segmentsFrom, if_pos before]
    by_cases short : stop - stepStart ≤ step overlap
    · rw [stepEnd, if_pos short]
      have edges := segmentEdge_none (stop - 2 * overlap) (show stop - overlap < c.size by omega)
      cases found : segmentEdge c (stop - 2 * overlap) (stop - overlap) with
      | none =>
        obtain ⟨bytes, outside⟩ := edges.mp found
        simp only [found]
        exact .broken before short bytes (by omega)
      | some edge =>
        have finished : segmentsFrom c start stop overlap fuel (max start edge) stop = ([], .returned ()) := by
          cases fuel with
          | zero => omega
          | succ fuel => rw [segmentsFrom, if_neg (lt_irrefl stop)]
        simp only [found, finished]
        refine .last before short fun bytes => ?_
        by_contra outside
        rw [edges.mpr ⟨bytes, by omega⟩] at found
        cases found
    · obtain ⟨stepEnds, ends, cutting⟩ := segmentEdge_spec
        (show 0 ≤ stepStart + step overlap / 2 by omega)
        (show stepStart + step overlap / 2 ≤ stepStart + step overlap by omega) (show _ ≤ c.size by omega)
      have ended : stepEnd c stop overlap stepStart = some stepEnds := by rw [stepEnd, if_neg short, ends]
      have within := cutting.within (by omega) unit.closes
      have progress := cutting.progress
      obtain ⟨edge, found, back⟩ := segmentEdge_spec (show 0 ≤ stepEnds - 2 * overlap by omega)
        (show stepEnds - 2 * overlap ≤ stepEnds - overlap by omega) (show _ ≤ c.size by omega)
      simp only [ended, found]
      exact .more (by omega) cutting within back (ih (by omega) within (by omega))

theorem walk_segments {kind : UnitKind} (unit : IsUnit kind c start stop) (positive : 1 ≤ overlap) :
    Walk c start stop overlap start start (segments c start stop overlap).1 (segments c start stop overlap).2 := by
  have long := unit.long
  exact walk_segmentsFrom unit positive le_rfl (by omega) (by omega)

theorem Walk.within {segmentStart stepStart : ℤ} {read : List (ℤ × ℤ)} {ending : Ending Unit}
    (walk : Walk c start stop overlap segmentStart stepStart read ending) (last : stepStart ≤ stop)
    (opened : 0 ≤ stepStart) (inside : c.kind = .bytes → overlap ≤ stop + c.size) : ending = .returned () := by
  induction walk with
  | done => rfl
  | last => rfl
  | broken before short bytes outside =>
    have := inside bytes
    omega
  | more long cutting within back rest ih =>
    have progress := cutting.progress
    exact ih within (by omega)

/-- The loop returns unless the last edge lies before the start of the bytes. -/
theorem Walk.returns_iff {read : List (ℤ × ℤ)} {ending : Ending Unit} (first : 0 ≤ start) (before : start < stop)
    (last : stop ≤ c.size) (walk : Walk c start stop overlap start start read ending) :
    ending = .returned () ↔ (c.kind = .bytes → overlap ≤ stop + c.size) := by
  refine ⟨fun returned bytes => ?_, walk.within (by omega) first⟩
  cases walk with
  | done => omega
  | last before short inside => exact inside bytes
  | broken => cases returned
  | more long =>
    have overlaps := overlaps_le_step overlap
    omega

/-- Where the segment of a step from `stepStart` may start. -/
structure Behind (c : Content) (start : ℤ) (overlap : ℕ) (segmentStart stepStart : ℤ) : Prop where
  opened : start ≤ segmentStart
  near : segmentStart ≤ max start (stepStart + 2)
  far : stepStart - 2 * overlap ≤ segmentStart
  back : ∀ p, start ≤ p → stepStart - overlap < p → ¬Continues c p → segmentStart ≤ p

theorem behind_start : Behind c start overlap start start where
  opened := le_rfl
  near := le_max_left _ _
  far := by omega
  back _ after _ _ := after

theorem Edge.behind {stepEnds : ℤ} (back : Edge c (stepEnds - 2 * overlap) (stepEnds - overlap) edge) (start : ℤ)
    (positive : 1 ≤ overlap) (after : start ≤ stepEnds) : Behind c start overlap (max start edge) stepEnds where
  opened := le_max_left _ _
  near := by
    cases back with
    | cut => omega
    | moved => omega
  far := by
    cases back with
    | cut => omega
    | moved => omega
  back p from_ beyond single := by
    refine max_le from_ ?_
    cases back with
    | cut => omega
    | moved uncut after before skipped =>
      by_contra short
      exact single (skipped p (by omega) (by omega))

section
variable {segmentStart stepStart : ℤ} {read : List (ℤ × ℤ)} {ending : Ending Unit}

/-- Every segment starts no earlier than the first and ends past the step's start. -/
theorem Walk.bounds (walk : Walk c start stop overlap segmentStart stepStart read ending) (positive : 1 ≤ overlap)
    (behind : Behind c start overlap segmentStart stepStart) (from_ : start ≤ stepStart) :
    ∀ segment ∈ read, segmentStart ≤ segment.1 ∧ stepStart < segment.2 ∧ segment.2 ≤ stop := by
  have chunks := chunk_le_step overlap
  have overlaps := overlaps_le_step overlap
  have size := chunk_eq
  induction walk with
  | done => simp
  | last before short inside => simpa using before
  | broken before short bytes outside => simpa using before
  | more long cutting within back rest ih =>
    have progress := cutting.progress
    have next := back.behind start positive (by omega)
    have later := ih next (by omega)
    have near := behind.near
    have far := next.far
    intro segment member
    rcases List.mem_cons.mp member with rfl | member
    · exact ⟨le_rfl, by simp only; omega, within⟩
    · obtain ⟨starts, passes, ends⟩ := later segment member
      exact ⟨by omega, by omega, ends⟩

theorem Walk.ordered (walk : Walk c start stop overlap segmentStart stepStart read ending) (positive : 1 ≤ overlap)
    (behind : Behind c start overlap segmentStart stepStart) (from_ : start ≤ stepStart) :
    read.Pairwise fun one next => one.1 ≤ next.1 ∧ one.2 < next.2 := by
  have chunks := chunk_le_step overlap
  have overlaps := overlaps_le_step overlap
  have size := chunk_eq
  induction walk with
  | done => exact .nil
  | last => exact List.pairwise_singleton _ _
  | broken => exact List.pairwise_singleton _ _
  | more long cutting within back rest ih =>
    have progress := cutting.progress
    have next := back.behind start positive (by omega)
    refine .cons (fun segment member => ?_) (ih next (by omega))
    obtain ⟨starts, passes, -⟩ := rest.bounds positive next (by omega) segment member
    have near := behind.near
    have far := next.far
    exact ⟨by simp only; omega, passes⟩

theorem Walk.sizes (walk : Walk c start stop overlap segmentStart stepStart read ending) (positive : 1 ≤ overlap)
    (behind : Behind c start overlap segmentStart stepStart) (from_ : start ≤ stepStart) :
    ∀ segment ∈ read, segment.2 - segment.1 ≤ step overlap + 2 * overlap + 3 := by
  induction walk with
  | done => simp
  | last before short inside =>
    have far := behind.far
    simp only [List.mem_singleton, forall_eq]
    omega
  | broken before short bytes outside =>
    have far := behind.far
    simp only [List.mem_singleton, forall_eq]
    omega
  | more long cutting within back rest ih =>
    have progress := cutting.progress
    have next := back.behind start positive (by omega)
    have far := behind.far
    intro segment member
    rcases List.mem_cons.mp member with rfl | member
    · simp only
      omega
    · exact ih next (by omega) segment member

/-- A stretch no longer than the overlap lies in the first segment that reaches its end. -/
theorem Walk.stretches (walk : Walk c start stop overlap segmentStart stepStart read ending) (positive : 1 ≤ overlap)
    (behind : Behind c start overlap segmentStart stepStart) (from_ : start ≤ stepStart) {p q : ℤ} (first : start ≤ p)
    (last : q ≤ stop) (beyond : stepStart < q) (short : q - p ≤ overlap) (single : ¬Continues c p) :
    ∃ segment ∈ read, segment.1 ≤ p ∧ q ≤ segment.2 := by
  induction walk with
  | done => omega
  | last => exact ⟨_, List.mem_singleton_self _, behind.back p first (by omega) single, last⟩
  | broken => exact ⟨_, List.mem_singleton_self _, behind.back p first (by omega) single, last⟩
  | @more segmentStart stepStart stepEnds edge later ending long cutting within back rest ih =>
    by_cases here : q ≤ stepEnds
    · exact ⟨_, List.mem_cons_self, behind.back p first (by omega) single, here⟩
    · have progress := cutting.progress
      obtain ⟨segment, member, holds⟩ := ih (back.behind start positive (by omega)) (by omega) (by omega)
      exact ⟨segment, List.mem_cons_of_mem _ member, holds⟩

end

/-- The step from `stepStart` is torn: no cut character stands in its second half, and four
continuation bytes follow its full length, one more than an edge moves by. -/
structure Torn (c : Content) (stop : ℤ) (overlap : ℕ) (stepStart : ℤ) : Prop where
  long : step overlap < stop - stepStart
  uncut : ∀ p, stepStart + step overlap / 2 ≤ p → p < stepStart + step overlap → ¬IsCut c p
  run : ∀ p, stepStart + step overlap ≤ p → p ≤ stepStart + step overlap + 3 → Continues c p

/-- A step that is not the last, and where it ends. -/
def StepsTo (c : Content) (stop : ℤ) (overlap : ℕ) (stepStart stepEnds : ℤ) : Prop :=
  step overlap < stop - stepStart ∧ Edge c (stepStart + step overlap / 2) (stepStart + step overlap) stepEnds

/-- Some step of the unit is torn. -/
def SomeTorn (c : Content) (start stop : ℤ) (overlap : ℕ) : Prop :=
  ∃ stepStart, Relation.ReflTransGen (StepsTo c stop overlap) start stepStart ∧ Torn c stop overlap stepStart

theorem someTorn_iff {stepStart stepEnds : ℤ} (long : step overlap < stop - stepStart)
    (cutting : Edge c (stepStart + step overlap / 2) (stepStart + step overlap) stepEnds) :
    SomeTorn c stepStart stop overlap ↔ Torn c stop overlap stepStart ∨ SomeTorn c stepEnds stop overlap := by
  constructor
  · rintro ⟨there, reached, torn⟩
    rcases reached.cases_head with rfl | ⟨next, ⟨-, same⟩, reached⟩
    · exact .inl torn
    · obtain rfl : stepEnds = next := cutting.unique same
      exact .inr ⟨there, reached, torn⟩
  · rintro (torn | ⟨there, reached, torn⟩)
    · exact ⟨stepStart, .refl, torn⟩
    · exact ⟨there, .head ⟨long, cutting⟩ reached, torn⟩

theorem SomeTorn.long (torn : SomeTorn c start stop overlap) : step overlap < stop - start := by
  obtain ⟨there, reached, torn⟩ := torn
  rcases reached.cases_head with rfl | ⟨next, ⟨long, -⟩, -⟩
  · exact torn.long
  · exact long

/-- The next segment starts past the end of a step only when the step is torn and the overlap is too
short to reach back over the bytes its edge moved by. -/
theorem gap_iff {stepStart stepEnds : ℤ} (positive : 1 ≤ overlap) (long : step overlap < stop - stepStart)
    (cutting : Edge c (stepStart + step overlap / 2) (stepStart + step overlap) stepEnds)
    (back : Edge c (stepEnds - 2 * overlap) (stepEnds - overlap) edge) :
    stepEnds < edge ↔ overlap ≤ 2 ∧ Torn c stop overlap stepStart := by
  have chunks := chunk_le_step overlap
  have size := chunk_eq
  constructor
  · intro gap
    cases back with
    | cut after before => omega
    | moved uncut' after' before' skipped' =>
      have here : Continues c stepEnds := skipped' stepEnds (by omega) gap
      cases cutting with
      | cut after before cut => exact absurd (skipped' (stepEnds - 1) (by omega) (by omega)) cut.not_continues
      | moved uncut after before skipped stopped =>
        have moved : stepEnds = stepStart + step overlap + 3 := by
          by_contra short
          exact stopped (by omega) here
        refine ⟨by omega, long, uncut, fun p from_ below => ?_⟩
        rcases below.eq_or_lt with rfl | below
        · rw [← moved]
          exact here
        · exact skipped p from_ (by omega)
  · rintro ⟨short, torn⟩
    cases cutting with
    | cut after before cut => exact absurd cut (torn.uncut _ (by omega) (by omega))
    | moved uncut after before skipped stopped =>
      have moved : stepEnds = stepStart + step overlap + 3 := by
        by_contra less
        exact stopped (by omega) (torn.run stepEnds after (by omega))
      cases back with
      | cut after' before' cut =>
        by_cases inside : edge - 1 < stepStart + step overlap
        · exact absurd cut (torn.uncut _ (by omega) inside)
        · exact absurd (torn.run (edge - 1) (by omega) (by omega)) cut.not_continues
      | moved uncut' after' before' skipped' stopped' =>
        by_contra covered
        exact stopped' (by omega) (torn.run edge (by omega) (by omega))

section
variable {segmentStart stepStart : ℤ} {read : List (ℤ × ℤ)} {ending : Ending Unit}

theorem Walk.covers (walk : Walk c start stop overlap segmentStart stepStart read ending) (positive : 1 ≤ overlap)
    (order : segmentStart ≤ stepStart) (from_ : start ≤ stepStart)
    (whole : 3 ≤ overlap ∨ ¬SomeTorn c stepStart stop overlap)
    {p : ℤ} (first : stepStart ≤ p) (last : p < stop) : ∃ segment ∈ read, segment.1 ≤ p ∧ p < segment.2 := by
  induction walk with
  | done => omega
  | last => exact ⟨_, List.mem_singleton_self _, order.trans first, last⟩
  | broken => exact ⟨_, List.mem_singleton_self _, order.trans first, last⟩
  | @more segmentStart stepStart stepEnds edge later ending long cutting within back rest ih =>
    by_cases here : p < stepEnds
    · exact ⟨_, List.mem_cons_self, order.trans first, here⟩
    · have progress := cutting.progress
      rw [someTorn_iff long cutting, not_or] at whole
      have joined : edge ≤ stepEnds := by
        by_contra gap
        obtain ⟨short, torn⟩ := (gap_iff positive long cutting back).mp (not_le.mp gap)
        rcases whole with wide | ⟨sound, -⟩
        · omega
        · exact sound torn
      obtain ⟨segment, member, holds⟩ := ih (by omega) (by omega) (whole.imp_right And.right) (by omega)
      exact ⟨segment, List.mem_cons_of_mem _ member, holds⟩

/-- With an overlap of one or two positions the position after a torn step is in no segment. -/
theorem Walk.leaves_out (walk : Walk c start stop overlap segmentStart stepStart read ending) (positive : 1 ≤ overlap)
    (from_ : start ≤ stepStart) (closes : ¬Continues c stop) (narrow : overlap ≤ 2)
    (torn : SomeTorn c stepStart stop overlap) :
    ∃ p, stepStart ≤ p ∧ p < stop ∧ ∀ segment ∈ read, ¬(segment.1 ≤ p ∧ p < segment.2) := by
  induction walk with
  | done =>
    have := torn.long
    omega
  | last before short =>
    have := torn.long
    omega
  | broken before short =>
    have := torn.long
    omega
  | @more segmentStart stepStart stepEnds edge later ending long cutting within back rest ih =>
    have progress := cutting.progress
    rcases (someTorn_iff long cutting).mp torn with here | after
    · have gap := (gap_iff positive long cutting back).mpr ⟨narrow, here⟩
      have inside : stepEnds ≠ stop := by
        rintro rfl
        cases back with
        | cut after before => omega
        | moved uncut after before skipped => exact closes (skipped stepEnds (by omega) gap)
      refine ⟨stepEnds, by omega, by omega, fun segment member => ?_⟩
      rcases List.mem_cons.mp member with rfl | member
      · simp
      · have := (rest.bounds positive (back.behind start positive (by omega)) (by omega) segment member).1
        omega
    · obtain ⟨p, beyond, before, out⟩ := ih (by omega) after
      refine ⟨p, by omega, before, fun segment member => ?_⟩
      rcases List.mem_cons.mp member with rfl | member
      · simp only
        omega
      · exact out segment member

end

/-- The segments of a unit read all of it: every position, in order, and every stretch up to the
overlap that starts at no continuation byte whole, in pieces of bounded length. -/
structure ReadsWhole (c : Content) (start stop : ℤ) (overlap : ℕ) (read : List (ℤ × ℤ)) : Prop where
  inside : ∀ segment ∈ read, start ≤ segment.1 ∧ segment.2 ≤ stop
  ordered : read.Pairwise fun one next => one.1 ≤ next.1 ∧ one.2 < next.2
  covers : ∀ p, start ≤ p → p < stop → ∃ segment ∈ read, segment.1 ≤ p ∧ p < segment.2
  stretches : ∀ p q, start ≤ p → p < q → q ≤ stop → q - p ≤ overlap → ¬Continues c p →
    ∃ segment ∈ read, segment.1 ≤ p ∧ q ≤ segment.2
  sizes : ∀ segment ∈ read, segment.2 - segment.1 ≤ max chunk (6 * overlap) + 2 * overlap + 3

theorem readsWhole_iff {kind : UnitKind} (unit : IsUnit kind c start stop) (positive : 1 ≤ overlap) :
    ReadsWhole c start stop overlap (segments c start stop overlap).1 ↔
      (3 ≤ overlap ∨ ¬SomeTorn c start stop overlap) := by
  have walk := walk_segments unit positive
  constructor
  · intro reads
    by_contra torn
    rw [not_or, not_not] at torn
    obtain ⟨p, after, before, out⟩ := walk.leaves_out positive le_rfl unit.closes (by omega) torn.2
    obtain ⟨segment, member, holds⟩ := reads.covers p after before
    exact out segment member holds
  · intro whole
    have bounds := walk.bounds positive behind_start le_rfl
    exact {
      inside := fun segment member => ⟨(bounds segment member).1, (bounds segment member).2.2⟩
      ordered := walk.ordered positive behind_start le_rfl
      covers := fun p after before => walk.covers positive le_rfl le_rfl whole after before
      stretches := fun p q after order before short single =>
        walk.stretches positive behind_start le_rfl after before (by omega) short single
      sizes := walk.sizes positive behind_start le_rfl }

theorem segments_ne_nil {kind : UnitKind} (unit : IsUnit kind c start stop) (positive : 1 ≤ overlap) :
    (segments c start stop overlap).1 ≠ [] := by
  have walk := walk_segments unit positive
  have long := unit.long
  intro none_
  rw [none_] at walk
  generalize (segments c start stop overlap).2 = ending at walk
  cases walk
  omega

theorem segments_returned_iff {kind : UnitKind} (unit : IsUnit kind c start stop) (positive : 1 ≤ overlap) :
    (segments c start stop overlap).2 = .returned () ↔ (c.kind = .bytes → overlap ≤ stop + c.size) := by
  have long := unit.long
  exact (walk_segments unit positive).returns_iff unit.first (by omega) unit.last

end IemMixer.Denylist
