import IemMixer.Rt.Latency

/-! The probe measures exactly: what it reports is told by the samples alone, whatever the
segments they came in and the order of the returns. -/
namespace IemMixer.Rt
open Lib

/-! ### The probe against what it heard -/

namespace LatencyProbe

/-- The probe after the loud return samples of `heard`. -/
structure Heard (heard : ℕ → Prop) (p : LatencyProbe) : Prop where
  last : ∀ l ∈ p.lastLoud, heard l
  latest : ∀ t, heard t → ∃ l ∈ p.lastLoud, t ≤ l
  idle : p.emittedAt = none → p.spoiled = false ∧ p.arrivedAt = none
  spoiled : ∀ e ∈ p.emittedAt, (p.spoiled = true ↔ ∃ t, heard t ∧ e ≤ t + quietBefore ∧ t < e + minRoundTrip)
  unread : p.spoiled = true → p.arrivedAt = none
  arrived : ∀ a ∈ p.arrivedAt, ∀ e ∈ p.emittedAt, heard a ∧ e + minRoundTrip ≤ a ∧
    ∀ t, heard t → e + minRoundTrip ≤ t → a ≤ t
  waiting : p.arrivedAt = none → p.spoiled = false → ∀ e ∈ p.emittedAt, ∀ t, heard t → t < e + minRoundTrip

variable {heard : ℕ → Prop} {p : LatencyProbe}

theorem Heard.reset (fits : Heard heard p) : Heard heard p.reset where
  last := fits.last
  latest := fits.latest
  idle _ := ⟨rfl, rfl⟩
  spoiled := by simp [LatencyProbe.reset]
  unread := by simp [LatencyProbe.reset]
  arrived := by simp [LatencyProbe.reset]
  waiting := by simp [LatencyProbe.reset]

/-- The emit, after everything heard so far. -/
theorem Heard.emitted (fits : Heard heard p) {e : ℕ} (before : ∀ t, heard t → t < e) (far : e ≤ 2 ^ 64 - 1) :
    Heard heard (p.emitted e) := by
  unfold LatencyProbe.emitted
  cases sent : p.emittedAt with
  | some old => simpa [sent] using fits
  | none =>
    obtain ⟨fresh, unread⟩ := fits.idle sent
    have judged : (p.lastLoud.any fun l => decide (e ≤ saturatingAdd l quietBefore)) = true ↔
        ∃ t, heard t ∧ e ≤ t + quietBefore ∧ t < e + minRoundTrip := by
      constructor
      · intro some
        cases noted : p.lastLoud with
        | none =>
          rw [noted] at some
          cases some
        | some l =>
          rw [noted, Option.any_some, decide_eq_true_eq] at some
          have early := before l (fits.last l noted)
          exact ⟨l, fits.last l noted, some.trans (Nat.min_le_left _ _), by omega⟩
      · rintro ⟨t, here, late, -⟩
        obtain ⟨l, held, after⟩ := fits.latest t here
        rw [Option.mem_def.mp held, Option.any_some, decide_eq_true_eq]
        exact Nat.le_min.mpr ⟨by omega, far⟩
    rw [if_neg (by simp)]
    constructor
    case last => exact fits.last
    case latest => exact fits.latest
    case idle => exact fun never => by cases never
    case spoiled =>
      intro e' same
      cases same
      rw [fresh, Bool.false_or]
      exact judged
    case unread => exact fun _ => unread
    case arrived =>
      intro a read
      simp only at read
      rw [unread] at read
      cases read
    case waiting =>
      intro _ _ e' same t here
      cases same
      exact (before t here).trans_le (Nat.le_add_right _ _)

/-- One more loud return sample, not long before the emit. -/
theorem Heard.loud (fits : Heard heard p) {t : ℕ} (near : ∀ e ∈ p.emittedAt, e ≤ t + quietBefore)
    (far : ∀ e ∈ p.emittedAt, e + minRoundTrip ≤ 2 ^ 64 - 1) :
    Heard (fun s => heard s ∨ s = t) (p.loud t) ∧ (p.loud t).emittedAt = p.emittedAt := by
  have last : ∀ l ∈ (some (p.lastLoud.elim t (max · t)) : Option ℕ), heard l ∨ l = t := by
    intro l held
    cases held
    cases noted : p.lastLoud with
    | none => exact .inr rfl
    | some l =>
      rcases max_choice l t with same | same
      · exact .inl (by simpa [same] using fits.last l noted)
      · exact .inr same
  have latest : ∀ s, heard s ∨ s = t → ∃ l ∈ (some (p.lastLoud.elim t (max · t)) : Option ℕ), s ≤ l := by
    rintro s (before | rfl)
    · obtain ⟨l, noted, after⟩ := fits.latest s before
      rw [Option.mem_def.mp noted]
      exact ⟨_, rfl, after.trans (le_max_left l t)⟩
    · cases p.lastLoud with
      | none => exact ⟨_, rfl, le_rfl⟩
      | some l => exact ⟨_, rfl, le_max_right l s⟩
  cases sent : p.emittedAt with
  | none =>
    have made : p.loud t = { p with lastLoud := some (p.lastLoud.elim t (max · t)) } := by
      simp only [LatencyProbe.loud, sent]
    rw [made]
    refine ⟨⟨last, latest, fits.idle, ?_, fits.unread, ?_, ?_⟩, sent⟩ <;> simp [sent]
  | some e =>
    have soon := near e sent
    have bound : t < saturatingAdd e minRoundTrip ↔ t < e + minRoundTrip := by
      unfold saturatingAdd
      rw [show (e + minRoundTrip).min (2 ^ 64 - 1) = e + minRoundTrip from Nat.min_eq_left (far e sent)]
    have judged := fits.spoiled e sent
    cases spoilt : p.spoiled with
    | true =>
      have made : p.loud t = { p with lastLoud := some (p.lastLoud.elim t (max · t)) } := by
        simp only [LatencyProbe.loud, sent, spoilt, if_true]
      rw [made]
      refine ⟨⟨last, latest, fits.idle, ?_, fits.unread, ?_, ?_⟩, sent⟩
      · intro e' same
        obtain rfl := Option.some.inj (sent.symm.trans same)
        obtain ⟨s, here, within⟩ := judged.mp spoilt
        exact iff_of_true spoilt ⟨s, .inl here, within⟩
      · intro a read
        rw [Option.mem_def, fits.unread spoilt] at read
        cases read
      · intro _ clear
        rw [spoilt] at clear
        cases clear
    | false =>
      by_cases early : t < e + minRoundTrip
      · have made : p.loud t =
            { p with lastLoud := some (p.lastLoud.elim t (max · t)), spoiled := true, arrivedAt := none } := by
          simp only [LatencyProbe.loud, sent, spoilt, Bool.false_eq_true, if_false, bound, early, if_true]
        rw [made]
        refine ⟨⟨last, latest, fun never => ?_, ?_, fun _ => rfl, by simp, by simp⟩, sent⟩
        · rw [sent] at never
          cases never
        · intro e' same
          obtain rfl := Option.some.inj (sent.symm.trans same)
          exact iff_of_true rfl ⟨t, .inr rfl, soon, early⟩
      · have made : p.loud t =
            { p with lastLoud := some (p.lastLoud.elim t (max · t)), arrivedAt := some (p.arrivedAt.elim t (min · t)) } := by
          simp only [LatencyProbe.loud, sent, spoilt, Bool.false_eq_true, if_false, bound, early]
        rw [made]
        refine ⟨⟨last, latest, fun never => ?_, ?_, ?_, ?_, fun never => by cases never⟩, sent⟩
        · rw [sent] at never
          cases never
        · intro e' same
          obtain rfl := Option.some.inj (sent.symm.trans same)
          refine iff_of_false (by simp [spoilt]) ?_
          rintro ⟨s, before | rfl, low, high⟩
          · exact absurd (judged.mpr ⟨s, before, low, high⟩) (by simp [spoilt])
          · exact early high
        · intro spoilt'
          rw [spoilt] at spoilt'
          cases spoilt'
        · intro a read e' same
          obtain rfl := Option.some.inj (sent.symm.trans same)
          cases read
          cases noted : p.arrivedAt with
          | none =>
            refine ⟨.inr rfl, not_lt.mp early, ?_⟩
            rintro s (before | rfl) late
            · exact absurd late (not_le.mpr (fits.waiting noted spoilt e sent s before))
            · exact le_rfl
          | some a =>
            obtain ⟨here, late, first⟩ := fits.arrived a noted e sent
            have least : ∀ s, heard s ∨ s = t → e + minRoundTrip ≤ s → min a t ≤ s := by
              rintro s (before | rfl) after
              · exact (min_le_left a t).trans (first s before after)
              · exact min_le_right a s
            rcases min_choice a t with same | same
            · exact ⟨.inl (by rw [Option.elim_some, same]; exact here), by rw [Option.elim_some, same]; exact late, least⟩
            · exact ⟨.inr same, by rw [Option.elim_some, same]; exact not_lt.mp early, least⟩

theorem Heard.congr {heard' : ℕ → Prop} (fits : Heard heard p) (same : ∀ t, heard t ↔ heard' t) : Heard heard' p := by
  rwa [show heard' = heard from funext fun t => propext (same t).symm]

theorem emitted_at (p : LatencyProbe) (t : ℕ) : (p.emitted t).emittedAt = p.emittedAt.or (some t) := by
  unfold LatencyProbe.emitted
  cases sent : p.emittedAt <;> simp [sent]

/-- A list of return samples, each with its index past `base`. -/
theorem Heard.hear (fits : Heard heard p) {base : ℕ} (near : ∀ e ∈ p.emittedAt, e ≤ base + quietBefore)
    (far : ∀ e ∈ p.emittedAt, e + minRoundTrip ≤ 2 ^ 64 - 1) (ret : List (F64 × ℕ))
    (bounded : ∀ s ∈ ret, base + s.2 ≤ 2 ^ 64 - 1) :
    Heard (fun t => heard t ∨ ∃ s ∈ ret, isLoud s.1 = true ∧ t = base + s.2) (ret.foldl (LatencyProbe.hear base) p) ∧
      (ret.foldl (LatencyProbe.hear base) p).emittedAt = p.emittedAt := by
  induction ret generalizing heard p with
  | nil => exact ⟨fits.congr (by simp), rfl⟩
  | cons s rest ih =>
    have later : ∀ s ∈ rest, base + s.2 ≤ 2 ^ 64 - 1 := fun s member => bounded s (List.mem_cons_of_mem _ member)
    rw [List.foldl_cons]
    cases loud : isLoud s.1 with
    | false =>
      obtain ⟨heardRest, sent⟩ := ih fits near far later
      have quiet : LatencyProbe.hear base p s = p := by simp [LatencyProbe.hear, loud]
      rw [quiet]
      exact ⟨heardRest.congr (by simp [loud]), sent⟩
    | true =>
      have here : LatencyProbe.hear base p s = p.loud (base + s.2) := by
        have exact : saturatingAdd base s.2 = base + s.2 := Nat.min_eq_left (bounded s List.mem_cons_self)
        simp [LatencyProbe.hear, loud, exact]
      rw [here]
      obtain ⟨fits', sent⟩ := fits.loud (t := base + s.2) (fun e held => (near e held).trans (by omega)) far
      obtain ⟨heardRest, sent'⟩ := ih fits' (by rw [sent]; exact near) (by rw [sent]; exact far) later
      exact ⟨heardRest.congr fun t => by simp [loud, or_assoc], sent'.trans sent⟩

end LatencyProbe

/-! ### First loud samples -/

/-- `first` is the first sample from `start` on before `stop` that is loud, if there is one. -/
structure IsFirst (loud : ℕ → Bool) (start stop : ℕ) (first : Option ℕ) : Prop where
  there : ∀ t ∈ first, start ≤ t ∧ t < stop ∧ loud t = true ∧ ∀ s, start ≤ s → s < t → loud s = false
  none : first = none → ∀ t, start ≤ t → t < stop → loud t = false

theorem firstLoud_first (loud : ℕ → Bool) (start stop : ℕ) : IsFirst loud start stop (firstLoud loud start stop) := by
  unfold firstLoud
  constructor
  · intro t found
    obtain ⟨here, member, before⟩ := List.find?_range'_eq_some.mp found
    obtain ⟨low, high⟩ := List.mem_range'_1.mp member
    exact ⟨low, by omega, here, fun s late early => by simpa using before s late early⟩
  · intro nothing t low high
    have absent := List.find?_range'_eq_none.mp nothing t low (by omega)
    simpa using absent

theorem IsFirst.unique {loud : ℕ → Bool} {start stop : ℕ} {a b : Option ℕ} (first : IsFirst loud start stop a)
    (first' : IsFirst loud start stop b) : a = b := by
  cases a with
  | none =>
    cases b with
    | none => rfl
    | some t =>
      obtain ⟨low, high, here, -⟩ := first'.there t rfl
      rw [first.none rfl t low high] at here
      cases here
  | some t =>
    obtain ⟨low, high, here, before⟩ := first.there t rfl
    cases b with
    | none =>
      rw [first'.none rfl t low high] at here
      cases here
    | some s =>
      obtain ⟨low', high', here', before'⟩ := first'.there s rfl
      rcases Nat.lt_trichotomy t s with less | rfl | less
      · rw [before' t low less] at here
        cases here
      · rfl
      · rw [before s low' less] at here'
        cases here'

/-- What comes first in two stretches, one after the other. -/
theorem IsFirst.append {loud : ℕ → Bool} {start mid stop : ℕ} {a b : Option ℕ} (early : IsFirst loud start mid a)
    (late : IsFirst loud mid stop b) (low : start ≤ mid) (high : mid ≤ stop) : IsFirst loud start stop (a.or b) := by
  cases a with
  | some t =>
    obtain ⟨after, before, here, first⟩ := early.there t rfl
    refine ⟨fun s same => ?_, fun never => by cases never⟩
    cases same
    exact ⟨after, before.trans_le high, here, first⟩
  | none =>
    rw [Option.none_or]
    constructor
    · intro t found
      obtain ⟨after, before, here, first⟩ := late.there t found
      refine ⟨low.trans after, before, here, fun s above below => ?_⟩
      rcases Nat.lt_or_ge s mid with left | right
      · exact early.none rfl s above left
      · exact first s right below
    · intro nothing t above below
      rcases Nat.lt_or_ge t mid with left | right
      · exact early.none rfl t above left
      · exact late.none nothing t right below

/-- The earlier of two signals' first loud samples is the first at which either is. -/
theorem IsFirst.either {loud loud' : ℕ → Bool} {start stop : ℕ} {a b : Option ℕ} (first : IsFirst loud start stop a)
    (first' : IsFirst loud' start stop b) :
    IsFirst (fun t => loud t || loud' t) start stop (b.elim a fun i => some (a.elim i (min · i))) := by
  cases b with
  | none =>
    have quiet := first'.none rfl
    constructor
    · intro t found
      obtain ⟨low, high, here, before⟩ := first.there t found
      exact ⟨low, high, by rw [here, Bool.true_or], fun s after less => by
        rw [before s after less, quiet s after (less.trans high), Bool.false_or]⟩
    · intro nothing t low high
      rw [first.none nothing t low high, quiet t low high, Bool.false_or]
  | some i =>
    obtain ⟨low', high', here', before'⟩ := first'.there i rfl
    refine ⟨fun t found => ?_, fun never => by cases never⟩
    cases found
    cases a with
    | none =>
      refine ⟨low', high', by rw [Option.elim_none, here', Bool.or_true], fun s after less => ?_⟩
      rw [first.none rfl s after (less.trans high'), before' s after less, Bool.false_or]
    | some t =>
      obtain ⟨low, high, here, before⟩ := first.there t rfl
      simp only [Option.elim_some]
      refine ⟨le_min low low', (min_le_left t i).trans_lt high, ?_, fun s after less => ?_⟩
      · rcases min_choice t i with same | same
        · rw [same, here, Bool.true_or]
        · rw [same, here', Bool.or_true]
      · rw [before s after (less.trans_le (min_le_left t i)), before' s after (less.trans_le (min_le_right t i)),
          Bool.false_or]

theorem IsFirst.shift {loud : ℕ → Bool} {time frames : ℕ} {first : Option ℕ}
    (here : IsFirst (fun i => loud (time + i)) 0 frames first) :
    IsFirst loud time (time + frames) (first.map (time + ·)) := by
  constructor
  · intro t found
    obtain ⟨i, held, rfl⟩ := Option.map_eq_some_iff.mp found
    obtain ⟨-, high, loud, before⟩ := here.there i held
    refine ⟨by omega, by omega, loud, fun s after less => ?_⟩
    have earlier := before (s - time) (Nat.zero_le _) (by omega)
    rwa [Nat.add_sub_cancel' after] at earlier
  · intro nothing t low high
    have quiet := here.none (Option.map_eq_none_iff.mp nothing) (t - time) (Nat.zero_le _) (by omega)
    rwa [Nat.add_sub_cancel' low] at quiet

theorem findIdx_first (signal : ℕ → F64) (time frames : ℕ) :
    IsFirst (fun i => isLoud (signal (time + i))) 0 frames
      ((Loopback.stretch signal time frames).findIdx? isLoud) := by
  have sample : ∀ (i : ℕ) (bound : i < (Loopback.stretch signal time frames).length),
      (Loopback.stretch signal time frames)[i] = signal (time + i) := by
    intro i bound
    simp [Loopback.stretch]
  have length : (Loopback.stretch signal time frames).length = frames := by simp [Loopback.stretch]
  constructor
  · intro i found
    obtain ⟨bound, here, before⟩ := List.findIdx?_eq_some_iff_getElem.mp found
    refine ⟨Nat.zero_le _, length ▸ bound, by rw [← sample i bound]; exact here, fun j _ less => ?_⟩
    have quiet := before j less
    rw [sample j (less.trans bound)] at quiet
    exact Bool.eq_false_iff.mpr quiet
  · intro nothing i _ bound
    have quiet := List.findIdx?_eq_none_iff.mp nothing (signal (time + i))
    have inside : i < (Loopback.stretch signal time frames).length := by rw [length]; exact bound
    apply quiet
    rw [← sample i inside]
    exact List.getElem_mem inside

theorem emit_first (loop : Loopback) (time frames : ℕ) :
    IsFirst (anyLoud loop.hilTx loop.out) time (time + frames) ((loop.emit time frames).map (time + ·)) := by
  apply IsFirst.shift
  unfold Loopback.emit
  induction loop.hilTx with
  | zero =>
    constructor
    · exact fun _ never => by cases never
    · exact fun _ _ _ _ => rfl
  | succ k ih =>
    have more : ∀ i, anyLoud (k + 1) loop.out (time + i) =
        (anyLoud k loop.out (time + i) || isLoud (loop.out k (time + i))) := by
      intro i
      simp [anyLoud, List.range_succ]
    rw [List.range_succ, List.foldl_concat]
    have either := ih.either (findIdx_first (loop.out k) time frames)
    simp only [more]
    cases found : (Loopback.stretch (loop.out k) time frames).findIdx? isLoud with
    | none => simpa only [found, Option.elim_none] using either
    | some i => simpa only [found, Option.elim_some] using either

/-! ### A run -/

/-- What holds of the probe between any two segments. -/
structure Exact (loop : Loopback) (m : Measuring) : Prop where
  begun : m.since ≤ m.time
  heard : LatencyProbe.Heard (fun t => t < m.time ∧ anyLoud loop.hilRx loop.ret t = true) m.probe
  shut : loop.hilRx = 0 → m.probe.emittedAt = none
  sent : 0 < loop.hilRx → IsFirst (anyLoud loop.hilTx loop.out) m.since m.time m.probe.emittedAt

theorem exact_new (loop : Loopback) : Exact loop {} where
  begun := le_rfl
  heard := by constructor <;> simp
  shut := fun _ => rfl
  sent := fun _ => ⟨by simp, fun _ _ _ high => absurd high (Nat.not_lt_zero _)⟩

variable {loop : Loopback} {m : Measuring}

/-- The returns of one segment, in whatever order. -/
theorem fed_returns {heard : ℕ → Prop} {p : LatencyProbe} (fits : LatencyProbe.Heard heard p) {time frames : ℕ}
    (near : ∀ e ∈ p.emittedAt, e ≤ time + quietBefore) (far : ∀ e ∈ p.emittedAt, e + minRoundTrip ≤ 2 ^ 64 - 1)
    (bounded : time + frames ≤ 2 ^ 64 - 1) (order : List ℕ) :
    LatencyProbe.Heard
        (fun t => heard t ∨ ∃ j ∈ order, time ≤ t ∧ t < time + frames ∧ isLoud (loop.ret j t) = true)
        (order.foldl (fun p j => p.feed (Loopback.stretch (loop.ret j) time frames) time) p) ∧
      (order.foldl (fun p j => p.feed (Loopback.stretch (loop.ret j) time frames) time) p).emittedAt = p.emittedAt := by
  induction order generalizing heard p with
  | nil => exact ⟨fits.congr (by simp), rfl⟩
  | cons j rest ih =>
    have inside : ∀ s ∈ (Loopback.stretch (loop.ret j) time frames).zipIdx, s.2 < frames ∧ s.1 = loop.ret j (time + s.2) := by
      intro s member
      have held := List.mk_mem_zipIdx_iff_getElem?.mp member
      obtain ⟨bound, same⟩ := List.getElem?_eq_some_iff.mp held
      simp only [Loopback.stretch, List.length_map, List.length_range, List.getElem_map, List.getElem_range] at bound same
      exact ⟨bound, same.symm⟩
    obtain ⟨fits', sent⟩ := fits.hear near far (Loopback.stretch (loop.ret j) time frames).zipIdx
      fun s member => by have := (inside s member).1; omega
    obtain ⟨heardRest, sent'⟩ := ih fits' (by rw [sent]; exact near) (by rw [sent]; exact far)
    have here : ∀ t, (∃ s ∈ (Loopback.stretch (loop.ret j) time frames).zipIdx, isLoud s.1 = true ∧ t = time + s.2) ↔
        time ≤ t ∧ t < time + frames ∧ isLoud (loop.ret j t) = true := by
      intro t
      constructor
      · rintro ⟨s, member, loud, rfl⟩
        obtain ⟨bound, same⟩ := inside s member
        exact ⟨by omega, by omega, same ▸ loud⟩
      · rintro ⟨low, high, loud⟩
        refine ⟨(loop.ret j t, t - time), ?_, loud, by omega⟩
        apply List.mk_mem_zipIdx_iff_getElem?.mpr
        have bound : t - time < frames := by omega
        simp [Loopback.stretch, bound, Nat.add_sub_cancel' low]
    refine ⟨heardRest.congr fun t => ?_, sent'.trans sent⟩
    rw [here, or_assoc]
    simp only [List.mem_cons, exists_eq_or_imp]

/-- The emit of a segment, if there is one. -/
theorem Exact.emits (exact : Exact loop m) (some : 0 < loop.hilRx) {frames : ℕ}
    (far : m.time + frames ≤ 2 ^ 64 - 1) :
    LatencyProbe.Heard (fun t => t < m.time ∧ anyLoud loop.hilRx loop.ret t = true)
        ((loop.emit m.time frames).elim m.probe fun i => m.probe.emitted (saturatingAdd m.time i)) ∧
      IsFirst (anyLoud loop.hilTx loop.out) m.since (m.time + frames)
        ((loop.emit m.time frames).elim m.probe fun i => m.probe.emitted (saturatingAdd m.time i)).emittedAt := by
  have first := (exact.sent some).append (emit_first loop m.time frames) exact.begun (Nat.le_add_right _ _)
  cases found : loop.emit m.time frames with
  | none =>
    rw [found, Option.map_none, Option.or_none] at first
    exact ⟨exact.heard, first⟩
  | some i =>
    have here := (emit_first loop m.time frames).there (m.time + i) (by rw [found]; rfl)
    have time : saturatingAdd m.time i = m.time + i := Nat.min_eq_left (by omega)
    rw [found] at first
    simp only [Option.elim_some, time]
    refine ⟨exact.heard.emitted (fun t before => by omega) (by omega), ?_⟩
    rw [LatencyProbe.emitted_at]
    exact first

theorem Exact.step (exact : Exact loop m) (event : ProbeEvent) (fed : event.Fed loop.hilRx)
    (far : (loop.step m event).time + minRoundTrip ≤ 2 ^ 64 - 1) : Exact loop (loop.step m event) := by
  cases event with
  | start =>
    constructor
    case begun => exact le_rfl
    case heard => exact exact.heard.reset
    case shut => exact fun _ => rfl
    case sent => exact fun _ => ⟨by simp [Loopback.step, LatencyProbe.reset], fun _ t low high => absurd high (not_lt.mpr low)⟩
  | segment frames order =>
    obtain ⟨short, perm⟩ := fed
    simp only [Loopback.step] at far
    unfold Loopback.step Loopback.probeLatency
    simp only
    by_cases none : loop.hilRx = 0
    · rw [if_pos none]
      have silent : ∀ t, anyLoud loop.hilRx loop.ret t = false := by simp [anyLoud, none]
      refine ⟨exact.begun.trans (Nat.le_add_right _ _), exact.heard.congr fun t => ?_, exact.shut, fun some => ?_⟩
      · simp [silent]
      · omega
    · rw [if_neg none]
      obtain ⟨fits, first⟩ := exact.emits (Nat.pos_of_ne_zero none) (show m.time + frames ≤ 2 ^ 64 - 1 by omega)
      generalize (loop.emit m.time frames).elim m.probe (fun i => m.probe.emitted (saturatingAdd m.time i)) = p at *
      have before : ∀ e ∈ p.emittedAt, e < m.time + frames := fun e held => (first.there e held).2.1
      obtain ⟨heardAll, sent⟩ := fed_returns fits
        (fun e held => by have := before e held; simp only [seg, quietBefore] at *; omega)
        (fun e held => by have := before e held; omega) (show m.time + frames ≤ 2 ^ 64 - 1 by omega) order
      refine ⟨exact.begun.trans (Nat.le_add_right _ _), heardAll.congr fun t => ?_, fun zero => absurd zero none,
        fun _ => by rw [sent]; exact first⟩
      have here : (∃ j ∈ order, m.time ≤ t ∧ t < m.time + frames ∧ isLoud (loop.ret j t) = true) ↔
          m.time ≤ t ∧ t < m.time + frames ∧ anyLoud loop.hilRx loop.ret t = true := by
        simp only [anyLoud, List.any_eq_true, ← perm.mem_iff]
        constructor
        · rintro ⟨j, member, low, high, loud⟩
          exact ⟨low, high, j, member, loud⟩
        · rintro ⟨low, high, j, member, loud⟩
          exact ⟨j, member, low, high, loud⟩
      rw [here]
      constructor
      · rintro (⟨early, loud⟩ | ⟨-, late, loud⟩)
        · exact ⟨show t < m.time + frames by omega, loud⟩
        · exact ⟨late, loud⟩
      · rintro ⟨late, loud⟩
        rcases Nat.lt_or_ge t m.time with before | after
        · exact .inl ⟨before, loud⟩
        · exact .inr ⟨after, late, loud⟩

/-- The reading. -/
theorem Exact.reads (exact : Exact loop m) :
    m.probe.samples = measured (anyLoud loop.hilTx loop.out) (anyLoud loop.hilRx loop.ret) m.since m.time := by
  have emit := firstLoud_first (anyLoud loop.hilTx loop.out) m.since m.time
  have echo := firstLoud_first (anyLoud loop.hilRx loop.ret)
  unfold measured
  rcases Nat.eq_zero_or_pos loop.hilRx with none | some
  · -- without a return nothing is measured
    have silent : ∀ t, anyLoud loop.hilRx loop.ret t = false := by simp [anyLoud, none]
    have unmeasured : m.probe.samples = .none := by
      simp only [LatencyProbe.samples, exact.shut none]
    rw [unmeasured]
    cases firstLoud (anyLoud loop.hilTx loop.out) m.since m.time with
    | none => rfl
    | some e =>
      have nothing : firstLoud (anyLoud loop.hilRx loop.ret) (e + minRoundTrip) m.time = .none :=
        (echo _ _).unique ⟨by simp, fun _ t _ _ => silent t⟩
      simp [nothing, silent]
  · have sent := (exact.sent some).unique emit
    rw [← sent]
    cases running : m.probe.emittedAt with
    | none => simp [LatencyProbe.samples, running]
    | some e =>
      have judged := exact.heard.spoiled e running
      rw [Option.bind_some]
      have asked : ((List.range m.time).any fun t => anyLoud loop.hilRx loop.ret t && decide (e ≤ t + quietBefore) &&
          decide (t < e + minRoundTrip)) = m.probe.spoiled := by
        rw [Bool.eq_iff_iff, judged]
        simp only [List.any_eq_true, List.mem_range, Bool.and_eq_true, decide_eq_true_eq, and_assoc]
      rw [asked]
      cases spoilt : m.probe.spoiled with
      | true => simp only [LatencyProbe.samples, running, exact.heard.unread spoilt, if_true]
      | false =>
        have first : IsFirst (anyLoud loop.hilRx loop.ret) (e + minRoundTrip) m.time m.probe.arrivedAt := by
          constructor
          · intro a read
            obtain ⟨⟨early, loud⟩, late, least⟩ := exact.heard.arrived a read e running
            refine ⟨late, early, loud, fun s low less => Bool.eq_false_iff.mpr fun sounds => ?_⟩
            exact absurd (least s ⟨less.trans early, sounds⟩ low) (not_le.mpr less)
          · intro unread t low high
            refine Bool.eq_false_iff.mpr fun sounds => ?_
            exact absurd (exact.heard.waiting unread spoilt e running t ⟨high, sounds⟩) (not_lt.mpr low)
        rw [← first.unique (echo _ _)]
        simp only [LatencyProbe.samples, running, Bool.false_eq_true, if_false]
        cases read : m.probe.arrivedAt with
        | none => rfl
        | some a =>
          have late := (first.there a read).1
          have after : e ≤ a := by omega
          simp only [after, if_true, Option.map_some]

theorem time_le (loop : Loopback) (events : List ProbeEvent) (m : Measuring) :
    m.time ≤ (events.foldl loop.step m).time := by
  induction events generalizing m with
  | nil => exact le_rfl
  | cons event rest ih =>
    have one : m.time ≤ (loop.step m event).time := by
      cases event with
      | start => exact le_rfl
      | segment frames order => exact Nat.le_add_right _ _
    exact one.trans (ih _)

theorem run_exact (events : List ProbeEvent) (fed : ∀ event ∈ events, event.Fed loop.hilRx)
    (far : (loop.run events).time + minRoundTrip ≤ 2 ^ 64 - 1) : Exact loop (loop.run events) := by
  have run : ∀ m, Exact loop m → (events.foldl loop.step m).time + minRoundTrip ≤ 2 ^ 64 - 1 →
      Exact loop (events.foldl loop.step m) := by
    clear far
    induction events with
    | nil => exact fun _ exact _ => exact
    | cons event rest ih =>
      intro m exact far
      have soon := time_le loop rest (loop.step m event)
      rw [List.foldl_cons] at far ⊢
      refine ih (fun event member => fed event (List.mem_cons_of_mem _ member)) _ (exact.step event ?_ (by omega)) far
      exact fed event List.mem_cons_self
  exact run _ (exact_new loop) far

/-- **The probe is exact.** For any returns and any run of test signals and segments, what is
reported after a segment is what the samples so far tell of the run that began last, so the same
samples give the same report however they were cut and ordered. -/
theorem probe_exact (loop : Loopback) (events : List ProbeEvent) (fed : ∀ event ∈ events, event.Fed loop.hilRx)
    (far : (loop.run events).time + minRoundTrip ≤ 2 ^ 64 - 1) :
    (loop.run events).probe.samples = measured (anyLoud loop.hilTx loop.out) (anyLoud loop.hilRx loop.ret)
        (loop.run events).since (loop.run events).time ∧
      ∀ events' : List ProbeEvent, (∀ event ∈ events', event.Fed loop.hilRx) →
        (loop.run events').since = (loop.run events).since → (loop.run events').time = (loop.run events).time →
        (loop.run events').probe.samples = (loop.run events).probe.samples := by
  have reads := (run_exact events fed far).reads
  refine ⟨reads, fun events' fed' since time => ?_⟩
  rw [reads, (run_exact events' fed' (time ▸ far)).reads, since, time]

/-- One return that carries the emit back 20 samples later. -/
def echoing : Loopback where
  hilTx := 1
  hilRx := 1
  out _ t := if t = 3 then .fin 1 else .fin 0
  ret _ t := if t = 23 then .fin 1 else .fin 0

theorem probe_exact_echo : (echoing.run [.start, .segment 10 [0], .segment 30 [0]]).probe.samples = some 20 := by
  have fed : ∀ event ∈ ([.start, .segment 10 [0], .segment 30 [0]] : List ProbeEvent), event.Fed 1 := by
    simp [ProbeEvent.Fed, seg]
  rw [(probe_exact echoing [.start, .segment 10 [0], .segment 30 [0]] fed (by decide)).1]
  decide +kernel

end IemMixer.Rt
