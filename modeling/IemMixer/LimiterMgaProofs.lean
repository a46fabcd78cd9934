import IemMixer.LimiterMga

/-! The limiter keeps its ceiling and holds its peaks: what it lets through is at most the
limit in force, and a peak holds the gain down for half a hold at least. -/
namespace IemMixer.LimiterMga
open Lib Elementary

section
variable {K : Type} [Field K] [LinearOrder K] [IsStrictOrderedRing K] [FloorSemiring K]

/-- A timer as far in its cycle as a window `age` values old. -/
structure Timer (hold t : K) (age : ℕ) : Prop where
  begun : (⌊hold⌋₊ : K) ≤ hold - (t - age)
  ends : hold - (t - age) < ⌊hold⌋₊ + 1

theorem Timer.spent {hold t : K} {age : ℕ} (timer : Timer hold t age) : hold < t + 1 ↔ ¬ age + 1 ≤ ⌊hold⌋₊ := by
  rw [Nat.not_le]
  have begun := timer.begun
  have ends := timer.ends
  constructor
  · intro past
    have : ((⌊hold⌋₊ : ℕ) : K) < ((age + 1 : ℕ) : K) := by push_cast; linarith
    exact_mod_cast this
  · intro past
    have : ((⌊hold⌋₊ + 1 : ℕ) : K) ≤ ((age + 1 : ℕ) : K) := by exact_mod_cast past
    push_cast at this
    linarith

omit [IsStrictOrderedRing K] in
theorem Timer.restart {hold : K} (nonneg : 0 ≤ hold) : Timer hold 0 0 where
  begun := by simpa using Nat.floor_le nonneg
  ends := by simpa using Nat.lt_floor_add_one hold

theorem Timer.tick {hold t : K} {age : ℕ} (timer : Timer hold t age) : Timer hold (t + 1) (age + 1) where
  begun := by have := timer.begun; push_cast; linarith
  ends := by have := timer.ends; push_cast; linarith

/-- The second timer begins half a hold on. -/
theorem Timer.half {hold : K} (nonneg : 0 ≤ hold) : Timer hold (hold / 2) (⌊hold⌋₊ - ⌊hold / 2⌋₊) := by
  have le : ⌊hold / 2⌋₊ ≤ ⌊hold⌋₊ := Nat.floor_mono (by linarith)
  have low : (⌊hold / 2⌋₊ : K) ≤ hold / 2 := Nat.floor_le (by linarith)
  have high : hold / 2 < ⌊hold / 2⌋₊ + 1 := Nat.lt_floor_add_one _
  constructor
  · rw [Nat.cast_sub le]
    linarith
  · rw [Nat.cast_sub le]
    linarith

/-- Both windows know their part of `past`, the magnitudes heard, newest first; the second is
ahead by what half a hold leaves of a whole. -/
structure Channel.Holds (hold : K) (past : List K) (c : Channel K) (w v : Window K) : Prop where
  first : c.m1 = w.peak
  second : c.m2 = v.peak
  timer : Timer hold c.t1 w.age
  timer' : Timer hold c.t2 v.age
  knows : w.Knows ⌊hold⌋₊ past
  knows' : v.Knows ⌊hold⌋₊ past
  ahead : Window.Ahead ⌊hold⌋₊ (⌊hold⌋₊ - ⌊hold / 2⌋₊) w v

theorem Channel.new_holds {hold : K} (nonneg : 0 ≤ hold) :
    (Channel.new hold).Holds hold [] ⟨0, 0⟩ ⟨⌊hold⌋₊ - ⌊hold / 2⌋₊, 0⟩ where
  first := rfl
  second := rfl
  timer := by simpa [Channel.new] using Timer.restart nonneg
  timer' := Timer.half nonneg
  knows := ⟨Nat.zero_le _, by simp⟩
  knows' := ⟨Nat.sub_le _ _, by simp⟩
  ahead := .inl (by simp)

/-- One timer and its peak, against one window. -/
theorem window_turn {hold t m : K} {w : Window K} (nonneg : 0 ≤ hold) (timer : Timer hold t w.age) (peak : m = w.peak)
    (a : K) :
    Timer hold (if hold < t + 1 then 0 else t + 1) (w.push ⌊hold⌋₊ a).age ∧
      max (if hold < t + 1 then 0 else m) a = (w.push ⌊hold⌋₊ a).peak := by
  unfold Window.push
  by_cases young : w.age + 1 ≤ ⌊hold⌋₊
  · rw [if_neg (timer.spent.not.mpr (not_not.mpr young)), if_neg (timer.spent.not.mpr (not_not.mpr young)), if_pos young]
    exact ⟨timer.tick, by rw [peak]⟩
  · rw [if_pos (timer.spent.mpr young), if_pos (timer.spent.mpr young), if_neg young]
    exact ⟨by simpa using Timer.restart nonneg, rfl⟩

omit [IsStrictOrderedRing K] [FloorSemiring K] in
theorem Channel.heldPeak_eq (c : Channel K) (x hold : K) : c.heldPeak x hold =
    (⟨if hold < c.t1 + 1 then 0 else c.t1 + 1, if hold < c.t2 + 1 then 0 else c.t2 + 1,
        max (if hold < c.t1 + 1 then 0 else c.m1) |x|, max (if hold < c.t2 + 1 then 0 else c.m2) |x|, c.env⟩,
      max (max (if hold < c.t1 + 1 then 0 else c.m1) |x|) (max (if hold < c.t2 + 1 then 0 else c.m2) |x|)) := by
  unfold heldPeak
  by_cases spent : hold < c.t1 + 1 <;> by_cases spent' : hold < c.t2 + 1 <;> simp [spent, spent']

theorem Channel.heldPeak_holds {hold : K} {past : List K} {c : Channel K} {w v : Window K} (nonneg : 0 ≤ hold)
    (holds : c.Holds hold past w v) (x : K) :
    (c.heldPeak x hold).1.Holds hold (|x| :: past) (w.push ⌊hold⌋₊ |x|) (v.push ⌊hold⌋₊ |x|) := by
  obtain ⟨timer, peak⟩ := window_turn nonneg holds.timer holds.first |x|
  obtain ⟨timer', peak'⟩ := window_turn nonneg holds.timer' holds.second |x|
  rw [heldPeak_eq]
  constructor
  case first => exact peak
  case second => exact peak'
  case timer => exact timer
  case timer' => exact timer'
  case knows => exact holds.knows.push _
  case knows' => exact holds.knows'.push _
  case ahead => exact holds.ahead.push (Nat.sub_le _ _) holds.knows.young holds.knows'.young _

/-- The channel after the magnitudes of `past`, newest first. -/
def Channel.After (hold : K) (past : List K) (c : Channel K) : Prop := ∃ w v, c.Holds hold past w v

theorem Channel.After.held_between {hold : K} {past : List K} {c : Channel K} (after : c.After hold past) :
    largest (past.take ⌊hold / 2⌋₊) ≤ c.held ∧ c.held ≤ largest (past.take (⌊hold⌋₊ + 1)) := by
  obtain ⟨w, v, holds⟩ := after
  obtain ⟨low, high⟩ := holds.ahead.covers holds.knows holds.knows'
  rw [← holds.first, ← holds.second] at low high
  refine ⟨(largest_take_mono past ?_).trans low, high⟩
  -- Twice the half is at most the whole.
  have twice : ⌊hold / 2⌋₊ + ⌊hold / 2⌋₊ ≤ ⌊hold⌋₊ := by
    rcases le_or_gt 0 hold with nonneg | neg
    · apply Nat.le_floor
      have := Nat.floor_le (show 0 ≤ hold / 2 by linarith)
      push_cast
      linarith
    · rw [Nat.floor_of_nonpos (show hold / 2 ≤ 0 by linarith)]
      exact Nat.zero_le _
  omega

/-- The gain holds every magnitude up to the peak under the threshold, and moves nothing but the envelope. -/
theorem Channel.gain_spec (c : Channel K) (peak : K) {r thresh : K} (release : 0 ≤ r) (pos : 0 < thresh) :
    0 ≤ (c.gain peak r thresh).2 ∧ (∀ a, 0 ≤ a → a ≤ peak → (c.gain peak r thresh).2 * a ≤ thresh) ∧
      ∃ env, (c.gain peak r thresh).1 = { c with env } := by
  unfold gain
  simp only
  have above : peak ≤ if c.env < peak then peak else peak + r * (c.env - peak) := by
    split
    · exact le_rfl
    · rename_i low
      linarith [mul_nonneg release (sub_nonneg.mpr (not_lt.mp low))]
  generalize (if c.env < peak then peak else peak + r * (c.env - peak)) = env at above
  refine ⟨?_, fun a nonneg le => ?_, _, rfl⟩
  · split
    · rename_i loud
      exact div_nonneg pos.le (pos.trans loud).le
    · exact zero_le_one
  · split
    · rename_i loud
      calc thresh / env * a ≤ thresh / env * env :=
            mul_le_mul_of_nonneg_left (le.trans above) (div_nonneg pos.le (pos.trans loud).le)
        _ = thresh := div_mul_cancel₀ _ (pos.trans loud).ne'
    · rename_i quiet
      rw [one_mul]
      exact (le.trans above).trans (not_lt.mp quiet)

omit [IsStrictOrderedRing K] in
/-- Whatever becomes of the envelope, the windows are the windows. -/
theorem Channel.After.envelope {hold : K} {past : List K} {c : Channel K} (after : c.After hold past) (env : K) :
    ({ c with env } : Channel K).After hold past := by
  obtain ⟨w, v, holds⟩ := after
  exact ⟨w, v, { holds with }⟩

theorem Channel.After.heldPeak {hold : K} {past : List K} {c : Channel K} (nonneg : 0 ≤ hold) (after : c.After hold past)
    (x : K) : (c.heldPeak x hold).1.After hold (|x| :: past) := by
  obtain ⟨w, v, holds⟩ := after
  exact ⟨_, _, heldPeak_holds nonneg holds x⟩

omit [IsStrictOrderedRing K] [FloorSemiring K] in
theorem Channel.heldPeak_held (c : Channel K) (x hold : K) : (c.heldPeak x hold).2 = (c.heldPeak x hold).1.held := by
  rw [heldPeak_eq]
  rfl

omit [IsStrictOrderedRing K] [FloorSemiring K] in
/-- Each side of the detector is its channel's held peak, some envelope and that channel's gain. -/
theorem Mga.detect_side (m : Mga K) (x : K × K) (side : Side) :
    let held := (m.channel side).heldPeak (side.of x) m.hold
    ∃ env : K, (m.detect x.1 x.2).1.channel side = (({ held.1 with env } : Channel K).gain held.2 m.r m.thresh).1 ∧
      side.of (m.detect x.1 x.2).2 = (({ held.1 with env } : Channel K).gain held.2 m.r m.thresh).2 := by
  cases side with
  | left => exact ⟨_, rfl, rfl⟩
  | right => exact ⟨_, rfl, rfl⟩

/-- One frame at a side: the windows take it, and the gain holds down what they hold. -/
theorem Mga.detect_spec {m : Mga K} {past : List K} {side : Side} (nonneg : 0 ≤ m.hold) (release : 0 ≤ m.r)
    (pos : 0 < m.thresh) (after : (m.channel side).After m.hold past) (x : K × K) :
    ((m.detect x.1 x.2).1.channel side).After m.hold (|side.of x| :: past) ∧ 0 ≤ side.of (m.detect x.1 x.2).2 ∧
      ∀ a, 0 ≤ a → a ≤ ((m.detect x.1 x.2).1.channel side).held → side.of (m.detect x.1 x.2).2 * a ≤ m.thresh := by
  obtain ⟨env, channel, gain⟩ := m.detect_side x side
  have windows := after.heldPeak nonneg (side.of x)
  have peak := (m.channel side).heldPeak_held (side.of x) m.hold
  generalize (m.channel side).heldPeak (side.of x) m.hold = held at channel gain windows peak
  obtain ⟨low, limited, env', moved⟩ :=
    ({ held.1 with env } : Channel K).gain_spec held.2 release pos
  rw [channel, gain, moved]
  refine ⟨(windows.envelope env).envelope env', low, fun a sign le => limited a sign ?_⟩
  rw [peak]
  exact le

end

section
variable {K : Type} [Field K] [LinearOrder K] [IsStrictOrderedRing K] [FloorSemiring K] [Elementary K]

/-- The limiter after the frames of `heard`, newest first. -/
structure Limiter.Fit (hold : K) (heard : List (K × K)) (l : Limiter K) : Prop where
  span : l.mga.hold = hold
  release : 0 ≤ l.mga.r
  thresh : l.mga.thresh = l.limit
  volume : l.mga.volume = 1
  hears : ∀ side, (l.mga.channel side).After hold (heard.map fun x => |side.of x|)
  wet : l.enabled = true → l.fade = l.fadeLen
  long : 1 ≤ l.fadeLen

/-- What is promised of a frame, at each side. -/
structure Sample.Limits (hold : K) (s : Sample K) (side : Side) : Prop where
  ceiling : s.after.enabled = true → |side.of s.output| ≤ s.after.limit
  dry : s.after.enabled = false → s.after.fade = 0 → side.of s.output = side.of s.input
  least : largest ((s.past side).take ⌊hold / 2⌋₊) ≤ (s.after.mga.channel side).held
  most : (s.after.mga.channel side).held ≤ largest ((s.past side).take (⌊hold⌋₊ + 1))
  slow : ∀ a ∈ (s.past side).take ⌊hold / 2⌋₊, side.of s.gains * a ≤ s.after.limit

omit [IsStrictOrderedRing K] [FloorSemiring K] [Elementary K] in
/-- The limiter after a frame, but for the count of the active samples. -/
theorem Limiter.frame_after (l : Limiter K) (x : K × K) : ∃ active,
    (l.frame x.1 x.2).1 = { l with
      mga := (l.mga.detect x.1 x.2).1, fade := if l.enabled then l.fade else l.fade - 1, active } := by
  unfold frame Mga.tick
  simp only
  cases l.enabled <;> simp only [Bool.false_eq_true, if_true, if_false]
  · split <;> exact ⟨_, rfl⟩
  · split <;> split <;> exact ⟨_, rfl⟩

omit [IsStrictOrderedRing K] [FloorSemiring K] [Elementary K] in
/-- What a limiter in full puts out at a side. -/
theorem Limiter.frame_wet (l : Limiter K) (x : K × K) (side : Side)
    (full : (l.frame x.1 x.2).1.fade = (l.frame x.1 x.2).1.fadeLen) :
    side.of (l.frame x.1 x.2).2 = side.of x * (side.of (l.mga.detect x.1 x.2).2 * l.mga.volume) := by
  have volume : (l.mga.detect x.1 x.2).1.volume = l.mga.volume := rfl
  unfold frame Mga.tick at *
  simp only at *
  generalize (if l.enabled = true then _ else _ : Limiter K) = next at *
  by_cases whole : next.fade = next.fadeLen
  · rw [if_pos whole, volume]
    cases side <;> rfl
  · rw [if_neg whole] at full
    exact absurd full whole

omit [IsStrictOrderedRing K] [FloorSemiring K] [Elementary K] in
/-- What one with none of its fade left puts out. -/
theorem Limiter.frame_dry (l : Limiter K) (x : K × K) (side : Side)
    (none : (l.frame x.1 x.2).1.fade = 0) (some : 1 ≤ (l.frame x.1 x.2).1.fadeLen) :
    side.of (l.frame x.1 x.2).2 = side.of x := by
  unfold frame Mga.tick at *
  simp only at *
  generalize (if l.enabled = true then _ else _ : Limiter K) = next at *
  by_cases whole : next.fade = next.fadeLen
  · rw [if_pos whole] at none some
    simp only at none some
    omega
  · rw [if_neg whole] at none ⊢
    simp only at none
    simp only [none, Nat.cast_zero, zero_div, zero_mul, add_zero]

omit [IsStrictOrderedRing K] in
theorem Limiter.Fit.setEnabled {hold : K} {heard : List (K × K)} {l : Limiter K} (fit : l.Fit hold heard) (on : Bool) :
    (l.setEnabled on).Fit hold heard := by
  constructor
  case span => exact fit.span
  case release => exact fit.release
  case thresh => exact fit.thresh
  case volume => exact fit.volume
  case hears => exact fit.hears
  case wet =>
    intro enabled
    exact if_pos enabled
  case long => exact fit.long

section
variable (exp_nonneg : ∀ x : K, 0 ≤ exp x) (pow10_pos : ∀ x : K, 0 < pow10 x) {hold : K}
include pow10_pos

/-- A frame through a limiter, whatever went before. -/
theorem Limiter.Fit.sample {heard : List (K × K)} {l : Limiter K} (long : 2 ≤ hold) (fit : l.Fit hold heard) (x : K × K) :
    (l.sample heard x).after.Fit hold (x :: heard) ∧ ∀ side, (l.sample heard x).Limits hold side := by
  obtain ⟨active, after⟩ := l.frame_after x
  have same : (l.sample heard x).after = { l with
      mga := (l.mga.detect x.1 x.2).1, fade := if l.enabled then l.fade else l.fade - 1, active } := after
  have pos : 0 < l.mga.thresh := fit.thresh ▸ pow10_pos _
  have nonneg : 0 ≤ hold := zero_le_two.trans long
  have spec := fun side => Mga.detect_spec (fit.span ▸ nonneg) fit.release pos (fit.span ▸ fit.hears side) x
  have limit : (l.sample heard x).after.limit = l.mga.thresh := by
    rw [fit.thresh, same]
    rfl
  have channel : ∀ side, (l.sample heard x).after.mga.channel side = (l.mga.detect x.1 x.2).1.channel side := by
    intro side
    rw [same]
  have hears : ∀ side, ((l.sample heard x).after.mga.channel side).After hold ((l.sample heard x).past side) := by
    intro side
    rw [channel]
    exact fit.span ▸ (spec side).1
  have wet : (l.sample heard x).after.enabled = true →
      (l.sample heard x).after.fade = (l.sample heard x).after.fadeLen := by
    rw [same]
    intro on
    simp only at on ⊢
    rw [if_pos on, fit.wet on]
  constructor
  · constructor
    case span => rw [same]; exact fit.span
    case release => rw [same]; exact fit.release
    case thresh => rw [limit, same]; rfl
    case volume => rw [same]; exact fit.volume
    case hears => exact hears
    case wet => exact wet
    case long => rw [same]; exact fit.long
  · intro side
    obtain ⟨least, most⟩ := (hears side).held_between
    obtain ⟨-, sign, limited⟩ := spec side
    have slow : ∀ a ∈ ((l.sample heard x).past side).take ⌊hold / 2⌋₊,
        side.of (l.mga.detect x.1 x.2).2 * a ≤ l.mga.thresh := by
      intro a member
      apply limited a
      · obtain ⟨y, -, rfl⟩ := List.mem_map.mp (List.mem_of_mem_take member)
        exact abs_nonneg _
      · rw [← channel]
        exact (le_largest member).trans least
    constructor
    case ceiling =>
      intro on
      have output := l.frame_wet x side (wet on)
      -- Half a hold is a sample at least, so the gain holds down this one.
      have half : 0 < ⌊hold / 2⌋₊ := Nat.floor_pos.mpr (by linarith)
      have newest := slow |side.of x| (by
        obtain ⟨n, succ⟩ := Nat.exists_eq_succ_of_ne_zero half.ne'
        rw [succ]
        exact List.mem_cons_self)
      calc |side.of (l.frame x.1 x.2).2| = side.of (l.mga.detect x.1 x.2).2 * |side.of x| := by
            rw [output, fit.volume, mul_one, abs_mul, abs_of_nonneg sign, mul_comm]
        _ ≤ l.mga.thresh := newest
        _ = (l.sample heard x).after.limit := limit.symm
    case dry =>
      intro _ none
      exact l.frame_dry x side none (by rw [after]; exact fit.long)
    case least => exact least
    case most => exact most
    case slow => exact fun a member => limit ▸ slow a member

include exp_nonneg

omit [IsStrictOrderedRing K] [FloorSemiring K] in
theorem Mga.setSliders_fit (m : Mga K) (sampleRate limitDb : K) :
    0 ≤ (m.setSliders sampleRate (productSliders limitDb)).r ∧
      (m.setSliders sampleRate (productSliders limitDb)).thresh = pow10 (limitDb / 20) ∧
      (m.setSliders sampleRate (productSliders limitDb)).volume = 1 :=
  ⟨exp_nonneg _, rfl, div_self (pow10_pos _).ne'⟩

omit [IsStrictOrderedRing K] in
theorem Limiter.Fit.setLimitDb {heard : List (K × K)} {l : Limiter K} (fit : l.Fit hold heard) (db : Option K) :
    (l.setLimitDb db).Fit hold heard := by
  obtain ⟨release, thresh, volume⟩ := l.mga.setSliders_fit exp_nonneg pow10_pos l.sampleRate (clampLimit db)
  constructor
  case span => exact fit.span
  case release => exact release
  case thresh => exact thresh
  case volume => exact volume
  case hears => exact fun side => by cases side <;> [exact fit.hears .left; exact fit.hears .right]
  case wet => exact fit.wet
  case long => exact fit.long

theorem Limiter.new_fit {sampleRate : K} (nonneg : 0 ≤ sampleRate / 128) (limitDb : Option K) :
    (Limiter.new sampleRate limitDb).Fit (sampleRate / 128) [] := by
  obtain ⟨release, thresh, volume⟩ := Mga.setSliders_fit exp_nonneg pow10_pos
    { hold := sampleRate / 128, thresh := 1, volume := 1, r := 0, link := 0, left := .new (sampleRate / 128),
      right := .new (sampleRate / 128), grMeter := 1, grDecay := exp (1 / sampleRate) } sampleRate (clampLimit limitDb)
  constructor
  case span => rfl
  case release => exact release
  case thresh => exact thresh
  case volume => exact volume
  case hears => exact fun side => by cases side <;> exact ⟨_, _, Channel.new_holds nonneg⟩
  case wet => exact fun _ => rfl
  case long => exact le_max_right _ _

end

omit [IsStrictOrderedRing K] [FloorSemiring K] [Elementary K] in
/-- While disabled the fade runs out, a sample at a time. -/
theorem Limiter.process_fade (l : Limiter K) (off : l.enabled = false) (left right : List K) :
    (l.process left right).1.fade = l.fade - min left.length right.length := by
  induction left generalizing l right with
  | nil => simp [process]
  | cons xl left ih =>
    cases right with
    | nil => simp [process]
    | cons xr right =>
      obtain ⟨active, after⟩ := l.frame_after (xl, xr)
      simp only at after
      have later := ih (l.frame xl xr).1 (by rw [after]; exact off) right
      simp only [process, later, List.length_cons]
      rw [after]
      simp only [off, Bool.false_eq_true, if_false]
      omega

omit [IsStrictOrderedRing K] [FloorSemiring K] [Elementary K] in
/-- A block comes back with the outputs of its frames. -/
theorem Limiter.samples_given (l : Limiter K) (heard : List (K × K)) (left right : List K) :
    (l.samples heard (left.zip right)).map (·.output) = (l.process left right).2.1.zip (l.process left right).2.2 ∧
      (l.samples heard (left.zip right)).map (·.input) = left.zip right := by
  induction left generalizing l heard right with
  | nil => simp [process, samples]
  | cons xl left ih =>
    cases right with
    | nil => simp [process, samples]
    | cons xr right =>
      obtain ⟨outputs, inputs⟩ := ih (l.frame xl xr).1 ((xl, xr) :: heard) right
      simp only [process, List.zip_cons_cons, samples, sample, List.map_cons]
      exact ⟨congrArg _ outputs, congrArg _ inputs⟩

omit [IsStrictOrderedRing K] [FloorSemiring K] in
/-- The frames of a sequence of calls are what went in and what came back. -/
theorem Limiter.run_given (l : Limiter K) (heard : List (K × K)) (calls : List (Call K)) :
    (l.run heard calls).map (·.output) = l.outputs calls ∧
      (l.run heard calls).map (·.input) = calls.flatMap Call.frames := by
  induction calls generalizing l heard with
  | nil => exact ⟨rfl, rfl⟩
  | cons call calls ih =>
    cases call with
    | setLimitDb db => exact ih _ heard
    | setEnabled on => exact ih _ heard
    | process left right =>
      obtain ⟨outputs, inputs⟩ := l.samples_given heard left right
      obtain ⟨later, after⟩ := ih (l.process left right).1 ((left.zip right).reverse ++ heard)
      simp only [run, List.map_append, outputs, later, inputs, after]
      exact ⟨rfl, rfl⟩

section
variable (exp_nonneg : ∀ x : K, 0 ≤ exp x) (pow10_pos : ∀ x : K, 0 < pow10 x) {hold : K} (long : 2 ≤ hold)
include pow10_pos long

theorem Limiter.Fit.process {heard : List (K × K)} {l : Limiter K} (fit : l.Fit hold heard) (left right : List K) :
    (l.process left right).1.Fit hold ((left.zip right).reverse ++ heard) ∧
      ∀ s ∈ l.samples heard (left.zip right), ∀ side, s.Limits hold side := by
  induction left generalizing l heard right with
  | nil => exact ⟨by simpa [Limiter.process] using fit, fun s never => by cases never⟩
  | cons xl left ih =>
    cases right with
    | nil => exact ⟨by simpa [Limiter.process] using fit, fun s never => by cases never⟩
    | cons xr right =>
      obtain ⟨next, limits⟩ := fit.sample pow10_pos long (xl, xr)
      obtain ⟨last, later⟩ := ih next right
      rw [List.zip_cons_cons]
      constructor
      · rw [List.reverse_cons, List.append_assoc]
        exact last
      · intro s member
        rcases List.mem_cons.mp member with rfl | member
        · exact limits
        · exact later s member

include exp_nonneg

theorem Limiter.Fit.run {heard : List (K × K)} {l : Limiter K} (fit : l.Fit hold heard) (calls : List (Call K)) :
    ∀ s ∈ l.run heard calls, ∀ side, s.Limits hold side := by
  induction calls generalizing l heard with
  | nil => exact fun s never => by cases never
  | cons call calls ih =>
    cases call with
    | setLimitDb db => exact ih (fit.setLimitDb exp_nonneg pow10_pos db)
    | setEnabled on => exact ih (fit.setEnabled on)
    | process left right =>
      obtain ⟨after, limits⟩ := fit.process pow10_pos long left right
      intro s member
      rcases List.mem_append.mp member with here | later
      · exact limits s here
      · exact ih after s later

end

end

end IemMixer.LimiterMga
