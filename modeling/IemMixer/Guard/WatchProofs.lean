import IemMixer.Guard.FeedProofs
import IemMixer.Lib.Cumulative

/-! The guard against a device's history: a trip on requests is a run of reads that shows the loop, at
once and only then, and whatever bound trips was broken by what the device really did between the two
statuses, wherever in their reads they were taken. -/
namespace IemMixer.Guard
open Lib

variable {K : Type} [Field K] [LinearOrder K]

/-- A run of reads, newest first, that shows the loop in every pair, and the sample it began at. -/
inductive LoopRun (key : RequestKey) : List (Sample K) → Sample K → Prop where
  | pair {a s : Sample K} {earlier : List (Sample K)} (pair : Comparable a s) (looping : Looping key a s) :
      LoopRun key (s :: a :: earlier) a
  | more {a s first : Sample K} {earlier : List (Sample K)} (pair : Comparable a s) (looping : Looping key a s)
      (run : LoopRun key (a :: earlier) first) : LoopRun key (s :: a :: earlier) first

/-- A sample after the others, unless there is no time between it and the newest. -/
def keep (seen : List (Sample K)) (s : Sample K) : List (Sample K) :=
  match seen with
  | [] => [s]
  | a :: _ => if 0 < width a s then s :: seen else seen

/-- The samples of the reads that answered, newest first. -/
def seen (reads : List (Read K)) : List (Sample K) := (reads.filterMap Read.sample?).foldl keep []

/-- The reads follow one another. -/
structure InOrder (reads : List (Read K)) : Prop where
  forward : ∀ r ∈ reads, r.start ≤ r.stop
  ordered : reads.Pairwise fun r next => r.stop ≤ next.start

/-- The samples of such reads, newest first. -/
structure InTime (samples : List (Sample K)) : Prop where
  forward : ∀ s ∈ samples, 0 ≤ s.u
  ordered : samples.Pairwise fun s earlier => earlier.t + earlier.u ≤ s.t - s.u

theorem InTime.sublist {samples fewer : List (Sample K)} (inTime : InTime samples) (sublist : fewer.Sublist samples) :
    InTime fewer :=
  ⟨fun s member => inTime.forward s (sublist.subset member), inTime.ordered.sublist sublist⟩

variable {key : RequestKey} {a s first : Sample K} {earlier : List (Sample K)}

theorem LoopRun.newest (run : LoopRun key (s :: earlier) first) :
    ∃ a older, earlier = a :: older ∧ Comparable a s ∧ Looping key a s := by
  cases run with
  | pair pair looping => exact ⟨_, _, rfl, pair, looping⟩
  | more pair looping => exact ⟨_, _, rfl, pair, looping⟩

theorem LoopRun.mem (run : LoopRun key (s :: earlier) first) : first ∈ earlier := by
  generalize whole : s :: earlier = samples at run
  induction run generalizing s earlier with
  | pair =>
    obtain ⟨-, rfl⟩ := List.cons.inj whole
    exact List.mem_cons_self
  | more pair looping run ih =>
    obtain ⟨-, rfl⟩ := List.cons.inj whole
    exact List.mem_cons_of_mem _ (ih rfl)

section
variable [IsStrictOrderedRing K]

theorem LoopRun.counted (run : LoopRun key (s :: earlier) first) : s.count (.req key) ≠ 0 := by
  obtain ⟨a, older, rfl, pair, looping⟩ := run.newest
  exact looping.counted pair.apart

/-- Over a run the counts grow by more than the bound over the whole of its widest gap. -/
theorem LoopRun.grows (run : LoopRun key (s :: earlier) first) (inTime : InTime (s :: earlier)) :
    (requestRate : ℕ) * width first s < (s.count (.req key) : K) - first.count (.req key) := by
  generalize whole : s :: earlier = samples at run
  induction run generalizing s earlier with
  | pair pair looping =>
    obtain ⟨rfl, -⟩ := List.cons.inj whole
    exact looping
  | @more a s' first older pair looping run ih =>
    obtain ⟨rfl, rfl⟩ := List.cons.inj whole
    have later := ih (inTime.sublist (List.sublist_cons_self _ _)) rfl
    have wide : width first s ≤ width first a + width a s := by
      have forward := inTime.forward a (List.mem_cons_of_mem _ List.mem_cons_self)
      unfold width
      linarith
    have bound := mul_le_mul_of_nonneg_left wide (Nat.cast_nonneg (α := K) requestRate)
    rw [mul_add] at bound
    unfold Looping at looping
    linarith

theorem InTime.middles (inTime : InTime (s :: earlier)) {b : Sample K} (member : b ∈ earlier) : b.t ≤ s.t := by
  have order := (List.pairwise_cons.mp inTime.ordered).1 b member
  have forward := inTime.forward s List.mem_cons_self
  have forward' := inTime.forward b (List.mem_cons_of_mem _ member)
  linarith

/-- The guard's state after the samples seen: each key's run above the rate, and the recent ones. -/
structure Inv (w : Watch K) (seen : List (Sample K)) : Prop where
  last : w.last = seen.head?
  since : ∀ key t, w.overSince.lookup key = some t → ∃ first, LoopRun key seen first ∧ first.t = t
  began : ∀ key first, LoopRun key seen first → ∃ t, w.overSince.lookup key = some t ∧ t ≤ first.t
  recent : ∀ b ∈ w.recent, b ∈ seen

omit [IsStrictOrderedRing K] in
/-- Where a run that a new pair belongs to began, as the guard has it. -/
theorem Inv.run_since {w : Watch K} (inv : Inv w (a :: earlier)) (pair : Comparable a s) (looping : Looping key a s) :
    ∃ first, LoopRun key (s :: a :: earlier) first ∧ first.t = Dict.get w.overSince key a.t := by
  cases held : w.overSince.lookup key with
  | none => exact ⟨a, .pair pair looping, by rw [Dict.get, held]; rfl⟩
  | some t =>
    obtain ⟨first, run, same⟩ := inv.since key t held
    exact ⟨first, .more pair looping run, by rw [Dict.get, held, same]; rfl⟩

theorem Inv.since_le {w : Watch K} (inv : Inv w (a :: earlier)) (inTime : InTime (a :: earlier))
    (run : LoopRun key (s :: a :: earlier) first) : Dict.get w.overSince key a.t ≤ first.t := by
  cases run with
  | pair =>
    cases held : w.overSince.lookup key with
    | none =>
      rw [Dict.get, held]
      exact le_rfl
    | some t =>
      obtain ⟨first, run, same⟩ := inv.since key t held
      rw [Dict.get, held, Option.getD_some, ← same]
      exact inTime.middles run.mem
  | more pair looping run =>
    obtain ⟨t, held, before⟩ := inv.began key first run
    rwa [Dict.get, held]

theorem Inv.step [FloorRing K] {w w' : Watch K} {samples : List (Sample K)} (inv : Inv w samples)
    (inTime : InTime samples) (fed : Fed w s w' none) : Inv w' (keep samples s) := by
  cases samples with
  | nil =>
    have fresh : w.last = none := inv.last
    cases fed with
    | first fresh rate last overSince recent =>
      refine ⟨last, fun key t held => ?_, fun key first run => ?_, fun b member => ?_⟩
      · rw [overSince, AList.lookup_empty] at held
        cases held
      · cases run
      · rwa [recent] at member
    | still last => rw [fresh] at last; cases last
    | restarted before => rw [fresh] at before; cases before
    | quiet before => rw [fresh] at before; cases before
  | cons b earlier =>
    have held : w.last = some b := inv.last
    cases fed with
    | first fresh =>
      rw [held] at fresh
      cases fresh
    | still last together =>
      obtain rfl := Option.some.inj (held.symm.trans last)
      rw [keep, if_neg (not_lt.mpr together)]
      exact inv
    | restarted before apart back rate last overSince recent =>
      obtain rfl := Option.some.inj (held.symm.trans before)
      rw [keep, if_pos apart]
      obtain ⟨k, less⟩ := back
      refine ⟨last, fun key t held => ?_, fun key first run => ?_, fun b member => ?_⟩
      · rw [overSince, AList.lookup_empty] at held
        cases held
      · obtain ⟨c, older, same, pair, -⟩ := run.newest
        obtain ⟨rfl, -⟩ := List.cons.inj same
        exact absurd (pair.kept k) (not_le.mpr less)
      · rw [recent, List.mem_singleton] at member
        rw [member]
        exact List.mem_cons_self
    | quiet before pair calm rate last runs ended recent =>
      obtain rfl := Option.some.inj (held.symm.trans before)
      rw [keep, if_pos pair.apart]
      refine ⟨last, fun key t there => ?_, fun key first run => ?_, fun c member => ?_⟩
      · by_cases looping : Looping key b s
        · rw [runs key looping] at there
          obtain ⟨first, run, same⟩ := inv.run_since pair looping
          exact ⟨first, run, same.trans (Option.some.inj there)⟩
        · rcases ended key looping with gone | ⟨zero, same⟩
          · rw [gone] at there
            cases there
          · rw [same] at there
            obtain ⟨first, run, -⟩ := inv.since key t there
            exact absurd zero run.counted
      · obtain ⟨c, older, same, -, looping⟩ := run.newest
        obtain ⟨rfl, -⟩ := List.cons.inj same
        exact ⟨_, runs key looping, inv.since_le inTime run⟩
      · rcases recent c member with older | rfl
        · exact List.mem_cons_of_mem _ (inv.recent c older)
        · exact List.mem_cons_self

theorem sample_start (t0 t1 : K) (status : Status) : (sample t0 t1 status).t - (sample t0 t1 status).u = t0 := by
  simp only [sample]
  push_cast
  ring

theorem sample_stop (t0 t1 : K) (status : Status) : (sample t0 t1 status).t + (sample t0 t1 status).u = t1 := by
  simp only [sample]
  push_cast
  ring

omit [IsStrictOrderedRing K] in
theorem keep_sublist (samples : List (Sample K)) (s : Sample K) : (keep samples s).Sublist (s :: samples) := by
  cases samples with
  | nil => exact .refl _
  | cons a earlier =>
    rw [keep]
    split
    · exact .refl _
    · exact List.sublist_cons_self _ _

omit [IsStrictOrderedRing K] in
theorem kept_sublist (samples : List (Sample K)) : (samples.foldl keep []).Sublist samples.reverse := by
  induction samples using List.reverseRecOn with
  | nil => exact .refl _
  | append_singleton samples s ih =>
    rw [List.foldl_append, List.reverse_append, List.foldl_cons, List.foldl_nil]
    exact (keep_sublist _ s).trans (ih.cons_cons s)

theorem inTime_of_inOrder {reads : List (Read K)} (order : InOrder reads) :
    InTime (reads.filterMap Read.sample?).reverse := by
  have at_ {r : Read K} {s : Sample K} (answered : r.sample? = some s) : s.t - s.u = r.start ∧ s.t + s.u = r.stop := by
    obtain ⟨status, -, rfl⟩ := Option.map_eq_some_iff.mp answered
    exact ⟨sample_start _ _ _, sample_stop _ _ _⟩
  refine ⟨fun s member => ?_, ?_⟩
  · obtain ⟨r, member, answered⟩ := List.mem_filterMap.mp (List.mem_reverse.mp member)
    have forward := order.forward r member
    obtain ⟨from_, until_⟩ := at_ answered
    linarith
  · rw [List.pairwise_reverse, List.pairwise_filterMap]
    refine order.ordered.imp fun follows s answered next answered' => ?_
    rw [(at_ answered).2, (at_ answered').1]
    exact follows

/-- Reads without a trip leave the guard with every run it saw. -/
theorem run_inv [FloorRing K] {reads : List (Read K)} {w w' : Watch K} {kept : List (Sample K)} (inv : Inv w kept)
    (inTime : InTime ((reads.filterMap Read.sample?).reverse ++ kept)) (calm : w.run reads = (w', none)) :
    Inv w' ((reads.filterMap Read.sample?).foldl keep kept) ∧ w'.rate = w.rate := by
  induction reads generalizing w kept with
  | nil =>
    obtain ⟨rfl, -⟩ := Prod.mk.inj calm
    exact ⟨inv, rfl⟩
  | cons r later ih =>
    rw [Watch.run] at calm
    -- a line only clears the peaks
    have lined {w : Watch K} {kept : List (Sample K)} (inv : Inv w kept) (b : Bool) :
        Inv (if b then { w with peaks := .zero } else w) kept ∧
          (if b then { w with peaks := .zero } else w).rate = w.rate := by
      cases b
      · exact ⟨inv, rfl⟩
      · exact ⟨⟨inv.last, inv.since, inv.began, inv.recent⟩, rfl⟩
    cases answered : r.sample? with
    | none =>
      rw [List.filterMap_cons_none answered] at inTime ⊢
      simp only [answered] at calm
      obtain ⟨inv', same⟩ := lined inv r.line
      obtain ⟨after, rate⟩ := ih inv' inTime calm
      exact ⟨after, rate.trans same⟩
    | some s =>
      rw [List.filterMap_cons_some answered] at inTime ⊢
      simp only [answered] at calm
      have fed := feed_cases w s
      rcases result : w.feed s with ⟨w₁, _ | trip⟩
      · rw [result] at fed calm
        rw [List.reverse_cons, List.append_assoc] at inTime
        have stepped := inv.step
          (inTime.sublist ((List.sublist_cons_self _ _).trans (List.sublist_append_right _ _))) fed
        obtain ⟨inv', same⟩ := lined stepped r.line
        obtain ⟨after, rate⟩ := ih inv' (inTime.sublist ((keep_sublist kept s).append_left _)) calm
        exact ⟨after, rate.trans (same.trans fed.rate)⟩
      · rw [result] at calm
        cases calm

end

section
variable (history : CounterKey → Cumulative K)

/-- The status of `s` was taken at `instant`, within its read, and shows the device's counts there. -/
structure TakenAt (s : Sample K) (instant : K) : Prop where
  started : s.t - s.u ≤ instant
  ended : instant ≤ s.t + s.u
  shows : ∀ key, s.count key = (history key).shown instant

/-- What really happened between two statuses when a bound trips. -/
def Justified (rate : ℕ) (seen : List (Sample K)) (s : Sample K) : Trip K → Prop
  | .requests key _ _ => (∃ first, LoopRun key (s :: seen) first ∧ (sustainS : ℕ) ≤ s.t - first.t) ∧
      ∀ first, LoopRun key (s :: seen) first → ∀ τ₁ τ₂, TakenAt history first τ₁ → TakenAt history s τ₂ → τ₁ < τ₂ ∧
        (requestRate : ℕ) < (((history (.req key)).total τ₂ : K) - (history (.req key)).total τ₁) / (τ₂ - τ₁)
  | .flowRequests peer _ _ => ∃ a ∈ seen, ∀ τ₁ τ₂, TakenAt history a τ₁ → TakenAt history s τ₂ →
      τ₁ ≤ τ₂ ∧ τ₂ - τ₁ ≤ (flowSpanS : ℕ) ∧ (history (.sent peer)).total τ₁ + 2 ≤ (history (.sent peer)).total τ₂
  | .arcReads peer _ _ => ∃ a ∈ seen, ∀ τ₁ τ₂, TakenAt history a τ₁ → TakenAt history s τ₂ →
      τ₁ ≤ τ₂ ∧ τ₂ - τ₁ ≤ (flowSpanS : ℕ) ∧ (history (.arc peer)).total τ₁ + 2 ≤ (history (.arc peer)).total τ₂
  | .packets direction flow _ _ => ∃ a, seen.head? = some a ∧ ∀ fpp was now, 0 < fpp →
      (direction.flows a).lookup flow = some (fpp, was) → (direction.flows s).lookup flow = some (fpp, now) →
      ∀ τ₁ τ₂, TakenAt history a τ₁ → TakenAt history s τ₂ → τ₁ < τ₂ ∧
        packetMargin * (rate / fpp : K) <
          (((history (direction.key flow)).total τ₂ : K) - (history (direction.key flow)).total τ₁) / (τ₂ - τ₁)

variable {history}

/-- Between two statuses at least as much happened as the counts grew. -/
theorem TakenAt.grown {a s : Sample K} {τ₁ τ₂ : K} (one : TakenAt history a τ₁) (other : TakenAt history s τ₂)
    (order : τ₁ ≤ τ₂) (key : CounterKey) :
    s.count key + (history key).total τ₁ ≤ a.count key + (history key).total τ₂ := by
  have shown := (history key).shown_le order
  have grown := (history key).grows order
  rw [one.shows, other.shows]
  omega

variable [IsStrictOrderedRing K]

/-- Counts that grow by more than `bound` over the widest gap really grew by more than it. -/
theorem TakenAt.above {a s : Sample K} {τ₁ τ₂ bound : K} {key : CounterKey} (one : TakenAt history a τ₁)
    (other : TakenAt history s τ₂) (order : τ₁ ≤ τ₂) (positive : 0 ≤ bound)
    (grows : bound * width a s < (s.count key : K) - a.count key) :
    τ₁ < τ₂ ∧ bound < (((history key).total τ₂ : K) - (history key).total τ₁) / (τ₂ - τ₁) := by
  have wide : τ₂ - τ₁ ≤ width a s := by
    have started := one.started
    have ended := other.ended
    unfold width
    linarith
  have later : bound * (τ₂ - τ₁) < (s.count key : K) - a.count key :=
    (mul_le_mul_of_nonneg_left wide positive).trans_lt grows
  have grown : (s.count key : K) - a.count key ≤ (history key).total τ₂ - (history key).total τ₁ := by
    have grown := one.grown other order key
    have cast : (s.count key : K) + (history key).total τ₁ ≤ a.count key + (history key).total τ₂ := by
      exact_mod_cast grown
    linarith
  have strict : τ₁ < τ₂ := by
    refine order.lt_of_ne fun same => ?_
    subst same
    rw [other.shows, one.shows, sub_self, sub_self, mul_zero] at later
    exact lt_irrefl _ later
  refine ⟨strict, ?_⟩
  rw [lt_div_iff₀ (sub_pos.mpr strict)]
  linarith

omit [IsStrictOrderedRing K] in
theorem InTime.instants {s : Sample K} {earlier : List (Sample K)} (inTime : InTime (s :: earlier)) {a : Sample K}
    (member : a ∈ earlier) {τ₁ τ₂ : K} (one : TakenAt history a τ₁) (other : TakenAt history s τ₂) : τ₁ ≤ τ₂ :=
  one.ended.trans (((List.pairwise_cons.mp inTime.ordered).1 a member).trans other.started)

theorem InTime.within {s : Sample K} {earlier : List (Sample K)} (inTime : InTime (s :: earlier)) {a : Sample K}
    (member : a ∈ earlier) {key : CounterKey} (near : width a s ≤ (flowSpanS : ℕ))
    (more : a.count key + 2 ≤ s.count key)
    {τ₁ τ₂ : K} (one : TakenAt history a τ₁) (other : TakenAt history s τ₂) :
    τ₁ ≤ τ₂ ∧ τ₂ - τ₁ ≤ (flowSpanS : ℕ) ∧ (history key).total τ₁ + 2 ≤ (history key).total τ₂ := by
  have order := inTime.instants member one other
  have grown := one.grown other order key
  refine ⟨order, ?_, by omega⟩
  have started := one.started
  have ended := other.ended
  unfold width at near
  linarith

omit [LinearOrder K] [IsStrictOrderedRing K] in
/-- A flow that kept its packet size may send `rate / fpp` a second. -/
theorem perSecond_kept {fpp : ℕ} (positive : 0 < fpp) (rate : ℕ) : (perSecond rate fpp fpp : K) = rate / fpp := by
  simp [perSecond, positive]

omit [Field K] [LinearOrder K] [IsStrictOrderedRing K] in
theorem count_flow {direction : Direction} {s : Sample K} {flow fpp packets : ℕ}
    (held : (direction.flows s).lookup flow = some (fpp, packets)) : s.count (direction.key flow) = packets := by
  cases direction with
  | tx =>
    rw [Direction.flows] at held
    rw [Direction.key, Sample.count, Dict.get, held]
    rfl
  | rx =>
    rw [Direction.flows] at held
    rw [Direction.key, Sample.count, Dict.get, held]
    rfl

omit [IsStrictOrderedRing K] in
theorem inv_new (rate : ℕ) : Inv (Watch.new rate : Watch K) [] := by
  refine ⟨rfl, fun key t held => ?_, fun key first run => ?_, fun b member => ?_⟩
  · simp [Watch.new] at held
  · cases run
  · simp [Watch.new] at member

variable [FloorRing K]

/-- What the guard knows when the next read answers: every run it saw, in samples that follow one another. -/
theorem session_inv {rate : ℕ} {before : List (Read K)} {r : Read K} {s : Sample K} {w : Watch K}
    (order : InOrder (before ++ [r])) (calm : (Watch.new rate).run before = (w, none)) (answered : r.sample? = some s) :
    Inv w (seen before) ∧ w.rate = rate ∧ InTime (s :: seen before) := by
  have all := inTime_of_inOrder order
  rw [List.filterMap_append, List.filterMap_cons_some answered, List.filterMap_nil, List.reverse_append,
    List.reverse_singleton, List.singleton_append] at all
  have earlier : InTime ((before.filterMap Read.sample?).reverse ++ []) := by
    rw [List.append_nil]
    exact all.sublist (List.sublist_cons_self _ _)
  obtain ⟨inv, kept⟩ := run_inv (inv_new rate) earlier calm
  exact ⟨inv, kept, all.sublist ((kept_sublist _).cons_cons s)⟩

/-- A trip tells what the device did. -/
theorem Fed.justified {w w' : Watch K} {s : Sample K} {earlier : List (Sample K)} {trip : Trip K}
    (fed : Fed w s w' (some trip)) (inv : Inv w earlier) (inTime : InTime (s :: earlier)) :
    Justified history w.rate earlier s trip := by
  cases fed with
  | @looped a _ key pace seconds last pair looping long =>
    obtain ⟨older, rfl⟩ := List.head?_eq_some_iff.mp (inv.last.symm.trans last)
    obtain ⟨first, run, since⟩ := inv.run_since pair looping
    refine ⟨⟨first, run, since ▸ long⟩, fun first run τ₁ τ₂ one other => ?_⟩
    exact one.above other (inTime.instants run.mem one other) (Nat.cast_nonneg _) (run.grows inTime)
  | burst last pair calm recent near more =>
    have member := inv.recent _ recent
    cases more with
    | arcReads more => exact ⟨_, member, fun τ₁ τ₂ => inTime.within member near more⟩
    | flowRequests more => exact ⟨_, member, fun τ₁ τ₂ => inTime.within member near more⟩
  | @flooded a _ direction flow fpp packets pps limit last pair calm now above =>
    obtain ⟨older, rfl⟩ := List.head?_eq_some_iff.mp (inv.last.symm.trans last)
    refine ⟨a, rfl, fun fpp' was now' positive before' after' τ₁ τ₂ one other => ?_⟩
    obtain ⟨rfl, rfl⟩ := Prod.mk.inj (Option.some.inj (now.symm.trans after'))
    rw [Dict.get, before', Option.getD_some, perSecond_kept positive, lt_div_iff₀ pair.apart] at above
    refine one.above other (inTime.instants List.mem_cons_self one other) ?_ ?_
    · unfold packetMargin
      positivity
    · rwa [count_flow now, count_flow before']

omit [FloorRing K] in
/-- A read trips on requests exactly when it ends a run that lasted long enough. -/
theorem Fed.requests_iff {w w' : Watch K} {s : Sample K} {earlier : List (Sample K)} {outcome : Option (Trip K)}
    (fed : Fed w s w' outcome) (inv : Inv w earlier) (inTime : InTime (s :: earlier)) :
    (∃ key pace seconds, outcome = some (.requests key pace seconds)) ↔
      ∃ key first, LoopRun key (s :: earlier) first ∧ (sustainS : ℕ) ≤ s.t - first.t := by
  constructor
  · rintro ⟨key, pace, seconds, rfl⟩
    cases fed with
    | looped last pair looping long =>
      obtain ⟨older, rfl⟩ := List.head?_eq_some_iff.mp (inv.last.symm.trans last)
      obtain ⟨first, run, since⟩ := inv.run_since pair looping
      exact ⟨key, first, run, since ▸ long⟩
    | burst last pair calm recent near more => cases more
  · rintro ⟨key, first, run, long⟩
    obtain ⟨a, older, rfl, pair, looping⟩ := run.newest
    have since := inv.since_le (inTime.sublist (List.sublist_cons_self _ _)) run
    have sustained : ¬s.t - Dict.get w.overSince key a.t < (sustainS : ℕ) := by linarith
    have same {b : Sample K} (last : w.last = some b) : b = a := Option.some.inj (last.symm.trans inv.last)
    cases fed with
    | first fresh =>
      rw [inv.last] at fresh
      cases fresh
    | still last together =>
      obtain rfl := same last
      exact absurd pair.apart (not_lt.mpr together)
    | restarted last apart back =>
      obtain rfl := same last
      obtain ⟨k, less⟩ := back
      exact absurd (pair.kept k) (not_le.mpr less)
    | looped => exact ⟨_, _, _, rfl⟩
    | burst last pair' calm =>
      obtain rfl := same last
      exact absurd (calm key looping) sustained
    | flooded last pair' calm =>
      obtain rfl := same last
      exact absurd (calm key looping) sustained
    | quiet last pair' calm =>
      obtain rfl := same last
      exact absurd (calm key looping) sustained

/-- The guard never trips on a device that kept its bounds, and trips on a loop at the first read that ends
a run of three seconds which shows it. -/
theorem guard_judges (history : CounterKey → Cumulative K) (rate : ℕ) {before : List (Read K)} {r : Read K}
    {s : Sample K} {w : Watch K} (order : InOrder (before ++ [r])) (calm : (Watch.new rate).run before = (w, none))
    (answered : r.sample? = some s) :
    (∀ trip, (w.feed s).2 = some trip → Justified history rate (seen before) s trip) ∧
      ((∃ key pace seconds, (w.feed s).2 = some (.requests key pace seconds)) ↔
        ∃ key first, LoopRun key (s :: seen before) first ∧ (sustainS : ℕ) ≤ s.t - first.t) := by
  obtain ⟨inv, rfl, inTime⟩ := session_inv order calm answered
  have fed := feed_cases w s
  refine ⟨fun trip tripped => ?_, fed.requests_iff inv inTime⟩
  rw [tripped] at fed
  exact fed.justified inv inTime

end

/-- A status that counted `n` requests past its tables and nothing else. -/
def pastTables (n : ℕ) : Status := { requests := [], uncounted := n, sent := [], tx := [], rx := [], polls := 0 }

omit [LinearOrder K] in
theorem count_pastTables (t0 t1 : K) (n : ℕ) (key : CounterKey) :
    (sample t0 t1 (pastTables n)).count key = if key = .req .uncounted then n else 0 := by
  cases key with
  | req key =>
    by_cases same : key = .uncounted
    · subst same
      simp [sample, pastTables, Sample.count, Dict.get]
    · have other : (AList.lookup key ((∅ : Dict RequestKey ℕ).insert .uncounted n)).getD 0 = 0 := by
        rw [AList.lookup_insert_ne same, AList.lookup_empty, Option.getD_none]
      rw [if_neg (by simpa using same)]
      exact other
  | sent peer => simp [sample, pastTables, Sample.count, Dict.get, Dict.ofItems, Dict.update]
  | arc peer => simp [sample, pastTables, Sample.count, Dict.get, Dict.ofItems, Dict.update]
  | tx flow => simp [sample, pastTables, Sample.count, Dict.get, Dict.ofItems, Dict.update]
  | rx flow => simp [sample, pastTables, Sample.count, Dict.get, Dict.ofItems, Dict.update]
  | polls => simp [sample, pastTables, Sample.count]

/-- A device that took a hundred such requests at two seconds. -/
def hundred (key : CounterKey) : Cumulative ℚ where
  total t := if key = .req .uncounted ∧ 2 ≤ t then 100 else 0
  lost _ := 0
  grows _ _ order := by
    simp only
    split_ifs with before after
    · exact le_rfl
    · exact absurd ⟨before.1, before.2.trans order⟩ after
    · exact Nat.zero_le _
    · exact le_rfl
  lost_le _ := Nat.zero_le _
  restarts _ := .inl rfl

theorem takenAt_hundred {t0 t1 instant : ℚ} {n : ℕ} (started : t0 ≤ instant) (ended : instant ≤ t1)
    (shows : n = if 2 ≤ instant then 100 else 0) : TakenAt hundred (sample t0 t1 (pastTables n)) instant where
  started := by rwa [sample_start]
  ended := by rwa [sample_stop]
  shows key := by
    rw [count_pastTables, shows]
    by_cases uncounted : key = .req .uncounted <;> simp [Cumulative.shown, hundred, uncounted]

/-- It trips at the read three seconds later, and its rate between the two statuses was above the bound. -/
theorem guard_judges_hundred :
    (∃ key pace seconds, (((Watch.new 48000).run [⟨0, 1, some (pastTables 0), false⟩]).1.feed
        (sample (3 : ℚ) 4 (pastTables 100))).2 = some (.requests key pace seconds)) ∧
      (20 : ℚ) < (((hundred (.req .uncounted)).total 3 : ℚ) - (hundred (.req .uncounted)).total 1) / (3 - 1) := by
  have order : InOrder ([(⟨0, 1, some (pastTables 0), false⟩ : Read ℚ)] ++ [⟨3, 4, some (pastTables 100), true⟩]) := by
    refine ⟨fun r member => ?_, ?_⟩
    · simp only [List.singleton_append, List.mem_cons, List.not_mem_nil, or_false] at member
      rcases member with rfl | rfl <;> norm_num
    · simp
  have judged := guard_judges hundred 48000 order rfl rfl
  have wide : width (sample (0 : ℚ) 1 (pastTables 0)) (sample 3 4 (pastTables 100)) = 4 := by
    rw [width, sample_start, sample_stop]
    norm_num
  have pair : Comparable (sample (0 : ℚ) 1 (pastTables 0)) (sample 3 4 (pastTables 100)) := by
    refine ⟨by rw [wide]; norm_num, fun key => ?_⟩
    rw [count_pastTables, count_pastTables]
    split <;> simp
  have looping : Looping .uncounted (sample (0 : ℚ) 1 (pastTables 0)) (sample 3 4 (pastTables 100)) := by
    rw [Looping, wide, count_pastTables, count_pastTables, requestRate]
    norm_num
  have run : LoopRun .uncounted [sample (3 : ℚ) 4 (pastTables 100), sample 0 1 (pastTables 0)]
      (sample 0 1 (pastTables 0)) := .pair pair looping
  obtain ⟨key, pace, seconds, tripped⟩ := judged.2.mpr ⟨.uncounted, _, run, by norm_num [sample, sustainS]⟩
  refine ⟨⟨key, pace, seconds, tripped⟩, ?_⟩
  obtain ⟨⟨first, looped, -⟩, above⟩ := judged.1 _ tripped
  obtain rfl : key = .uncounted := by
    by_contra other
    exact looped.counted (by rw [count_pastTables, if_neg (by simpa using other)])
  have rate := (above _ run 1 3 (takenAt_hundred (by norm_num) le_rfl (by norm_num))
    (takenAt_hundred le_rfl (by norm_num) (by norm_num))).2
  simpa [requestRate] using rate

end IemMixer.Guard
