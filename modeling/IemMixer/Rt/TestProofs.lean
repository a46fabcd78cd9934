import IemMixer.Lib.Rounding
import IemMixer.Rt.OutputProofs

/-! A test signal's life: in any run of commands and blocks the caps are down exactly while
a test is there, a test is there exactly until the end its commands gave it, and no segment
reaches past that end. -/
namespace IemMixer.Rt
open Lib Proto Dsp TopologyProofs

/-! ### Moves of the wire -/

namespace Wire
variable {σ : Type}

/-- What a move does to the processor, with what the record tells of it. -/
inductive Effect (m : Machine σ) (w : Wire σ) : σ → List (ℕ × RtOp) → ℕ → Prop where
  | none : Effect m w w.proc w.log w.time
  | apply (op : RtOp) : Effect m w (m.apply w.proc op) (w.log ++ [(w.time, op)]) w.time
  | render (b : InBlock) (n : ℕ) (cuts : w.phase = .segment b) (long : b.done < b.frames → 0 < n)
      (within : ∀ finish ∈ m.testEnd w.proc, w.time < finish → w.time + n ≤ finish) :
      Effect m w (m.render w.proc n) w.log (w.time + n)

theorem next_same (w : Wire σ) (b : InBlock) :
    (w.next b).proc = w.proc ∧ (w.next b).log = w.log ∧ (w.next b).time = w.time := by
  unfold next
  split <;> exact ⟨rfl, rfl, rfl⟩

theorem look_same (w : Wire σ) (b : InBlock) :
    (w.look b).proc = w.proc ∧ (w.look b).log = w.log ∧ (w.look b).time = w.time := by
  unfold look
  split
  · exact ⟨rfl, rfl, rfl⟩
  · split
    · exact ⟨rfl, rfl, rfl⟩
    · simp only
      split <;> exact ⟨rfl, rfl, rfl⟩

theorem effect_of_same {m : Machine σ} {w w' : Wire σ}
    (same : w'.proc = w.proc ∧ w'.log = w.log ∧ w'.time = w.time) : Effect m w w'.proc w'.log w'.time := by
  obtain ⟨proc, log, time⟩ := same
  rw [proc, log, time]
  exact .none

theorem move_effect (m : Machine σ) (w : Wire σ) (move : Move) :
    Effect m w (w.move m move).proc (w.move m move).log (w.move m move).time := by
  cases move with
  | publish rt => exact .none
  | push stamp =>
    simp only [Wire.move]
    split
    · exact .none
    · split <;> exact .none
  | block frames =>
    simp only [Wire.move]
    split
    · exact effect_of_same (w.next_same _)
    · exact .none
  | callback =>
    simp only [Wire.move]
    split
    · exact .none
    · exact effect_of_same (w.look_same _)
    · rename_i b len n pops
      cases n with
      | zero => exact .none
      | succ n =>
        simp only [Wire.pop]
        split
        · exact .none
        · exact .apply _
    · rename_i b cuts
      unfold Wire.segment
      extract_lets n stamp left n' cut
      obtain ⟨proc, log, time⟩ :=
        next_same { w with proc := m.render w.proc cut, time := w.time + cut } { b with left, done := b.done + cut }
      rw [proc, log, time]
      refine .render b cut cuts ?_ ?_
      · intro more
        have some : 0 < n := by simp only [n, seg]; omega
        have long : 0 < n' := by
          simp only [n']
          split
          · exact (cut_within some _).1
          · exact some
        exact (cut_within long _).1
      · intro finish ends ahead
        simp only [cut]
        rw [Option.mem_def.mp ends, Wire.cut, if_pos ahead]
        omega

end Wire

/-! ### What a segment is rendered with -/

section
variable [Libm] {δ : Type}

/-- The test that is there, the mixes' caps and the test's sine. -/
structure Note where
  time : ℕ
  frames : ℕ
  test : Option TestRt
  caps : List F64
  sine : List F64

/-- What `Processor.render` reads of the test once it ended what is over. -/
def Processor.note (p : Processor) (n : ℕ) : Note :=
  let p := endTest p
  { time := p.time
    frames := n
    test := p.test
    caps := p.mixes.map (·.cap)
    sine := (p.test.map fun t => (t.render n).1).getD [] }

/-- A segment whose strips and outputs got the note's sine, and its outputs the note's caps. -/
def Note.Rendered (topo : Topology) (spare : ℕ) (interior : Interior δ) (note : Note) (s : Segment) : Prop :=
  note.time = s.time ∧ note.frames = s.frames ∧
    ∃ (shown : Processor) (memory : δ) (fade : List F64), shown.mixes.map (·.cap) = note.caps ∧
      s.sent = (List.range spare).foldl (sendHil topo shown note.sine fade note.frames)
        (topo.order.foldl
          (sendMix topo shown (interior shown memory note.sine note.frames) note.sine fade note.frames) .nothing)

theorem note_time (p : Processor) (n : ℕ) : (p.note n).time = p.time := by
  unfold Processor.note endTest
  split <;> rfl

theorem render_noted (topo : Topology) (spare : ℕ) (interior : Interior δ) (p : Processor) (memory : δ) (n : ℕ) :
    (p.note n).Rendered topo spare interior ⟨p.time, n, (p.render topo spare interior memory n).2.2⟩ := by
  refine ⟨note_time p n, rfl, ?_⟩
  cases running : (endTest p).test with
  | none =>
    refine ⟨{ endTest p with fade := (rampValues (endTest p).fade n).2, test := none },
      memory, (rampValues (endTest p).fade n).1, rfl, ?_⟩
    simp only [Processor.render, Processor.note, running, Option.map_none, Option.getD_none, Sent.nothing]
  | some t =>
    refine ⟨{ endTest p with fade := (rampValues (endTest p).fade n).2, test := some (t.render n).2 },
      memory, (rampValues (endTest p).fade n).1, rfl, ?_⟩
    simp only [Processor.render, Processor.note, running, Option.map_some, Option.getD_some, Sent.nothing]

/-- The card with a note of every segment. -/
def noting (m : Machine (Card δ)) : Machine (Card δ × List Note) where
  apply s op := (m.apply s.1 op, s.2)
  render s n := (m.render s.1 n, s.2 ++ (s.1.live.map fun (p, _) => p.note n).toList)
  testEnd s := m.testEnd s.1

/-- The wire without the notes. -/
def Wire.plain {ν : Type} (w : Wire (Card δ × ν)) : Wire (Card δ) := { w with proc := w.proc.1 }

omit [Libm] in
theorem plain_next {ν : Type} (w : Wire (Card δ × ν)) (b : InBlock) : (w.next b).plain = w.plain.next b := by
  unfold Wire.next Wire.plain
  split <;> rfl

theorem plain_move (m : Machine (Card δ)) (w : Wire (Card δ × List Note)) (move : Move) :
    (w.move (noting m) move).plain = w.plain.move m move := by
  obtain ⟨pending, ring, proc, time, phase, deferred, outcomes, pushed, log, blocks⟩ := w
  cases move with
  | publish rt => rfl
  | push stamp =>
    cases pending with
    | nil => rfl
    | cons group rest =>
      simp only [Wire.move, Wire.plain]
      split <;> rfl
  | block frames =>
    cases phase with
    | idle => exact plain_next _ _
    | _ => rfl
  | callback =>
    cases phase with
    | idle => rfl
    | look b =>
      cases ring with
      | nil => rfl
      | cons head rest =>
        by_cases early : time < head.stamp
        · simp [Wire.move, Wire.plain, Wire.look, early]
        · by_cases spent : b.budget < max head.group 1
          · simp [Wire.move, Wire.plain, Wire.look, early, spent]
          · simp [Wire.move, Wire.plain, Wire.look, early, spent]
    | pop b len n =>
      cases n with
      | zero => rfl
      | succ n => cases ring <;> rfl
    | segment b => exact plain_next _ _

theorem plain_run (m : Machine (Card δ)) (card : Card δ) (moves : List Move) :
    (Wire.run (noting m) (card, []) moves).plain = Wire.run m card moves := by
  have step : ∀ w : Wire (Card δ × List Note),
      (moves.foldl (Wire.move (noting m)) w).plain = moves.foldl (Wire.move m) w.plain := by
    induction moves with
    | nil => exact fun _ => rfl
    | cons move rest ih =>
      intro w
      rw [List.foldl_cons, List.foldl_cons, ih, plain_move]
  exact step _

/-! ### The caps -/

/-- A mix's cap is down exactly while a test is there. -/
def Processor.Capped (p : Processor) : Prop :=
  ∀ mix ∈ p.mixes, mix.cap = if p.test.isSome then testCap else .fin 1

omit [Libm] in
theorem capped_modify {p : Processor} (capped : p.Capped) (m : ℕ) (f : MixRt → MixRt)
    (kept : ∀ mix, (f mix).cap = mix.cap) : Processor.Capped { p with mixes := p.mixes.modify m f } := by
  intro mix member
  obtain ⟨i, bound, rfl⟩ := List.mem_iff_getElem.mp member
  simp only [List.getElem_modify]
  rw [List.length_modify] at bound
  split
  · exact (kept _).trans (capped _ (List.getElem_mem bound))
  · exact capped _ (List.getElem_mem bound)

theorem capped_apply {p next : Processor} {op : RtOp} (capped : p.Capped) (applied : p.apply op = some next) :
    next.Capped := by
  cases op with
  | mixOut m volume muted =>
    cases applied
    exact capped_modify capped m _ fun _ => rfl
  | mixEq m eq =>
    cases applied
    exact capped_modify capped m _ fun _ => rfl
  | limiter m enabled limitDb =>
    cases applied
    exact capped_modify capped m _ fun _ => rfl
  | resetLimiter m =>
    cases applied
    exact capped_modify capped m _ fun _ => rfl
  | level m k gain pan muted =>
    cases applied
    exact capped_modify capped m _ fun _ => rfl
  | group m g gain muted =>
    cases applied
    exact capped_modify capped m _ fun _ => rfl
  | groupEq m g eq =>
    cases applied
    exact capped_modify capped m _ fun _ => rfl
  | testSignal i hz amp ttl =>
    cases applied
    intro mix member
    obtain ⟨was, -, rfl⟩ := List.mem_map.mp member
    rfl
  | hilTestSignal i hz amp ttl mask listen =>
    cases applied
    intro mix member
    obtain ⟨was, -, rfl⟩ := List.mem_map.mp member
    rfl
  | stopTestSignal =>
    cases applied
    intro mix member
    rw [Option.isSome_map]
    exact capped mix member
  | panic => cases applied
  | arm =>
    simp only [Processor.apply] at applied
    split at applied <;> (cases applied; exact capped)
  | _ =>
    cases applied
    exact capped

omit [Libm] in
theorem capped_endTest {p : Processor} (capped : p.Capped) : (endTest p).Capped := by
  unfold endTest
  split
  · intro mix member
    obtain ⟨was, -, rfl⟩ := List.mem_map.mp member
    rfl
  · exact capped

theorem capped_render {digest : TopologyInfo → String} (c : Compiled digest) (spare : ℕ) (interior : Interior δ)
    {p : Processor} (capped : p.Capped) (memory : δ) (n : ℕ) : (p.render c.topo spare interior memory n).1.Capped := by
  -- the strips' mixes take the caps of the mixes they are made of
  have mixes : ∃ made, (p.render c.topo spare interior memory n).1.mixes =
      List.zipWith (fun made mix : MixRt => { made with cap := mix.cap }) made (endTest p).mixes := ⟨_, rfl⟩
  obtain ⟨made, mixes⟩ := mixes
  intro mix member
  rw [mixes] at member
  obtain ⟨i, bound, rfl⟩ := List.mem_iff_getElem.mp member
  rw [List.getElem_zipWith, render_test, Option.isSome_map]
  rw [List.length_zipWith] at bound
  exact capped_endTest capped (endTest p).mixes[i] (List.getElem_mem (by omega))

theorem capped_new (topo : Topology) (state : MixState) (counters : List ℕ) (opts : Options) :
    (Processor.new topo state counters opts).Capped := by
  intro mix member
  obtain ⟨_, -, rfl⟩ := List.mem_map.mp member
  rfl

/-! ### A run -/

/-- A segment under the signal its commands tell: capped and sounding exactly while that runs, and
over no later than it is. -/
structure Note.Timed (log : List (ℕ × RtOp)) (note : Note) : Prop where
  caps : ∀ cap ∈ note.caps, cap = if note.test.isSome then testCap else .fin 1
  there : ∀ j < note.frames, signalAt log (note.time + j) = note.test.map fun t => ⟨t.finish, t.mask⟩
  silent : note.test = none → note.sine = []
  within : ∀ t ∈ note.test, note.time + note.frames ≤ t.finish

/-- What holds of the notes and the processor between any two moves. -/
structure Noted (topo : Topology) (spare : ℕ) (interior : Interior δ) (w : Wire (Card δ × List Note)) : Prop where
  capped : ∀ (p : Processor) (memory : δ), w.proc.1.live = some (p, memory) → p.Capped
  notes : ∀ note ∈ w.proc.2, note.time + note.frames ≤ w.time ∧ note.Timed w.log
  each : List.Forall₂ (Note.Rendered topo spare interior) w.proc.2 w.proc.1.sent

omit [Libm] in
/-- A later command changes nothing about an earlier segment. -/
theorem Note.Timed.append {log : List (ℕ × RtOp)} {note : Note} {now : ℕ} (op : RtOp) (timed : note.Timed log)
    (later : note.time + note.frames ≤ now) : note.Timed (log ++ [(now, op)]) := by
  refine { timed with there := fun j inside => ?_ }
  have dropped : ¬ now ≤ note.time + j := by omega
  have same : signalAt (log ++ [(now, op)]) (note.time + j) = signalAt log (note.time + j) := by
    simp [signalAt, dropped]
  rw [same]
  exact timed.there j inside

theorem timed_note {w : Wire (Card δ)} {p : Processor} {n : ℕ} (capped : p.Capped) (past : ∀ e ∈ w.log, e.1 ≤ w.time)
    (time : p.time = w.time) (told : Told (w.log.foldl Signal.after none) w.time p.test)
    (within : ∀ t ∈ (endTest p).test, w.time + n ≤ t.finish) : (p.note n).Timed w.log := by
  have clock : (p.note n).time = w.time := (note_time p n).trans time
  constructor
  case caps =>
    intro cap member
    obtain ⟨mix, here, rfl⟩ := List.mem_map.mp member
    exact capped_endTest capped mix here
  case there =>
    intro j inside
    rw [clock]
    exact signalAt_there past time told inside within
  case silent =>
    intro none
    have ended : (endTest p).test = .none := none
    simp only [Processor.note, ended, Option.map_none, Option.getD_none]
  case within =>
    intro t member
    rw [clock]
    exact within t member

variable {digest : TopologyInfo → String} (c : Compiled digest) (spare : ℕ) (interior : Interior δ)

theorem Noted.move {w : Wire (Card δ × List Note)} (noted : Noted c.topo spare interior w)
    (kept : Kept c.topo spare w.plain) (move : Move) :
    Noted c.topo spare interior (w.move (noting (cardMachine c.topo spare interior)) move) := by
  obtain ⟨capped, notes, each⟩ := noted
  have effect := Wire.move_effect (noting (cardMachine c.topo spare interior)) w move
  generalize w.move (noting (cardMachine c.topo spare interior)) move = next at effect
  obtain ⟨pending, ring, proc, time, phase, deferred, outcomes, pushed, log, blocks⟩ := next
  simp only at effect
  cases effect with
  | none => exact ⟨capped, notes, each⟩
  | apply op =>
    constructor
    · intro p memory live
      simp only [noting, cardMachine, Option.bind_eq_some_iff, Option.map_eq_some_iff] at live
      obtain ⟨⟨old, memory'⟩, before, next, applied, same⟩ := live
      obtain ⟨rfl, -⟩ := Prod.mk.inj same
      exact capped_apply (capped old memory' before) applied
    · intro note member
      obtain ⟨within, timed⟩ := notes note member
      exact ⟨within, timed.append op within⟩
    · exact each
  | render b n cuts long within =>
    cases live : w.proc.1.live with
    | none =>
      constructor
      · intro p memory held
        simp only [noting, cardMachine, live] at held
        cases held
      · intro note member
        simp only [noting, live, Option.map_none, Option.toList_none, List.append_nil] at member
        obtain ⟨before, timed⟩ := notes note member
        exact ⟨before.trans (Nat.le_add_right _ _), timed⟩
      · simpa only [noting, cardMachine, live, Option.map_none, Option.toList_none, List.append_nil] using each
    | some held =>
      obtain ⟨p, memory⟩ := held
      obtain ⟨time, told⟩ := kept.told p memory live
      have lasts : ∀ t ∈ (endTest p).test, w.time + n ≤ t.finish := by
        intro t member
        obtain ⟨running, ahead⟩ := endTest_some member
        refine within t.finish ?_ (time ▸ ahead)
        simp [noting, cardMachine, live, running]
      constructor
      · intro p' memory' held
        simp only [noting, cardMachine, live] at held
        obtain ⟨rfl, -⟩ := Prod.mk.inj (Option.some.inj held)
        exact capped_render c spare interior (capped p memory live) memory n
      · intro note member
        simp only [noting, live, Option.map_some, Option.toList_some, List.mem_append, List.mem_singleton] at member
        rcases member with earlier | rfl
        · obtain ⟨before, timed⟩ := notes note earlier
          exact ⟨before.trans (Nat.le_add_right _ _), timed⟩
        · exact ⟨by rw [note_time, time]; exact le_rfl, timed_note (capped p memory live) kept.past time told lasts⟩
      · simp only [noting, cardMachine, live, Option.map_some, Option.toList_some]
        exact List.rel_append each (.cons (render_noted c.topo spare interior p memory n) .nil)

/-- From a processor with no test running. -/
theorem run_noted (p : Processor) (memory : δ) (quiet : p.test = none) (start : p.time = 0) (capped : p.Capped)
    (moves : List Move) :
    Noted c.topo spare interior (Wire.run (noting (cardMachine c.topo spare interior)) ({ live := some (p, memory) }, []) moves) := by
  induction moves using List.reverseRecOn with
  | nil =>
    constructor
    · intro p' memory' held
      obtain ⟨rfl, -⟩ := Prod.mk.inj (Option.some.inj held)
      exact capped
    · exact fun _ never => by cases never
    · exact .nil
  | append_singleton moves move ih =>
    unfold Wire.run at ih ⊢
    rw [List.foldl_append]
    refine ih.move c spare interior ?_ move
    have plain := plain_run (cardMachine c.topo spare interior) { live := some (p, memory) } moves
    unfold Wire.run at plain
    rw [plain]
    exact run_kept c spare interior p memory quiet start moves

/-- **The test signal's life.** In every run of commands and blocks every segment sent has its note,
whose caps and sine its outputs got, and by it: the caps are down exactly when a test is there; the test that is there is at each sample
the one the commands applied until then leave running, which ends a fade after its time ran out or a
fade after the last stop it was given; without one no sine sounds; and no segment reaches past the
end. -/
theorem test_lifetime (memory : δ) (state : MixState) (counters : List ℕ) (opts : Options) (moves : List Move) :
    let w := Wire.run (noting (cardMachine c.topo spare interior))
      ({ live := some (Processor.new c.topo state counters opts, memory) }, []) moves
    List.Forall₂ (Note.Rendered c.topo spare interior) w.proc.2 w.proc.1.sent ∧
      ∀ note ∈ w.proc.2, note.Timed w.log := by
  intro w
  have noted := run_noted c spare interior (Processor.new c.topo state counters opts) memory rfl rfl
    (capped_new c.topo state counters opts) moves
  exact ⟨noted.each, fun note member => (noted.notes note member).2⟩

end

/-! ### A late stop -/

/-- A fade from level `v` to silence after `n` of its samples. -/
structure Falling (v : ℚ) (n : ℕ) (r : Ramp) : Prop where
  target : r.target = .fin 0
  left : r.left + n = samples fadeMs
  value : ∃ a, r.value = .fin a ∧ v - v * n / 4700 ≤ a ∧ a ≤ v
  step : ∃ s, r.step = .fin s ∧ |s + v / 4800| ≤ v / 2 ^ 50

theorem audible_normal {v : ℚ} (audible : (2 : ℚ) ^ (-900 : ℤ) ≤ v) : (2 : ℚ) ^ (-1000 : ℤ) ≤ v / 4801 := by
  calc (2 : ℚ) ^ (-1000 : ℤ) = 2 ^ (-900 : ℤ) * 2 ^ (-100 : ℤ) := by
        rw [← zpow_add₀ (by norm_num)]
        norm_num
    _ ≤ v * (1 / 4801) := mul_le_mul audible (by norm_num) (by positivity) (le_trans (by positivity) audible)
    _ = v / 4801 := by ring

/-- The fade's 50 ms at the engine's rate. -/
theorem samples_fade : samples fadeMs = 4800 := by decide +kernel

theorem falling_set {v : ℚ} {r : Ramp} (audible : (2 : ℚ) ^ (-900 : ℤ) ≤ v) (full : v ≤ 1) (value : r.value = .fin v)
    (len : r.len = samples fadeMs) (up : (F64.fin 0).peq r.target = false) : Falling v 0 (r.set (.fin 0)) := by
  have pos : 0 < v := lt_of_lt_of_le (by positivity) audible
  have normal := audible_normal audible
  unfold Ramp.set
  rw [if_neg (by simp [up])]
  constructor
  · rfl
  · exact len
  · exact ⟨v, value, by simp, le_rfl⟩
  · have negated : |(0 : ℚ) + -v| = v := by rw [zero_add, abs_neg, abs_of_pos pos]
    obtain ⟨d, diff, close⟩ := F64.ofRatSigned_near ((F64.fin 0).neg && (F64.fin (-v)).neg) (q := 0 + -v)
      (by rw [negated]; linarith) (by rw [negated]; exact full)
    rw [negated] at close
    obtain ⟨low, high⟩ := abs_le.mp close
    have below : d < 0 := by linarith
    have quotient : |d / 4800| = -d / 4800 := by
      rw [abs_of_neg (div_neg_of_neg_of_pos below (by norm_num)), neg_div]
    obtain ⟨s, step, close⟩ := F64.ofRatSigned_near ((F64.fin d).neg != (F64.fin 4800).neg) (q := d / 4800)
      (by rw [quotient]; linarith) (by rw [quotient]; linarith)
    rw [quotient] at close
    refine ⟨s, ?_, ?_⟩
    · have sub : (F64.fin 0).sub (.fin v) = .fin d := by
        rw [F64.sub, F64.opp, if_neg pos.ne']
        exact diff
      simp only
      rw [value, sub, len, samples_fade]
      exact step
    · obtain ⟨low', high'⟩ := abs_le.mp close
      rw [abs_le]
      constructor <;> linarith

theorem Falling.tick {v : ℚ} {n : ℕ} {r : Ramp} (falling : Falling v n r) (audible : (2 : ℚ) ^ (-900 : ℤ) ≤ v)
    (full : v ≤ 1) (early : n < 4000) : Falling v (n + 1) (tickRamp r).2 ∧ (tickRamp r).1 = (tickRamp r).2.value := by
  have pos : 0 < v := lt_of_lt_of_le (by positivity) audible
  have normal := audible_normal audible
  obtain ⟨target, left, ⟨a, value, low, high⟩, ⟨s, step, close⟩⟩ := falling
  rw [samples_fade] at left
  obtain ⟨down, up⟩ := abs_le.mp close
  have part : v * n ≤ v * 3999 := mul_le_mul_of_nonneg_left (by exact_mod_cast (by omega : n ≤ 3999)) pos.le
  have size : |a + s| = a + s := abs_of_pos (by linarith)
  obtain ⟨b, sum, close⟩ := F64.ofRatSigned_near ((F64.fin a).neg && (F64.fin s).neg) (q := a + s)
    (by rw [size]; linarith) (by rw [size]; linarith)
  rw [size] at close
  obtain ⟨low', high'⟩ := abs_le.mp close
  have ticked : tickRamp r = (.fin b, { r with left := r.left - 1, value := .fin b }) := by
    have more : r.left - 1 ≠ 0 := by omega
    unfold tickRamp
    rw [if_pos (by omega)]
    simp only
    rw [if_neg more, value, step, show (F64.fin a).add (.fin s) = .fin b from sum]
  rw [ticked]
  refine ⟨⟨target, by simp only [samples_fade]; omega, ⟨b, rfl, ?_, by linarith⟩, ⟨s, step, abs_le.mpr ⟨down, up⟩⟩⟩, rfl⟩
  push_cast
  linarith

section
attribute [local instance] Core.duetLibm

/-- The duet's card with silent strips, and its notes. -/
def duetCard : Machine (Card Unit × List Note) := noting (cardMachine duetCompiled.topo 1 deaf)

/-- Between blocks, with nothing to apply and test `t` running. -/
structure Resting (w : Wire (Card Unit × List Note)) (now : ℕ) (t : TestRt) : Prop where
  pending : w.pending = []
  ring : w.ring = []
  phase : w.phase = .idle
  time : w.time = now
  live : ∃ p, w.proc.1.live = some (p, ()) ∧ p.time = now ∧ p.test = some t

/-- The one sample of a block that has nothing to apply. -/
theorem segment_sample {w : Wire (Card Unit × List Note)} {b : InBlock} {p : Processor} {t : TestRt}
    (frames : b.frames = 1) (first : b.done = 0) (pending : w.pending = []) (ring : w.ring = [])
    (live : w.proc.1.live = some (p, ())) (clock : p.time = w.time) (test : p.test = some t)
    (ahead : w.time < t.finish) :
    Resting (w.segment duetCard b) (w.time + 1) (t.render 1).2 ∧ (w.segment duetCard b).log = w.log ∧
      ∃ note, (w.segment duetCard b).proc.2 = w.proc.2 ++ [note] ∧ note.time = w.time ∧ note.frames = 1 ∧
        note.sine = (t.render 1).1 := by
  obtain ⟨_, _, ⟨⟨_, sent⟩, notes⟩, time, phase, deferred, outcomes, pushed, log, blocks⟩ := w
  obtain ⟨_, _, budget, left, start, due⟩ := b
  cases frames
  cases first
  cases pending
  cases ring
  cases live
  simp only at clock ahead
  have lasts : endTest p = p := by
    unfold endTest
    rw [test, Option.any_some, clock, if_neg (by simpa using ahead)]
  have ends : duetCard.testEnd (⟨some (p, ()), sent⟩, notes) = some t.finish := by
    simp [duetCard, noting, cardMachine, test]
  have one : min 1 (min seg (t.finish - time)) = 1 := by
    simp only [seg]
    omega
  have rendered : duetCard.render (⟨some (p, ()), sent⟩, notes) 1 =
      (⟨some ((p.render duetCompiled.topo 1 deaf () 1).1, ()),
        sent ++ [⟨p.time, 1, (p.render duetCompiled.topo 1 deaf () 1).2.2⟩]⟩, notes ++ [p.note 1]) := rfl
  simp only [Wire.segment, Wire.next]
  simp [Wire.cut, ahead, ends, one]
  rw [rendered]
  refine ⟨⟨rfl, rfl, rfl, rfl, _, rfl, ?_, ?_⟩, p.note 1, rfl, (note_time p 1).trans clock, rfl, ?_⟩
  · have later : (p.render duetCompiled.topo 1 deaf () 1).1.time = (endTest p).time + 1 := rfl
    rw [later, lasts, clock]
  · rw [render_test, lasts, test]
    rfl
  · simp only [Processor.note, lasts, test, Option.map_some, Option.getD_some]

/-- The moves of one sample. -/
def sampleMoves : List Move := [.block 1, .callback, .callback]

theorem resting_sample {w : Wire (Card Unit × List Note)} {now : ℕ} {t : TestRt} (rests : Resting w now t)
    (ahead : now < t.finish) :
    Resting (sampleMoves.foldl (Wire.move duetCard) w) (now + 1) (t.render 1).2 ∧
      (sampleMoves.foldl (Wire.move duetCard) w).log = w.log ∧
      ∃ note, (sampleMoves.foldl (Wire.move duetCard) w).proc.2 = w.proc.2 ++ [note] ∧ note.time = now ∧
        note.frames = 1 ∧ note.sine = (t.render 1).1 := by
  obtain ⟨pending, ring, proc, time, phase, deferred, outcomes, pushed, log, blocks⟩ := w
  obtain ⟨rfl, rfl, rfl, rfl, p, live, clock, test⟩ := rests
  exact segment_sample rfl rfl rfl rfl live clock test ahead

/-- A stop, and one sample. -/
def stopMoves : List Move :=
  [.publish [.stopTestSignal], .push 0, .block 1, .callback, .callback, .callback, .callback, .callback]

/-- A test that was stopped at `now`. -/
def stoppedAt (now : ℕ) (t : TestRt) : TestRt :=
  { t with
    left := 0
    fade := (Ramp.new t.fade.value (samples fadeMs)).set (.fin 0)
    finish := saturatingAdd now (samples fadeMs) }

theorem resting_stop {w : Wire (Card Unit × List Note)} {now : ℕ} {t : TestRt} (rests : Resting w now t)
    (ahead : now < (stoppedAt now t).finish) :
    Resting (stopMoves.foldl (Wire.move duetCard) w) (now + 1) ((stoppedAt now t).render 1).2 ∧
      (stopMoves.foldl (Wire.move duetCard) w).log = w.log ++ [(now, .stopTestSignal)] := by
  obtain ⟨pending, ring, ⟨⟨live, sent⟩, notes⟩, time, phase, deferred, outcomes, pushed, log, blocks⟩ := w
  obtain ⟨rfl, rfl, rfl, rfl, p, rfl, clock, test⟩ := rests
  have group : chunks 512 [RtOp.stopTestSignal] = [[.stopTestSignal]] := rfl
  have pushes : pushGroup [] 0 [.stopTestSignal] = some [⟨0, 1, .stopTestSignal⟩] := rfl
  simp only [stopMoves]
  simp [Wire.move, Wire.next, Wire.look, Wire.pop, Wire.dueLen, group, pushes, maxCmdsPerBlock]
  have stopped : duetCard.apply (⟨some (p, ()), sent⟩, notes) .stopTestSignal =
      (⟨some ({ p with test := p.test.map (stoppedAt p.time) }, ()), sent⟩, notes) := rfl
  rw [stopped]
  obtain ⟨next, same, -⟩ := segment_sample (b := { frames := 1, budget := 511, start := log.length, due := 1 })
    (w := { proc := (⟨some ({ p with test := p.test.map (stoppedAt p.time) }, ()), sent⟩, notes), time,
            phase := .segment { frames := 1, budget := 511, start := log.length, due := 1 }, deferred
            outcomes := outcomes ++ [[.stopTestSignal]], pushed := pushed ++ [[.stopTestSignal]]
            log := log ++ [(time, .stopTestSignal)], blocks })
    (t := stoppedAt time t) rfl rfl rfl rfl rfl clock (by simp only [test, clock, Option.map_some]) ahead
  exact ⟨next, same⟩

theorem set_value (r : Ramp) (target : F64) : (r.set target).value = r.value := by
  unfold Ramp.set
  split <;> rfl

/-- A test in its last fade, `n` samples into it. -/
structure Dying (v a : ℚ) (n : ℕ) (t : TestRt) : Prop where
  left : t.left = 0
  amp : t.amp = .fin a
  fade : Falling v n (t.fade.set (.fin 0))

theorem Dying.render {v a : ℚ} {n : ℕ} {t : TestRt} (dying : Dying v a n t) (audible : (2 : ℚ) ^ (-900 : ℤ) ≤ v)
    (full : v ≤ 1) (early : n < 4000) :
    Dying v a (n + 1) (t.render 1).2 ∧ (t.render 1).2.finish = t.finish ∧
      (t.render 1).1 = [((F64.fin a).mul (t.render 1).2.fade.value).mul (.ofRat 0.7071067811865475)] := by
  obtain ⟨left, amp, fade⟩ := dying
  obtain ⟨falls, level⟩ := fade.tick audible full early
  have rendered : t.render 1 = ([(t.amp.mul (tickRamp (t.fade.set (.fin 0))).1).mul (.ofRat 0.7071067811865475)],
      { t with fade := (tickRamp (t.fade.set (.fin 0))).2, phase := (t.phase.add t.inc).fract }) := by
    simp only [TestRt.render, left, if_true]
    rfl
  have still : (tickRamp (t.fade.set (.fin 0))).2.set (.fin 0) = (tickRamp (t.fade.set (.fin 0))).2 := by
    rw [Ramp.set, falls.target]
    rfl
  rw [rendered]
  exact ⟨⟨left, amp, by rw [still]; exact falls⟩, rfl, by rw [amp, level]⟩

/-- A dying test, sample after sample. -/
theorem dying_samples {v a : ℚ} (audible : (2 : ℚ) ^ (-900 : ℤ) ≤ v) (full : v ≤ 1) (k : ℕ)
    {w : Wire (Card Unit × List Note)} {now n : ℕ} {t : TestRt} (rests : Resting w now t) (dying : Dying v a n t)
    (early : n + k ≤ 4000) (ahead : now + k ≤ t.finish) :
    ∃ t', Resting ((List.replicate k sampleMoves).flatten.foldl (Wire.move duetCard) w) (now + k) t' ∧
      Dying v a (n + k) t' ∧ t'.finish = t.finish ∧
      ((List.replicate k sampleMoves).flatten.foldl (Wire.move duetCard) w).log = w.log := by
  induction k with
  | zero => exact ⟨t, rests, dying, rfl, rfl⟩
  | succ k ih =>
    obtain ⟨t', rests', dying', same, log⟩ := ih (by omega) (by omega)
    obtain ⟨next, kept, -⟩ := resting_sample rests' (by omega)
    obtain ⟨dies, ends, -⟩ := dying'.render audible full (by omega)
    rw [List.replicate_succ', List.flatten_append, List.foldl_append, List.flatten_singleton]
    exact ⟨_, next, dies, ends.trans same, kept.trans log⟩

/-- A product of levels is a level. -/
theorem mul_positive {a b : ℚ} (left : 0 < a) (right : 0 < b) (normal : (2 : ℚ) ^ (-1000 : ℤ) ≤ a * b)
    (small : a * b ≤ 1) :
    ∃ c, (F64.fin a).mul (.fin b) = .fin c ∧ a * b / 2 ≤ c ∧ c ≤ 2 * (a * b) := by
  have pos : 0 < a * b := mul_pos left right
  have size : |a * b| = a * b := abs_of_pos pos
  obtain ⟨c, product, close⟩ := F64.ofRatSigned_near ((F64.fin a).neg != (F64.fin b).neg) (q := a * b)
    (by rw [size]; exact normal) (by rw [size]; exact small)
  rw [size] at close
  obtain ⟨low, high⟩ := abs_le.mp close
  exact ⟨c, product, by linarith, by linarith⟩

/-- A sample of a test whose level is not yet tiny. -/
theorem sample_heard {a l : ℚ} (loud : 1 / 11 ≤ a) (quiet : a ≤ 1 / 9) (left : 1 / 60000 ≤ l) (full : l ≤ 1) :
    ∃ x : ℚ, ((F64.fin a).mul (.fin l)).mul (.ofRat 0.7071067811865475) = .fin x ∧ 0 < x := by
  have tiny : (2 : ℚ) ^ (-1000 : ℤ) ≤ 1 / 10000000 := by
    calc (2 : ℚ) ^ (-1000 : ℤ) ≤ 2 ^ (-24 : ℤ) := zpow_le_zpow_right₀ (by norm_num) (by norm_num)
      _ ≤ 1 / 10000000 := by norm_num
  have sin : F64.ofRat 0.7071067811865475 = .fin (F64.ofRat 0.7071067811865475).val := by decide +kernel
  have turn : 1 / 2 ≤ (F64.ofRat 0.7071067811865475).val ∧ (F64.ofRat 0.7071067811865475).val ≤ 1 := by decide +kernel
  generalize (F64.ofRat 0.7071067811865475).val = turned at sin turn
  have low : 1 / 11 * (1 / 60000) ≤ a * l := mul_le_mul loud left (by norm_num) (by linarith)
  have high : a * l ≤ 1 / 9 * 1 := mul_le_mul quiet full (by linarith) (by norm_num)
  obtain ⟨c, product, below, above⟩ :=
    mul_positive (a := a) (b := l) (by linarith) (by linarith) (tiny.trans (by linarith)) (by linarith)
  have low' : 1 / 11 * (1 / 60000) / 2 * (1 / 2) ≤ c * turned :=
    mul_le_mul (by linarith) turn.1 (by norm_num) (by linarith)
  have high' : c * turned ≤ c * 1 := mul_le_mul_of_nonneg_left turn.2 (by linarith)
  obtain ⟨x, sample, heard, -⟩ :=
    mul_positive (a := c) (b := turned) (by linarith) (by linarith) (tiny.trans (by linarith)) (by linarith)
  exact ⟨x, by rw [product, sin, sample], by linarith⟩

/-- A tone of one sample at 12 kHz, and its first sample. -/
def startMoves : List Move :=
  [.publish [.testSignal 0 (.fin 12000) (.ofRat 0.1) 1], .push 0, .block 1, .callback, .callback, .callback, .callback,
    .callback]

def duetStart : Wire (Card Unit × List Note) :=
  { proc := ({ live := some (Processor.new duetCompiled.topo {} [] {}, ()) }, []) }

/-- The tone as it starts. -/
def tone : TestRt where
  input := 0
  phase := .fin 0
  inc := (F64.fin 12000).div (.fin sampleRate)
  amp := (F64.ofRat 0.1).min testCap
  left := 1
  fade := (Ramp.new (.fin 0) (samples fadeMs)).set (.fin 1)
  finish := 4801
  mask := none
  listen := false

theorem resting_start : Resting (startMoves.foldl (Wire.move duetCard) duetStart) 1 (tone.render 1).2 ∧
    (startMoves.foldl (Wire.move duetCard) duetStart).log = [(0, .testSignal 0 (.fin 12000) (.ofRat 0.1) 1)] ∧
    ∃ note, (startMoves.foldl (Wire.move duetCard) duetStart).proc.2 = [note] := by
  have group : chunks 512 [RtOp.testSignal 0 (.fin 12000) (.ofRat 0.1) 1] =
      [[.testSignal 0 (.fin 12000) (.ofRat 0.1) 1]] := rfl
  have pushes : pushGroup [] 0 [.testSignal 0 (.fin 12000) (.ofRat 0.1) 1] =
      some [⟨0, 1, .testSignal 0 (.fin 12000) (.ofRat 0.1) 1⟩] := rfl
  simp only [startMoves, duetStart]
  simp [Wire.move, Wire.next, Wire.look, Wire.pop, Wire.dueLen, group, pushes, maxCmdsPerBlock]
  have clock : (Processor.new duetCompiled.topo {} [] {}).time = 0 := rfl
  generalize Processor.new duetCompiled.topo {} [] {} = p at clock
  have begins : (p.startTest 0 (.fin 12000) (.ofRat 0.1) 1 none false).test = some tone := by
    simp only [Processor.startTest, clock, tone]
    decide +kernel
  have applied : duetCard.apply (⟨some (p, ()), []⟩, []) (.testSignal 0 (.fin 12000) (.ofRat 0.1) 1) =
      (⟨some (p.startTest 0 (.fin 12000) (.ofRat 0.1) 1 none false, ()), []⟩, []) := rfl
  rw [applied]
  obtain ⟨next, same, note, noted, -⟩ := segment_sample (b := { frames := 1, budget := 511, start := 0, due := 1 })
    (w := { proc := (⟨some (p.startTest 0 (.fin 12000) (.ofRat 0.1) 1 none false, ()), []⟩, [])
            phase := .segment { frames := 1, budget := 511, start := 0, due := 1 }
            outcomes := [[.testSignal 0 (.fin 12000) (.ofRat 0.1) 1]]
            pushed := [[.testSignal 0 (.fin 12000) (.ofRat 0.1) 1]]
            log := [(0, .testSignal 0 (.fin 12000) (.ofRat 0.1) 1)] })
    (t := tone) rfl rfl rfl rfl rfl clock begins (show 0 < 4801 by decide)
  exact ⟨next, same, note, noted⟩

theorem level_audible : (2 : ℚ) ^ (-900 : ℤ) ≤ 1 / 20000 := by
  calc (2 : ℚ) ^ (-900 : ℤ) ≤ 2 ^ (-15 : ℤ) := zpow_le_zpow_right₀ (by norm_num) (by norm_num)
    _ ≤ 1 / 20000 := by norm_num

/-- A dying test has a level, and lower ones to come. -/
theorem Dying.level {v a : ℚ} {n : ℕ} {t : TestRt} (dying : Dying v a n t) :
    ∃ b, t.fade.value = .fin b ∧ v - v * n / 4700 ≤ b ∧ b ≤ v := by
  obtain ⟨b, value, low, high⟩ := dying.fade.value
  exact ⟨b, (set_value _ _).symm.trans value, low, high⟩

/-- A stopped test dies from the level it had. -/
theorem stopped_dies {a b : ℚ} {t : TestRt} (now : ℕ) (amp : t.amp = .fin a) (value : t.fade.value = .fin b)
    (audible : (2 : ℚ) ^ (-900 : ℤ) ≤ b) (full : b ≤ 1) : Dying b a 0 (stoppedAt now t) := by
  have pos : 0 < b := lt_of_lt_of_le (by positivity) audible
  have falls : Falling b 0 (stoppedAt now t).fade := by
    refine falling_set audible full ?_ ?_ ?_
    · rw [value]
      rfl
    · have some : samples fadeMs ≠ 0 := by decide +kernel
      exact if_neg some
    · rw [value]
      simp [Ramp.new, F64.peq, F64.val, pos.ne]
  have still : (stoppedAt now t).fade.set (.fin 0) = (stoppedAt now t).fade := by
    rw [Ramp.set, falls.target]
    rfl
  exact ⟨rfl, amp, by rw [still]; exact falls⟩

theorem tone_dies : ∃ v a : ℚ, Dying v a 0 (tone.render 1).2 ∧ 1 / 5000 ≤ v ∧ v ≤ 1 ∧ 1 / 11 ≤ a ∧ a ≤ 1 / 9 := by
  have left : (tone.render 1).2.left = 0 := by decide +kernel
  have amp : (tone.render 1).2.amp = .fin (F64.ofRat 0.1).val := by decide +kernel
  have value : (tone.render 1).2.fade.value = .fin (F64.ofRat (1 / 4800)).val := by decide +kernel
  have target : (tone.render 1).2.fade.target = .fin 1 := by decide +kernel
  have len : (tone.render 1).2.fade.len = samples fadeMs := by decide +kernel
  have audible : 1 / 5000 ≤ (F64.ofRat (1 / 4800)).val := by decide +kernel
  have full : (F64.ofRat (1 / 4800)).val ≤ 1 := by decide +kernel
  have loud : 1 / 11 ≤ (F64.ofRat 0.1).val ∧ (F64.ofRat 0.1).val ≤ 1 / 9 := by decide +kernel
  have falls := falling_set (level_audible.trans (by linarith)) full value len (by rw [target]; decide +kernel)
  exact ⟨_, _, ⟨left, amp, falls⟩, audible, full, loud⟩

/-- The moves of a tone that is stopped when it has faded by half. -/
def lateMoves : List Move :=
  startMoves ++ (List.replicate 2400 sampleMoves).flatten ++ stopMoves ++ (List.replicate 2399 sampleMoves).flatten ++
    sampleMoves

/-- Stopped in its fade-out, a test still sounds when a fade after its time has passed. -/
theorem late_stop_sounds_on :
    (Wire.run duetCard (⟨some (Processor.new duetCompiled.topo {} [] {}, ()), []⟩, []) lateMoves).log =
        [(0, .testSignal 0 (.fin 12000) (.ofRat 0.1) 1), (2401, .stopTestSignal)] ∧
      ∃ note ∈ (Wire.run duetCard (⟨some (Processor.new duetCompiled.topo {} [] {}, ()), []⟩, []) lateMoves).proc.2,
        note.time = 0 + 1 + samples fadeMs ∧ ∃ x : ℚ, note.sine = [.fin x] ∧ 0 < x := by
  obtain ⟨rests, started, -⟩ := resting_start
  obtain ⟨v, a, dying, audible, full, loud, quiet⟩ := tone_dies
  obtain ⟨t, rests, dying, ends, faded⟩ :=
    dying_samples (level_audible.trans (by linarith)) full 2400 rests dying (by omega) (by decide +kernel)
  obtain ⟨b, value, low, high⟩ := dying.level
  push_cast at low
  have stop : (stoppedAt 2401 t).finish = 7201 := by
    show saturatingAdd 2401 (samples fadeMs) = 7201
    decide +kernel
  obtain ⟨rests, stopped⟩ := resting_stop rests (by rw [stop]; omega)
  have audible' : (2 : ℚ) ^ (-900 : ℤ) ≤ b := level_audible.trans (by linarith)
  obtain ⟨dying, ends', -⟩ :=
    (stopped_dies 2401 dying.amp value audible' (by linarith)).render audible' (by linarith) (by omega)
  obtain ⟨t', rests, dying, ends'', faded'⟩ :=
    dying_samples audible' (by linarith) 2399 rests dying (by omega) (by rw [ends', stop]; omega)
  obtain ⟨-, kept, note, notes, time, -, sine⟩ := resting_sample rests (by rw [ends'', ends', stop]; omega)
  obtain ⟨dying, -, sound⟩ := dying.render audible' (by linarith) (by omega)
  obtain ⟨l, level, low', high'⟩ := dying.level
  push_cast at low'
  obtain ⟨x, sample, heard⟩ := sample_heard loud quiet (by linarith : 1 / 60000 ≤ l) (by linarith)
  rw [level, sample] at sound
  have whole : Wire.run duetCard (⟨some (Processor.new duetCompiled.topo {} [] {}, ()), []⟩, []) lateMoves =
      sampleMoves.foldl (Wire.move duetCard) ((List.replicate 2399 sampleMoves).flatten.foldl (Wire.move duetCard)
        (stopMoves.foldl (Wire.move duetCard) ((List.replicate 2400 sampleMoves).flatten.foldl (Wire.move duetCard)
          (startMoves.foldl (Wire.move duetCard) duetStart)))) := by
    unfold Wire.run lateMoves
    rw [List.foldl_append, List.foldl_append, List.foldl_append, List.foldl_append]
    rfl
  rw [whole]
  constructor
  · rw [kept, faded', stopped, faded, started]
    rfl
  · refine ⟨note, ?_, ?_, x, sine.trans sound, heard⟩
    · rw [notes]
      exact List.mem_append.mpr (.inr (List.mem_singleton.mpr rfl))
    · rw [time]
      decide +kernel
theorem test_lifetime_start :
    ∃ note ∈ (Wire.run duetCard (⟨some (Processor.new duetCompiled.topo {} [] {}, ()), []⟩, []) startMoves).proc.2,
      note.Timed [(0, .testSignal 0 (.fin 12000) (.ofRat 0.1) 1)] := by
  have timed := (test_lifetime duetCompiled 1 deaf () {} [] {} startMoves).2
  obtain ⟨-, log, note, noted⟩ := resting_start
  exact ⟨note, noted ▸ List.mem_singleton_self note, log ▸ timed note (noted ▸ List.mem_singleton_self note)⟩

end

end IemMixer.Rt
