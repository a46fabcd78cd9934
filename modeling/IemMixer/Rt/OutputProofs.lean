import IemMixer.TopologyOutputs
import IemMixer.Rt.Output
import IemMixer.Rt.WireProofs

/-! The HIL signal stays on its spare outputs: in any run of commands and blocks, sample by
sample, against the test signal that the commands applied so far leave running. -/
namespace IemMixer.Rt
open Lib Proto Dsp TopologyProofs TopologyOutputs

/-! ### The test signal, told from the commands -/

/-- The sample a test signal ends at, and the spare outputs of a HIL signal. -/
structure Signal where
  finish : ℕ
  mask : Option HilMask

/-- The signal after a command at a sample. A stop does nothing to one that ended. -/
def Signal.after (held : Option Signal) : ℕ × RtOp → Option Signal
  | (now, .testSignal _ _ _ ttl) => some ⟨saturatingAdd (saturatingAdd now ttl) (samples fadeMs), none⟩
  | (now, .hilTestSignal _ _ _ ttl mask _) =>
    some ⟨saturatingAdd (saturatingAdd now ttl) (samples fadeMs), some mask⟩
  | (now, .stopTestSignal) =>
    held.map fun s => if s.finish < now then s else { s with finish := saturatingAdd now (samples fadeMs) }
  | _ => held

/-- The signal that runs at sample `t`, after the commands applied until then. -/
def signalAt (log : List (ℕ × RtOp)) (t : ℕ) : Option Signal :=
  ((log.filter (·.1 ≤ t)).foldl Signal.after none).filter (t < ·.finish)

/-- Sample `j` on card output `ch`, if written. -/
def Sent.sample (s : Sent) (ch j : ℕ) : Option F64 := (s.card ch).bind (·[j]?)

/-- While a HIL signal runs no mix and no listen tap sounds, and only the masked spare
outputs carry anything; otherwise every spare output is silent. -/
def Sent.Isolated (topo : Topology) (spare : ℕ) (mask : Option HilMask) (s : Sent) (j : ℕ) : Prop :=
  match mask with
  | some mask =>
    (∀ node ∈ topo.mixes, ∀ slot, Sends node slot → ∀ x ∈ s.sample slot j, x = .fin 0) ∧
      (∀ (tap : Fin 2), ∀ pair ∈ (s.taps.get tap)[j]?, pair = (.fin 0, .fin 0)) ∧
      (∀ ch, (∀ (k : ℕ) (bound : k < 8), mask[k] = true → ch ≠ topo.tx.length + k) →
        ∀ x ∈ s.sample ch j, x = .fin 0)
  | none => ∀ k < spare, s.sample (topo.tx.length + k) j = some (.fin 0)

/-! ### One segment -/

section
variable {topo : Topology} {spare : ℕ} {p : Processor} {sine fade : List F64} {n : ℕ} {out : Sent}

/-- Nothing on the card, nothing on the taps. -/
structure Sent.Silent (s : Sent) : Prop where
  card : ∀ (ch : ℕ), ∀ xs ∈ s.card ch, ∀ x ∈ xs, x = .fin 0
  taps : ∀ (tap : Fin 2), ∀ pair ∈ s.taps.get tap, pair = (.fin 0, .fin 0)

theorem sendTap_silent (hil : p.test.any (·.mask.isSome) = true) (slot : Fin 2) (m : ℕ) (sound : List (F64 × F64))
    (silent : out.Silent) : (sendTap p sine fade slot m sound out).Silent := by
  unfold sendTap
  simp only [hil]
  split
  · refine ⟨silent.card, fun tap pair member => ?_⟩
    simp only [Core.get_slot, Fin.getElem_fin, Vector.getElem_set] at member
    split at member
    · rcases List.mem_append.mp member with before | added
      · exact silent.taps slot pair before
      · simp only [pushTap, if_true, List.mem_map] at added
        obtain ⟨-, -, same⟩ := added
        exact same.symm
    · exact silent.taps tap pair member
  · exact silent

theorem sendTx_silent (side : Option ℕ × List F64) (silent : out.Silent) : (sendTx true n out side).Silent := by
  rcases side with ⟨_ | ch, samples⟩
  · exact silent
  · refine ⟨fun other xs written x member => ?_, silent.taps⟩
    simp only [sendTx, if_true, Function.update_apply] at written
    split at written
    · obtain rfl := Option.some.inj written
      exact List.eq_of_mem_replicate member
    · exact silent.card other xs written x member

theorem sendMix_silent {δ : Type} (hil : p.test.any (·.mask.isSome) = true) (r : Rendered δ) (m : ℕ)
    (silent : out.Silent) : (sendMix topo p r sine fade n out m).Silent := by
  unfold sendMix
  split
  · simp only [List.foldl_cons, List.foldl_nil, hil]
    exact sendTx_silent _ (sendTx_silent _ (sendTap_silent hil 1 m _ (sendTap_silent hil 0 m _ silent)))
  · exact silent

theorem sendMixes_silent {δ : Type} (hil : p.test.any (·.mask.isSome) = true) (r : Rendered δ) (order : List ℕ)
    (silent : out.Silent) : (order.foldl (sendMix topo p r sine fade n) out).Silent := by
  induction order generalizing out with
  | nil => exact silent
  | cons m rest ih => exact ih (sendMix_silent hil r m silent)

/-- The spare outputs after a segment, and what they leave alone. -/
theorem sendHil_card (ch : ℕ) :
    ((List.range spare).foldl (sendHil topo p sine fade n) out).card ch =
      (if topo.tx.length ≤ ch ∧ ch < topo.tx.length + spare then
        some (if ((p.test.bind (·.mask)).any fun mask => mask[ch - topo.tx.length]?.getD false) then
          testSamples sine fade else List.replicate n (.fin 0))
      else out.card ch) := by
  induction spare with
  | zero => simp
  | succ k ih =>
    rw [List.range_succ, List.foldl_append]
    simp only [List.foldl_cons, List.foldl_nil, sendHil, Function.update_apply, ih]
    by_cases last : ch = topo.tx.length + k
    · subst last
      simp
    · rw [if_neg last]
      by_cases before : topo.tx.length ≤ ch ∧ ch < topo.tx.length + k
      · have inside : topo.tx.length ≤ ch ∧ ch < topo.tx.length + (k + 1) := by omega
        rw [if_pos before, if_pos inside]
      · have outside : ¬ (topo.tx.length ≤ ch ∧ ch < topo.tx.length + (k + 1)) := by omega
        rw [if_neg before, if_neg outside]

theorem sendHil_taps :
    ((List.range spare).foldl (sendHil topo p sine fade n) out).taps = out.taps := by
  induction spare with
  | zero => rfl
  | succ k ih =>
    rw [List.range_succ, List.foldl_append]
    exact ih

end

section
variable [Libm]

/-- A test keeps its end and its outputs while it sounds. -/
theorem TestRt.render_keeps (t : TestRt) (n : ℕ) : (t.render n).2.mask = t.mask ∧ (t.render n).2.finish = t.finish := by
  induction n generalizing t with
  | zero => exact ⟨rfl, rfl⟩
  | succ n ih =>
    simp only [TestRt.render]
    split
    · exact ih _
    · exact ih _

section
variable {digest : TopologyInfo → String} {δ : Type} (c : Compiled digest) (spare : ℕ) (interior : Interior δ)

/-- What a segment sends: the mixes' outputs, then the spare ones, by the test that runs in
it. -/
theorem render_sent (p : Processor) (memory : δ) (n : ℕ) :
    ∃ (p₁ : Processor) (r : Rendered δ) (sine fade : List F64), p₁.test.bind (·.mask) = (endTest p).test.bind (·.mask) ∧
      sine = ((endTest p).test.map fun t => (t.render n).1).getD [] ∧
      (p.render c.topo spare interior memory n).2.2 = (List.range spare).foldl (sendHil c.topo p₁ sine fade n)
        (c.topo.order.foldl (sendMix c.topo p₁ r sine fade n) {}) := by
  refine ⟨_, _, _, _, ?_, ?_, rfl⟩
  all_goals cases running : (endTest p).test with
  | none => rfl
  | some t => first | exact (t.render_keeps n).1 | rfl

/-- The masked spare outputs carry the test's samples, the others silence. -/
theorem render_carries (p : Processor) (memory : δ) (n : ℕ) : ∃ fade : List F64, ∀ k < spare,
    (p.render c.topo spare interior memory n).2.2.card (c.topo.tx.length + k) =
      some (if ((endTest p).test.bind (·.mask)).any fun mask => mask[k]?.getD false then
        testSamples (((endTest p).test.map fun t => (t.render n).1).getD []) fade else List.replicate n (.fin 0)) := by
  obtain ⟨p₁, r, sine, fade, mask, sounds, sent⟩ := render_sent c spare interior p memory n
  refine ⟨fade, fun k bound => ?_⟩
  have here : c.topo.tx.length ≤ c.topo.tx.length + k ∧ c.topo.tx.length + k < c.topo.tx.length + spare := by omega
  rw [sent, sendHil_card, if_pos here, mask, sounds, Nat.add_sub_cancel_left]

theorem render_isolated (p : Processor) (memory : δ) (n j : ℕ) (inside : j < n) :
    (p.render c.topo spare interior memory n).2.2.Isolated c.topo spare ((endTest p).test.bind (·.mask)) j := by
  obtain ⟨p₁, r, sine, fade, mask, -, sent⟩ := render_sent c spare interior p memory n
  rw [sent, ← mask]
  generalize mixed : c.topo.order.foldl (sendMix c.topo p₁ r sine fade n) {} = mixes
  unfold Sent.Isolated Sent.sample
  cases masked : p₁.test.bind (·.mask) with
  | none =>
    intro k bound
    have here : c.topo.tx.length ≤ c.topo.tx.length + k ∧ c.topo.tx.length + k < c.topo.tx.length + spare := by omega
    rw [sendHil_card, if_pos here, masked]
    simp [inside]
  | some mask =>
    have hil : p₁.test.any (·.mask.isSome) = true := by
      obtain ⟨t, running, held⟩ := Option.bind_eq_some_iff.mp masked
      simp [running, held]
    have silent : mixes.Silent := mixed ▸ sendMixes_silent hil r c.topo.order ⟨by simp, by simp [Core.get_slot]⟩
    have empty : ∀ (ch : ℕ), ∀ x ∈ (mixes.card ch).bind (·[j]?), x = .fin 0 := by
      intro ch x member
      obtain ⟨xs, written, held⟩ := Option.bind_eq_some_iff.mp member
      exact silent.card ch xs written x (List.mem_of_getElem? held)
    refine ⟨fun node member slot sends x held => ?_, fun tap pair member => ?_, fun ch outside x held => ?_⟩
    · have bound := (compile_tx digest c).2 node member slot sends
      rw [sendHil_card, if_neg (by omega)] at held
      exact empty slot x held
    · rw [sendHil_taps] at member
      exact silent.taps tap pair (List.mem_of_getElem? member)
    · rw [sendHil_card] at held
      split at held
      · rename_i spareOutput
        have unmasked : mask[ch - c.topo.tx.length]?.getD false = false := by
          rcases Nat.lt_or_ge (ch - c.topo.tx.length) 8 with bound | past
          · rw [Vector.getElem?_eq_getElem bound, Option.getD_some]
            by_contra set
            exact outside _ bound (Bool.eq_true_of_not_eq_false set) (by omega)
          · rw [Vector.getElem?_eq_none past]
            rfl
        rw [masked, Option.any_some, unmasked] at held
        simp only [Bool.false_eq_true, if_false, Option.bind_some] at held
        exact List.eq_of_mem_replicate (List.mem_of_getElem? held)
      · exact empty ch x held

/-! ### A run -/

/-- The signal told from the commands is the test the processor has; one it dropped ended
before. -/
def Told (held : Option Signal) (now : ℕ) : Option TestRt → Prop
  | some t => held = some ⟨t.finish, t.mask⟩ ∧ (now ≤ t.finish ∨ t.finish = 2 ^ 64 - 1)
  | none => ∀ s ∈ held, s.finish < now

omit [Libm] in
theorem finish_ahead (a b c : ℕ) : a ≤ saturatingAdd (saturatingAdd a b) c ∨ saturatingAdd (saturatingAdd a b) c = 2 ^ 64 - 1 := by
  unfold saturatingAdd
  simp only [Nat.min_def]
  split_ifs <;> omega

/-- A command keeps the clock, and the signal as it is told. -/
theorem apply_told {p next : Processor} {op : RtOp} {held : Option Signal} (told : Told held p.time p.test)
    (applied : p.apply op = some next) :
    next.time = p.time ∧ Told (Signal.after held (p.time, op)) p.time next.test := by
  cases op with
  | testSignal i hz amp ttl =>
    cases applied
    exact ⟨rfl, rfl, finish_ahead _ _ _⟩
  | hilTestSignal i hz amp ttl mask listen =>
    cases applied
    exact ⟨rfl, rfl, finish_ahead _ _ _⟩
  | stopTestSignal =>
    cases applied
    refine ⟨rfl, ?_⟩
    cases running : p.test with
    | none =>
      rw [running] at told
      intro s member
      simp only [Signal.after, Option.mem_def, Option.map_eq_some_iff] at member
      obtain ⟨old, before, rfl⟩ := member
      rw [if_pos (told old before)]
      exact told old before
    | some t =>
      rw [running] at told
      obtain ⟨rfl, ahead⟩ := told
      simp only [Signal.after, Option.map_some, Told]
      refine ⟨?_, ?_⟩
      · split
        · rename_i ended
          -- Only past the end of the clock.
          simp only [Option.some.injEq, Signal.mk.injEq, and_true, saturatingAdd, Nat.min_def]
          split_ifs <;> omega
        · rfl
      · unfold saturatingAdd
        simp only [Nat.min_def]
        split_ifs <;> omega
  | panic => cases applied
  | arm =>
    simp only [Processor.apply] at applied
    split at applied <;> (cases applied; exact ⟨rfl, told⟩)
  | _ =>
    cases applied
    exact ⟨rfl, told⟩

omit [Libm] in
/-- A test that goes on had not ended. -/
theorem endTest_some {p : Processor} {t : TestRt} (lasts : (endTest p).test = some t) :
    p.test = some t ∧ p.time < t.finish := by
  unfold endTest at lasts
  split at lasts
  · cases lasts
  · rename_i running
    rw [lasts, Option.any_some, decide_eq_true_eq] at running
    exact ⟨lasts, Nat.lt_of_not_le running⟩

theorem render_test (p : Processor) (memory : δ) (n : ℕ) :
    (p.render c.topo spare interior memory n).1.test = (endTest p).test.map fun t => (t.render n).2 := by
  cases running : (endTest p).test with
  | none => simp only [Processor.render, running, Option.map_none]
  | some t => simp only [Processor.render, running, Option.map_some]

/-- A segment keeps the signal as it is told, when it ends no later than the test. -/
theorem render_told {p : Processor} {held : Option Signal} (memory : δ) {n : ℕ} (told : Told held p.time p.test)
    (long : 0 < n) (within : ∀ t ∈ (endTest p).test, p.time + n ≤ t.finish) :
    (p.render c.topo spare interior memory n).1.time = p.time + n ∧
      Told held (p.time + n) (p.render c.topo spare interior memory n).1.test := by
  have time : (endTest p).time = p.time := by
    unfold endTest
    split <;> rfl
  refine ⟨congrArg (· + n) time, ?_⟩
  rw [render_test]
  cases ending : (endTest p).test with
  | none =>
    rw [Option.map_none]
    intro s member
    cases running : p.test with
    | none =>
      rw [running] at told
      exact Nat.lt_add_right n (told s member)
    | some t =>
      rw [running] at told
      obtain ⟨rfl, -⟩ := told
      cases member
      simp only [endTest, running, Option.any_some] at ending
      split at ending
      · rename_i ended
        have past := of_decide_eq_true ended
        simp only
        omega
      · rw [running] at ending
        cases ending
  | some t =>
    rw [(endTest_some ending).1] at told
    obtain ⟨mask, finish⟩ := t.render_keeps n
    simp only [Option.map_some, Told, mask, finish]
    exact ⟨told.1, .inl (within t ending)⟩

/-- A segment's samples, each against the signal that runs at it. -/
def Segment.Isolated (topo : Topology) (spare : ℕ) (log : List (ℕ × RtOp)) (s : Segment) : Prop :=
  ∀ j < s.frames, s.sent.Isolated topo spare ((signalAt log (s.time + j)).bind (·.mask)) j

omit [Libm] in
/-- A later command changes nothing about an earlier sample. -/
theorem Segment.Isolated.append {topo : Topology} {log : List (ℕ × RtOp)} {s : Segment} {now : ℕ} (op : RtOp)
    (isolated : s.Isolated topo spare log) (later : s.time + s.frames ≤ now) :
    s.Isolated topo spare (log ++ [(now, op)]) := by
  intro j inside
  have dropped : ¬ now ≤ s.time + j := by omega
  have same : signalAt (log ++ [(now, op)]) (s.time + j) = signalAt log (s.time + j) := by
    simp [signalAt, dropped]
  rw [same]
  exact isolated j inside

/-- A segment sent with the test the commands tell: the masked spare outputs carry its samples,
the others silence. -/
def Segment.Carries (topo : Topology) (spare : ℕ) (log : List (ℕ × RtOp)) (s : Segment) : Prop :=
  ∃ (test : Option TestRt) (fade : List F64),
    (∀ j < s.frames, signalAt log (s.time + j) = test.map fun t => ⟨t.finish, t.mask⟩) ∧
    ∀ k < spare, s.sent.card (topo.tx.length + k) =
      some (if (test.bind (·.mask)).any fun mask => mask[k]?.getD false then
        testSamples ((test.map fun t => (t.render s.frames).1).getD []) fade else List.replicate s.frames (.fin 0))

theorem Segment.Carries.append {topo : Topology} {log : List (ℕ × RtOp)} {s : Segment} {now : ℕ} (op : RtOp)
    (carries : s.Carries topo spare log) (later : s.time + s.frames ≤ now) :
    s.Carries topo spare (log ++ [(now, op)]) := by
  obtain ⟨test, fade, told, sent⟩ := carries
  refine ⟨test, fade, fun j inside => ?_, sent⟩
  have dropped : ¬ now ≤ s.time + j := by omega
  rw [← told j inside]
  simp [signalAt, dropped]

/-- What holds between any two moves. -/
structure Kept (topo : Topology) (spare : ℕ) (w : Wire (Card δ)) : Prop where
  unfinished : ∀ b ∈ w.phase.block?, b.done < b.frames
  past : ∀ e ∈ w.log, e.1 ≤ w.time
  told : ∀ (p : Processor) (memory : δ), w.proc.live = some (p, memory) →
    p.time = w.time ∧ Told (w.log.foldl Signal.after none) w.time p.test
  sent : ∀ s ∈ w.proc.sent, s.time + s.frames ≤ w.time ∧ s.Isolated topo spare w.log ∧ s.Carries topo spare w.log

variable {w : Wire (Card δ)}

theorem Kept.next {topo : Topology} (kept : Kept topo spare w) (b : InBlock) : Kept topo spare (w.next b) := by
  unfold Wire.next
  split
  · rename_i more
    refine ⟨fun b' member => ?_, kept.past, kept.told, kept.sent⟩
    cases member
    exact more
  · exact ⟨fun _ never => (by cases never), kept.past, kept.told, kept.sent⟩

omit [Libm] in
/-- The signal at a sample of a segment that ends no later than the test is the test of its start. -/
theorem signalAt_there {log : List (ℕ × RtOp)} {now j n : ℕ} {p : Processor} (past : ∀ e ∈ log, e.1 ≤ now)
    (time : p.time = now) (told : Told (log.foldl Signal.after none) now p.test) (inside : j < n)
    (within : ∀ t ∈ (endTest p).test, now + n ≤ t.finish) :
    signalAt log (now + j) = (endTest p).test.map fun t => ⟨t.finish, t.mask⟩ := by
  have whole : log.filter (·.1 ≤ now + j) = log := by
    refine List.filter_eq_self.mpr fun e member => ?_
    have before := past e member
    exact decide_eq_true (by omega)
  rw [signalAt, whole]
  cases running : p.test with
  | none =>
    have ended : (endTest p).test = none := by simp [endTest, running]
    rw [running] at told
    rw [ended]
    cases held : log.foldl Signal.after none with
    | none => rfl
    | some s =>
      have before := told s held
      rw [Option.filter_some, if_neg (by simp only [decide_eq_true_eq]; omega)]
      rfl
  | some t =>
    rw [running] at told
    rw [told.1, Option.filter_some]
    by_cases ended : t.finish ≤ p.time
    · have ended : (endTest p).test = none := by simp [endTest, running, ended]
      rw [ended, if_neg (by simp only [decide_eq_true_eq]; omega)]
      rfl
    · have lasts : (endTest p).test = some t := by simp [endTest, running, ended]
      have long := within t lasts
      rw [lasts, if_pos (by simp only [decide_eq_true_eq]; omega)]
      rfl

omit [Libm] in
theorem signalAt_of_told {log : List (ℕ × RtOp)} {now j n : ℕ} {p : Processor} (past : ∀ e ∈ log, e.1 ≤ now)
    (time : p.time = now) (told : Told (log.foldl Signal.after none) now p.test) (inside : j < n)
    (within : ∀ t ∈ (endTest p).test, now + n ≤ t.finish) :
    (signalAt log (now + j)).bind (·.mask) = (endTest p).test.bind (·.mask) := by
  rw [signalAt_there past time told inside within]
  cases (endTest p).test <;> rfl

omit [Libm] in
/-- The cuts of a segment: at least a sample, never past the end of the test. -/
theorem cut_within {time n : ℕ} (long : 0 < n) (stop : Option ℕ) :
    0 < Wire.cut time stop n ∧ Wire.cut time stop n ≤ n ∧
      ∀ finish ∈ stop, time < finish → time + Wire.cut time stop n ≤ finish := by
  unfold Wire.cut
  cases stop with
  | none => exact ⟨long, le_rfl, fun _ never => by cases never⟩
  | some stop =>
    simp only
    split
    · refine ⟨by omega, by omega, fun finish member ahead => ?_⟩
      cases member
      omega
    · rename_i passed
      refine ⟨long, le_rfl, fun finish member ahead => ?_⟩
      cases member
      exact absurd ahead passed

theorem Kept.segment (kept : Kept c.topo spare w) {b : InBlock} (cuts : w.phase = .segment b) :
    Kept c.topo spare (w.segment (cardMachine c.topo spare interior) b) := by
  have more : b.done < b.frames := kept.unfinished b (by rw [cuts]; rfl)
  unfold Wire.segment
  extract_lets n stamp left n' cut
  refine Kept.next spare ?_ _
  have long : 0 < n' := by
    simp only [n', n]
    split
    · exact (cut_within (by simp only [seg]; omega) _).1
    · simp only [seg]
      omega
  obtain ⟨filled, -, within⟩ := @cut_within w.time _ long ((cardMachine c.topo spare interior).testEnd w.proc)
  have later : w.time ≤ w.time + cut := Nat.le_add_right _ _
  have unfinished : ∀ b' ∈ w.phase.block?, b'.done < b'.frames := kept.unfinished
  have past : ∀ e ∈ w.log, e.1 ≤ w.time + cut := fun e member => (kept.past e member).trans later
  have before : ∀ s ∈ w.proc.sent, s.time + s.frames ≤ w.time + cut ∧ s.Isolated c.topo spare w.log ∧
      s.Carries c.topo spare w.log := fun s member => ⟨((kept.sent s member).1).trans later, (kept.sent s member).2⟩
  cases live : w.proc.live with
  | none =>
    have still : (cardMachine c.topo spare interior).render w.proc cut = w.proc := by
      simp only [cardMachine, live]
    rw [still]
    refine ⟨unfinished, past, fun p memory held => ?_, before⟩
    rw [live] at held
    cases held
  | some held =>
    obtain ⟨p, memory⟩ := held
    obtain ⟨time, told⟩ := kept.told p memory live
    have lasts : ∀ t ∈ (endTest p).test, w.time + cut ≤ t.finish := by
      intro t member
      obtain ⟨running, ahead⟩ := endTest_some member
      refine within t.finish ?_ (time ▸ ahead)
      simp [cardMachine, live, running]
    have rendered : (cardMachine c.topo spare interior).render w.proc cut =
        { live := some ((p.render c.topo spare interior memory cut).1, (p.render c.topo spare interior memory cut).2.1)
          sent := w.proc.sent ++ [⟨p.time, cut, (p.render c.topo spare interior memory cut).2.2⟩] } := by
      simp only [cardMachine, live]
    obtain ⟨advanced, kept_told⟩ := render_told c spare interior memory (time ▸ told) filled
      fun t member => by rw [time]; exact lasts t member
    rw [rendered]
    refine ⟨unfinished, past, fun p' memory' held => ?_, fun s member => ?_⟩
    · obtain ⟨rfl, -⟩ := Prod.mk.inj (Option.some.inj held)
      exact ⟨advanced.trans (by rw [time]), time ▸ kept_told⟩
    · rcases List.mem_append.mp member with earlier | added
      · exact before s earlier
      · obtain rfl := List.mem_singleton.mp added
        refine ⟨by simp only [time]; exact le_rfl, fun j inside => ?_, ?_⟩
        · rw [time, signalAt_of_told kept.past time told inside lasts]
          exact render_isolated c spare interior p memory cut j inside
        · obtain ⟨fade, carries⟩ := render_carries c spare interior p memory cut
          refine ⟨(endTest p).test, fade, fun j inside => ?_, carries⟩
          rw [time]
          exact signalAt_there kept.past time told inside lasts

theorem Kept.pop (kept : Kept c.topo spare w) {b : InBlock} {len n : ℕ} (pops : w.phase = .pop b len n) :
    Kept c.topo spare (w.pop (cardMachine c.topo spare interior) b len n) := by
  have more : b.done < b.frames := kept.unfinished b (by rw [pops]; rfl)
  have unfinished : ∀ b' ∈ some b, b'.done < b'.frames := by
    intro b' same
    cases same
    exact more
  cases n with
  | zero =>
    refine ⟨fun b' member => ?_, kept.past, kept.told, kept.sent⟩
    cases member
    exact more
  | succ n =>
    simp only [Wire.pop]
    split
    · exact ⟨unfinished, kept.past, kept.told, kept.sent⟩
    · rename_i cmd ring held
      refine ⟨unfinished, fun e member => ?_, fun p memory live => ?_, fun s member => ?_⟩
      · rcases List.mem_append.mp member with before | here
        · exact kept.past e before
        · obtain rfl := List.mem_singleton.mp here
          exact le_rfl
      · simp only [cardMachine, Option.bind_eq_some_iff, Option.map_eq_some_iff] at live
        obtain ⟨⟨old, memory'⟩, before, next, applied, same⟩ := live
        obtain ⟨rfl, -⟩ := Prod.mk.inj same
        obtain ⟨time, told⟩ := kept.told old memory' before
        obtain ⟨clock, after⟩ := apply_told (time ▸ told) applied
        rw [List.foldl_append]
        exact ⟨clock.trans time, by simpa only [time, List.foldl_cons, List.foldl_nil] using after⟩
      · obtain ⟨within, isolated, carries⟩ := kept.sent s member
        exact ⟨within, isolated.append spare cmd.op within, carries.append spare cmd.op within⟩

theorem Kept.move (kept : Kept c.topo spare w) (move : Move) :
    Kept c.topo spare (w.move (cardMachine c.topo spare interior) move) := by
  cases move with
  | publish rt => exact ⟨kept.unfinished, kept.past, kept.told, kept.sent⟩
  | push stamp =>
    simp only [Wire.move]
    split
    · exact kept
    · split
      · exact kept
      · exact ⟨kept.unfinished, kept.past, kept.told, kept.sent⟩
  | block frames =>
    simp only [Wire.move]
    split
    · exact kept.next spare _
    · exact kept
  | callback =>
    simp only [Wire.move]
    split
    · exact kept
    · rename_i b looks
      have more : b.done < b.frames := kept.unfinished b (by rw [looks]; rfl)
      have same : ∀ {b' : InBlock} {phase : Phase}, phase.block? = some b' → b'.done = b.done →
          b'.frames = b.frames → Kept c.topo spare { w with phase } := by
        intro b' phase inside done frames
        refine ⟨fun other member => ?_, kept.past, kept.told, kept.sent⟩
        obtain rfl : b' = other := Option.some.inj (inside.symm.trans member)
        rw [done, frames]
        exact more
      unfold Wire.look
      split
      · exact same rfl rfl rfl
      · split
        · exact same rfl rfl rfl
        · simp only
          split
          · exact same rfl rfl rfl
          · exact same rfl rfl rfl
    · rename_i b len n pops
      exact kept.pop c spare interior pops
    · rename_i b cuts
      exact kept.segment c spare interior cuts

/-- From a processor with no test running. -/
theorem run_kept (p : Processor) (memory : δ) (quiet : p.test = none) (start : p.time = 0) (moves : List Move) :
    Kept c.topo spare (Wire.run (cardMachine c.topo spare interior) { live := some (p, memory) } moves) := by
  have first : Kept c.topo spare { proc := ({ live := some (p, memory) } : Card δ) } := by
    refine ⟨fun b never => (by cases never), fun e never => (by cases never), fun p' memory' held => ?_,
      fun s never => (by cases never)⟩
    obtain ⟨rfl, -⟩ := Prod.mk.inj (Option.some.inj held)
    rw [quiet]
    exact ⟨start, fun s never => by cases never⟩
  unfold Wire.run
  generalize ({ proc := ({ live := some (p, memory) } : Card δ) } : Wire (Card δ)) = w at first
  induction moves generalizing w with
  | nil => exact first
  | cons move rest ih => exact ih _ (first.move c spare interior move)

end

/-- **HIL isolation.** In every run of commands and blocks, however the strips sound: at each
sample at which a HIL signal runs, every mix's output and both listen taps are silent and no
output but the masked spare ones carries anything; at any other sample every spare output is
silent. The masked spare ones carry the samples of the test the commands tell. A mask that was
accepted covers no output that a mix sends on. -/
theorem hil_stays_on_spare_outputs {digest : TopologyInfo → String} {δ : Type} (c : Compiled digest) (spare : ℕ)
    (interior : Interior δ) (memory : δ) (state : MixState) (counters : List ℕ) (opts : Options) (moves : List Move) :
    (let w := Wire.run (cardMachine c.topo spare interior)
        { live := some (Processor.new c.topo state counters opts, memory) } moves
      ∀ s ∈ w.proc.sent, (∀ j < s.frames,
        s.sent.Isolated c.topo spare ((signalAt w.log (s.time + j)).bind (·.mask)) j) ∧
        s.Carries c.topo spare w.log) ∧
    ∀ (hilTx hil cardTx : List UInt16) (mask : HilMask), c.topo.hilOutputs hilTx = .ok hil →
      hilMask c.topo hil cardTx = .ok mask → ∀ (k : ℕ) (bound : k < 8), mask[k] = true →
        ∃ ch, (c.topo.tx ++ hil)[c.topo.tx.length + k]? = some ch ∧
          ∀ node ∈ c.topo.mixes, ∀ slot, Sends node slot → c.topo.tx[slot]? ≠ some ch := by
  refine ⟨fun s member => ?_, fun hilTx hil cardTx mask outputs accepted => mask_spares_mixes digest c outputs accepted⟩
  exact ((run_kept c spare interior _ memory rfl rfl moves).sent s member).2

end

/-! The duet's card, with a HIL signal on the spare output 8. -/

section
attribute [local instance] Core.duetLibm

/-- Strips that make no sound. -/
def deaf : Interior Unit := fun p _ _ _ => ⟨p.inputs, p.mixes, (), fun _ => [], fun _ => [], fun _ => []⟩

def onlyEight : HilMask := #v[true, false, false, false, false, false, false, false]

/-- The signal starts and four samples are rendered. -/
def tested : Wire (Card Unit) :=
  Wire.run (cardMachine duetCompiled.topo 1 deaf)
    { live := some (Processor.new duetCompiled.topo {} [] {}, ()) }
    ([.publish [.hilTestSignal 0 (.fin 1000) (.fin 1) 96000 onlyEight false], .push 0, .block 4] ++
      List.replicate 6 .callback)

theorem hil_stays_on_spare_outputs_duet :
    (∃ s ∈ tested.proc.sent, s.frames = 4 ∧ s.sent.Isolated duetCompiled.topo 1 (some onlyEight) 0) ∧
    ∃ ch, (duetCompiled.topo.tx ++ [8])[duetCompiled.topo.tx.length + 0]? = some ch ∧
      ∀ node ∈ duetCompiled.topo.mixes, ∀ slot, Sends node slot → duetCompiled.topo.tx[slot]? ≠ some ch := by
  have isolation := hil_stays_on_spare_outputs duetCompiled 1 deaf () {} [] {}
    ([.publish [.hilTestSignal 0 (.fin 1000) (.fin 1) 96000 onlyEight false], .push 0, .block 4] ++
      List.replicate 6 .callback)
  refine ⟨?_, isolation.2 [8] [8] [8] onlyEight (by decide +kernel) (by decide +kernel) 0 (by decide) rfl⟩
  have rendered : ∃ s ∈ tested.proc.sent, s.frames = 4 ∧ (signalAt tested.log (s.time + 0)).bind (·.mask) = some onlyEight := by
    have last : (tested.proc.sent.getLast?.map fun s => (s.frames, (signalAt tested.log (s.time + 0)).bind (·.mask))) =
        some (4, some onlyEight) := by decide +kernel
    obtain ⟨s, member, same⟩ := Option.map_eq_some_iff.mp last
    obtain ⟨frames, sounding⟩ := Prod.mk.inj same
    exact ⟨s, List.mem_of_getLast? member, frames, sounding⟩
  obtain ⟨s, member, frames, sounding⟩ := rendered
  exact ⟨s, member, frames, sounding ▸ (isolation.1 s member).1 0 (by omega)⟩

end

end IemMixer.Rt
