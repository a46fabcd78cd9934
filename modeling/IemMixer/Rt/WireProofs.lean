import IemMixer.Rt.Wire
import IemMixer.Core.BatchProofs

/-! Order and atomicity of the command ring: whatever the interleaving, the processor has
applied a prefix of what was published; a group is applied whole at one sample; a block
applies at most its budget, and always the group that was due at its start. -/
namespace IemMixer.Rt

theorem chunksUpTo_flatten {n : ℕ} (some : 0 < n) (fuel : ℕ) (xs : List α) (enough : xs.length ≤ fuel) :
    (chunksUpTo n fuel xs).flatten = xs := by
  induction fuel generalizing xs with
  | zero =>
    rw [List.length_eq_zero_iff.mp (Nat.le_zero.mp enough)]
    rfl
  | succ fuel ih =>
    cases xs with
    | nil => rfl
    | cons x rest =>
      have shorter : ((x :: rest).drop n).length ≤ fuel := by
        simp only [List.length_drop, List.length_cons] at enough ⊢
        omega
      rw [chunksUpTo, List.flatten_cons, ih _ shorter, List.take_append_drop]
      exact nofun

theorem chunks_flatten {n : ℕ} (some : 0 < n) (xs : List α) : (chunks n xs).flatten = xs :=
  chunksUpTo_flatten some xs.length xs le_rfl

theorem chunksUpTo_size {n : ℕ} (some : 0 < n) (fuel : ℕ) (xs : List α) :
    ∀ group ∈ chunksUpTo n fuel xs, 0 < group.length ∧ group.length ≤ n := by
  induction fuel generalizing xs with
  | zero =>
    cases xs with
    | nil => simp [chunksUpTo]
    | cons x rest => simp [chunksUpTo]
  | succ fuel ih =>
    cases xs with
    | nil => simp [chunksUpTo]
    | cons x rest =>
      intro group member
      rw [chunksUpTo, List.mem_cons] at member
      · rcases member with rfl | later
        · simp only [List.length_take, List.length_cons]
          omega
        · exact ih _ group later
      · exact nofun

/-- A list that fits is one chunk. -/
theorem chunks_whole {n : ℕ} {xs : List α} (filled : xs ≠ []) (fits : xs.length ≤ n) :
    chunks n xs = [xs] := by
  cases xs with
  | nil => exact absurd rfl filled
  | cons x rest =>
    simp [chunks, chunksUpTo, List.take_of_length_le fits, List.drop_of_length_le fits]

theorem groupCmds_op (stamp : ℕ) (ops : List RtOp) : (groupCmds stamp ops).map (·.op) = ops := by
  cases ops with
  | nil => rfl
  | cons op rest => simp [groupCmds, Function.comp_def]

theorem pushGroup_some {ring ring' : List RtCmd} {stamp : ℕ} {ops : List RtOp}
    (pushed : pushGroup ring stamp ops = some ring') : ring' = ring ++ groupCmds stamp ops := by
  unfold pushGroup at pushed
  split at pushed
  · cases pushed
  · split at pushed
    · cases pushed
    · split at pushed
      · cases pushed
      · exact (Option.some.inj pushed).symm

section
variable {σ : Type}

/-- Groups as they lie in the ring, each with its stamp. -/
def laid (groups : List (ℕ × List RtOp)) : List RtCmd := groups.flatMap fun g => groupCmds g.1 g.2

/-- Groups as they were applied, each at one sample time. -/
def stamped (groups : List (ℕ × List RtOp)) : List (ℕ × RtOp) :=
  groups.flatMap fun g => g.2.map (g.1, ·)

/-- The group in the callback's hands: what it popped and what it did not yet. -/
def Held (phase : Phase) (popped rest : List RtOp) : Prop :=
  match phase with
  | .pop _ len n => rest.length = n ∧ popped.length + rest.length = len
  | _ => popped = [] ∧ rest = []

def heldGroups (phase : Phase) (popped rest : List RtOp) : List (List RtOp) :=
  match phase with
  | .pop .. => [popped ++ rest]
  | _ => []

/-- Every group is applied, in the callback's hands, in the ring or waiting. -/
structure Account (w : Wire σ) (done : List (ℕ × List RtOp)) (popped rest : List RtOp)
    (waiting : List (ℕ × List RtOp)) : Prop where
  held : Held w.phase popped rest
  pushed : w.pushed = done.map (·.2) ++ heldGroups w.phase popped rest ++ waiting.map (·.2)
  log : w.log = stamped done ++ popped.map (w.time, ·)
  ring : ∃ tail, tail.map (·.op) = rest ∧ w.ring = tail ++ laid waiting
  sizes : ∀ g ∈ waiting, 0 < g.2.length ∧ g.2.length ≤ maxCmdsPerBlock
  pending : ∀ g ∈ w.pending, 0 < g.length ∧ g.length ≤ maxCmdsPerBlock
  outcomes : w.pushed ++ w.pending = w.outcomes.flatMap (chunks maxCmdsPerBlock)

/-- What a block has spent, and what it owes its start. -/
def Paced (w : Wire σ) : Prop :=
  match w.phase with
  | .idle => True
  | .look b => w.log.length + b.budget = b.start + maxCmdsPerBlock ∧
      (b.start + b.due ≤ w.log.length ∨
        w.log.length = b.start ∧ 0 < b.due ∧ w.dueLen = b.due)
  | .pop b len n => w.log.length + n + b.budget = b.start + maxCmdsPerBlock + len ∧ len ≤ b.budget ∧
      b.start + b.due ≤ w.log.length + n
  | .segment b => w.log.length + b.budget = b.start + maxCmdsPerBlock ∧ b.start + b.due ≤ w.log.length

/-- A finished block kept to its budget and applied what was due at its start. -/
def BlockRecord.Kept (r : BlockRecord) : Prop :=
  r.finish ≤ r.start + maxCmdsPerBlock ∧ (0 < r.frames → r.start + r.due ≤ r.finish)

structure Wire.Sound (w : Wire σ) : Prop where
  account : ∃ done popped rest waiting, Account w done popped rest waiting
  paced : Paced w
  blocks : ∀ r ∈ w.blocks, r.Kept

variable {w : Wire σ} {done waiting : List (ℕ × List RtOp)} {popped rest : List RtOp}

/-- With nothing in the callback's hands the ring starts with a whole group. -/
theorem Account.head (account : Account w done [] [] waiting) {cmd : RtCmd} {cmds : List RtCmd}
    (shape : w.ring = cmd :: cmds) : ∃ g later, waiting = g :: later ∧ cmd.stamp = g.1 ∧
      max cmd.group 1 = g.2.length ∧ g.2.length ≤ maxCmdsPerBlock := by
  obtain ⟨tail, none, ring⟩ := account.ring
  rw [List.map_eq_nil_iff.mp none, List.nil_append] at ring
  cases waiting with
  | nil =>
    rw [ring] at shape
    cases shape
  | cons g later =>
    obtain ⟨filled, bounded⟩ := account.sizes g (by simp)
    obtain ⟨stamp, ops⟩ := g
    cases ops with
    | nil => cases filled
    | cons op ops =>
      rw [ring] at shape
      simp only [laid, List.flatMap_cons, groupCmds, List.cons_append, List.cons.injEq] at shape
      obtain ⟨rfl, -⟩ := shape
      exact ⟨_, later, rfl, rfl, by simp, bounded⟩

/-- The control thread's moves leave the callback's pace alone. -/
theorem Paced.of_eq {w' : Wire σ} (paced : Paced w) (phase : w'.phase = w.phase) (log : w'.log = w.log)
    (due : 0 < w.dueLen → w'.dueLen = w.dueLen) : Paced w' := by
  unfold Paced at *
  rw [phase, log]
  cases held : w.phase with
  | idle => trivial
  | look b =>
    simp only [held] at paced ⊢
    refine ⟨paced.1, paced.2.imp_right ?_⟩
    rintro ⟨same, owed, len⟩
    exact ⟨same, owed, (due (len ▸ owed)).trans len⟩
  | pop b len n => simpa only [held] using paced
  | segment b => simpa only [held] using paced

theorem publish_sound (m : Machine σ) (rt : List RtOp) (sound : w.Sound) :
    (w.move m (.publish rt)).Sound := by
  obtain ⟨⟨done, popped, rest, waiting, account⟩, paced, blocks⟩ := sound
  refine ⟨⟨done, popped, rest, waiting, account.held, account.pushed, account.log, account.ring,
    account.sizes, ?_, ?_⟩, paced.of_eq rfl rfl fun _ => rfl, blocks⟩
  · intro g member
    rcases List.mem_append.mp member with early | late
    · exact account.pending g early
    · exact chunksUpTo_size (by decide) _ rt g late
  · show w.pushed ++ (w.pending ++ chunks maxCmdsPerBlock rt) =
      (w.outcomes ++ [rt]).flatMap (chunks maxCmdsPerBlock)
    rw [← List.append_assoc, account.outcomes, List.flatMap_append, List.flatMap_singleton]

theorem dueLen_append (ring : List RtCmd) (more : List RtCmd) (shape : w.ring = ring)
    (due : 0 < w.dueLen) : { w with ring := ring ++ more }.dueLen = w.dueLen := by
  unfold Wire.dueLen at *
  rw [shape] at due ⊢
  cases ring with
  | nil => cases due
  | cons head tail => rfl

theorem push_sound (m : Machine σ) (stamp : ℕ) (sound : w.Sound) : (w.move m (.push stamp)).Sound := by
  simp only [Wire.move]
  split
  · exact sound
  · rename_i group later waits
    split
    · exact sound
    · rename_i ring pushed
      obtain ⟨⟨done, popped, rest, waiting, account⟩, paced, blocks⟩ := sound
      cases pushGroup_some pushed
      refine ⟨⟨done, popped, rest, waiting ++ [(stamp, group)], account.held, ?_, account.log, ?_, ?_, ?_, ?_⟩,
        paced.of_eq rfl rfl (dueLen_append w.ring _ rfl), blocks⟩
      · show w.pushed ++ [group] = _
        rw [account.pushed, List.map_append, List.append_assoc, List.append_assoc, List.append_assoc]
        rfl
      · obtain ⟨tail, ops, shape⟩ := account.ring
        refine ⟨tail, ops, ?_⟩
        show w.ring ++ groupCmds stamp group = _
        rw [shape, laid, laid, List.flatMap_append, List.flatMap_singleton, List.append_assoc]
      · intro g member
        rcases List.mem_append.mp member with early | late
        · exact account.sizes g early
        · rw [List.mem_singleton.mp late]
          exact account.pending group (by simp [waits])
      · intro g member
        exact account.pending g (by simp [waits, member])
      · show (w.pushed ++ [group]) ++ later = _
        rw [← account.outcomes, waits, List.append_assoc]
        rfl

/-- A block goes on to its next look at the ring, or ends. -/
theorem next_sound {b : InBlock} (account : Account { w with phase := .idle } done popped rest waiting)
    (spent : w.log.length + b.budget = b.start + maxCmdsPerBlock)
    (owes : b.start + b.due ≤ w.log.length ∨
      b.done = 0 ∧ w.log.length = b.start ∧ 0 < b.due ∧ w.dueLen = b.due)
    (blocks : ∀ r ∈ w.blocks, r.Kept) : (w.next b).Sound := by
  unfold Wire.next
  split
  · exact ⟨⟨done, popped, rest, waiting, account.held, account.pushed, account.log, account.ring,
      account.sizes, account.pending, account.outcomes⟩, ⟨spent, owes.imp_right (·.2)⟩, blocks⟩
  · rename_i past
    refine ⟨⟨done, popped, rest, waiting, account.held, account.pushed, account.log, account.ring,
      account.sizes, account.pending, account.outcomes⟩, trivial, fun r member => ?_⟩
    rcases List.mem_append.mp member with early | late
    · exact blocks r early
    · rw [List.mem_singleton.mp late]
      refine ⟨by simp only; omega, fun some => ?_⟩
      rcases owes with paid | ⟨fresh, -⟩
      · exact paid
      · simp only at some
        omega

theorem block_sound (m : Machine σ) (frames : ℕ) (sound : w.Sound) :
    (w.move m (.block frames)).Sound := by
  simp only [Wire.move]
  split
  · rename_i idle
    obtain ⟨⟨done, popped, rest, waiting, account⟩, -, blocks⟩ := sound
    have same : { w with phase := .idle } = w := by
      cases w
      cases idle
      rfl
    refine next_sound (same.symm ▸ account) (by simp only) ?_ blocks
    cases due : w.dueLen with
    | zero => exact .inl (by simp)
    | succ n => exact .inr ⟨rfl, rfl, by simp, rfl⟩
  · exact sound

theorem look_sound {b : InBlock} (looks : w.phase = .look b) (sound : w.Sound) : (w.look b).Sound := by
  obtain ⟨⟨done, popped, rest, waiting, account⟩, paced, blocks⟩ := sound
  have nothing := account.held
  simp only [Held, looks] at nothing
  obtain ⟨rfl, rfl⟩ := nothing
  have pushed := account.pushed
  simp only [heldGroups, looks, List.append_nil] at pushed
  simp only [Paced, looks] at paced
  obtain ⟨spent, owes⟩ := paced
  -- at a segment nothing is owed any more
  have segment : ∀ left, (w.ring = [] ∨ (∃ cmd cmds, w.ring = cmd :: cmds ∧
      (w.time < cmd.stamp ∨ b.budget < max cmd.group 1))) →
      Wire.Sound { w with phase := .segment { b with left } } := by
    intro left why
    refine ⟨⟨done, [], [], waiting, ⟨rfl, rfl⟩, ?_, account.log, account.ring, account.sizes,
      account.pending, account.outcomes⟩, ⟨spent, ?_⟩, blocks⟩
    · simpa [heldGroups] using pushed
    · rcases owes with paid | ⟨fresh, owed, due⟩
      · exact paid
      · exfalso
        unfold Wire.dueLen at due
        rcases why with empty | ⟨cmd, cmds, shape, late | poor⟩
        · simp only [empty] at due
          omega
        · simp only [shape] at due
          split at due <;> omega
        · obtain ⟨g, later, -, -, len, bounded⟩ := account.head shape
          omega
  unfold Wire.look
  split
  · rename_i empty
    exact segment b.left (.inl empty)
  · rename_i cmd cmds shape
    split
    · rename_i late
      exact segment b.left (.inr ⟨cmd, cmds, shape, .inl late⟩)
    · rename_i due
      dsimp only
      split
      · rename_i poor
        exact segment true (.inr ⟨cmd, cmds, shape, .inr poor⟩)
      · rename_i fits
        obtain ⟨g, later, rfl, stamp, len, bounded⟩ := account.head shape
        obtain ⟨tail, none, ring⟩ := account.ring
        rw [List.map_eq_nil_iff.mp none, List.nil_append] at ring
        refine ⟨⟨done, [], g.2, later, ⟨len.symm, by simp [len]⟩, ?_, account.log, ?_, ?_,
          account.pending, account.outcomes⟩, ⟨by simp only; omega, by omega, ?_⟩, blocks⟩
        · simpa [heldGroups] using pushed
        · exact ⟨groupCmds g.1 g.2, groupCmds_op g.1 g.2, by simpa [laid] using ring⟩
        · exact fun other member => account.sizes other (by simp [member])
        · rcases owes with paid | ⟨fresh, owed, head⟩
          · simp only
            omega
          · simp only [Wire.dueLen, shape, Nat.not_lt.mp due, if_true] at head
            simp only
            omega

theorem pop_sound (m : Machine σ) {b : InBlock} {len n : ℕ} (pops : w.phase = .pop b len n)
    (sound : w.Sound) : (w.pop m b len n).Sound := by
  obtain ⟨⟨done, popped, rest, waiting, account⟩, paced, blocks⟩ := sound
  have held := account.held
  simp only [Held, pops] at held
  obtain ⟨left, whole⟩ := held
  have pushed := account.pushed
  simp only [heldGroups, pops] at pushed
  simp only [Paced, pops] at paced
  obtain ⟨spent, afford, owes⟩ := paced
  obtain ⟨tail, ops, ring⟩ := account.ring
  cases n with
  | zero =>
    -- the group is whole: it was applied at this sample
    have empty : rest = [] := List.length_eq_zero_iff.mp left
    subst empty
    refine ⟨⟨done ++ [(w.time, popped)], [], [], waiting, ⟨rfl, rfl⟩, ?_, ?_, account.ring,
      account.sizes, account.pending, account.outcomes⟩, ⟨?_, .inl ?_⟩, blocks⟩
    · show w.pushed = _
      simpa [heldGroups, Wire.pop] using pushed
    · show w.log = _
      simpa [stamped, Wire.pop] using account.log
    · simp only [Wire.pop]
      omega
    · simp only [Wire.pop]
      omega
  | succ n =>
    cases tail with
    | nil =>
      rw [← ops] at left
      cases left
    | cons cmd tail =>
      rw [List.cons_append] at ring
      simp only [List.map_cons] at ops
      subst ops
      simp only [Wire.pop, ring]
      refine ⟨⟨done, popped ++ [cmd.op], tail.map (·.op), waiting, ⟨?_, ?_⟩, ?_, ?_, ⟨tail, rfl, rfl⟩,
        account.sizes, account.pending, account.outcomes⟩, ⟨?_, afford, ?_⟩, blocks⟩
      · simpa using left
      · simp only [List.length_append, List.length_cons, List.length_nil, List.length_map] at whole ⊢
        omega
      · show w.pushed = _
        simpa [heldGroups] using pushed
      · show w.log ++ [(w.time, cmd.op)] = _
        simp [account.log]
      · simp only [List.length_append, List.length_cons, List.length_nil]
        omega
      · simp only [List.length_append, List.length_cons, List.length_nil]
        omega

theorem segment_sound (m : Machine σ) {b : InBlock} (cuts : w.phase = .segment b) (sound : w.Sound) :
    (w.segment m b).Sound := by
  obtain ⟨⟨done, popped, rest, waiting, account⟩, paced, blocks⟩ := sound
  have nothing := account.held
  simp only [Held, cuts] at nothing
  obtain ⟨rfl, rfl⟩ := nothing
  simp only [Paced, cuts] at paced
  unfold Wire.segment
  extract_lets n stamp left n' cut
  have idle : Account { w with proc := m.render w.proc cut, time := w.time + cut, phase := .idle }
      done [] [] waiting :=
    ⟨⟨rfl, rfl⟩, by simpa [heldGroups, cuts] using account.pushed, by simpa using account.log,
      account.ring, account.sizes, account.pending, account.outcomes⟩
  exact next_sound idle paced.1 (.inl paced.2) blocks

/-- Whatever happens next keeps every command accounted for. -/
theorem move_sound (m : Machine σ) (move : Move) (sound : w.Sound) : (w.move m move).Sound := by
  cases move with
  | publish rt => exact publish_sound m rt sound
  | push stamp => exact push_sound m stamp sound
  | block frames => exact block_sound m frames sound
  | callback =>
    simp only [Wire.move]
    split
    · exact sound
    · rename_i b looks
      exact look_sound looks sound
    · rename_i b len n pops
      exact pop_sound m pops sound
    · rename_i b cuts
      exact segment_sound m cuts sound

theorem run_sound (m : Machine σ) (proc : σ) (moves : List Move) : (Wire.run m proc moves).Sound := by
  have start : Wire.Sound ({ proc } : Wire σ) :=
    ⟨⟨[], [], [], [], ⟨rfl, rfl⟩, rfl, rfl, ⟨[], rfl, rfl⟩, by simp, by simp, rfl⟩, trivial, by simp⟩
  exact List.foldlRecOn moves _ start fun w sound move _ => move_sound m move sound

/-- What happens to the processor: a command, or a number of frames. -/
inductive Did where
  | apply (op : RtOp)
  | render (frames : ℕ)

namespace Did
variable (m : Machine σ)

def act (proc : σ) : Did → σ
  | .apply op => m.apply proc op
  | .render n => m.render proc n

def replay (proc : σ) (did : List Did) : σ := did.foldl (act m) proc

/-- The frames rendered. -/
def span : List Did → ℕ
  | [] => 0
  | .apply _ :: later => span later
  | .render n :: later => n + span later

/-- The commands applied, each at its sample time. -/
def ops (time : ℕ) : List Did → List (ℕ × RtOp)
  | [] => []
  | .apply op :: later => (time, op) :: ops time later
  | .render n :: later => ops (time + n) later

theorem span_append (did more : List Did) : span (did ++ more) = span did + span more := by
  induction did with
  | nil => simp [span]
  | cons d later ih => cases d <;> simp [span, ih, Nat.add_assoc]

theorem ops_append (time : ℕ) (did more : List Did) :
    ops time (did ++ more) = ops time did ++ ops (time + span did) more := by
  induction did generalizing time with
  | nil => rfl
  | cons d later ih => cases d <;> simp [ops, span, ih, Nat.add_assoc]

end Did

/-- `did` brought the processor, the clock and the record of commands from `w` to `w'`. -/
structure Wire.Went (m : Machine σ) (w : Wire σ) (did : List Did) (w' : Wire σ) : Prop where
  proc : w'.proc = Did.replay m w.proc did
  time : w'.time = w.time + Did.span did
  log : w'.log = w.log ++ Did.ops w.time did

theorem Wire.Went.trans {m : Machine σ} {w w' w'' : Wire σ} {did more : List Did} (first : w.Went m did w')
    (second : w'.Went m more w'') : w.Went m (did ++ more) w'' where
  proc := by rw [second.proc, first.proc, Did.replay, Did.replay, Did.replay, List.foldl_append]
  time := by rw [second.time, first.time, Did.span_append, Nat.add_assoc]
  log := by rw [second.log, first.log, first.time, Did.ops_append, List.append_assoc]

/-- Nothing happened to the processor. -/
theorem Wire.Went.idle {m : Machine σ} {w' : Wire σ} (proc : w'.proc = w.proc) (time : w'.time = w.time)
    (log : w'.log = w.log) : ∃ did, w.Went m did w' := ⟨[], proc, time, by simp [log, Did.ops]⟩

theorem next_frame (w : Wire σ) (b : InBlock) :
    (w.next b).proc = w.proc ∧ (w.next b).time = w.time ∧ (w.next b).log = w.log := by
  unfold Wire.next
  split <;> exact ⟨rfl, rfl, rfl⟩

theorem look_frame (w : Wire σ) (b : InBlock) :
    (w.look b).proc = w.proc ∧ (w.look b).time = w.time ∧ (w.look b).log = w.log := by
  unfold Wire.look
  split
  · exact ⟨rfl, rfl, rfl⟩
  · split
    · exact ⟨rfl, rfl, rfl⟩
    · dsimp only
      split <;> exact ⟨rfl, rfl, rfl⟩

theorem pop_went (m : Machine σ) (w : Wire σ) (b : InBlock) (len n : ℕ) : ∃ did, w.Went m did (w.pop m b len n) := by
  cases n with
  | zero => exact Wire.Went.idle rfl rfl rfl
  | succ n =>
    simp only [Wire.pop]
    split
    · exact Wire.Went.idle rfl rfl rfl
    · rename_i cmd ring shape
      exact ⟨[.apply cmd.op], rfl, rfl, rfl⟩

theorem segment_went (m : Machine σ) (w : Wire σ) (b : InBlock) : ∃ did, w.Went m did (w.segment m b) := by
  unfold Wire.segment
  extract_lets n stamp left n' cut
  obtain ⟨proc, time, log⟩ := next_frame { w with proc := m.render w.proc cut, time := w.time + cut }
    { b with left, done := b.done + cut }
  exact ⟨[.render cut], proc, time, by simp [log, Did.ops]⟩

theorem move_went (m : Machine σ) (w : Wire σ) (move : Move) : ∃ did, w.Went m did (w.move m move) := by
  cases move with
  | publish rt => exact Wire.Went.idle rfl rfl rfl
  | push stamp =>
    simp only [Wire.move]
    split
    · exact Wire.Went.idle rfl rfl rfl
    · split <;> exact Wire.Went.idle rfl rfl rfl
  | block frames =>
    simp only [Wire.move]
    split
    · obtain ⟨proc, time, log⟩ := next_frame w { frames, start := w.log.length, due := w.dueLen }
      exact Wire.Went.idle proc time log
    · exact Wire.Went.idle rfl rfl rfl
  | callback =>
    simp only [Wire.move]
    split
    · exact Wire.Went.idle rfl rfl rfl
    · rename_i b looks
      obtain ⟨proc, time, log⟩ := look_frame w b
      exact Wire.Went.idle proc time log
    · exact pop_went m w _ _ _
    · exact segment_went m w _

theorem run_went (m : Machine σ) (proc : σ) (moves : List Move) :
    ∃ did, ({ proc } : Wire σ).Went m did (Wire.run m proc moves) := by
  refine List.foldlRecOn (motive := fun w => ∃ did, ({ proc } : Wire σ).Went m did w) moves _
    (Wire.Went.idle rfl rfl rfl) fun w before move _ => ?_
  obtain ⟨did, went⟩ := before
  obtain ⟨more, moved⟩ := move_went m w move
  exact ⟨did ++ more, went.trans moved⟩

/-- Nothing lost, repeated or reordered: what was applied, then what is in the ring, then
what waits, is what was published. -/
theorem Account.ops (account : Account w done popped rest waiting) :
    w.log.map (·.2) ++ w.ring.map (·.op) ++ w.pending.flatten = w.outcomes.flatten := by
  have all : w.outcomes.flatten = (w.pushed ++ w.pending).flatten := by
    rw [account.outcomes, List.flatMap_def, List.flatten_flatten, List.map_map]
    congr 1
    rw [List.map_congr_left (g := id), List.map_id]
    exact fun rt _ => chunks_flatten (by decide) rt
  obtain ⟨tail, ops, ring⟩ := account.ring
  have applied : w.log.map (·.2) = (done.map (·.2)).flatten ++ popped := by
    rw [account.log, List.map_append, List.map_map]
    congr 1
    · simp [stamped, List.flatMap_def, Function.comp_def]
    · simp [Function.comp_def]
  have lying : w.ring.map (·.op) = rest ++ (waiting.map (·.2)).flatten := by
    rw [ring, List.map_append, ops, laid, List.map_flatMap]
    simp [groupCmds_op, List.flatMap_def]
  have held : (heldGroups w.phase popped rest).flatten = popped ++ rest := by
    have held := account.held
    unfold heldGroups
    cases phase : w.phase with
    | pop b len n => simp
    | idle | look b | segment b =>
      simp only [Held, phase] at held
      simp [held]
  rw [all, account.pushed, applied, lying]
  simp only [List.flatten_append, held, List.append_assoc]

/-- Whole groups: the applied commands are groups in the order of what was published, each
at one sample time; only while the callback pops one is its last group cut short, and
that one is at the present sample. -/
theorem Account.groups (account : Account w done popped rest waiting) :
    w.log = stamped done ++ popped.map (w.time, ·) ∧
      ((∀ b len n, w.phase ≠ .pop b len n) → popped = []) ∧
      ∃ later, w.outcomes.flatMap (chunks maxCmdsPerBlock) =
        done.map (·.2) ++ heldGroups w.phase popped rest ++ later := by
  refine ⟨account.log, fun apart => ?_, waiting.map (·.2) ++ w.pending, ?_⟩
  · have held := account.held
    unfold Held at held
    split at held
    · rename_i b len n pops
      exact absurd pops (apart b len n)
    · exact held.1
  · rw [← account.outcomes, account.pushed]
    simp only [List.append_assoc]

/-- The block in progress. -/
def Phase.block? : Phase → Option InBlock
  | .idle => none
  | .look b | .pop b _ _ | .segment b => some b

/-- A block in progress has applied at most its budget. -/
theorem Paced.within (paced : Paced w) {b : InBlock} (inside : w.phase.block? = some b) :
    w.log.length ≤ b.start + maxCmdsPerBlock := by
  unfold Paced at paced
  cases phase : w.phase with
  | idle =>
    rw [phase] at inside
    cases inside
  | look b' | segment b' =>
    rw [phase] at inside
    cases inside
    simp only [phase] at paced
    omega
  | pop b' len n =>
    rw [phase] at inside
    cases inside
    simp only [phase] at paced
    omega

end

section
variable {σ : Type} [Libm]

theorem batch_fits {c next : Core} {ops : List Proto.Cmd} {out : Outcome}
    (accepted : Core.apply (.batch ops) c = .ok out next) : out.rt.length ≤ maxCmdsPerBlock := by
  unfold Core.apply at accepted
  obtain ⟨p, mid, ran, finished⟩ := Lib.then_ok_iff.mp accepted
  have emitted : out.rt = p.rt := by
    cases finished
    rfl
  simp only [Core.dispatch, Core.batch] at ran
  split at ran
  · cases ran
  · split at ran
    · cases ran
    · split at ran
      · cases ran
      · rename_i fits
        cases ran
        rw [emitted]
        exact Nat.not_lt.mp fits

/-- Command ring order and atomicity. For every interleaving of publishing, pushing (with
the ring full or not, whatever the stamps) and the callback's steps in blocks of any
sizes: the processor is what the commands of the record, each after the frames up to its
sample, made of the first; what was applied, then the ring, then what waits is the concatenation of the
published outcomes, so the applied commands are a prefix of it with nothing lost or
repeated; the applied commands are whole groups of at most 512, each at one sample time
(while one is being popped, its part at the present sample comes last); an outcome of at
most 512 commands, such as every batch's, is one group; no block applies more than 512
commands; and a group that is due at a block's start is applied by its end. -/
theorem ring_order (m : Machine σ) (proc : σ) (moves : List Move) :
    let w := Wire.run m proc moves
    (∃ did, w.proc = Did.replay m proc did ∧ w.log = Did.ops 0 did ∧ w.time = Did.span did) ∧
    w.log.map (·.2) ++ w.ring.map (·.op) ++ w.pending.flatten = w.outcomes.flatten ∧
    (∃ done popped rest later, w.log = stamped done ++ popped.map (w.time, ·) ∧
      ((∀ b len n, w.phase ≠ .pop b len n) → popped = []) ∧
      w.outcomes.flatMap (chunks maxCmdsPerBlock) =
        done.map (·.2) ++ heldGroups w.phase popped rest ++ later) ∧
    (∀ rt : List RtOp, rt ≠ [] → rt.length ≤ maxCmdsPerBlock → chunks maxCmdsPerBlock rt = [rt]) ∧
    (∀ (c next : Core) (ops : List Proto.Cmd) (out : Outcome),
      Core.apply (.batch ops) c = .ok out next → out.rt.length ≤ maxCmdsPerBlock) ∧
    (∀ b, w.phase.block? = some b → w.log.length ≤ b.start + maxCmdsPerBlock) ∧
    ∀ r ∈ w.blocks, r.finish ≤ r.start + maxCmdsPerBlock ∧
      (0 < r.frames → r.start + r.due ≤ r.finish) := by
  intro w
  obtain ⟨⟨done, popped, rest, waiting, account⟩, paced, blocks⟩ := run_sound m proc moves
  obtain ⟨log, whole, later, groups⟩ := account.groups
  obtain ⟨did, went⟩ := run_went m proc moves
  exact ⟨⟨did, went.proc, by simpa using went.log, by simpa using went.time⟩, account.ops, ⟨done, popped, rest, later, log, whole, groups⟩, fun rt => chunks_whole,
    fun c next ops out => batch_fits, fun b => paced.within, blocks⟩

end

/-- A processor that only keeps its commands. -/
def keeping : Machine (List RtOp) where
  apply applied op := applied ++ [op]
  render applied _ := applied
  testEnd _ := none

/-- Two groups: one pushed in time for the first block, one while it renders. -/
theorem ring_order_keeping :
    let moves := [.publish [.arm, .fadeOut], .push 0, .block 300] ++ List.replicate 6 .callback ++
      [.publish [.nop], .push 0] ++ List.replicate 10 .callback
    let w := Wire.run keeping [] moves
    w.proc = [.arm, .fadeOut, .nop] ∧ w.log = [(0, .arm), (0, .fadeOut), (256, .nop)] ∧
      (∃ did, w.proc = Did.replay keeping [] did ∧ w.log = Did.ops 0 did ∧ w.time = Did.span did) ∧
      w.blocks.map (fun r => (r.start, r.due, r.finish)) = [(0, 2, 3)] ∧
      w.log.map (·.2) ++ w.ring.map (·.op) ++ w.pending.flatten = w.outcomes.flatten := by
  intro moves w
  have all := @ring_order _ Core.duetLibm keeping [] moves
  exact ⟨by decide +kernel, by decide +kernel, all.1, by decide +kernel, all.2.1⟩

end IemMixer.Rt
