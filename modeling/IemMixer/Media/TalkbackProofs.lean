import IemMixer.Media.Talkback
import Mathlib.Data.List.Infix

/-! Talkback playout is first in, first out: the queue is always the end of what was pushed,
so what a tick decodes, a push drops or a clear removes comes off its front. -/
namespace IemMixer.Media.TalkbackDecoder

section
variable {D S : Type} [Zero S] (opus : Opus D S)

theorem after_append (d : TalkbackDecoder D) (ops later : List Op) :
    d.after opus (ops ++ later) = (d.after opus ops).after opus later := List.foldl_append

theorem dues_append (d : TalkbackDecoder D) (ops later : List Op) :
    d.dues opus (ops ++ later) = d.dues opus ops ++ (d.after opus ops).dues opus later := by
  induction ops generalizing d with
  | nil => rfl
  | cons op rest ih =>
    cases op with
    | push packet => exact ih _
    | tick => exact congrArg (_ :: ·) (ih _)
    | clear => exact ih _

theorem pushed_append (ops later : List Op) : pushed (ops ++ later) = pushed ops ++ pushed later :=
  List.filterMap_append

theorem conceal_queue (d : TalkbackDecoder D) :
    (d.conceal opus).1.queue = d.queue ∧ (d.conceal opus).1.playing = d.playing ∧
      (d.conceal opus).1.empty = d.empty := by
  unfold conceal
  dsimp only
  split <;> exact ⟨rfl, rfl, rfl⟩

/-- A tick decodes after it took: the queue is as `take` left it. -/
theorem tick_take (d : TalkbackDecoder D) :
    (d.tick opus).1.queue = (d.take opus).1.queue ∧ (d.tick opus).1.playing = (d.take opus).1.playing ∧
      (d.tick opus).1.empty = (d.take opus).1.empty := by
  unfold tick
  split
  · rename_i same
    rw [same]
    exact ⟨rfl, rfl, rfl⟩
  · rename_i same
    rw [same]
    exact ⟨rfl, rfl, rfl⟩
  · rename_i d' p same
    rw [same]
    split
    · exact ⟨rfl, rfl, rfl⟩
    · exact conceal_queue opus _
  · rename_i d' same
    rw [same]
    exact conceal_queue opus d'

/-- A tick gives a frame exactly when it decodes or conceals. -/
theorem tick_none_iff (d : TalkbackDecoder D) :
    (d.tick opus).2 = none ↔ (d.take opus).2 = .idle ∨ (d.take opus).2 = .stop := by
  have given : ∀ d : TalkbackDecoder D, (d.conceal opus).2 ≠ none := by
    intro d
    unfold conceal
    dsimp only
    split <;> simp
  unfold tick
  split
  · rename_i same
    simp [same]
  · rename_i same
    simp [same]
  · rename_i d' p same
    rw [same]
    split
    · simp
    · simp [given]
  · rename_i d' same
    simp [same, given]

omit [Zero S] in
/-- What a tick takes from the queue, and how it goes on. -/
theorem take_cases (d : TalkbackDecoder D) :
    ((d.take opus).2 = .idle ∧ d.playing = false ∧ d.queue.length < preroll ∧ (d.take opus).1 = d) ∨
    (∃ p rest, (d.take opus).2 = .packet p ∧ d.queue = p :: rest ∧ (d.take opus).1.queue = rest ∧
      (d.take opus).1.playing = true ∧ (d.take opus).1.empty = 0) ∨
    ((d.take opus).2 = .lost ∧ d.playing = true ∧ d.queue = [] ∧ d.empty < maxConceal ∧
      (d.take opus).1.queue = [] ∧ (d.take opus).1.playing = true ∧ (d.take opus).1.empty = d.empty + 1) ∨
    ((d.take opus).2 = .stop ∧ d.queue = [] ∧ (d.take opus).1.queue = [] ∧ (d.take opus).1.playing = false) := by
  unfold take
  cases playing : d.playing with
  | false =>
    by_cases few : d.queue.length < preroll
    · left
      simp [few]
    · right
      left
      cases queued : d.queue with
      | nil => simp [queued, preroll] at few
      | cons p rest =>
        have enough : ¬(p :: rest).length < preroll := queued ▸ few
        simp only [Bool.not_false, Bool.true_and, decide_eq_true_eq, enough, if_false]
        exact ⟨p, rest, by simp⟩
  | true =>
    right
    simp only [Bool.not_true, Bool.false_and, Bool.false_eq_true, if_false]
    cases queued : d.queue with
    | cons p rest =>
      left
      exact ⟨p, rest, by simp⟩
    | nil =>
      right
      by_cases stops : maxConceal < d.empty + 1
      · right
        simp [stops]
      · left
        simp only [stops, if_false]
        have room : d.empty < maxConceal := by omega
        simp [room]

/-- What an operation takes out of the queue: a tick the oldest packet, to decode it; a push
into a full queue the oldest one; a clear all of them. -/
inductive Takes (d : TalkbackDecoder D) : Op → List Packet → Prop where
  | waits (packet : Packet) (room : d.queue.length < cap) : Takes d (.push packet) []
  | overflowed (packet oldest : Packet) (full : cap ≤ d.queue.length) : Takes d (.push packet) [oldest]
  | passed (due : handedBy (d.take opus).2 = none) : Takes d .tick []
  | decoded (p : Packet) (due : (d.take opus).2 = .packet p) : Takes d .tick [p]
  | cleared : Takes d .clear d.queue

/-- First in, first out. -/
theorem step_takes (d : TalkbackDecoder D) (op : Op) : ∃ out, d.Takes opus op out ∧
    d.queue ++ pushed [op] = out ++ (d.step opus op).queue := by
  cases op with
  | push packet =>
    have ends : pushed [.push packet] = [packet] := rfl
    rw [ends, step, push]
    by_cases full : cap ≤ d.queue.length
    · rw [if_pos full]
      cases queued : d.queue with
      | nil => simp [queued, cap] at full
      | cons oldest rest => exact ⟨[oldest], .overflowed packet oldest full, rfl⟩
    · rw [if_neg full]
      exact ⟨[], .waits packet (by omega), rfl⟩
  | clear => exact ⟨d.queue, .cleared, rfl⟩
  | tick =>
    have kept : (d.step opus .tick).queue = (d.take opus).1.queue := (tick_take opus d).1
    have ends : pushed [.tick] = [] := rfl
    rw [kept, ends, List.append_nil]
    rcases take_cases opus d with ⟨due, -, -, same⟩ | ⟨p, rest, due, queued, left, -⟩ |
      ⟨due, -, queued, -, left, -⟩ | ⟨due, queued, left, -⟩
    · exact ⟨[], .passed (by rw [due]; rfl), by rw [same]; rfl⟩
    · exact ⟨[p], .decoded p due, by rw [queued, left]; rfl⟩
    · exact ⟨[], .passed (by rw [due]; rfl), by rw [queued, left]; rfl⟩
    · exact ⟨[], .passed (by rw [due]; rfl), by rw [queued, left]; rfl⟩

section
variable (dec : D)

/-- The decoder after `ops` from its start. -/
abbrev played (ops : List Op) : TalkbackDecoder D := ({ dec } : TalkbackDecoder D).after opus ops

theorem played_concat (ops : List Op) (op : Op) :
    played opus dec (ops ++ [op]) = (played opus dec ops).step opus op := after_append opus _ ops [op]

theorem queue_suffix (ops : List Op) : (played opus dec ops).queue <:+ pushed ops := by
  induction ops using List.reverseRecOn with
  | nil => exact List.suffix_refl []
  | append_singleton ops op ih =>
    obtain ⟨out, -, fifo⟩ := step_takes opus (played opus dec ops) op
    rw [played_concat, pushed_append]
    obtain ⟨before, all⟩ := ih
    exact ⟨before ++ out, by rw [List.append_assoc, ← fifo, ← List.append_assoc, all]⟩

theorem queue_few (ops : List Op) : (played opus dec ops).queue.length ≤ cap := by
  induction ops using List.reverseRecOn with
  | nil => exact Nat.zero_le _
  | append_singleton ops op ih =>
    rw [played_concat]
    generalize played opus dec ops = d at ih
    obtain ⟨out, takes, fifo⟩ := step_takes opus d op
    have lengths := congrArg List.length fifo
    simp only [List.length_append] at lengths
    cases takes with
    | waits packet room =>
      have one : (pushed [.push packet]).length = 1 := rfl
      rw [one, List.length_nil] at lengths
      omega
    | overflowed packet oldest =>
      have one : (pushed [.push packet]).length = 1 := rfl
      rw [one, List.length_singleton] at lengths
      omega
    | passed | decoded | cleared =>
      have none : ∀ op, pushedBy op = none → (pushed [op]).length = 0 := by
        intro op none
        simp [pushed, none]
      rw [none _ rfl] at lengths
      omega

/-- How many of the pushed packets are no longer queued. -/
def gone (ops : List Op) : ℕ := (pushed ops).length - (played opus dec ops).queue.length

/-- The packet pushed as number `i` waits in the queue. -/
def Queued (ops : List Op) (i : ℕ) : Prop := gone opus dec ops ≤ i ∧ i < (pushed ops).length

theorem queue_eq (ops : List Op) : (played opus dec ops).queue = (pushed ops).drop (gone opus dec ops) := by
  obtain ⟨before, all⟩ := queue_suffix opus dec ops
  simp only [gone, ← all, List.length_append, Nat.add_sub_cancel, List.drop_left]

theorem gone_concat (ops : List Op) {op : Op} {out : List Packet}
    (fifo : (played opus dec ops).queue ++ pushed [op] = out ++ ((played opus dec ops).step opus op).queue) :
    gone opus dec (ops ++ [op]) = gone opus dec ops + out.length ∧
      (pushed (ops ++ [op])).take (gone opus dec (ops ++ [op])) =
        (pushed ops).take (gone opus dec ops) ++ out := by
  have lengths := congrArg List.length fifo
  have enough := (queue_suffix opus dec ops).length_le
  have enough' := (queue_suffix opus dec (ops ++ [op])).length_le
  simp only [List.length_append] at lengths
  simp only [played_concat, pushed_append, List.length_append] at enough'
  have count : gone opus dec (ops ++ [op]) = gone opus dec ops + out.length := by
    simp only [gone, played_concat, pushed_append, List.length_append]
    omega
  refine ⟨count, ?_⟩
  have all : pushed (ops ++ [op]) = (pushed ops).take (gone opus dec ops) ++
      (out ++ ((played opus dec ops).step opus op).queue) := by
    rw [pushed_append, ← fifo, queue_eq, ← List.append_assoc, List.take_append_drop]
  have short : ((pushed ops).take (gone opus dec ops)).length = gone opus dec ops := by
    rw [List.length_take]
    exact Nat.min_eq_left (Nat.sub_le ..)
  rw [count, all, ← List.append_assoc]
  exact List.take_left' (by rw [List.length_append, short])

/-- The packets handed to the decoder, in order. -/
def handed (ops : List Op) : List Packet := (({ dec } : TalkbackDecoder D).dues opus ops).filterMap handedBy

theorem handed_sublist (ops : List Op) :
    (handed opus dec ops).Sublist ((pushed ops).take (gone opus dec ops)) := by
  induction ops using List.reverseRecOn with
  | nil => exact List.nil_sublist _
  | append_singleton ops op ih =>
    obtain ⟨out, takes, fifo⟩ := step_takes opus (played opus dec ops) op
    rw [(gone_concat opus dec ops fifo).2]
    have one : handed opus dec (ops ++ [op]) =
        handed opus dec ops ++ ((played opus dec ops).dues opus [op]).filterMap handedBy := by
      rw [handed, dues_append, List.filterMap_append, handed]
    rw [one]
    apply ih.append
    cases takes with
    | waits | overflowed | cleared => exact List.nil_sublist _
    | passed due => simp [dues, due]
    | decoded p due => simp [dues, due, handedBy]

/-- How packet `i` leaves the queue at `op`: decoded, or dropped by a push that found six
queued, both times as the oldest; or cleared. -/
def Leaves (before : List Op) (op : Op) (i : ℕ) (p : Packet) : Prop :=
  (op = .tick ∧ ((played opus dec before).take opus).2 = .packet p ∧ i = gone opus dec before) ∨
    ((∃ packet, op = .push packet) ∧ (played opus dec before).queue.length = cap ∧ i = gone opus dec before) ∨
    op = .clear

theorem leaves {before : List Op} {op : Op} {out : List Packet} {i : ℕ} {p : Packet}
    (takes : (played opus dec before).Takes opus op out) (held : (pushed before)[i]? = some p)
    (queued : gone opus dec before ≤ i) (left : i < gone opus dec before + out.length) :
    Leaves opus dec before op i p := by
  cases takes with
  | waits | passed => exact absurd left (by simpa using queued)
  | overflowed packet oldest full =>
    right
    left
    rw [List.length_singleton] at left
    exact ⟨⟨packet, rfl⟩, Nat.le_antisymm (queue_few opus dec before) full, by omega⟩
  | decoded p' due =>
    left
    rw [List.length_singleton] at left
    have first : i = gone opus dec before := by omega
    rcases take_cases opus (played opus dec before) with ⟨idle, -⟩ | ⟨p'', rest, due', queue, -⟩ | ⟨lost, -⟩ |
      ⟨stop, -⟩
    · cases due.symm.trans idle
    · cases due.symm.trans due'
      have head : (pushed before)[i]? = some p' := by
        rw [first, ← List.head?_drop, ← queue_eq, queue]
        rfl
      cases held.symm.trans head
      exact ⟨rfl, due, first⟩
    · cases due.symm.trans lost
    · cases due.symm.trans stop
  | cleared => exact .inr (.inr rfl)

theorem gone_le (ops : List Op) : gone opus dec ops ≤ (pushed ops).length := Nat.sub_le ..

/-- A packet no longer queued left at some operation. -/
theorem left_at (ops : List Op) {i : ℕ} {p : Packet} (held : (pushed ops)[i]? = some p)
    (left : i < gone opus dec ops) : ∃ before op rest, ops = before ++ op :: rest ∧
      Queued opus dec before i ∧ Leaves opus dec before op i p := by
  induction ops using List.reverseRecOn with
  | nil => cases held
  | append_singleton ops op ih =>
    obtain ⟨out, takes, fifo⟩ := step_takes opus (played opus dec ops) op
    rw [(gone_concat opus dec ops fifo).1] at left
    by_cases early : i < gone opus dec ops
    · have known : i < (pushed ops).length := early.trans_le (gone_le opus dec ops)
      rw [pushed_append, List.getElem?_append_left known] at held
      obtain ⟨before, op', rest, rfl, queued, leaves⟩ := ih held early
      exact ⟨before, op', rest ++ [op], by simp, queued, leaves⟩
    · have known : i < (pushed ops).length := by
        have enough := (queue_suffix opus dec ops).length_le
        have count : gone opus dec ops = (pushed ops).length - (played opus dec ops).queue.length := rfl
        cases takes with
        | waits | passed => exact absurd left (by simpa using early)
        | overflowed packet oldest full =>
          rw [List.length_singleton] at left
          simp only [cap] at full
          omega
        | decoded p' due =>
          have some : 0 < (played opus dec ops).queue.length := by
            rcases take_cases opus (played opus dec ops) with ⟨idle, -⟩ | ⟨p'', rest, -, queue, -⟩ | ⟨lost, -⟩ |
              ⟨stop, -⟩
            · cases due.symm.trans idle
            · rw [queue]
              exact Nat.succ_pos _
            · cases due.symm.trans lost
            · cases due.symm.trans stop
          rw [List.length_singleton] at left
          omega
        | cleared => omega
      rw [pushed_append, List.getElem?_append_left known] at held
      have queued : Queued opus dec ops i := ⟨by omega, known⟩
      exact ⟨ops, op, [], rfl, queued, leaves opus dec takes held queued.1 left⟩

end

/-- What was concealed last is counted in `empty` while the talker plays. -/
structure Concealed (d : TalkbackDecoder D) (decoded : List Due) : Prop where
  last : d.playing = true → ∀ k, List.replicate k Due.lost <:+ decoded → k ≤ d.empty
  runs : ∀ k, List.replicate k Due.lost <:+: decoded → k ≤ maxConceal

omit [Zero S] in
/-- A run of concealed ones that ends in `due`. -/
theorem lost_suffix {decoded : List Due} {due : Due} {k : ℕ}
    (suffix : List.replicate k Due.lost <:+ decoded ++ [due]) :
    k = 0 ∨ due = .lost ∧ List.replicate (k - 1) Due.lost <:+ decoded := by
  cases k with
  | zero => exact .inl rfl
  | succ k =>
    right
    rw [List.replicate_succ', List.suffix_concat_iff] at suffix
    rcases suffix with none | ⟨rest, same, shorter⟩
    · simp at none
    · obtain ⟨rfl, last⟩ := List.append_inj' same rfl
      exact ⟨(List.singleton_inj.mp last).symm, shorter⟩

theorem Concealed.tick {d : TalkbackDecoder D} {decoded : List Due} (concealed : Concealed d decoded) :
    Concealed (d.tick opus).1 (decoded ++ [(d.take opus).2]) := by
  obtain ⟨-, plays, count⟩ := tick_take opus d
  -- A run that grows is the one at the end.
  have grows : ∀ k, List.replicate k Due.lost <:+: decoded ++ [(d.take opus).2] →
      k ≤ maxConceal ∨ (d.take opus).2 = .lost ∧ List.replicate (k - 1) Due.lost <:+ decoded := by
    intro k inside
    rcases List.infix_concat_iff.mp inside with suffix | within
    · rcases lost_suffix suffix with rfl | last
      · exact .inl (Nat.zero_le _)
      · exact .inr last
    · exact .inl (concealed.runs k within)
  have other : (d.take opus).2 ≠ .lost → ∀ k, List.replicate k Due.lost <:+ decoded ++ [(d.take opus).2] →
      k = 0 := fun apart k suffix => (lost_suffix suffix).resolve_right fun last => apart last.1
  constructor
  · intro playing k suffix
    rw [plays] at playing
    rw [count]
    rcases take_cases opus d with ⟨due, -⟩ | ⟨p, rest, due, -⟩ | ⟨due, playing', -, -, -, -, one⟩ | ⟨due, -⟩
    · rw [other (by rw [due]; simp) k suffix]
      exact Nat.zero_le _
    · rw [other (by rw [due]; simp) k suffix]
      exact Nat.zero_le _
    · rcases lost_suffix suffix with rfl | ⟨-, shorter⟩
      · exact Nat.zero_le _
      · have := concealed.last playing' (k - 1) shorter
        omega
    · rw [other (by rw [due]; simp) k suffix]
      exact Nat.zero_le _
  · intro k inside
    rcases grows k inside with few | ⟨lost, shorter⟩
    · exact few
    · rcases take_cases opus d with ⟨due, -⟩ | ⟨p, rest, due, -⟩ | ⟨-, playing, -, room, -⟩ | ⟨due, -⟩
      · cases lost.symm.trans due
      · cases lost.symm.trans due
      · have := concealed.last playing (k - 1) shorter
        omega
      · cases lost.symm.trans due

theorem push_plays (d : TalkbackDecoder D) (packet : Packet) :
    (d.push packet).playing = d.playing ∧ (d.push packet).empty = d.empty := by
  unfold push
  split <;> exact ⟨rfl, rfl⟩

theorem concealed_after (d : TalkbackDecoder D) (ops : List Op) {decoded : List Due}
    (concealed : Concealed d decoded) : Concealed (d.after opus ops) (decoded ++ d.dues opus ops) := by
  induction ops generalizing d decoded with
  | nil => exact (List.append_nil decoded).symm ▸ concealed
  | cons op rest ih =>
    cases op with
    | push packet =>
      obtain ⟨playing, empty⟩ := push_plays d packet
      exact ih _ ⟨playing.symm ▸ empty.symm ▸ concealed.last, concealed.runs⟩
    | tick =>
      have later := ih _ (concealed.tick opus)
      rw [List.append_assoc] at later
      exact later
    | clear => exact ih _ ⟨fun playing => (by cases playing), concealed.runs⟩

/-- Without two packets at once a stopped talker stays silent. -/
theorem silent_frames (d : TalkbackDecoder D) (ops : List Op) (stopped : d.playing = false)
    (few : ∀ before, before <+: ops → (d.after opus before).queue.length < preroll) :
    ∀ frame ∈ d.frames opus ops, frame = none := by
  induction ops generalizing d with
  | nil => exact fun frame none => by cases none
  | cons op rest ih =>
    have later : (d.step opus op).playing = false → ∀ frame ∈ (d.step opus op).frames opus rest, frame = none :=
      fun stopped => ih _ stopped fun before inside => few (op :: before) (List.cons_prefix_cons.mpr ⟨rfl, inside⟩)
    cases op with
    | push packet => exact later ((push_plays d packet).1.trans stopped)
    | clear => exact later rfl
    | tick =>
      have idle : d.take opus = (d, .idle) := by
        have now : d.queue.length < preroll := few [] (List.nil_prefix ..)
        simp [take, stopped, now]
      have silent : d.tick opus = (d, none) := by simp [tick, idle]
      intro frame member
      rcases List.mem_cons.mp member with rfl | inRest
      · exact congrArg Prod.snd silent
      · refine later ?_ frame inRest
        show (d.tick opus).1.playing = false
        rw [silent, stopped]

theorem stops (d : TalkbackDecoder D) (silent : (d.tick opus).2 = none) : (d.tick opus).1.playing = false := by
  rw [(tick_take opus d).2.1]
  rcases take_cases opus d with ⟨due, stopped, -, same⟩ | ⟨p, rest, due, -⟩ | ⟨due, -⟩ | ⟨-, -, -, stopped⟩
  · rw [same, stopped]
  · rcases (tick_none_iff opus d).mp silent with idle | stop
    · cases due.symm.trans idle
    · cases due.symm.trans stop
  · rcases (tick_none_iff opus d).mp silent with idle | stop
    · cases due.symm.trans idle
    · cases due.symm.trans stop
  · exact stopped

omit [Zero S] in
/-- The same decoder, which keeps what it is handed. -/
def recording : Opus (D × List Packet) S where
  decode d p := (((opus.decode d.1 p).1, d.2 ++ [p]), (opus.decode d.1 p).2)
  reset d := (opus.reset d.1, d.2)

/-- The decoder's calls for what the ticks took: a packet, concealed when it fails, or the empty
packet for one that is missing. -/
inductive Calls : List Due → List Packet → Prop where
  | nil : Calls [] []
  | idle {dues : List Due} {calls : List Packet} (later : Calls dues calls) : Calls (.idle :: dues) calls
  | stop {dues : List Due} {calls : List Packet} (later : Calls dues calls) : Calls (.stop :: dues) calls
  | packet {dues : List Due} {calls : List Packet} (p : Packet) (later : Calls dues calls) :
    Calls (.packet p :: dues) (p :: calls)
  | failed {dues : List Due} {calls : List Packet} (p : Packet) (later : Calls dues calls) :
    Calls (.packet p :: dues) (p :: [] :: calls)
  | lost {dues : List Due} {calls : List Packet} (later : Calls dues calls) : Calls (.lost :: dues) ([] :: calls)

/-- But for the concealments, the calls are the packets taken. -/
theorem Calls.packets {dues : List Due} {calls : List Packet} (made : Calls dues calls) :
    calls.filter (!·.isEmpty) = (dues.filterMap handedBy).filter (!·.isEmpty) := by
  induction made with
  | nil => rfl
  | idle later ih => exact ih
  | stop later ih => exact ih
  | packet p later ih => simp [handedBy, List.filter_cons, ih]
  | failed p later ih => simp [handedBy, List.filter_cons, ih]
  | lost later ih => exact ih

/-- A decoder with what it was handed so far. -/
def kept (d : TalkbackDecoder D) (calls : List Packet) : TalkbackDecoder (D × List Packet) where
  dec := (d.dec, calls)
  queue := d.queue
  playing := d.playing
  empty := d.empty
  overflows := d.overflows
  concealed := d.concealed
  errors := d.errors

omit [Zero S] in
theorem kept_take (d : TalkbackDecoder D) (calls : List Packet) :
    (kept d calls).take (recording opus) = (kept (d.take opus).1 calls, (d.take opus).2) := by
  have same : (!(kept d calls).playing && decide ((kept d calls).queue.length < preroll)) =
      (!d.playing && decide (d.queue.length < preroll)) := rfl
  unfold take
  by_cases waits : (!d.playing && decide (d.queue.length < preroll)) = true
  · rw [if_pos waits, if_pos (same.trans waits)]
  · rw [if_neg waits, if_neg (same ▸ waits)]
    obtain ⟨dec, queue, playing, empty, overflows, concealed, errors⟩ := d
    cases queue with
    | cons p rest => rfl
    | nil =>
      simp only [kept]
      by_cases silent : maxConceal < empty + 1
      · rw [if_pos silent]
        exact if_pos silent
      · rw [if_neg silent]
        exact if_neg silent

theorem kept_conceal (d : TalkbackDecoder D) (calls : List Packet) :
    (kept d calls).conceal (recording opus) = (kept (d.conceal opus).1 (calls ++ [[]]), (d.conceal opus).2) := by
  unfold conceal recording kept
  simp only
  rcases opus.decode d.dec [] with ⟨dec, out⟩
  cases out <;> rfl

/-- A tick makes the calls for what it took, and gives the frame it gives. -/
theorem kept_tick (d : TalkbackDecoder D) (calls : List Packet) : ∃ more,
    (kept d calls).tick (recording opus) = (kept (d.tick opus).1 (calls ++ more), (d.tick opus).2) ∧
      ∀ dues later, Calls dues later → Calls ((d.take opus).2 :: dues) (more ++ later) := by
  unfold tick
  rw [kept_take]
  rcases d.take opus with ⟨d', due⟩
  cases due with
  | idle => exact ⟨[], by simp, fun dues later made => .idle made⟩
  | stop => exact ⟨[], by simp, fun dues later made => .stop made⟩
  | lost => exact ⟨[[]], kept_conceal opus d' calls, fun dues later made => .lost made⟩
  | packet p =>
    simp only
    have handed : (recording opus).decode (kept d' calls).dec p =
        (((opus.decode d'.dec p).1, calls ++ [p]), (opus.decode d'.dec p).2) := rfl
    rw [handed]
    rcases opus.decode d'.dec p with ⟨dec, out⟩
    cases out with
    | some out => exact ⟨[p], rfl, fun dues later made => .packet p made⟩
    | none =>
      refine ⟨[p, []], ?_, fun dues later made => .failed p made⟩
      have concealed := kept_conceal opus { d' with dec, errors := d'.errors + 1 } (calls ++ [p])
      rw [List.append_assoc] at concealed
      exact concealed

theorem kept_after (d : TalkbackDecoder D) (calls : List Packet) (ops : List Op) : ∃ more,
    (kept d calls).after (recording opus) ops = kept (d.after opus ops) (calls ++ more) ∧
      Calls (d.dues opus ops) more := by
  induction ops generalizing d calls with
  | nil => exact ⟨[], by simp [after], .nil⟩
  | cons op rest ih =>
    cases op with
    | push packet =>
      have pushed : (kept d calls).push packet = kept (d.push packet) calls := by
        unfold push kept
        simp only
        split <;> rfl
      obtain ⟨more, same, made⟩ := ih (d.push packet) calls
      refine ⟨more, ?_, made⟩
      show ((kept d calls).push packet).after (recording opus) rest = _
      rw [pushed]
      exact same
    | clear =>
      obtain ⟨more, same, made⟩ := ih d.clear calls
      exact ⟨more, same, made⟩
    | tick =>
      obtain ⟨first, ticked, decodes⟩ := kept_tick opus d calls
      obtain ⟨more, same, made⟩ := ih (d.tick opus).1 (calls ++ first)
      refine ⟨first ++ more, ?_, decodes _ _ made⟩
      show ((kept d calls).tick (recording opus)).1.after (recording opus) rest = _
      rw [ticked, same, List.append_assoc]
      rfl

/-- Everything the Opus decoder was handed. -/
def decoded (dec : D) (ops : List Op) : List Packet := (played (recording opus) (dec, []) ops).dec.2

theorem decoded_calls (dec : D) (ops : List Op) :
    Calls (({ dec } : TalkbackDecoder D).dues opus ops) (decoded opus dec ops) := by
  obtain ⟨more, same, made⟩ := kept_after opus { dec } [] ops
  have all : decoded opus dec ops = more := by
    show (({ dec := (dec, []) } : TalkbackDecoder (D × List Packet)).after (recording opus) ops).dec.2 = more
    have start : ({ dec := (dec, []) } : TalkbackDecoder (D × List Packet)) = kept { dec } [] := rfl
    rw [start, same]
    rfl
  rw [all]
  exact made

/-- Where playout has not started, or stopped, or was cleared. -/
inductive Stopped (d : TalkbackDecoder D) : List Op → Prop where
  | start : Stopped d []
  | stop (ops : List Op) (silent : ((d.after opus ops).tick opus).2 = none) : Stopped d (ops ++ [.tick])
  | clear (ops : List Op) : Stopped d (ops ++ [.clear])

/-- `calls`: each tick hands the decoder what it takes, once, and the empty packet to conceal one.
`order`: what it takes, and what the decoder is handed but for the concealments, is what was pushed,
in order and once each, less what was dropped. `kept`: a packet waits, or left. `runs`: at most three in a row are
concealed. `waits`: a stopped talker is silent until two packets are queued at once. -/
structure Orderly (dec : D) (ops : List Op) : Prop where
  calls : Calls (({ dec } : TalkbackDecoder D).dues opus ops) (decoded opus dec ops)
  order : (handed opus dec ops).Sublist (pushed ops) ∧
    ((decoded opus dec ops).filter (!·.isEmpty)).Sublist (pushed ops)
  kept : ∀ i p, (pushed ops)[i]? = some p → Queued opus dec ops i ∨
    ∃ before op rest, ops = before ++ op :: rest ∧ Queued opus dec before i ∧ Leaves opus dec before op i p
  runs : ∀ k, List.replicate k Due.lost <:+: ({ dec } : TalkbackDecoder D).dues opus ops → k ≤ maxConceal
  waits : ∀ before during rest, ops = before ++ during ++ rest → Stopped opus { dec } before →
    (∀ part, part <+: during → (played opus dec (before ++ part)).queue.length < preroll) →
    ∀ frame ∈ (played opus dec before).frames opus during, frame = none

/-- Talkback playout keeps order and bounds, in every run of pushes, ticks and clears, over
any Opus decoder. -/
theorem playout_orderly (dec : D) (ops : List Op) : Orderly opus dec ops where
  calls := decoded_calls opus dec ops
  order := by
    have order : (handed opus dec ops).Sublist (pushed ops) :=
      (handed_sublist opus dec ops).trans (List.take_sublist ..)
    refine ⟨order, ?_⟩
    rw [(decoded_calls opus dec ops).packets]
    exact List.filter_sublist.trans order
  kept := by
    intro i p held
    by_cases left : i < gone opus dec ops
    · exact .inr (left_at opus dec ops held left)
    · exact .inl ⟨Nat.le_of_not_lt left, (List.getElem?_eq_some_iff.mp held).1⟩
  runs := by
    have start : Concealed ({ dec } : TalkbackDecoder D) [] := by
      refine ⟨fun playing => (by cases playing), fun k inside => ?_⟩
      have none := inside.length_le
      rw [List.length_replicate] at none
      exact none.trans (Nat.zero_le _)
    exact (concealed_after opus _ ops start).runs
  waits := by
    intro before during rest _ stopped few
    have off : (played opus dec before).playing = false := by
      cases stopped with
      | start => rfl
      | stop ops silent =>
        rw [played_concat]
        exact stops opus _ silent
      | clear ops =>
        rw [played_concat]
        rfl
    refine silent_frames opus _ during off fun part inside => ?_
    rw [← after_append]
    exact few part inside

end
end IemMixer.Media.TalkbackDecoder
