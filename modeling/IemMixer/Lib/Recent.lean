import Mathlib.Data.List.TakeWhile
import Mathlib.Order.Basic
import Mathlib.Tactic.Common

/-! How many of a growing record of times lie in a sliding window, told from a queue that
forgets: what left the window, and more than it needs to count up to a cap. -/
namespace IemMixer.Lib.Recent

/-- The queue without what left the window of `span` at `now`. -/
def prune (span now : ℕ) (queue : List ℕ) : List ℕ := queue.dropWhile fun t => span ≤ now - t

/-- The queue after `now`, at most `cap` long. -/
def push (cap now : ℕ) (queue : List ℕ) : List ℕ :=
  let queue := queue ++ [now]
  if cap < queue.length then queue.tail else queue

/-- How many of all times lie in the window. -/
def count (span now : ℕ) (all : List ℕ) : ℕ := all.countP fun t => now - t < span

/-- The queue is the end of the record: what is missing is out of the window, or the queue
is full. -/
structure Keeps (span cap now : ℕ) (all queue : List ℕ) : Prop where
  ordered : all.Pairwise (· ≤ ·)
  past : ∀ t ∈ all, t ≤ now
  short : queue.length ≤ cap
  missing : ∃ dropped, all = dropped ++ queue ∧ (queue.length = cap ∨ ∀ t ∈ dropped, span ≤ now - t)

section
variable {span cap now later : ℕ} {all queue : List ℕ}

theorem keeps_nil (span cap now : ℕ) : Keeps span cap now [] [] :=
  ⟨.nil, by simp, by simp, [], rfl, .inr (by simp)⟩

theorem Keeps.wait (keeps : Keeps span cap now all queue) (wait : now ≤ later) : Keeps span cap later all queue := by
  obtain ⟨ordered, past, short, dropped, parts, gone⟩ := keeps
  refine ⟨ordered, fun t member => Nat.le_trans (past t member) wait, short, dropped, parts, ?_⟩
  refine gone.imp_right fun old t member => ?_
  have was := old t member
  omega

/-- Pruned at a time that is past already. -/
theorem Keeps.prune_at {early : ℕ} (keeps : Keeps span cap now all queue) (soon : early ≤ now) :
    Keeps span cap now all (Recent.prune span early queue) := by
  obtain ⟨ordered, past, short, dropped, parts, gone⟩ := keeps
  have split := List.takeWhile_append_dropWhile (p := fun t => decide (span ≤ early - t)) (l := queue)
  have fewer : (Recent.prune span early queue).length ≤ queue.length := (List.dropWhile_sublist _).length_le
  refine ⟨ordered, past, Nat.le_trans fewer short, dropped ++ queue.takeWhile (fun t => span ≤ early - t), ?_, ?_⟩
  · rw [List.append_assoc, Recent.prune, split, parts]
  cases left : queue.takeWhile (fun t => decide (span ≤ early - t)) with
  | nil =>
    rw [left, List.nil_append] at split
    rw [Recent.prune, split, List.append_nil]
    exact gone
  | cons first rest =>
    -- The first to leave the queue is no younger than what left it before.
    refine .inr fun t member => ?_
    have old : ∀ t ∈ queue.takeWhile (fun t => decide (span ≤ early - t)), span ≤ now - t := by
      intro t member
      have passed := List.mem_takeWhile_imp (p := fun t => decide (span ≤ early - t)) member
      have aged := of_decide_eq_true passed
      omega
    rw [left] at old
    rcases List.mem_append.mp member with before | now_left
    · have inside : first ∈ queue := (List.takeWhile_sublist _).subset (left ▸ List.mem_cons_self)
      rw [parts] at ordered
      have below := (List.pairwise_append.mp ordered).2.2 t before first inside
      have aged := old first List.mem_cons_self
      omega
    · exact old t now_left

theorem Keeps.prune (keeps : Keeps span cap now all queue) : Keeps span cap now all (prune span now queue) :=
  keeps.prune_at le_rfl

/-- A time that is past already, but no earlier than those of the record. -/
theorem Keeps.push_at {early : ℕ} (keeps : Keeps span cap now all queue) (room : 0 < cap)
    (last : ∀ t ∈ all, t ≤ early) (soon : early ≤ now) :
    Keeps span cap now (all ++ [early]) (Recent.push cap early queue) := by
  obtain ⟨ordered, past, short, dropped, parts, gone⟩ := keeps
  have longer : (all ++ [early]).Pairwise (· ≤ ·) :=
    List.pairwise_append.mpr ⟨ordered, List.pairwise_singleton _ _, by simpa using last⟩
  have here : ∀ t ∈ all ++ [early], t ≤ now := by
    intro t member
    rcases List.mem_append.mp member with before | last
    · exact past t before
    · exact (List.mem_singleton.mp last).le.trans soon
  unfold Recent.push
  simp only [List.length_append, List.length_singleton]
  split
  · rename_i full
    cases queue with
    | nil => simp at full; omega
    | cons first rest =>
      refine ⟨longer, here, by simpa using short, dropped ++ [first], by simp [parts], .inl ?_⟩
      simp only [List.length_cons] at short full
      simp
      omega
  · rename_i fits
    refine ⟨longer, here, by simpa using fits, dropped, by simp [parts], ?_⟩
    simp only [List.length_append, List.length_singleton]
    rcases gone with full | old
    · omega
    · exact .inr old

theorem Keeps.push (keeps : Keeps span cap now all queue) (room : 0 < cap) :
    Keeps span cap now (all ++ [now]) (push cap now queue) :=
  keeps.push_at room keeps.past le_rfl

/-- What a pruned queue of an ordered record holds lies in the window. -/
theorem fresh_of_mem_prune (ordered : queue.Pairwise (· ≤ ·)) {t : ℕ} (member : t ∈ Recent.prune span now queue) :
    now - t < span := by
  have rest := ordered.sublist (List.dropWhile_sublist fun t => decide (span ≤ now - t))
  unfold Recent.prune at member
  cases kept : queue.dropWhile fun t => decide (span ≤ now - t) with
  | nil =>
    rw [kept] at member
    cases member
  | cons first others =>
    have young := List.head_dropWhile_not (fun t => decide (span ≤ now - t)) (l := queue) (by simp [kept])
    simp only [kept, List.head_cons, decide_eq_false_iff_not, Nat.not_le] at young
    rw [kept] at member rest
    rcases List.mem_cons.mp member with rfl | later
    · exact young
    · have above := (List.pairwise_cons.mp rest).1 t later
      omega

/-- Pruned, the queue counts the window up to the cap. -/
theorem Keeps.length_prune (keeps : Keeps span cap now all queue) :
    (Recent.prune span now queue).length = min cap (count span now all) := by
  have inside : queue.Pairwise (· ≤ ·) := by
    obtain ⟨ordered, -, -, dropped, parts, -⟩ := keeps
    rw [parts] at ordered
    exact (List.pairwise_append.mp ordered).2.1
  obtain ⟨-, -, short, dropped, parts, gone⟩ := keeps.prune
  have fresh : (Recent.prune span now queue).countP (fun t => now - t < span) = (Recent.prune span now queue).length :=
    List.countP_eq_length.mpr fun t member => decide_eq_true (fresh_of_mem_prune inside member)
  have counted : count span now all =
      dropped.countP (fun t => now - t < span) + (Recent.prune span now queue).length := by
    rw [count, parts, List.countP_append, fresh]
  rcases gone with full | old
  · omega
  · have none : dropped.countP (fun t => now - t < span) = 0 := by
      rw [List.countP_eq_zero]
      intro t member
      have aged := old t member
      simp only [decide_eq_true_eq]
      omega
    omega

/-- The newest time is the last one kept. -/
theorem Keeps.getLast? (keeps : Keeps span cap now all queue) (filled : queue ≠ []) :
    queue.getLast? = all.getLast? := by
  obtain ⟨-, -, -, dropped, rfl, -⟩ := keeps
  rw [List.getLast?_append]
  cases last : queue.getLast? with
  | none => exact absurd (List.getLast?_eq_none_iff.mp last) filled
  | some t => rfl

end

end IemMixer.Lib.Recent
