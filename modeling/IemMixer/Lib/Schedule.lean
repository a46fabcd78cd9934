import Mathlib.Data.List.Induction
import Mathlib.Data.List.Nodup
import Mathlib.Logic.Function.Basic

/-! A schedule that fills one cell after another, each from cells filled before
it. When no cell is filled twice and each reads only cells filled earlier, the
run leaves the one solution of the cells' equations, whatever was there before. -/
namespace IemMixer.Lib.Schedule

variable {ι α : Type} [DecidableEq ι]

/-- Fills the cells of `order` one after another. -/
def run (fill : ι → (ι → α) → α) (order : List ι) (cells : ι → α) : ι → α :=
  order.foldl (fun cells i => Function.update cells i (fill i cells)) cells

/-- `fill i` looks only at the cells `reads` names. -/
def ReadsOnly (fill : ι → (ι → α) → α) (reads : ι → ι → Prop) : Prop :=
  ∀ i cells cells', (∀ j, reads i j → cells j = cells' j) → fill i cells = fill i cells'

/-- Each cell is filled once and reads only cells filled before it. -/
structure Ready (reads : ι → ι → Prop) (order : List ι) : Prop where
  once : order.Nodup
  earlier : ∀ pre i post, order = pre ++ i :: post → ∀ j, reads i j → j ∈ pre

/-- The cells in `order` hold what `fill` makes of all of them. -/
def Solves (fill : ι → (ι → α) → α) (order : List ι) (cells : ι → α) : Prop :=
  ∀ i ∈ order, cells i = fill i cells

omit [DecidableEq ι] in
theorem ready_init {reads : ι → ι → Prop} {order : List ι} {last : ι}
    (ready : Ready reads (order ++ [last])) : Ready reads order := by
  refine ⟨ready.once.of_append_left, fun pre i post shape j read => ?_⟩
  exact ready.earlier pre i (post ++ [last]) (by simp [shape]) j read

theorem run_concat (fill : ι → (ι → α) → α) (order : List ι) (last : ι) (cells : ι → α) :
    run fill (order ++ [last]) cells =
      Function.update (run fill order cells) last (fill last (run fill order cells)) := by
  simp [run, List.foldl_append]

/-- The run leaves a solution. -/
theorem run_solves {fill : ι → (ι → α) → α} {reads : ι → ι → Prop} (reading : ReadsOnly fill reads)
    (order : List ι) (ready : Ready reads order) (cells : ι → α) :
    Solves fill order (run fill order cells) := by
  induction order using List.reverseRecOn with
  | nil => simp [Solves]
  | append_singleton order last ih =>
    have solved := ih (ready_init ready)
    have fresh : last ∉ order := fun member =>
      (List.disjoint_of_nodup_append ready.once) member (by simp)
    -- Filling the last cell changes no cell that an earlier one, or it, reads.
    have unread : ∀ pre i post, order ++ [last] = pre ++ i :: post → (∀ j ∈ pre, j ∈ order) →
        fill i (run fill (order ++ [last]) cells) = fill i (run fill order cells) := by
      intro pre i post shape within
      apply reading
      intro j read
      have early := within j (ready.earlier pre i post shape j read)
      have other : j ≠ last := fun same => fresh (same ▸ early)
      rw [run_concat, Function.update_of_ne other]
    intro i member
    rcases List.mem_append.mp member with early | late
    · obtain ⟨pre, post, shape⟩ := List.append_of_mem early
      have other : i ≠ last := fun same => fresh (same ▸ early)
      have within : ∀ j ∈ pre, j ∈ order := fun j held => by simp [shape, held]
      rw [unread pre i (post ++ [last]) (by simp [shape]) within, run_concat,
        Function.update_of_ne other]
      exact solved i early
    · rw [List.mem_singleton.mp late]
      rw [unread order last [] rfl fun _ held => held, run_concat, Function.update_self]

omit [DecidableEq ι] in
/-- Two solutions agree on every cell of the schedule. -/
theorem solution_unique {fill : ι → (ι → α) → α} {reads : ι → ι → Prop}
    (reading : ReadsOnly fill reads) (order : List ι) (ready : Ready reads order)
    {cells cells' : ι → α} (left : Solves fill order cells) (right : Solves fill order cells') :
    ∀ i ∈ order, cells i = cells' i := by
  induction order using List.reverseRecOn with
  | nil => simp
  | append_singleton order last ih =>
    have agree := ih (ready_init ready) (fun i member => left i (by simp [member]))
      fun i member => right i (by simp [member])
    intro i member
    rcases List.mem_append.mp member with early | late
    · exact agree i early
    · rw [List.mem_singleton.mp late, left last (by simp), right last (by simp)]
      apply reading
      intro j read
      exact agree j (ready.earlier order last [] rfl j read)

end IemMixer.Lib.Schedule
