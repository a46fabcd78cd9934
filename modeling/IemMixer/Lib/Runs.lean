import Mathlib.Logic.Relation

/-! Runs of a machine that takes a move or refuses it: what every move keeps, every run keeps. -/
namespace IemMixer.Lib

section
variable {S M : Type} (move : S → M → Option S)

/-- From one state to another by moves that each met `ok`. -/
def Leads (ok : S → M → Prop) : S → S → Prop :=
  Relation.ReflTransGen fun s s' => ∃ m, ok s m ∧ move s m = some s'

/-- Where the moves lead when each passes `test`. -/
def runThrough (test : S → M → Bool) (s : S) : List M → Option S
  | [] => some s
  | m :: rest => if test s m then (move s m).bind fun next => runThrough test next rest else none

variable {move}

theorem Leads.invariant {ok : S → M → Prop} {I : S → Prop}
    (step : ∀ s m s', I s → ok s m → move s m = some s' → I s') {s s' : S} (run : Leads move ok s s')
    (start : I s) : I s' := by
  induction run with
  | refl => exact start
  | tail _ last ih =>
    obtain ⟨m, fine, moved⟩ := last
    exact step _ m _ ih fine moved

/-- The moves that are made are enough. -/
theorem runThrough_leads_mem {ok : S → M → Prop} {test : S → M → Bool} {moves : List M}
    (meets : ∀ s, ∀ m ∈ moves, test s m = true → ok s m) {s s' : S} (ran : runThrough move test s moves = some s') :
    Leads move ok s s' := by
  induction moves generalizing s with
  | nil =>
    cases ran
    exact .refl
  | cons m rest ih =>
    unfold runThrough at ran
    split at ran
    · rename_i fine
      obtain ⟨next, moved, later⟩ := Option.bind_eq_some_iff.mp ran
      have ahead := ih (fun s m member => meets s m (List.mem_cons_of_mem _ member)) later
      exact .head ⟨m, meets s m List.mem_cons_self fine, moved⟩ ahead
    · cases ran

theorem runThrough_leads {ok : S → M → Prop} {test : S → M → Bool} (meets : ∀ s m, test s m = true → ok s m) {s s' : S}
    {moves : List M} (ran : runThrough move test s moves = some s') : Leads move ok s s' :=
  runThrough_leads_mem (fun s m _ => meets s m) ran

end

end IemMixer.Lib
