import Mathlib.Order.Monotone.Defs
import Mathlib.Order.Nat
import Mathlib.Data.Nat.Notation

/-! A count that only grows, and what a display of it shows that starts again from zero now and then. -/
namespace IemMixer.Lib

/-- Everything counted up to each time, and how much of it the restarts before that time took away. -/
structure Cumulative (T : Type) [Preorder T] where
  total : T → ℕ
  lost : T → ℕ
  grows : Monotone total
  lost_le : ∀ t, lost t ≤ total t
  restarts : ∀ {s t}, s ≤ t → lost t = lost s ∨ total s ≤ lost t

namespace Cumulative
variable {T : Type} [Preorder T] (c : Cumulative T) {s t : T}

def shown (t : T) : ℕ := c.total t - c.lost t

/-- A restart never makes the display grow by more than was counted. -/
theorem shown_le (order : s ≤ t) : c.shown t ≤ c.shown s + (c.total t - c.total s) := by
  have grown := c.grows order
  have before := c.lost_le s
  have after := c.lost_le t
  unfold shown
  rcases c.restarts order with same | restarted
  · omega
  · omega

end Cumulative
end IemMixer.Lib
