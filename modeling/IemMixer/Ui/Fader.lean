import Mathlib.Algebra.Order.Floor.Ring
import Mathlib.Algebra.Order.Field.Basic

/-! The fader under a finger: the raw position follows the drag unquantised, and what goes to
the mix is the integer dB just crossed or the position on the 0.2 dB grid. Positions are
exact, of any ordered field with a floor. -/
namespace IemMixer.Ui

/-- The scale, in whole dB. -/
structure Fader where
  min : ℤ
  max : ℤ
  ordered : min < max

namespace Fader
variable {K : Type} [Field K] [LinearOrder K] [IsStrictOrderedRing K] [FloorRing K]

/-- `f32::round`: half away from zero. -/
def round (x : K) : ℤ := if 0 ≤ x then ⌊x + ((2 : ℕ) : K)⁻¹⌋ else ⌈x - ((2 : ℕ) : K)⁻¹⌉

def quantize (value : K) : K := round (value * ((5 : ℕ) : K)) / ((5 : ℕ) : K)

def crossedInteger (prevRaw newRaw : K) : Option K :=
  if prevRaw = newRaw then none
  else
    let (lo, hi) := if prevRaw < newRaw then (prevRaw, newRaw) else (newRaw, prevRaw)
    let loCeil : K := ⌈lo⌉
    if lo < loCeil ∧ loCeil ≤ hi then
      if prevRaw < newRaw then some loCeil else some ⌊hi⌋
    else none

/-- `f32::clamp` to the scale. -/
def clamp (fader : Fader) (x : K) : K :=
  if x < fader.min then fader.min else if (fader.max : K) < x then fader.max else x

/-- One move of the finger while the fader is active: the raw position before and after, and
the value sent. -/
structure Move (K : Type) where
  raw : K
  newRaw : K
  newValue : K
  deriving DecidableEq

/-- A crossed integer, else the grid. -/
def newValue (raw newRaw : K) : K :=
  match crossedInteger raw newRaw with
  | some integer => integer
  | none => quantize newRaw

/-- `handle_touchmove`, by a part of the track's width. -/
def touchmove (fader : Fader) (raw deltaRatio : K) : Move K :=
  let newRaw := fader.clamp (raw + deltaRatio * ((fader.max : K) - fader.min))
  { raw, newRaw, newValue := newValue raw newRaw }

/-- A drag: the moves a row of deltas makes. -/
def drag (fader : Fader) : K → List K → List (Move K)
  | _, [] => []
  | raw, deltaRatio :: rest =>
    let move := fader.touchmove raw deltaRatio
    move :: drag fader move.newRaw rest

end Fader
end IemMixer.Ui
