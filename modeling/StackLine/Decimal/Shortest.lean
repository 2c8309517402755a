import StackLine.Binary64.Basic
import StackLine.Decimal.Basic

/-!
The shortest decimal that reads back as a given magnitude.

A magnitude has finitely many decimal places, and in multiples of its last place it is its
significand times a whole grain. The numbers that round to it form an interval of half a grain
to either side; the ends belong to it when the significand is even, since a half goes to the
even neighbour. On a grid of powers of ten the interval holds a point only if it holds one of
the two neighbours of the magnitude, so those two are tried, on coarser grids first: the
coarsest grid with a hit gives the fewest digits.
-/

namespace StackLine

open scoped CorePower

namespace Magnitude

/-- The number of decimal places: a unit is `2 ^ -1074`, and each halving needs one more. -/
def places (m : Magnitude) : Nat := 1074 - m.shift

/-- What one step of the significand amounts to in the last place. -/
def grain (m : Magnitude) : Nat := 5 ^ m.places * 2 ^ (m.shift - 1074)

/-- All the digits of a magnitude. -/
def exactDecimal (m : Magnitude) : Decimal := ⟨m.significand * m.grain, -m.places⟩

/-- Half the distance to the next lower magnitude, in quarters of a grain. Below a power of two
the magnitudes lie twice as dense. -/
def halfGapBelow (m : Magnitude) : Nat :=
  if m.significand = 2 ^ (52 : Nat) ∧ 0 < m.shift then 1 else 2

/-- Whether `n` times the last place rounds to the magnitude. -/
def covers (m : Magnitude) (grain n : Nat) : Bool :=
  let low := (4 * m.significand - m.halfGapBelow) * grain
  let high := (4 * m.significand + 2) * grain
  if m.significand % 2 = 0 then decide (low ≤ 4 * n ∧ 4 * n ≤ high)
  else decide (low < 4 * n ∧ 4 * n < high)

/-- The multiple of `step` that rounds to the magnitude and lies nearest to it. -/
def onGrid? (m : Magnitude) (grain step : Nat) : Option Nat :=
  let below := m.significand * grain / step
  let nearest := roundHalfEven (m.significand * grain) step
  let other := if nearest = below then below + 1 else below
  if m.covers grain (nearest * step) then some nearest
  else if m.covers grain (other * step) then some other
  else none

/-- The point on the coarsest grid with one, from a power of ten downwards; on the finest grid
it is the magnitude itself. -/
def coarsest (m : Magnitude) (grain : Nat) : Nat → Decimal
  | 0 => m.exactDecimal
  | k + 1 =>
    match m.onGrid? grain (10 ^ (k + 1)) with
    | some c => ⟨c, (k + 1 : Nat) - m.places⟩
    | none => m.coarsest grain k

/-- A power of ten above `n`: `28 / 93` exceeds the logarithm of two to base ten. -/
def powerAbove (n : Nat) : Nat := (n.log2 + 1) * 28 / 93 + 1

def shortest (m : Magnitude) : Decimal :=
  if m.significand = 0 then ⟨0, 0⟩
  else m.coarsest m.grain (powerAbove (m.significand * m.grain))

end Magnitude

end StackLine
