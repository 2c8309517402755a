/-!
Rounding a quotient of naturals to the nearest whole number, a half going to the even
neighbour.
-/

namespace StackLine

namespace CorePower

/-- Powers as the core library has them, whatever else is loaded. -/
scoped instance (priority := high) power {α : Type} [NatPow α] : Pow α Nat := instPowNat

end CorePower

def roundHalfEven (num den : Nat) : Nat :=
  let below := num / den
  let twice := 2 * (num % den)
  if twice < den ∨ (twice = den ∧ below % 2 = 0) then below else below + 1

theorem le_roundHalfEven (num den : Nat) : num / den ≤ roundHalfEven num den := by
  unfold roundHalfEven
  dsimp only
  split <;> omega

theorem roundHalfEven_le (num den : Nat) : roundHalfEven num den ≤ num / den + 1 := by
  unfold roundHalfEven
  dsimp only
  split <;> omega

end StackLine
