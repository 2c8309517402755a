import StackLine.Proofs.Quotient

/-!
The shortest decimal of a magnitude rounds to that magnitude.

Whatever grid the search stops at, the point it takes is covered by the magnitude, and what is
covered lies in the interval of the rationals that round to it.
-/

namespace StackLine

/-- The rational that a decimal stands for. -/
def Decimal.value (d : Decimal) : ℚ := d.coefficient * 10 ^ d.exponent

namespace Magnitude

variable {m : Magnitude}

/-- A grain is what one step of the significand amounts to in the last decimal place. -/
lemma two_pow_shift_mul (m : Magnitude) :
    2 ^ m.shift * 10 ^ m.places = 2 ^ Binary64.unitExponent * m.grain := by
  have hexp : m.shift + m.places = Binary64.unitExponent + (m.shift - 1074) := by
    unfold places Binary64.unitExponent
    omega
  calc 2 ^ m.shift * 10 ^ m.places = 2 ^ (m.shift + m.places) * 5 ^ m.places := by
        rw [show 10 = 2 * 5 from rfl, mul_pow, pow_add, mul_assoc]
    _ = 2 ^ Binary64.unitExponent * m.grain := by
        rw [hexp, pow_add, grain]
        ring

/-- A number of last places, in units. -/
lemma units_of_places (n places : ℕ) :
    (n : ℚ) * 10 ^ (-(places : ℤ)) * 2 ^ Binary64.unitExponent =
      (n * 2 ^ Binary64.unitExponent : ℕ) / (10 ^ places : ℕ) := by
  rw [zpow_neg, zpow_natCast, mul_right_comm, ← div_eq_mul_inv]
  push_cast
  rfl

lemma rounds_of_covers {n : ℕ} (h : m.covers m.grain n = true) :
    m.Rounds (n * 10 ^ (-(m.places : ℤ)) * 2 ^ Binary64.unitExponent) := by
  have hscale : ∀ a : ℕ, a * 2 ^ m.shift * 10 ^ m.places =
      a * m.grain * 2 ^ Binary64.unitExponent := fun a => by
    rw [mul_assoc, two_pow_shift_mul, mul_comm (2 ^ _), mul_assoc]
  have hpos : 0 < 2 ^ Binary64.unitExponent := Nat.two_pow_pos _
  rw [units_of_places, rounds_div_iff (by positivity)]
  dsimp only
  rw [hscale, hscale, ← mul_assoc 4 n]
  unfold covers at h
  dsimp only at h
  split at h
  case isTrue heven =>
    rw [if_pos heven]
    rw [decide_eq_true_eq] at h
    exact ⟨Nat.mul_le_mul_right _ h.1, Nat.mul_le_mul_right _ h.2⟩
  case isFalse hodd =>
    rw [if_neg hodd]
    rw [decide_eq_true_eq] at h
    exact ⟨Nat.mul_lt_mul_of_pos_right h.1 hpos, Nat.mul_lt_mul_of_pos_right h.2 hpos⟩

lemma covers_self (m : Magnitude) : m.covers m.grain (m.significand * m.grain) = true := by
  have hgrain : 0 < m.grain := by
    unfold grain
    positivity
  have hgap := m.halfGapBelow_le
  have hone : 1 ≤ m.halfGapBelow := by
    unfold halfGapBelow
    split <;> omega
  unfold covers
  dsimp only
  rw [← mul_assoc]
  split
  · rw [decide_eq_true_eq]
    exact ⟨Nat.mul_le_mul_right _ (by omega), Nat.mul_le_mul_right _ (by omega)⟩
  · rw [decide_eq_true_eq]
    exact ⟨Nat.mul_lt_mul_of_pos_right (by omega) hgrain,
      Nat.mul_lt_mul_of_pos_right (by omega) hgrain⟩

/-- A magnitude rounds to itself. -/
lemma rounds_units (m : Magnitude) : m.Rounds m.units := by
  have hunits : m.significand * m.grain * 2 ^ Binary64.unitExponent = m.units * 10 ^ m.places := by
    rw [mul_assoc, mul_comm m.grain, ← two_pow_shift_mul, ← mul_assoc, units]
  have h := rounds_of_covers m.covers_self
  rwa [units_of_places, hunits, Nat.cast_mul, mul_div_cancel_right₀] at h
  positivity

lemma covers_of_onGrid? {grain step c : ℕ} (h : m.onGrid? grain step = some c) :
    m.covers grain (c * step) = true := by
  unfold onGrid? at h
  dsimp only at h
  generalize (if roundHalfEven (m.significand * grain) step = m.significand * grain / step
    then m.significand * grain / step + 1 else m.significand * grain / step) = other at h
  split at h
  case isTrue hc =>
    cases h
    exact hc
  case isFalse =>
    split at h
    case isTrue hc =>
      cases h
      exact hc
    case isFalse => cases h

/-- Whichever grid the search stops at. -/
lemma rounds_coarsest (m : Magnitude) (k : ℕ) :
    m.Rounds ((m.coarsest m.grain k).value * 2 ^ Binary64.unitExponent) := by
  induction k with
  | zero => exact rounds_of_covers m.covers_self
  | succ k ih =>
    rw [coarsest]
    split
    · next c hc =>
      have h := rounds_of_covers (covers_of_onGrid? hc)
      have hvalue : Decimal.value ⟨c, (k + 1 : ℕ) - m.places⟩ =
          (c * 10 ^ (k + 1) : ℕ) * 10 ^ (-(m.places : ℤ)) := by
        rw [Decimal.value, sub_eq_add_neg, zpow_add₀ (by norm_num), zpow_natCast]
        push_cast
        ring
      rwa [hvalue]
    · exact ih

/-- **The shortest decimal rounds to its magnitude.** -/
theorem rounds_shortest (m : Magnitude) :
    m.Rounds (m.shortest.value * 2 ^ Binary64.unitExponent) := by
  unfold shortest
  split
  · next hs =>
    simp only [Rounds, Decimal.value, hs]
    norm_num
  · exact m.rounds_coarsest _

end Magnitude

/-- A decimal of the same value as the shortest one is read as the magnitude. -/
lemma Binary64.ofDecimal_of_eq_shortest {m : Magnitude} {c : ℕ} {e : Int}
    (h : (c : ℚ) * 10 ^ e = m.shortest.value) (negative : Bool) :
    ofDecimal negative c e = .finite negative m := by
  have hrounds := m.rounds_shortest
  rw [← h] at hrounds
  exact ofDecimal_of_rounds hrounds negative

end StackLine
