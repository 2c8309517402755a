import Mathlib.Algebra.Order.Field.Rat
import Mathlib.Algebra.Order.Floor.Semifield
import Mathlib.Data.ENat.Lattice
import Mathlib.Data.Rat.Floor
import StackLine.Binary64.Arithmetic
import StackLine.Binary64.Text

/-!
The exact values of numbers, the integers that some of them are, and the positions they name.

A finite number stands for a rational, its units divided by `2 ^ 1074`. The position that a
number names is the whole part of that rational; `toIndex` is this position cut off at the
largest index.
-/

namespace StackLine

lemma Binary64.cast_unit : (2 : Int) ^ unitExponent = (2 ^ unitExponent : ℕ) := by
  push_cast
  rfl

namespace Magnitude

/-- The largest significand with the largest shift is below `2 ^ 1024`. -/
lemma shift_le (m : Magnitude) : 53 + m.shift ≤ 1024 + Binary64.unitExponent := by
  have := m.canonical.2.1
  unfold Binary64.unitExponent
  omega

lemma units_lt (m : Magnitude) : m.units < 2 ^ 1024 * 2 ^ Binary64.unitExponent := by
  have hshift := m.shift_le
  -- no power is to be computed
  generalize Binary64.unitExponent = e at hshift ⊢
  calc m.units < 2 ^ 53 * 2 ^ m.shift :=
        Nat.mul_lt_mul_of_pos_right m.canonical.1 (Nat.two_pow_pos _)
    _ = 2 ^ (53 + m.shift) := (pow_add 2 53 m.shift).symm
    _ ≤ 2 ^ (1024 + e) := Nat.pow_le_pow_right two_pos hshift
    _ = 2 ^ 1024 * 2 ^ e := pow_add 2 1024 e

/-- A magnitude without its fraction. -/
def whole (m : Magnitude) : ℕ := m.units / 2 ^ Binary64.unitExponent

lemma whole_lt (m : Magnitude) : m.whole < 2 ^ 1024 :=
  Nat.div_lt_of_lt_mul (Nat.mul_comm (2 ^ 1024) _ ▸ m.units_lt)

/-- The rational that a magnitude stands for. -/
def value (m : Magnitude) : ℚ := m.units / 2 ^ Binary64.unitExponent

def signedValue (negative : Bool) (m : Magnitude) : ℚ := if negative then -m.value else m.value

lemma value_nonneg (m : Magnitude) : 0 ≤ m.value := by
  unfold value
  positivity

lemma floor_value (m : Magnitude) : ⌊m.value⌋₊ = m.whole := by
  rw [value, whole, ← Nat.cast_ofNat, ← Nat.cast_pow, Nat.floor_div_eq_div]

lemma signedValue_eq (negative : Bool) (m : Magnitude) :
    m.signedValue negative = m.signed negative / 2 ^ Binary64.unitExponent := by
  cases negative <;> simp [signedValue, value, signed, neg_div]

lemma signedValue_eq_intCast_iff {negative : Bool} {m : Magnitude} {n : Int} :
    m.signedValue negative = n ↔ m.signed negative = n * (2 ^ Binary64.unitExponent : ℕ) := by
  rw [signedValue_eq, div_eq_iff (by positivity)]
  exact_mod_cast Iff.rfl

lemma units_of_signedValue {negative : Bool} {m : Magnitude} {n : Int}
    (h : m.signedValue negative = n) : m.units = n.natAbs * 2 ^ Binary64.unitExponent := by
  rw [← m.natAbs_signed negative, signedValue_eq_intCast_iff.1 h, Int.natAbs_mul,
    Int.natAbs_natCast]

lemma natAbs_ite_whole (negative : Bool) (m : Magnitude) :
    (if negative then -(m.whole : Int) else m.whole).natAbs = m.whole := by
  cases negative <;> simp

/-- A magnitude whose value is an integer has no fraction, and with its sign it is that
integer. -/
lemma ite_whole_of_signedValue {negative : Bool} {m : Magnitude} {n : Int}
    (h : m.signedValue negative = n) :
    m.units % 2 ^ Binary64.unitExponent = 0 ∧
      (if negative then -(m.whole : Int) else m.whole) = n := by
  have hsigned := signedValue_eq_intCast_iff.1 h
  have hunits := units_of_signedValue h
  have hwhole : m.whole = n.natAbs := by
    rw [whole, hunits, Nat.mul_div_cancel _ (Nat.two_pow_pos _)]
  refine ⟨by rw [hunits, Nat.mul_mod_left], ?_⟩
  have hpos : (0 : Int) < (2 ^ Binary64.unitExponent : ℕ) := Int.natCast_pos.2 (Nat.two_pow_pos _)
  rw [hwhole]
  cases negative with
  | false =>
    have hn : 0 ≤ n := nonneg_of_mul_nonneg_left (hsigned ▸ Int.natCast_nonneg _) hpos
    exact Int.natAbs_of_nonneg hn
  | true =>
    have hneg : -(m.units : Int) = n * (2 ^ Binary64.unitExponent : ℕ) := hsigned
    have hn : n ≤ 0 := nonpos_of_mul_nonpos_left (by omega) hpos
    simp only [if_true]
    omega

end Magnitude

namespace Binary64

lemma toInt?_finite (negative : Bool) (m : Magnitude) :
    toInt? (.finite negative m) =
      if m.units % 2 ^ unitExponent = 0 then
        some (if negative then -(m.whole : Int) else m.whole)
      else none := by
  rw [toInt?, cast_unit]
  rfl

lemma display_finite (negative : Bool) (m : Magnitude) :
    display (.finite negative m) =
      if m.units % 2 ^ unitExponent = 0 then
        (if negative then -(m.whole : Int) else m.whole).repr
      else text (.finite negative m) := by
  unfold display
  rw [toInt?_finite]
  split_ifs <;> rfl

/-- The position that a number names, without a bound: positive infinity is past the end of
every program, and what is not a number names the start. -/
def position : Binary64 → ℕ∞
  | nan => 0
  | infinite negative => if negative then 0 else ⊤
  | finite negative m => ⌊max (m.signedValue negative) 0⌋₊

/-- The index is the position, cut off at the largest index. -/
lemma toIndex_eq_min (x : Binary64) : (x.toIndex : ℕ∞) = min x.position maxIndex := by
  rcases x with _ | negative | ⟨negative, m⟩
  · simp [toIndex, position]
  · cases negative <;> simp [toIndex, position]
  · cases negative
    · have hpos : max m.value 0 = m.value := max_eq_left m.value_nonneg
      simp only [toIndex, position, Magnitude.signedValue, Bool.false_eq_true, if_false, hpos,
        m.floor_value]
      exact (Nat.mono_cast.map_min).trans (min_comm _ _)
    · have hneg : max (-m.value) 0 = 0 := max_eq_right (neg_nonpos.2 m.value_nonneg)
      simp [toIndex, position, Magnitude.signedValue, hneg]

end Binary64

end StackLine
