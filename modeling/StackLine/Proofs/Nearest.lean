import Mathlib.Algebra.Group.Nat.Even
import Mathlib.Algebra.Order.Field.Basic
import Mathlib.Tactic.Linarith
import Mathlib.Tactic.NormNum
import Mathlib.Tactic.Positivity
import Mathlib.Tactic.Ring
import StackLine.Decimal.Shortest
import StackLine.Proofs.Exact

/-!
The nearest magnitude.

A magnitude is nearest to a rational if no other is nearer, and even if another is as near; there is
at most one. The rationals that round to a magnitude form an interval: half a gap to either side of
it, with its ends when the significand is even. As no magnitude lies in a gap, it is nearest to all
of them. The intervals end half a gap above the largest magnitude.
-/

namespace StackLine

/-! ### Distances -/

section

variable {a b q : ℚ}

lemma sq_sub_sq_eq (a b q : ℚ) : (b - q) ^ 2 - (a - q) ^ 2 = (b - a) * (a + b - 2 * q) := by ring

/-- Up to the midpoint the lesser of two is nearer. -/
lemma abs_sub_le_iff_of_lt (h : a < b) : |a - q| ≤ |b - q| ↔ 2 * q ≤ a + b := by
  rw [← sq_le_sq, ← sub_nonneg, sq_sub_sq_eq, mul_nonneg_iff_of_pos_left (sub_pos.2 h),
    sub_nonneg]

lemma abs_sub_le_iff_of_gt (h : a < b) : |b - q| ≤ |a - q| ↔ a + b ≤ 2 * q := by
  rw [← not_lt, ← sq_lt_sq, ← sub_pos, sq_sub_sq_eq, mul_pos_iff_of_pos_left (sub_pos.2 h),
    sub_pos, not_lt]

end

namespace Magnitude

variable {m n : Magnitude} {q u : ℚ}

/-! ### Gaps -/

lemma halfGapBelow_le (m : Magnitude) : m.halfGapBelow ≤ 2 := by
  unfold halfGapBelow
  split <;> omega

lemma units_add_le (m : Magnitude) : m.units + 2 ^ m.shift ≤ 2 ^ 53 * 2 ^ m.shift := by
  rw [units, ← Nat.succ_mul]
  exact Nat.mul_le_mul_right _ m.canonical.1

lemma le_units (h : 0 < m.shift) : 2 ^ 52 * 2 ^ m.shift ≤ m.units :=
  Nat.mul_le_mul_right _ (m.canonical.2.2.resolve_left h.ne')

lemma two_mul_two_pow_le {j k : ℕ} (h : j < k) : 2 * 2 ^ j ≤ 2 ^ k := by
  rw [← pow_succ']
  exact Nat.pow_le_pow_right two_pos h

/-- A lesser shift makes a lesser magnitude. -/
lemma units_add_le_of_shift_lt (h : m.shift < n.shift) : m.units + 2 ^ m.shift ≤ n.units := by
  have hm := m.units_add_le
  have hn := le_units (Nat.zero_lt_of_lt h)
  have hpow := two_mul_two_pow_le h
  omega

lemma units_injective : Function.Injective units := by
  have hshift : ∀ {m n : Magnitude}, m.units = n.units → n.shift ≤ m.shift := fun {m n} h => by
    by_contra hlt
    have hless := units_add_le_of_shift_lt (not_le.1 hlt)
    have hpos := Nat.two_pow_pos m.shift
    omega
  rintro ⟨s, e, hm⟩ ⟨t, k, hn⟩ h
  obtain rfl : e = k := le_antisymm (hshift h.symm) (hshift h)
  obtain rfl : s = t := Nat.eq_of_mul_eq_mul_right (Nat.two_pow_pos e) h
  rfl

/-- Above a magnitude there is nothing for one step of its significand. -/
lemma gap_above (h : m.units < n.units) : m.units + 2 ^ m.shift ≤ n.units := by
  rcases le_or_gt m.shift n.shift with hle | hlt
  · -- both are multiples of the lesser power
    obtain ⟨d, hd⟩ := Nat.exists_eq_add_of_le hle
    have hn : n.units = n.significand * 2 ^ d * 2 ^ m.shift := by
      rw [units, hd, pow_add]
      ring
    rw [hn, units] at h ⊢
    rw [← Nat.succ_mul]
    exact Nat.mul_le_mul_right _ (Nat.lt_of_mul_lt_mul_right h)
  · have hless := (Nat.le_add_right _ _).trans (units_add_le_of_shift_lt hlt)
    exact absurd h (not_lt.2 hless)

/-- Below it there is nothing for twice the half gap. -/
lemma gap_below (h : n.units < m.units) :
    2 * n.units + m.halfGapBelow * 2 ^ m.shift ≤ 2 * m.units := by
  rcases le_or_gt m.shift n.shift with hle | hlt
  · have hpow : 2 ^ m.shift ≤ 2 ^ n.shift := Nat.pow_le_pow_right two_pos hle
    have hgap : m.halfGapBelow * 2 ^ m.shift ≤ 2 * 2 ^ m.shift :=
      Nat.mul_le_mul_right _ m.halfGapBelow_le
    have := gap_above h
    omega
  · have hpos := Nat.zero_lt_of_lt hlt
    have hm := le_units hpos
    have hn := n.units_add_le
    have hpow := two_mul_two_pow_le hlt
    unfold halfGapBelow
    split
    case isTrue => omega
    case isFalse hs =>
      have hsucc : (2 ^ 52 + 1) * 2 ^ m.shift ≤ m.units :=
        Nat.mul_le_mul_right _ (by have := m.canonical.2.2; omega)
      omega

/-- After an even significand comes an odd one. -/
lemma exists_next (heven : Even m.significand) (h : m.units < n.units) :
    ∃ k : Magnitude, m.units < k.units ∧ k.units ≤ n.units ∧ ¬Even k.significand := by
  have hm := m.canonical
  have hpos := Nat.two_pow_pos m.shift
  have hodd : ¬Even (m.significand + 1) := Nat.not_even_iff_odd.2 heven.add_one
  have hnext : (m.significand + 1) * 2 ^ m.shift = m.units + 2 ^ m.shift := Nat.succ_mul _ _
  rw [Nat.even_iff] at heven
  refine ⟨⟨m.significand + 1, m.shift, by omega⟩, ?_, ?_, hodd⟩
  · exact (Nat.lt_add_of_pos_right hpos).trans_eq hnext.symm
  · exact hnext.trans_le (gap_above h)

/-! ### The nearest magnitude -/

lemma value_lt_iff : m.value < n.value ↔ m.units < n.units := by
  rw [value, value, div_lt_div_iff_of_pos_right (by positivity), Nat.cast_lt]

/-- No magnitude is nearer, and the significand is even if another is as near. -/
structure Nearest (m : Magnitude) (q : ℚ) : Prop where
  le : ∀ n : Magnitude, |m.value - q| ≤ |n.value - q|
  even : ∀ n : Magnitude, n ≠ m → |n.value - q| = |m.value - q| → Even m.significand

lemma Nearest.units_le (hm : m.Nearest q) (hn : n.Nearest q) : n.units ≤ m.units := by
  by_contra h
  rw [not_le] at h
  have hlt := value_lt_iff.2 h
  have hne : n ≠ m := fun hmn => by
    rw [hmn] at h
    exact lt_irrefl _ h
  have htie := le_antisymm (hm.le n) (hn.le m)
  have heven := hn.even m hne.symm htie
  obtain ⟨k, hmk, hkn, hodd⟩ := exists_next (hm.even n hne htie.symm) h
  rcases hkn.lt_or_eq with hkn | hkn
  · -- the magnitude between them is nearer than both
    rw [← value_lt_iff] at hmk hkn
    have hlow := (abs_sub_le_iff_of_lt hmk).1 (hm.le k)
    have hhigh := (abs_sub_le_iff_of_gt hkn).1 (hn.le k)
    linarith
  · rw [units_injective hkn] at hodd
    exact hodd heven

/-- **At most one magnitude is nearest.** -/
theorem Nearest.unique (hm : m.Nearest q) (hn : n.Nearest q) : m = n :=
  units_injective (le_antisymm (hn.units_le hm) (hm.units_le hn))

/-! ### The interval of a magnitude -/

/-- A rational number of units rounds to the magnitude. All is counted in quarters. -/
def Rounds (m : Magnitude) (u : ℚ) : Prop :=
  let low : ℚ := (4 * m.significand - m.halfGapBelow : ℕ) * 2 ^ m.shift
  let high : ℚ := (4 * m.significand + 2) * 2 ^ m.shift
  if m.significand % 2 = 0 then low ≤ 4 * u ∧ 4 * u ≤ high else low < 4 * u ∧ 4 * u < high

/-- The interval of the rationals that round to a magnitude, around its units. -/
lemma Rounds.bounds {u : ℚ} (h : m.Rounds u) :
    4 * m.units - m.halfGapBelow * 2 ^ m.shift ≤ 4 * u ∧
      4 * u ≤ 4 * m.units + 2 * 2 ^ m.shift ∧
      (¬Even m.significand →
        4 * m.units - m.halfGapBelow * 2 ^ m.shift < 4 * u ∧
          4 * u < 4 * m.units + 2 * 2 ^ m.shift) := by
  have hpos : (0 : ℚ) < 2 ^ m.shift := by positivity
  have hsub : 4 * (m.significand : ℚ) - m.halfGapBelow ≤
      (4 * m.significand - m.halfGapBelow : ℕ) :=
    sub_le_iff_le_add.2 (by exact_mod_cast le_tsub_add)
  have hlow := mul_le_mul_of_nonneg_right hsub hpos.le
  unfold Rounds at h
  rw [Nat.even_iff]
  dsimp only [units] at h ⊢
  push_cast
  split at h
  case isTrue heven => exact ⟨by linarith, by linarith, absurd heven⟩
  case isFalse =>
    have hstrict : 4 * (m.significand * 2 ^ m.shift : ℚ) - m.halfGapBelow * 2 ^ m.shift < 4 * u ∧
        4 * u < 4 * (m.significand * 2 ^ m.shift) + 2 * 2 ^ m.shift := by
      constructor <;> linarith
    exact ⟨hstrict.1.le, hstrict.2.le, fun _ => hstrict⟩

/-- A rational that rounds to a magnitude is on its side of the midpoint to any other. -/
lemma Rounds.closer (h : m.Rounds (q * 2 ^ Binary64.unitExponent)) (hne : n ≠ m) :
    |m.value - q| ≤ |n.value - q| ∧
      (¬Even m.significand → |m.value - q| < |n.value - q|) := by
  obtain ⟨hlow, hhigh, hodd⟩ := h.bounds
  have hD : (0 : ℚ) < 2 ^ Binary64.unitExponent := by positivity
  have hmid : ∀ k l : Magnitude, k.value + l.value = (k.units + l.units : ℕ) /
      2 ^ Binary64.unitExponent := fun k l => by
    rw [value, value, ← add_div, Nat.cast_add]
  rcases lt_trichotomy m.units n.units with hlt | heq | hgt
  · have hgap : ((m.units + 2 ^ m.shift : ℕ) : ℚ) ≤ n.units := Nat.cast_le.2 (gap_above hlt)
    have hvalue := value_lt_iff.2 hlt
    rw [← not_le, abs_sub_le_iff_of_lt hvalue, abs_sub_le_iff_of_gt hvalue, hmid, not_le,
      le_div_iff₀ hD, lt_div_iff₀ hD, mul_assoc]
    push_cast at hgap ⊢
    exact ⟨by linarith, fun h => by linarith [(hodd h).2]⟩
  · exact absurd (units_injective heq).symm hne
  · have hgap : ((2 * n.units + m.halfGapBelow * 2 ^ m.shift : ℕ) : ℚ) ≤ (2 * m.units : ℕ) :=
      Nat.cast_le.2 (gap_below hgt)
    have hvalue := value_lt_iff.2 hgt
    rw [← not_le, abs_sub_le_iff_of_lt hvalue, abs_sub_le_iff_of_gt hvalue, hmid, not_le,
      div_le_iff₀ hD, div_lt_iff₀ hD, mul_assoc]
    push_cast at hgap ⊢
    exact ⟨by linarith, fun h => by linarith [(hodd h).1]⟩

theorem Rounds.nearest (h : m.Rounds (q * 2 ^ Binary64.unitExponent)) : m.Nearest q where
  le n := by
    rcases eq_or_ne n m with rfl | hne
    · exact le_rfl
    · exact (h.closer hne).1
  even n hne htie := by
    by_contra hodd
    exact absurd htie ((h.closer hne).2 hodd).ne'

/-- A rational rounds to one magnitude at most. -/
lemma Rounds.unique (hm : m.Rounds u) (hn : n.Rounds u) : m = n := by
  have hu : u = u / 2 ^ Binary64.unitExponent * 2 ^ Binary64.unitExponent :=
    (div_mul_cancel₀ u (by positivity)).symm
  rw [hu] at hm hn
  exact hm.nearest.unique hn.nearest

/-! ### The ends of the range -/

/-- Up to half a unit rounds to zero. -/
lemma zero_rounds_iff {u : ℚ} : zero.Rounds u ↔ 0 ≤ u ∧ 2 * u ≤ 1 := by
  have hlow : ((4 * zero.significand - zero.halfGapBelow : ℕ) : ℚ) * 2 ^ zero.shift = 0 := by
    simp [zero]
  have hhigh : (4 * (zero.significand : ℚ) + 2) * 2 ^ zero.shift = 2 := by
    norm_num [zero]
  have heven : zero.significand % 2 = 0 := rfl
  unfold Rounds
  dsimp only
  rw [hlow, hhigh, if_pos heven]
  constructor <;> rintro ⟨h1, h2⟩ <;> constructor <;> linarith

/-- Zero is nearest up to half of the least positive magnitude. -/
lemma Nearest.units_eq_zero_iff (h : m.Nearest q) (hq : 0 ≤ q) :
    m.units = 0 ↔ q ≤ 1 / 2 ^ 1075 := by
  have hD : (0 : ℚ) < 2 ^ Binary64.unitExponent := by positivity
  have hhalf : (2 : ℚ) ^ 1075 = 2 ^ Binary64.unitExponent * 2 := pow_succ 2 Binary64.unitExponent
  have hscale : q ≤ 1 / 2 ^ 1075 ↔ 2 * (q * 2 ^ Binary64.unitExponent) ≤ 1 := by
    rw [hhalf, le_div_iff₀ (by positivity), ← mul_assoc, mul_comm 2]
  rw [hscale]
  constructor
  · intro hm
    let least : Magnitude := ⟨1, 0, by decide⟩
    have hleast : least.units = 1 := by simp [least, units]
    have hlt : m.value < least.value := value_lt_iff.2 (by omega)
    have hnear := (abs_sub_le_iff_of_lt hlt).1 (h.le least)
    rw [value, value, hm, hleast, Nat.cast_zero, zero_div, zero_add, Nat.cast_one,
      le_div_iff₀ hD, mul_assoc] at hnear
    exact hnear
  · intro hle
    have hzero : zero.Rounds (q * 2 ^ Binary64.unitExponent) :=
      zero_rounds_iff.2 ⟨by positivity, hle⟩
    rw [h.unique hzero.nearest, units_zero]

/-- The units that are half a gap above the largest magnitude. -/
def limit : ℕ := (2 ^ 54 - 1) * 2 ^ (970 + Binary64.unitExponent)

lemma Rounds.lt_limit {u : ℚ} (h : m.Rounds u) : u < limit := by
  have hs := m.canonical.1
  have hshift : m.shift ≤ 970 + Binary64.unitExponent + 1 := m.canonical.2.1
  obtain ⟨-, hhigh, hodd⟩ := h.bounds
  rw [units] at hhigh hodd
  unfold limit
  push_cast at hhigh hodd ⊢
  -- no power is to be computed
  generalize 970 + Binary64.unitExponent = e at hshift ⊢
  have hpow : (2 : ℚ) ^ m.shift ≤ 2 ^ (e + 1) := pow_le_pow_right₀ one_le_two hshift
  have hpos : (0 : ℚ) < 2 ^ m.shift := by positivity
  rw [pow_succ] at hpow
  by_cases heven : Even m.significand
  · -- the largest significand is odd
    rw [Nat.even_iff] at heven
    have hlt : (m.significand : ℚ) + 2 ≤ 2 ^ 53 := by
      exact_mod_cast (show m.significand + 2 ≤ 2 ^ 53 by omega)
    nlinarith
  · have hle : (m.significand : ℚ) + 1 ≤ 2 ^ 53 := by exact_mod_cast hs
    nlinarith [(hodd heven).2]

lemma two_pow_sub_eq : (2 : ℚ) ^ 1024 - 2 ^ 970 = (2 ^ 54 - 1) * 2 ^ 970 := by
  -- for any exponent, so that no power is computed
  have hsub : ∀ k : ℕ, (2 : ℚ) ^ (k + 54) - 2 ^ k = (2 ^ 54 - 1) * 2 ^ k := fun k => by ring
  exact hsub 970

/-- The limit as it is written for numbers. -/
lemma cast_limit : (limit : ℚ) = (2 ^ 1024 - 2 ^ 970) * 2 ^ Binary64.unitExponent := by
  rw [limit, two_pow_sub_eq, mul_assoc, ← pow_add]
  push_cast
  norm_num

end Magnitude

end StackLine
