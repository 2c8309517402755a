import StackLine.Proofs.Display

/-!
Naturals as numbers.

A natural up to `2 ^ 53` is a number: it fits a significand, so it is read, subtracted, compared
with zero and taken as a position without rounding.
-/

namespace StackLine

/-- Up to `2 ^ 53` every natural is the value of a magnitude. -/
lemma Magnitude.exists_units_eq {n : ℕ} (h : n ≤ 2 ^ 53) :
    ∃ m : Magnitude, m.units = n * 2 ^ Binary64.unitExponent := by
  rcases Nat.eq_zero_or_pos n with rfl | hpos
  · exact ⟨.zero, by simp⟩
  -- the exponent is a number like any other, and no power of it is to be computed
  obtain ⟨e, he⟩ : ∃ e, e = Binary64.unitExponent := ⟨_, rfl⟩
  have hvalue : e = 1074 := he
  rw [← he]
  rcases h.eq_or_lt with rfl | hlt
  · refine ⟨⟨2 ^ 52, e + 1, by decide, by omega, .inr le_rfl⟩, ?_⟩
    simp only [units]
    ring
  · -- the significand is moved up to its full length
    obtain ⟨s, hs⟩ : ∃ s, n.log2 + s = 52 := by
      have hlog : n.log2 < 53 := (Nat.log2_lt hpos.ne').2 hlt
      exact ⟨52 - n.log2, by omega⟩
    have hhigh : n * 2 ^ s < 2 ^ 53 := by
      calc n * 2 ^ s < 2 ^ (n.log2 + 1) * 2 ^ s :=
            Nat.mul_lt_mul_of_pos_right Nat.lt_log2_self (Nat.two_pow_pos s)
        _ = 2 ^ 53 := by rw [← pow_add, Nat.add_right_comm, hs]
    have hlow : 2 ^ 52 ≤ n * 2 ^ s := by
      calc 2 ^ 52 = 2 ^ n.log2 * 2 ^ s := by rw [← pow_add, hs]
        _ ≤ n * 2 ^ s := Nat.mul_le_mul_right _ (Nat.log2_self_le hpos.ne')
    refine ⟨⟨n * 2 ^ s, e - s, hhigh, by omega, .inr hlow⟩, ?_⟩
    calc n * 2 ^ s * 2 ^ (e - s) = n * 2 ^ (s + (e - s)) := by rw [mul_assoc, pow_add]
      _ = n * 2 ^ e := by rw [Nat.add_sub_cancel' (by omega)]

namespace Binary64

/-- The number nearest to a natural. -/
def ofNat (n : ℕ) : Binary64 := ofQuotient false (n * 2 ^ unitExponent) 1

lemma ofQuotient_units (negative : Bool) (m : Magnitude) :
    ofQuotient negative m.units 1 = .finite negative m := by
  refine ofQuotient_of_rounds one_pos ?_ negative
  rw [Nat.cast_one, div_one]
  exact m.rounds_units

variable {n : ℕ}

lemma exists_ofNat_eq (h : n ≤ 2 ^ 53) :
    ∃ m : Magnitude, m.units = n * 2 ^ unitExponent ∧ ofNat n = .finite false m := by
  obtain ⟨m, hm⟩ := Magnitude.exists_units_eq h
  exact ⟨m, hm, by rw [ofNat, ← hm, ofQuotient_units]⟩

lemma ofNat_zero : ofNat 0 = .zero := by
  rw [ofNat, Nat.zero_mul]
  exact ofQuotient_units false .zero

lemma parse?_natRepr (n : ℕ) : parse? n.repr = some (ofNat n) := by
  have hinteger : n.repr = (n : ℤ).repr := rfl
  have hsign : decide ((n : ℤ) < 0) = false := by simp
  rw [hinteger, parse?_repr, hsign, Int.natAbs_natCast, Option.some_inj]
  unfold ofDecimal
  split
  case isTrue hn => rw [hn, ofNat_zero, zero]
  case isFalse =>
    dsimp only
    rw [if_neg (by decide), pow_zero, Nat.mul_one, ofNat]

lemma isZero_ofNat (h : n ≤ 2 ^ 53) : (ofNat n).isZero = decide (n = 0) := by
  obtain ⟨m, hm, hn⟩ := exists_ofNat_eq h
  rw [Bool.eq_iff_iff, hn, isZero_finite_iff, hm]
  simp

lemma toInt?_ofNat (h : n ≤ 2 ^ 53) : (ofNat n).toInt? = some (n : ℤ) := by
  obtain ⟨m, hm, hn⟩ := exists_ofNat_eq h
  have hwhole : m.whole = n := by
    rw [Magnitude.whole, hm, Nat.mul_div_cancel _ (Nat.two_pow_pos _)]
  rw [hn, toInt?_finite, hm, Nat.mul_mod_left, if_pos rfl, hwhole]
  rfl

lemma toIndex_ofNat (h : n ≤ 2 ^ 53) : (ofNat n).toIndex = n := by
  obtain ⟨m, hm, hn⟩ := exists_ofNat_eq h
  have hmax : n ≤ maxIndex := h.trans (by decide)
  rw [hn, toIndex, hm, Nat.mul_div_cancel _ (Nat.two_pow_pos _)]
  exact Nat.min_eq_right hmax

lemma sub_ofNat {k : ℕ} (h : n + k ≤ 2 ^ 53) : (ofNat (n + k)).sub (ofNat k) = ofNat n := by
  obtain ⟨m, hm, hsum⟩ := exists_ofNat_eq h
  obtain ⟨l, hl, hk⟩ := exists_ofNat_eq (n := k) (by omega)
  have hdiff : m.signed false + l.signed true = (n * 2 ^ unitExponent : ℕ) := by
    simp only [Magnitude.signed, hm, hl]
    push_cast
    ring
  rw [hsum, hk, sub, neg, Bool.not_false, add, hdiff]
  split
  case isTrue hzero =>
    have hn : n = 0 :=
      (Nat.mul_eq_zero.1 (Nat.cast_eq_zero.1 hzero)).resolve_right (Nat.two_pow_pos _).ne'
    rw [hn, ofNat_zero]
    rfl
  case isFalse =>
    have hsign : decide (((n * 2 ^ unitExponent : ℕ) : ℤ) < 0) = false :=
      decide_eq_false (not_lt.2 (Int.natCast_nonneg _))
    rw [hsign, Int.natAbs_natCast, ofNat]

end Binary64

end StackLine
