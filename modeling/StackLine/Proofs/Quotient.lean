import StackLine.Numeral.Value
import StackLine.Proofs.Nearest

/-!
Rounded quotients.

A quotient of naturals gives the magnitude that it rounds to, and none from the limit of the range
on. A decimal is rounded as the quotient of its value.
-/

namespace StackLine

/-- A quotient is rounded by half at most, and by half exactly only to an even number. -/
lemma roundHalfEven_bounds (num : ℕ) {den : ℕ} (hden : 0 < den) :
    let n := roundHalfEven num den
    2 * (n * den) ≤ 2 * num + den ∧ 2 * num ≤ 2 * (n * den) + den ∧
      (n % 2 = 1 → 2 * (n * den) < 2 * num + den ∧ 2 * num < 2 * (n * den) + den) := by
  obtain ⟨q, hq⟩ : ∃ q, q = num / den := ⟨_, rfl⟩
  have hdiv : q * den + num % den = num := by
    rw [hq, Nat.mul_comm]
    exact Nat.div_add_mod num den
  have hmod : num % den < den := Nat.mod_lt _ hden
  unfold roundHalfEven
  rw [← hq]
  dsimp only
  split
  · omega
  · rw [Nat.add_mul]
    omega

namespace Magnitude

variable {m : Magnitude} {num den : ℕ}

/-- What it means for a quotient, without division. -/
lemma rounds_div_iff (hden : 0 < den) :
    m.Rounds (num / den) ↔
      let low := (4 * m.significand - m.halfGapBelow) * 2 ^ m.shift * den
      let high := (4 * m.significand + 2) * 2 ^ m.shift * den
      if m.significand % 2 = 0 then low ≤ 4 * num ∧ 4 * num ≤ high
      else low < 4 * num ∧ 4 * num < high := by
  have hd : (0 : ℚ) < den := Nat.cast_pos.2 hden
  have hu : (4 : ℚ) * (num / den) = (4 * num : ℕ) / den := by
    rw [Nat.cast_mul, Nat.cast_ofNat, mul_div_assoc]
  unfold Rounds
  dsimp only
  rw [hu]
  split
  · rw [le_div_iff₀ hd, div_le_iff₀ hd]
    exact_mod_cast Iff.rfl
  · rw [lt_div_iff₀ hd, div_lt_iff₀ hd]
    exact_mod_cast Iff.rfl

/-- What it means to round to the magnitude, with the product of denominator and power as a
whole. -/
lemma rounds_iff_bounds (hden : 0 < den) :
    m.Rounds (num / den) ↔
      (4 * m.significand - m.halfGapBelow) * (den * 2 ^ m.shift) ≤ 4 * num ∧
        4 * num ≤ (4 * m.significand + 2) * (den * 2 ^ m.shift) ∧
        (m.significand % 2 = 1 →
          (4 * m.significand - m.halfGapBelow) * (den * 2 ^ m.shift) < 4 * num ∧
            4 * num < (4 * m.significand + 2) * (den * 2 ^ m.shift)) := by
  rw [rounds_div_iff hden]
  dsimp only
  rw [Nat.mul_assoc, Nat.mul_assoc, Nat.mul_comm (2 ^ m.shift)]
  split <;> omega

/-- The shift leaves 53 bits of the quotient before the point, and no fewer unless it is zero. -/
lemma bounds_of_shift {e : ℕ} (hden : 0 < den) (he : (num / den).log2 - 52 = e) :
    num < 2 ^ 53 * (den * 2 ^ e) ∧ (e = 0 ∨ 2 ^ 52 * (den * 2 ^ e) ≤ num) := by
  have hswap : ∀ k, 2 ^ k * (den * 2 ^ e) = 2 ^ (k + e) * den := fun k => by ring
  rw [hswap, hswap, ← Nat.div_lt_iff_lt_mul hden, ← Nat.le_div_iff_mul_le hden]
  constructor
  · exact Nat.lt_log2_self.trans_le (Nat.pow_le_pow_right two_pos (by omega))
  · refine (Nat.eq_zero_or_pos e).imp_right fun hpos => ?_
    have hne : num / den ≠ 0 := fun h => by
      rw [h, Nat.log2_zero] at he
      omega
    exact (Nat.le_log2 hne).1 (by omega)

lemma ofParts?_eq_some_iff {s e : ℕ} :
    ofParts? s e = some m ↔ s = m.significand ∧ e = m.shift := by
  constructor
  · intro h
    unfold ofParts? at h
    split at h
    case isTrue =>
      cases h
      exact ⟨rfl, rfl⟩
    case isFalse => cases h
  · rintro ⟨rfl, rfl⟩
    exact dif_pos m.canonical

/-- How a quotient is rounded: by the bounds of its shift and those of its significand. -/
lemma exists_parts (num : ℕ) (hden : 0 < den) :
    ∃ s e, ofQuotient? num den =
        (if s < 2 ^ 53 then ofParts? s e else ofParts? (2 ^ 52) (e + 1)) ∧
      (num < 2 ^ 53 * (den * 2 ^ e) ∧ (e = 0 ∨ 2 ^ 52 * (den * 2 ^ e) ≤ num)) ∧
      2 * (s * (den * 2 ^ e)) ≤ 2 * num + den * 2 ^ e ∧
      2 * num ≤ 2 * (s * (den * 2 ^ e)) + den * 2 ^ e ∧
      (s % 2 = 1 → 2 * (s * (den * 2 ^ e)) < 2 * num + den * 2 ^ e ∧
        2 * num < 2 * (s * (den * 2 ^ e)) + den * 2 ^ e) :=
  ⟨_, _, rfl, bounds_of_shift hden rfl,
    roundHalfEven_bounds num (Nat.mul_pos hden (Nat.two_pow_pos _))⟩

/-- The magnitude that a quotient gives is one it rounds to. -/
lemma rounds_of_ofQuotient? (hden : 0 < den) (h : ofQuotient? num den = some m) :
    m.Rounds (num / den) := by
  obtain ⟨s, e, heq, ⟨hlt, hle⟩, hlow, hhigh, hodd⟩ := exists_parts num hden
  rw [heq] at h
  rw [rounds_iff_bounds hden]
  split at h
  case isTrue =>
    obtain ⟨rfl, rfl⟩ := ofParts?_eq_some_iff.1 h
    have hpos : m.significand % 2 = 1 →
        den * 2 ^ m.shift ≤ m.significand * (den * 2 ^ m.shift) :=
      fun h => Nat.le_mul_of_pos_left _ (by omega)
    rw [Nat.sub_mul, Nat.add_mul, Nat.mul_assoc]
    unfold halfGapBelow
    split
    case isTrue hs =>
      -- with this shift, nothing below the power of two is rounded up to it
      have hpower : m.significand * (den * 2 ^ m.shift) = 2 ^ 52 * (den * 2 ^ m.shift) := by
        rw [hs.1]
      omega
    case isFalse => omega
  case isFalse hs =>
    obtain ⟨hm, he'⟩ := ofParts?_eq_some_iff.1 h
    have hdouble : den * 2 ^ m.shift = 2 * (den * 2 ^ e) := by
      rw [← he', pow_succ]
      ring
    have hone : m.halfGapBelow = 1 := if_pos ⟨hm.symm, by omega⟩
    have hmul : 2 ^ 53 * (den * 2 ^ e) ≤ s * (den * 2 ^ e) := Nat.mul_le_mul_right _ (by omega)
    rw [hone, ← hm, hdouble]
    omega

lemma limit_mul_le_of_none (hden : 0 < den) (h : ofQuotient? num den = none) :
    limit * den ≤ num := by
  obtain ⟨s, e, heq, ⟨-, hle⟩, hlow, hhigh, -⟩ := exists_parts num hden
  rw [heq] at h
  obtain ⟨l, hl⟩ : ∃ l, l = 970 + Binary64.unitExponent := ⟨_, rfl⟩
  have hlast : l = 2044 := hl
  have hlimit : limit * den = (2 ^ 54 - 1) * (den * 2 ^ l) := by
    rw [limit, ← hl]
    ring
  have hpow : ∀ k, l + k ≤ e → 2 ^ k * (den * 2 ^ l) ≤ den * 2 ^ e := fun k hk => by
    rw [Nat.mul_left_comm, ← Nat.pow_add]
    exact Nat.mul_le_mul_left _ (Nat.pow_le_pow_right two_pos (by omega))
  rw [hlimit]
  split at h
  case isTrue hs =>
    have hP : 0 < den * 2 ^ e := Nat.mul_pos hden (Nat.two_pow_pos _)
    have hleast : e = 0 ∨ 2 ^ 52 ≤ s := hle.imp_right fun hle => by
      by_contra hlt
      have hmul : (s + 1) * (den * 2 ^ e) ≤ 2 ^ 52 * (den * 2 ^ e) :=
        Nat.mul_le_mul_right _ (by omega)
      rw [Nat.add_mul] at hmul
      omega
    have hshift : l + 2 ≤ e := by
      by_contra hlt
      rw [ofParts?, dif_pos ⟨hs, by omega, hleast⟩] at h
      cases h
    have := hpow 2 hshift
    omega
  case isFalse hs =>
    have hshift : l + 1 ≤ e := by
      by_contra hlt
      rw [ofParts?, dif_pos ⟨by decide, by omega, .inr le_rfl⟩] at h
      cases h
    have hmul : 2 ^ 53 * (den * 2 ^ e) ≤ s * (den * 2 ^ e) := Nat.mul_le_mul_right _ (by omega)
    have := hpow 1 hshift
    omega

/-- No magnitude is near enough exactly from the limit on. -/
lemma ofQuotient?_eq_none_iff (hden : 0 < den) :
    ofQuotient? num den = none ↔ (limit : ℚ) ≤ num / den := by
  constructor
  · intro h
    rw [le_div_iff₀ (Nat.cast_pos.2 hden)]
    exact_mod_cast limit_mul_le_of_none hden h
  · intro hle
    rcases h : ofQuotient? num den with _ | m
    · rfl
    · exact absurd hle (not_le.2 (rounds_of_ofQuotient? hden h).lt_limit)

/-- **Nearest.** A quotient gives the magnitude that it rounds to. -/
theorem ofQuotient?_eq_some_iff (hden : 0 < den) :
    ofQuotient? num den = some m ↔ m.Rounds (num / den) := by
  refine ⟨rounds_of_ofQuotient? hden, fun h => ?_⟩
  rcases hk : ofQuotient? num den with _ | k
  · exact absurd ((ofQuotient?_eq_none_iff hden).1 hk) (not_le.2 h.lt_limit)
  · rw [(rounds_of_ofQuotient? hden hk).unique h]

end Magnitude

namespace Binary64

variable {m : Magnitude} {num den : ℕ}

lemma ofQuotient_of_rounds (hden : 0 < den) (h : m.Rounds (num / den))
    (negative : Bool) : ofQuotient negative num den = .finite negative m := by
  have hm := (Magnitude.ofQuotient?_eq_some_iff hden).2 h
  unfold ofQuotient
  rw [hm]

lemma ofQuotient_eq_finite_iff (hden : 0 < den) {negative sign : Bool} :
    ofQuotient negative num den = .finite sign m ↔ negative = sign ∧ m.Rounds (num / den) := by
  constructor
  · intro h
    unfold ofQuotient at h
    split at h
    · next k hk =>
      cases h
      exact ⟨rfl, (Magnitude.ofQuotient?_eq_some_iff hden).1 hk⟩
    · cases h
  · rintro ⟨rfl, h⟩
    exact ofQuotient_of_rounds hden h negative

lemma ofQuotient_of_limit_le (hden : 0 < den)
    (h : (Magnitude.limit : ℚ) ≤ num / den) (negative : Bool) :
    ofQuotient negative num den = .infinite negative := by
  have hnone := (Magnitude.ofQuotient?_eq_none_iff hden).2 h
  unfold ofQuotient
  rw [hnone]

lemma two_pow_lt_ten_pow : (2 : ℚ) ^ 1024 < 10 ^ 309 := by
  -- the powers are compared as naturals, with the exponents kept out of the cast
  have hcast : ∀ j k : ℕ, 2 ^ j < 10 ^ k → (2 : ℚ) ^ j < 10 ^ k := by
    intro j k h
    exact_mod_cast h
  exact hcast 1024 309 (by decide +kernel)

/-- A numerator that is too short for its denominator is less than half a unit. -/
lemma tiny_of_log2_le {c e k : ℕ} (h : c.log2 + 1 + (e + 1) ≤ 3 * k) :
    2 * (c * 2 ^ e) < 10 ^ k := by
  calc 2 * (c * 2 ^ e) < 2 * (2 ^ (c.log2 + 1) * 2 ^ e) := by
        have := Nat.mul_lt_mul_of_pos_right (Nat.lt_log2_self (n := c)) (Nat.two_pow_pos e)
        omega
    _ = 2 ^ (c.log2 + 1 + (e + 1)) := by ring
    _ ≤ 2 ^ (3 * k) := Nat.pow_le_pow_right two_pos h
    _ = 8 ^ k := by rw [pow_mul]; norm_num
    _ ≤ 10 ^ k := Nat.pow_le_pow_left (by decide) k

/-- **Decimals.** A decimal is the quotient of its value, rounded: neither of the shortcuts for
large and small exponents is taken wrongly. -/
theorem ofDecimal_eq_ofQuotient (negative : Bool) (c : ℕ) (e : ℤ) :
    ∃ num den : ℕ, 0 < den ∧ (num / den : ℚ) = c * 10 ^ e * 2 ^ unitExponent ∧
      ofDecimal negative c e = ofQuotient negative num den := by
  unfold ofDecimal
  by_cases hc : c = 0
  · subst hc
    refine ⟨0, 1, one_pos, by simp, ?_⟩
    rw [if_pos rfl, ofQuotient_of_rounds one_pos (m := .zero)]
    exact Magnitude.zero_rounds_iff.2 (by norm_num)
  rw [if_neg hc]
  rcases e with k | k
  · rw [Int.ofNat_eq_natCast, zpow_natCast]
    refine ⟨c * 10 ^ k * 2 ^ unitExponent, 1, one_pos, by push_cast; rw [div_one], ?_⟩
    dsimp only
    split
    case isTrue hk =>
      -- past the limit everything is infinite
      have hone : (1 : ℚ) ≤ c := Nat.one_le_cast.2 (Nat.pos_of_ne_zero hc)
      have hten : (10 : ℚ) ^ 309 ≤ 10 ^ k := pow_le_pow_right₀ (by norm_num) hk
      have hbig : (10 : ℚ) ^ 309 ≤ c * 10 ^ k :=
        hten.trans (le_mul_of_one_le_left (by positivity) hone)
      have hless : (2 : ℚ) ^ 1024 - 2 ^ 970 ≤ 2 ^ 1024 := sub_le_self _ (by positivity)
      rw [ofQuotient_of_limit_le one_pos]
      rw [Magnitude.cast_limit]
      push_cast
      rw [div_one]
      exact mul_le_mul_of_nonneg_right ((hless.trans two_pow_lt_ten_pow.le).trans hbig)
        (by positivity)
    case isFalse => rfl
  · refine ⟨c * 2 ^ unitExponent, 10 ^ (k + 1), by positivity, ?_, ?_⟩
    · rw [zpow_negSucc]
      push_cast
      rw [div_eq_mul_inv, mul_right_comm]
    dsimp only
    split
    case isTrue hk =>
      -- so small a decimal is less than half a unit
      have hlt : (2 : ℚ) * (c * 2 ^ unitExponent : ℕ) < (10 ^ (k + 1) : ℕ) :=
        mod_cast tiny_of_log2_le hk
      have hpos : (0 : ℚ) < (10 ^ (k + 1) : ℕ) := Nat.cast_pos.2 (by positivity)
      rw [ofQuotient_of_rounds (by positivity) (m := .zero)]
      refine Magnitude.zero_rounds_iff.2 ⟨by positivity, ?_⟩
      rw [mul_div_assoc', div_le_one hpos]
      exact hlt.le
    case isFalse => rfl

/-- A decimal that is read as a finite number rounds to its magnitude. -/
lemma ofDecimal_eq_finite_iff {c : ℕ} {e : ℤ} {negative sign : Bool} :
    ofDecimal negative c e = .finite sign m ↔
      negative = sign ∧ m.Rounds (c * 10 ^ e * 2 ^ unitExponent) := by
  obtain ⟨num, den, hden, hvalue, hquotient⟩ := ofDecimal_eq_ofQuotient negative c e
  rw [← hvalue, hquotient]
  exact ofQuotient_eq_finite_iff hden

/-- A decimal that rounds to a magnitude gives that magnitude. -/
theorem ofDecimal_of_rounds {c : ℕ} {e : ℤ} (h : m.Rounds (c * 10 ^ e * 2 ^ unitExponent))
    (negative : Bool) : ofDecimal negative c e = .finite negative m :=
  ofDecimal_eq_finite_iff.2 ⟨rfl, h⟩

end Binary64

end StackLine
