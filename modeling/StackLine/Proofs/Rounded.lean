import StackLine.Proofs.Grammar
import StackLine.Proofs.Quotient

/-!
Correct rounding.

A rational is rounded to the number whose magnitude is nearest to it, and to an infinite one from
the limit of the range on. So are quotients, and with them every decimal that is read.
-/

namespace StackLine

namespace Binary64

/-! ### Rounded numbers -/

/-- A number is a rational of at least zero, rounded to nearest and with a sign put to it. From half
a gap above the largest magnitude on it is infinite. -/
inductive IsRounded (negative : Bool) (q : ℚ) : Binary64 → Prop
  | finite {m : Magnitude} (h : q < 2 ^ 1024 - 2 ^ 970) (nearest : m.Nearest q) :
      IsRounded negative q (.finite negative m)
  | infinite (h : 2 ^ 1024 - 2 ^ 970 ≤ q) : IsRounded negative q (.infinite negative)

namespace IsRounded

variable {negative : Bool} {q : ℚ} {x y : Binary64}

/-- **Rounding has one result.** -/
theorem unique (hx : IsRounded negative q x) (hy : IsRounded negative q y) : x = y := by
  rcases hx with ⟨hlt, hm⟩ | hle <;> rcases hy with ⟨hlt', hn⟩ | hle'
  · rw [hm.unique hn]
  · exact absurd hle' (not_le.2 hlt)
  · exact absurd hle (not_le.2 hlt')
  · rfl

lemma infinite_iff (h : IsRounded negative q x) :
    (∃ sign, x = .infinite sign) ↔ 2 ^ 1024 - 2 ^ 970 ≤ q := by
  rcases h with ⟨hlt, -⟩ | hle
  · exact iff_of_false (fun ⟨_, h⟩ => nomatch h) (not_le.2 hlt)
  · exact iff_of_true ⟨_, rfl⟩ hle

lemma isZero_iff (h : IsRounded negative q x) (hq : 0 ≤ q) :
    x.isZero = true ↔ q ≤ 1 / 2 ^ 1075 := by
  rcases h with ⟨-, hm⟩ | hle
  · rw [isZero, beq_iff_eq, ← Magnitude.units_eq_zero_iff, hm.units_eq_zero_iff hq]
  · have hhalf : (1 : ℚ) / 2 ^ 1075 ≤ 1 := div_le_one_of_le₀ (one_le_pow₀ one_le_two) (by positivity)
    have hlimit : (1 : ℚ) < 2 ^ 1024 - 2 ^ 970 := by
      rw [Magnitude.two_pow_sub_eq]
      exact one_lt_mul_of_lt_of_le (by norm_num) (one_le_pow₀ one_le_two)
    exact iff_of_false Bool.false_ne_true (not_le.2 ((hhalf.trans_lt hlimit).trans_le hle))

end IsRounded

/-- **A quotient is rounded to nearest.** -/
theorem isRounded_ofQuotient {num den : ℕ} {q : ℚ} (hden : 0 < den)
    (hq : (num / den : ℚ) = q * 2 ^ unitExponent) (negative : Bool) :
    IsRounded negative q (ofQuotient negative num den) := by
  have hD : (0 : ℚ) < 2 ^ unitExponent := by positivity
  have hlimit : (Magnitude.limit : ℚ) ≤ num / den ↔ 2 ^ 1024 - 2 ^ 970 ≤ q := by
    rw [hq, Magnitude.cast_limit, mul_le_mul_iff_of_pos_right hD]
  rcases h : Magnitude.ofQuotient? num den with _ | m
  · have hle := (Magnitude.ofQuotient?_eq_none_iff hden).1 h
    rw [ofQuotient_of_limit_le hden hle]
    exact .infinite (hlimit.1 hle)
  · have hrounds := (Magnitude.ofQuotient?_eq_some_iff hden).1 h
    rw [ofQuotient_of_rounds hden hrounds]
    refine .finite (not_le.1 (mt hlimit.2 (not_le.2 hrounds.lt_limit))) ?_
    rw [hq] at hrounds
    exact hrounds.nearest

lemma isRounded_ofDecimal (negative : Bool) (c : ℕ) (e : ℤ) :
    IsRounded negative (c * 10 ^ e) (ofDecimal negative c e) := by
  obtain ⟨num, den, hden, hvalue, hquotient⟩ := ofDecimal_eq_ofQuotient negative c e
  rw [hquotient]
  exact isRounded_ofQuotient hden hvalue negative

/-! ### Decimals -/

lemma parse?_text_of_spelling (s : Numeral.Spelling) :
    parse? s.text = some (ofDecimal s.sign.isNegative
      (Numeral.digitsValue (s.mantissa.wholeDigits ++ s.mantissa.placeDigits))
      (s.exponentValue - s.mantissa.placeDigits.length)) := by
  rw [parse?, Numeral.Spelling.text, String.toList_ofList, Numeral.ofChars?_chars]
  rfl

lemma isRounded_ofText (s : Numeral.Spelling) :
    IsRounded (decide (s.chars.head? = some '-')) |s.value| (ofText s.text) := by
  rw [ofText, parse?_text_of_spelling, Option.getD_some, s.abs_value, ← s.isNegative_eq]
  exact isRounded_ofDecimal _ _ _

/-- **A decimal is read as the number nearest to it**, however many digits it has and whatever its
exponent: of two numbers equally near it is the even one, and its sign is negative exactly if the
text starts with a minus. It is infinite from half a gap above the largest number on, and zero up to
half of the least positive one. -/
theorem ofText_nearest (s : Numeral.Spelling) :
    parse? s.text = some (ofText s.text) ∧
      (∀ x, IsRounded (decide (s.chars.head? = some '-')) |s.value| x ↔ x = ofText s.text) ∧
      ((∃ negative, ofText s.text = .infinite negative) ↔ 2 ^ 1024 - 2 ^ 970 ≤ |s.value|) ∧
      ((ofText s.text).isZero = true ↔ |s.value| ≤ 1 / 2 ^ 1075) := by
  have h := isRounded_ofText s
  refine ⟨?_, fun x => ⟨fun hx => hx.unique h, ?_⟩, h.infinite_iff, h.isZero_iff (abs_nonneg _)⟩
  · rw [ofText, parse?_text_of_spelling, Option.getD_some]
  · rintro rfl
    exact h

/-- A tie goes to the even neighbour. -/
example : ofText "9007199254740993" = ofText "9007199254740992" := by decide +kernel

end Binary64

end StackLine
