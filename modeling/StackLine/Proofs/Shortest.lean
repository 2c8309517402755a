import Mathlib.Data.Int.Log
import StackLine.Proofs.Coarsest
import StackLine.Proofs.Rounded
import StackLine.Proofs.Significant

/-!
The shortest text.

The text of a number is its shortest decimal, written positionally or with an exponent. So no
decimal that is read as the number has fewer significant digits, and none with as many is nearer.
-/

namespace StackLine

open Numeral

/-! ### What is written -/

namespace Decimal

lemma lt_ten_pow_length (d : Decimal) : d.coefficient < 10 ^ d.digits.length :=
  (Nat.length_toDigits_le_iff (by decide) Nat.length_toDigits_pos).1 le_rfl

lemma ten_pow_length_le {d : Decimal} (h : d.coefficient ≠ 0) :
    10 ^ d.digits.length ≤ 10 * d.coefficient := by
  obtain ⟨k, hk⟩ : ∃ k, d.digits.length = k + 1 :=
    Nat.exists_eq_succ_of_ne_zero Nat.length_toDigits_pos.ne'
  rw [hk, pow_succ, mul_comm]
  refine Nat.mul_le_mul_left 10 ?_
  rcases Nat.eq_zero_or_pos k with rfl | hpos
  · exact Nat.pos_of_ne_zero h
  · by_contra hlt
    have hshort := (Nat.length_toDigits_le_iff (b := 10) (by decide) hpos).2 (not_le.1 hlt)
    rw [← digits, hk] at hshort
    omega

/-- The leading exponent is that of the value. -/
lemma log_value {d : Decimal} (h : d.coefficient ≠ 0) : Int.log 10 d.value = d.leadingExponent := by
  have hcoefficient : (0 : ℚ) < d.coefficient := Nat.cast_pos.2 (Nat.pos_of_ne_zero h)
  have hpos : 0 < d.value := by
    unfold value
    positivity
  have hlength : (10 : ℚ) ^ (d.leadingExponent + 1) = 10 ^ d.digits.length * 10 ^ d.exponent := by
    rw [← zpow_natCast, ← zpow_add₀ (by norm_num), leadingExponent]
    congr 1
    ring
  refine le_antisymm ?_ ?_
  · rw [← Int.lt_add_one_iff, ← Int.lt_zpow_iff_log_lt (by decide) hpos, Nat.cast_ofNat, hlength]
    have hlt : (d.coefficient : ℚ) < 10 ^ d.digits.length := by exact_mod_cast d.lt_ten_pow_length
    exact mul_lt_mul_of_pos_right hlt (by positivity)
  · rw [← Int.zpow_le_iff_le_log (by decide) hpos, Nat.cast_ofNat]
    have hle : (10 : ℚ) ^ d.digits.length ≤ 10 * d.coefficient := by
      exact_mod_cast ten_pow_length_le h
    have hscaled := mul_le_mul_of_nonneg_right hle (show (0 : ℚ) ≤ 10 ^ d.exponent by positivity)
    rw [← hlength, zpow_add_one₀ (by norm_num)] at hscaled
    unfold value
    linarith

/-- Positionally, with digits on both sides of the point. -/
lemma exists_positional_eq (d : Decimal) :
    ∃ whole places : Digits, d.positional = (Mantissa.split whole places).chars := by
  obtain ⟨ds, places, hpositional, hds⟩ : ∃ ds places, d.positional = withPoint ds (places + 1) ∧
      ∀ c ∈ ds, c.isDigit = true := by
    unfold positional
    split
    · refine ⟨_, 0, rfl, List.forall_mem_append.2 ⟨d.isDigit_of_mem_digits, fun c hc => ?_⟩⟩
      rw [List.eq_of_mem_replicate hc]
      decide
    · exact ⟨_, _, rfl, d.isDigit_of_mem_digits⟩
  obtain ⟨whole, rest, hcat, hne, hlength, hwhole, hrest, -⟩ := exists_withPoint_eq hds (places + 1)
  have hrestNe : rest ≠ [] := by
    rintro rfl
    cases hlength
  exact ⟨⟨whole, hne, hwhole⟩, ⟨rest, hrestNe, hrest⟩, hpositional.trans hcat⟩

/-- The exponent has a sign, and as many digits as it should have at least. -/
lemma exists_signedExponent_eq (width : ℕ) (e : ℤ) :
    ∃ x : Exponent, 'e' :: signedExponent width e = x.chars ∧ x.value = e ∧ x.sign ≠ .absent ∧
      width ≤ x.digits.chars.length := by
  let ds := Nat.toDigits 10 e.natAbs
  have hds : ∀ c ∈ ds, c.isDigit = true :=
    fun _ => Nat.isDigit_of_mem_toDigits (by decide) (by decide)
  let x : Exponent := ⟨'e', .inl rfl, if e < 0 then .minus else .plus,
    ⟨List.replicate (width - ds.length) '0' ++ ds,
      List.append_ne_nil_of_right_ne_nil _ Nat.toDigits_ne_nil, isDigit_of_mem_zeros_append _ hds⟩⟩
  have hchars : 'e' :: signedExponent width e = x.chars := by
    by_cases he : e < 0 <;> simp [signedExponent, Exponent.chars, Sign.chars, x, ds, he]
  have hread := exponent?_signedExponent width e
  rw [hchars, exponent?_chars] at hread
  refine ⟨x, hchars, Option.some.inj hread, ?_, ?_⟩
  · by_cases he : e < 0 <;> simp [x, he]
  · simp only [x, List.length_append, List.length_replicate]
    omega

lemma exists_scientific_eq (width : ℕ) (d : Decimal) :
    ∃ (m : Mantissa) (x : Exponent), d.scientific width = m.chars ++ x.chars ∧
      x.value = d.leadingExponent ∧ x.sign ≠ .absent ∧ width ≤ x.digits.chars.length := by
  have hdigits := d.isDigit_of_mem_digits
  obtain ⟨x, hx, hvalue, hsign, hlength⟩ := exists_signedExponent_eq width d.leadingExponent
  rcases hd : d.digits with _ | ⟨first, _ | ⟨second, rest⟩⟩ <;> rw [hd] at hdigits
  · exact absurd hd Nat.toDigits_ne_nil
  · refine ⟨.whole ⟨[first], List.cons_ne_nil _ _, hdigits⟩, x, ?_, hvalue, hsign, hlength⟩
    simp [scientific, hd, Mantissa.chars, hx]
  · rw [List.forall_mem_cons] at hdigits
    refine ⟨.split ⟨[first], List.cons_ne_nil _ _, List.forall_mem_singleton.2 hdigits.1⟩
      ⟨second :: rest, List.cons_ne_nil _ _, hdigits.2⟩, x, ?_, hvalue, hsign, hlength⟩
    simp [scientific, hd, Mantissa.chars, hx]

/-- A decimal is written positionally, with a point, or with a signed exponent of at least two
digits; the leading exponent decides. -/
structure Written (d : Decimal) (s : Spelling) : Prop where
  value : |s.value| = d.value
  positional : s.exponent = none ↔ -4 ≤ d.leadingExponent ∧ d.leadingExponent < 16
  point : s.exponent = none → ∃ whole places, s.mantissa = .split whole places
  exponent : ∀ x ∈ s.exponent,
    x.value = d.leadingExponent ∧ x.sign ≠ .absent ∧ 2 ≤ x.digits.chars.length

lemma abs_value_of_chars_eq {negative : Bool} {d : Decimal} {s : Spelling}
    (h : s.chars = if negative then '-' :: d.write .plain else d.write .plain) :
    |s.value| = d.value := by
  obtain ⟨c, e, hread, hvalue⟩ := d.decimal?_write negative .plain
  have hnumeral := ofChars?_of_decimal? hread
  rw [← h, ofChars?_chars, Option.some.injEq, Spelling.numeral, Numeral.decimal.injEq] at hnumeral
  rw [s.abs_value, hnumeral.2.1, hnumeral.2.2, hvalue]

lemma exists_written (negative : Bool) (d : Decimal) :
    ∃ s : Spelling, s.chars = (if negative then '-' :: d.write .plain else d.write .plain) ∧
      d.Written s := by
  let sign : Sign := if negative then .minus else .absent
  have hsign : ∀ cs : List Char, sign.chars ++ cs = if negative then '-' :: cs else cs := by
    intro cs
    cases negative <;> rfl
  by_cases hplain : -4 ≤ d.leadingExponent ∧ d.leadingExponent < 16
  · obtain ⟨whole, places, hd⟩ := d.exists_positional_eq
    have hchars : (⟨sign, .split whole places, none⟩ : Spelling).chars =
        if negative then '-' :: d.write .plain else d.write .plain := by
      have hwrite : d.write .plain = d.positional := if_pos hplain
      rw [hwrite, hd, ← hsign]
      exact congrArg (sign.chars ++ ·) (List.append_nil _)
    exact ⟨_, hchars, abs_value_of_chars_eq hchars, iff_of_true rfl hplain,
      fun _ => ⟨whole, places, rfl⟩, nofun⟩
  · obtain ⟨m, x, hd, hx⟩ := d.exists_scientific_eq 2
    have hchars : (⟨sign, m, some x⟩ : Spelling).chars =
        if negative then '-' :: d.write .plain else d.write .plain := by
      have hwrite : d.write .plain = d.scientific 2 := if_neg hplain
      rw [hwrite, hd, ← hsign]
      rfl
    refine ⟨_, hchars, abs_value_of_chars_eq hchars, iff_of_false nofun hplain, nofun, ?_⟩
    rintro _ ⟨⟩
    exact hx

end Decimal

/-! ### Texts of numbers -/

lemma Magnitude.log_shortest (m : Magnitude) :
    Int.log 10 m.shortest.value = m.shortest.leadingExponent := by
  by_cases hm : m.significand = 0
  · rw [shortest, if_pos hm, Decimal.value, Nat.cast_zero, zero_mul, Int.log_zero_right]
    rfl
  · exact Decimal.log_value (shortest_coefficient_ne_zero hm)

namespace Binary64

variable {m : Magnitude} {negative : Bool} {s t : Spelling}

lemma ofText_eq_finite_iff :
    ofText s.text = .finite negative m ↔
      s.sign.isNegative = negative ∧ m.Rounds (|s.value| * 2 ^ unitExponent) := by
  rw [ofText, parse?_text_of_spelling, Option.getD_some, ofDecimal_eq_finite_iff, s.abs_value]

/-- Numbers of one sign are as far apart as their sizes. -/
lemma abs_value_sub (h : s.sign.isNegative = negative) :
    |s.value - m.signedValue negative| = |(|s.value| - m.value)| := by
  have hsize : 0 ≤ s.mantissa.value * 10 ^ s.exponentValue :=
    mul_nonneg s.mantissa.value_nonneg (by positivity)
  rw [Spelling.value, Magnitude.signedValue, h]
  cases negative with
  | false => rw [if_neg Bool.false_ne_true, if_neg Bool.false_ne_true, one_mul, abs_of_nonneg hsize]
  | true =>
    rw [if_pos rfl, if_pos rfl, neg_one_mul, abs_neg, abs_of_nonneg hsize, ← neg_sub', abs_neg]

/-- **The text of a number is the shortest that reads back.** It is a decimal that is read as the
number, the sign of zero included. No decimal with fewer significant digits is read as the number,
and none with equally many that is read as it lies nearer to it. It is written positionally, and
then always with a point, if and only if its leading exponent is at least `-4` and less than `16`;
otherwise with this exponent, which has a sign and at least two digits. -/
theorem text_shortest (negative : Bool) (m : Magnitude) :
    ∃ s : Spelling, text (.finite negative m) = s.text ∧ ofText s.text = .finite negative m ∧
      (∀ t : Spelling, ofText t.text = .finite negative m →
        s.significantDigits.length ≤ t.significantDigits.length ∧
          (t.significantDigits.length = s.significantDigits.length →
            |s.value - m.signedValue negative| ≤ |t.value - m.signedValue negative|)) ∧
      let e := Int.log 10 |s.value|
      (s.exponent = none ↔ -4 ≤ e ∧ e < 16) ∧
        (s.exponent = none → ∃ whole places, s.mantissa = .split whole places) ∧
        ∀ x ∈ s.exponent, x.value = e ∧ x.sign ≠ .absent ∧ 2 ≤ x.digits.chars.length := by
  obtain ⟨s, hchars, hwritten⟩ := m.shortest.exists_written negative
  have htext : text (.finite negative m) = s.text := by
    rw [Spelling.text, hchars]
    rfl
  have hread : ofText s.text = .finite negative m := by rw [← htext, ofText_text]
  have hsign := (ofText_eq_finite_iff.1 hread).1
  refine ⟨s, htext, hread, fun t ht => ?_, ?_⟩
  · obtain ⟨htsign, hrounds⟩ := ofText_eq_finite_iff.1 ht
    rw [abs_value_sub hsign, abs_value_sub htsign]
    obtain ⟨n, i, hn, hvalue⟩ := t.length_significantDigits_le_iff.1 le_rfl
    have hlength : ∀ k, m.shortest.coefficient < 10 ^ k → s.significantDigits.length ≤ k :=
      fun k hk => s.length_significantDigits_le_iff.2 ⟨_, _, hk, hwritten.value.symm⟩
    rw [← hvalue] at hrounds ⊢
    refine ⟨hlength _ (Magnitude.shortest_lt_ten_pow hrounds hn), fun heq => ?_⟩
    rcases hk : t.significantDigits.length with _ | k <;> rw [hk] at hn heq
    · -- no digit is significant, so both are zero
      obtain ⟨n', i', hn', hvalue'⟩ := s.length_significantDigits_le_iff.1 heq.symm.le
      rw [pow_zero, Nat.lt_one_iff] at hn hn'
      rw [← hvalue', hn, hn', Nat.cast_zero, zero_mul, zero_mul]
    · have hle : 10 ^ (k + 1) ≤ 10 * m.shortest.coefficient := by
        by_contra hlt
        have := hlength k (by rw [pow_succ] at hlt; omega)
        omega
      rw [hwritten.value]
      exact Magnitude.abs_shortest_sub_le hrounds hn hle
  · rw [hwritten.value, m.log_shortest]
    exact ⟨hwritten.positional, hwritten.point, hwritten.exponent⟩

/-- The least positive number is also read from `3e-324`, which is as short, but not as near. -/
theorem text_shortest_least :
    let m : Magnitude := ⟨1, 0, by decide⟩
    let t : Spelling := ⟨.absent, .whole ⟨['3'], by decide, List.all_eq_true.1 (by decide)⟩,
      some ⟨'e', .inl rfl, .minus, ⟨['3', '2', '4'], by decide, List.all_eq_true.1 (by decide)⟩⟩⟩
    ofText t.text = .finite false m ∧ text (.finite false m) = "5e-324" ∧
      ∃ s : Spelling, s.text = "5e-324" ∧ s.significantDigits.length ≤ 1 ∧
        (1 = s.significantDigits.length →
          |s.value - m.signedValue false| ≤ |t.value - m.signedValue false|) := by
  intro m t
  have ht : ofText t.text = .finite false m := by decide +kernel
  have htext : text (.finite false m) = "5e-324" := by decide +kernel
  have hone : t.significantDigits.length = 1 := by decide
  obtain ⟨s, hs, -, hbest, -⟩ := text_shortest false m
  obtain ⟨hfewest, hnearest⟩ := hbest t ht
  rw [hone] at hfewest hnearest
  exact ⟨ht, htext, s, hs.symm.trans htext, hfewest, hnearest⟩

end Binary64

end StackLine
