import StackLine.Proofs.Strict
import StackLine.Proofs.Written

/-!
Significant digits.

Zeros at the ends of a row of digits only move the point. The other digits are significant, and how
many of them a decimal has depends on its value alone.
-/

namespace StackLine

namespace Numeral

variable {ds : List Char} {c : Char}

/-! ### The value of digits -/

lemma digitsValue_singleton (c : Char) : digitsValue [c] = c.toNat - 48 := by
  simp [digitsValue, Nat.ofDigitChars_cons]

lemma digitsValue_cons (c : Char) (ds : List Char) :
    digitsValue (c :: ds) = 10 ^ ds.length * (c.toNat - 48) + digitsValue ds := by
  rw [← List.singleton_append, digitsValue_append, digitsValue_singleton]

lemma digitsValue_concat (ds : List Char) (c : Char) :
    digitsValue (ds ++ [c]) = 10 * digitsValue ds + (c.toNat - 48) := by
  rw [digitsValue_append, digitsValue_singleton]
  rfl

lemma toNat_of_isDigit (h : c.isDigit = true) : 48 ≤ c.toNat ∧ c.toNat ≤ 57 :=
  Char.isDigit_iff_toNat.1 h

lemma toNat_of_ne_zero (h : c.isDigit = true) (hc : c ≠ '0') : 49 ≤ c.toNat ∧ c.toNat ≤ 57 := by
  have hrange := toNat_of_isDigit h
  have hne : c.toNat ≠ 48 := fun h48 => hc (Char.toNat_inj.1 h48)
  omega

lemma digitsValue_lt (h : ∀ c ∈ ds, c.isDigit = true) : digitsValue ds < 10 ^ ds.length := by
  induction ds with
  | nil => decide
  | cons c ds ih =>
    obtain ⟨hc, hds⟩ := List.forall_mem_cons.1 h
    have hrange := toNat_of_isDigit hc
    have hrest := ih hds
    have hfirst : 10 ^ ds.length * (c.toNat - 48) ≤ 10 ^ ds.length * 9 :=
      Nat.mul_le_mul_left _ (by omega)
    rw [digitsValue_cons, List.length_cons, pow_succ]
    omega

lemma pow_length_le (h : ∀ c ∈ ds, c.isDigit = true) (hne : ds ≠ [])
    (hhead : ∀ c ∈ ds.head?, c ≠ '0') : 10 ^ ds.length ≤ 10 * digitsValue ds := by
  obtain ⟨c, rest, rfl⟩ := List.exists_cons_of_ne_nil hne
  have hc := toNat_of_ne_zero (h c List.mem_cons_self) (hhead c rfl)
  have hfirst : 10 ^ rest.length * 1 ≤ 10 ^ rest.length * (c.toNat - 48) :=
    Nat.mul_le_mul_left _ (by omega)
  rw [digitsValue_cons, List.length_cons, pow_succ]
  omega

lemma not_ten_dvd_digitsValue (h : ∀ c ∈ ds, c.isDigit = true) (hne : ds ≠ [])
    (hlast : ∀ c ∈ ds.getLast?, c ≠ '0') : ¬10 ∣ digitsValue ds := by
  obtain ⟨front, c, rfl⟩ : ∃ front c, ds = front ++ [c] :=
    ⟨_, _, (List.dropLast_append_getLast hne).symm⟩
  have hc := toNat_of_ne_zero (h c (by simp)) (hlast c (by simp))
  rw [digitsValue_concat]
  omega

/-- Without a zero at an end, digits are as few as they can be. -/
lemma length_le_of_value_eq (h : ∀ c ∈ ds, c.isDigit = true) (hhead : ∀ c ∈ ds.head?, c ≠ '0')
    (hlast : ∀ c ∈ ds.getLast?, c ≠ '0') {n k : ℕ} {i e : ℤ} (hn : n < 10 ^ k)
    (heq : (n : ℚ) * 10 ^ i = digitsValue ds * 10 ^ e) : ds.length ≤ k := by
  by_contra hlt
  have hne : ds ≠ [] := by
    rintro rfl
    exact hlt (Nat.zero_le k)
  have hless : n < digitsValue ds := by
    have hbound := pow_length_le h hne hhead
    have hpow : 10 ^ (k + 1) ≤ 10 ^ ds.length := Nat.pow_le_pow_right (by decide) (not_le.1 hlt)
    rw [pow_succ] at hpow
    omega
  rcases le_or_gt i e with hie | hei
  · have hpow : (10 : ℚ) ^ i ≤ 10 ^ e := zpow_le_zpow_right₀ (by norm_num) hie
    have hle : (digitsValue ds : ℚ) * 10 ^ i ≤ n * 10 ^ i := by
      rw [heq]
      exact mul_le_mul_of_nonneg_left hpow (Nat.cast_nonneg _)
    have hge := le_of_mul_le_mul_right hle (by positivity)
    exact absurd hless (not_lt.2 (by exact_mod_cast hge))
  · -- a greater exponent leaves a zero at the end
    obtain ⟨j, rfl⟩ : ∃ j : ℕ, i = (j + 1 : ℕ) + e := ⟨(i - e - 1).toNat, by omega⟩
    rw [zpow_add₀ (by norm_num), zpow_natCast, ← mul_assoc] at heq
    have hcancel := mul_right_cancel₀ (by positivity) heq
    have hvalue : n * 10 ^ (j + 1) = digitsValue ds := by exact_mod_cast hcancel
    refine not_ten_dvd_digitsValue h hne hlast ⟨n * 10 ^ j, ?_⟩
    rw [← hvalue, pow_succ]
    ring

/-! ### The digits that are significant -/

/-- The digits from the first to the last that is not zero. -/
def significant (ds : List Char) : List Char := Text.trim (· == '0') ds

lemma ends_significant (ds : List Char) :
    (∀ c ∈ (significant ds).head?, c ≠ '0') ∧ ∀ c ∈ (significant ds).getLast?, c ≠ '0' := by
  obtain ⟨hhead, hlast⟩ := Text.trim_eq_self_iff.1 (Text.trim_trim (· == '0') ds)
  exact ⟨fun c hc => by simpa using hhead c hc, fun c hc => by simpa using hlast c hc⟩

lemma exists_eq_significant (ds : List Char) :
    ∃ j k, ds = List.replicate j '0' ++ (significant ds ++ List.replicate k '0') := by
  obtain ⟨front, back, h, hfront, hback⟩ := Text.exists_eq_append_trim (· == '0') ds
  have hzeros : ∀ {cs : List Char}, (∀ c ∈ cs, (c == '0') = true) →
      cs = List.replicate cs.length '0' := fun hcs =>
    List.eq_replicate_length.2 fun c hc => beq_iff_eq.1 (hcs c hc)
  refine ⟨front.length, back.length, ?_⟩
  rw [← hzeros hfront, ← hzeros hback]
  exact h

/-- There are at most `k` of them if and only if a whole number below the `k`-th power of ten has
this value, moved by a power of ten. -/
lemma length_significant_le_iff (h : ∀ c ∈ ds, c.isDigit = true) {k : ℕ} {e : ℤ} :
    (significant ds).length ≤ k ↔
      ∃ (n : ℕ) (i : ℤ), n < 10 ^ k ∧ (n : ℚ) * 10 ^ i = digitsValue ds * 10 ^ e := by
  obtain ⟨front, back, hds⟩ := exists_eq_significant ds
  obtain ⟨hhead, hlast⟩ := ends_significant ds
  have hdigits : ∀ c ∈ significant ds, c.isDigit = true := fun c hc => by
    refine h c ?_
    rw [hds]
    exact List.mem_append_right _ (List.mem_append_left _ hc)
  have hvalue : (digitsValue ds : ℚ) * 10 ^ e =
      digitsValue (significant ds) * 10 ^ (back + e) := by
    have hnat : digitsValue ds = 10 ^ back * digitsValue (significant ds) := by
      conv_lhs => rw [hds]
      rw [digitsValue_zeros_append, digitsValue_append_zeros]
    rw [hnat, zpow_add₀ (by norm_num), zpow_natCast]
    push_cast
    ring
  rw [hvalue]
  constructor
  · intro hle
    exact ⟨_, _, (digitsValue_lt hdigits).trans_le (Nat.pow_le_pow_right (by decide) hle), rfl⟩
  · rintro ⟨n, i, hn, heq⟩
    exact length_le_of_value_eq hdigits hhead hlast hn heq

namespace Spelling

lemma isDigit_of_mem_mantissa (m : Mantissa) :
    ∀ c ∈ m.wholeDigits ++ m.placeDigits, c.isDigit = true := by
  cases m with
  | whole ds | pointed ds =>
    rw [Mantissa.wholeDigits, Mantissa.placeDigits, List.append_nil]
    exact ds.isDigit
  | split ds places => exact List.forall_mem_append.2 ⟨ds.isDigit, places.isDigit⟩
  | fraction places => exact places.isDigit

def significantDigits (s : Spelling) : List Char :=
  significant (s.mantissa.wholeDigits ++ s.mantissa.placeDigits)

/-- **How many digits of a decimal are significant depends on its value alone.** -/
theorem length_significantDigits_le_iff (s : Spelling) {k : ℕ} :
    s.significantDigits.length ≤ k ↔
      ∃ (n : ℕ) (i : ℤ), n < 10 ^ k ∧ (n : ℚ) * 10 ^ i = |s.value| := by
  rw [s.abs_value]
  exact length_significant_le_iff (isDigit_of_mem_mantissa s.mantissa)

end Spelling

end Numeral

end StackLine
