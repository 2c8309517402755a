import StackLine.Instruction
import StackLine.Proofs.ReadBack
import StackLine.Proofs.Scanner

/-!
What is written reads back.

Both ways of writing a decimal are read as a decimal of the same value, so every number is read
from its text, and every instruction from its token.
-/

namespace StackLine

/-! ### Digits -/

lemma digitsValue_toDigits (n : ℕ) : Numeral.digitsValue (Nat.toDigits 10 n) = n :=
  Nat.ofDigitChars_ten_toDigits

lemma digitsValue_zeros_append (k : ℕ) (ds : List Char) :
    Numeral.digitsValue (List.replicate k '0' ++ ds) = Numeral.digitsValue ds := by
  simp [Numeral.digitsValue, Nat.ofDigitChars_append]

lemma digitsValue_append_zeros (ds : List Char) (k : ℕ) :
    Numeral.digitsValue (ds ++ List.replicate k '0') = 10 ^ k * Numeral.digitsValue ds := by
  simp [Numeral.digitsValue, Nat.ofDigitChars_append]

lemma isDigit_of_mem_zeros_append (k : ℕ) {ds : List Char} (h : ∀ c ∈ ds, c.isDigit = true) :
    ∀ c ∈ List.replicate k '0' ++ ds, c.isDigit = true := by
  intro c hc
  rcases List.mem_append.1 hc with hc | hc
  · rw [List.eq_of_mem_replicate hc]
    decide
  · exact h c hc

namespace Decimal

lemma isDigit_of_mem_digits (d : Decimal) : ∀ c ∈ d.digits, c.isDigit = true :=
  fun _ => Nat.isDigit_of_mem_toDigits (by decide) (by decide)

/-! ### Positional -/

lemma exists_withPoint_eq {ds : List Char} (hds : ∀ c ∈ ds, c.isDigit = true) (places : ℕ) :
    ∃ whole rest, withPoint ds places = whole ++ '.' :: rest ∧ whole ≠ [] ∧
      rest.length = places ∧ (∀ c ∈ whole, c.isDigit = true) ∧ (∀ c ∈ rest, c.isDigit = true) ∧
        Numeral.digitsValue (whole ++ rest) = Numeral.digitsValue ds := by
  have hpadded := isDigit_of_mem_zeros_append (places + 1 - ds.length) hds
  have hvalue := digitsValue_zeros_append (places + 1 - ds.length) ds
  have hlength : places < (List.replicate (places + 1 - ds.length) '0' ++ ds).length := by
    rw [List.length_append, List.length_replicate]
    omega
  unfold withPoint
  generalize List.replicate (places + 1 - ds.length) '0' ++ ds = padded at *
  dsimp only
  obtain ⟨n, hn⟩ : ∃ n, padded.length - places = n := ⟨_, rfl⟩
  rw [hn]
  refine ⟨_, _, rfl, ?_, ?_, fun c hc => hpadded c (List.mem_of_mem_take hc),
    fun c hc => hpadded c (List.mem_of_mem_drop hc), ?_⟩
  · rw [← List.length_pos_iff, List.length_take]
    omega
  · rw [List.length_drop, ← hn, Nat.sub_sub_self hlength.le]
  · rw [List.take_append_drop, hvalue]

lemma decimal?_withPoint (negative : Bool) {ds : List Char} (hds : ∀ c ∈ ds, c.isDigit = true)
    (places : ℕ) :
      Numeral.decimal? negative (withPoint ds places) =
        some (.decimal negative (Numeral.digitsValue ds) (-(places : ℤ))) := by
  obtain ⟨whole, rest, hcat, hne, hlength, hwhole, hrest, hvalue⟩ := exists_withPoint_eq hds places
  have hmantissa := Numeral.takeMantissa?_of_point [] hwhole (.inl hne) hrest
    fun c hc => by cases hc
  rw [List.append_nil] at hmantissa
  rw [hcat, Numeral.decimal?_of_parts hmantissa rfl, hvalue, hlength, zero_sub]

lemma decimal?_positional (negative : Bool) (d : Decimal) :
    ∃ c e, Numeral.decimal? negative d.positional = some (.decimal negative c e) ∧
      (c : ℚ) * 10 ^ e = d.value := by
  unfold positional
  split
  · next k hk =>
    refine ⟨_, _, decimal?_withPoint negative ?_ 1, ?_⟩
    · intro c hc
      rcases List.mem_append.1 hc with hc | hc
      · exact d.isDigit_of_mem_digits c hc
      · rw [List.eq_of_mem_replicate hc]
        decide
    · rw [digitsValue_append_zeros, digits, digitsValue_toDigits, value, hk]
      push_cast
      rw [Int.ofNat_eq_natCast, zpow_natCast, pow_succ]
      field_simp
  · next k hk =>
    refine ⟨_, _, decimal?_withPoint negative d.isDigit_of_mem_digits (k + 1), ?_⟩
    rw [digits, digitsValue_toDigits, value, hk, Int.negSucc_eq, Nat.cast_succ]

/-! ### With an exponent -/

lemma exponent?_signedExponent (width : ℕ) (e : ℤ) :
    Numeral.exponent? ('e' :: signedExponent width e) = some e := by
  have hunpadded : ∀ c ∈ Nat.toDigits 10 e.natAbs, c.isDigit = true :=
    fun _ => Nat.isDigit_of_mem_toDigits (by decide) (by decide)
  have hdigits := isDigit_of_mem_zeros_append (width - (Nat.toDigits 10 e.natAbs).length) hunpadded
  have hne := List.append_ne_nil_of_right_ne_nil
    (List.replicate (width - (Nat.toDigits 10 e.natAbs).length) '0')
    (Nat.toDigits_ne_nil (n := e.natAbs) (b := 10))
  have hread := Numeral.exponent?_of_digits (decide (e < 0)) hne hdigits
  rw [Numeral.signedValue, digitsValue_zeros_append, digitsValue_toDigits] at hread
  simp only [decide_eq_true_eq] at hread
  refine hread.trans (congrArg some ?_)
  split <;> omega

lemma decimal?_scientific (negative : Bool) (width : ℕ) (d : Decimal) :
    Numeral.decimal? negative (d.scientific width) =
      some (.decimal negative d.coefficient d.exponent) := by
  have hdigits := d.isDigit_of_mem_digits
  have hvalue : Numeral.digitsValue d.digits = d.coefficient := digitsValue_toDigits _
  have hexponent := exponent?_signedExponent width d.leadingExponent
  have hlead : d.leadingExponent = d.exponent + d.digits.length - 1 := rfl
  unfold scientific
  generalize d.leadingExponent = lead at *
  have hmark : ∀ c ∈ ('e' :: signedExponent width lead).head?, c.isDigit = false ∧ c ≠ '.' := by
    intro c hc
    cases hc
    decide
  rcases hd : d.digits with _ | ⟨first, _ | ⟨second, rest⟩⟩ <;> rw [hd] at hdigits hvalue hlead
  · exact absurd hd Nat.toDigits_ne_nil
  · have hmantissa := Numeral.takeMantissa?_of_whole _ hdigits (List.cons_ne_nil _ _) hmark
    rw [Numeral.decimal?_of_parts hmantissa hexponent, List.append_nil, hvalue, hlead]
    simp
  · rw [List.forall_mem_cons] at hdigits
    have hmantissa := Numeral.takeMantissa?_of_point _ (List.forall_mem_singleton.2 hdigits.1)
      (.inl (List.cons_ne_nil _ _)) hdigits.2 fun c hc => (hmark c hc).1
    refine (Numeral.decimal?_of_parts hmantissa hexponent).trans ?_
    rw [List.singleton_append, hvalue, hlead, List.length_cons, Nat.cast_succ,
      add_sub_assoc, add_sub_cancel_right, add_sub_cancel_right]

lemma decimal?_write (negative : Bool) (layout : Layout) (d : Decimal) :
    ∃ c e, Numeral.decimal? negative (d.write layout) = some (.decimal negative c e) ∧
      (c : ℚ) * 10 ^ e = d.value := by
  unfold write
  split
  · exact decimal?_positional negative d
  · exact ⟨_, _, decimal?_scientific negative _ d, rfl⟩

end Decimal

namespace Binary64

/-- **A number is read from its text**, the sign of zero included. -/
theorem parse?_text (x : Binary64) : parse? x.text = some x := by
  cases x with
  | nan => decide
  | infinite negative => cases negative <;> decide
  | finite negative m =>
    obtain ⟨c, e, hread, hvalue⟩ := m.shortest.decimal?_write negative .plain
    unfold parse? text
    dsimp only
    rw [String.toList_ofList, Numeral.ofChars?_of_decimal? hread, Option.map_some,
      Numeral.toBinary64, ofDecimal_of_eq_shortest hvalue]

lemma ofText_text (x : Binary64) : ofText x.text = x := by
  rw [ofText, parse?_text, Option.getD_some]

/-- What is read as a number is a numeral. -/
lemma isMark_of_parse? {t : String} {x : Binary64} (h : parse? t = some x) :
    ∀ c ∈ t.toList, Numeral.isMark c = true := by
  obtain ⟨n, hn, -⟩ := Option.map_eq_some_iff.1 h
  exact Numeral.forall_ofChars? hn

end Binary64

/-- No word denotes a number. -/
lemma Word.parse?_token (w : Word) : Binary64.parse? w.token = none := by
  cases w <;> decide

lemma Word.ofToken?_of_parse? {t : String} {x : Binary64} (h : Binary64.parse? t = some x) :
    ofToken? t = none := by
  rcases hw : ofToken? t with _ | w
  · rfl
  · rw [← token_of_ofToken? hw, w.parse?_token] at h
    cases h

namespace Instruction

lemma ofToken_word (w : Word) : ofToken w.token = .operator w none := by
  rw [ofToken, Word.ofToken?_token]

/-- **An instruction is decoded from its token**; what an operator carries is not written. -/
theorem ofToken_token (i : Instruction) : ofToken i.token =
    match i with
    | operator w _ => operator w none
    | literal x => literal x := by
  cases i with
  | operator w carried => exact ofToken_word w
  | literal x => rw [token, ofToken, Word.ofToken?_of_parse? x.parse?_text, Binary64.ofText_text]

end Instruction

end StackLine
