import Mathlib.Data.List.TakeWhile
import StackLine.Numeral.Basic

/-!
What the reading of numerals takes, and what it takes apart.

The parts that a mantissa is taken apart into are its digits and what follows them, and putting
digits and a point together gives a mantissa with these parts. A text that denotes a number
consists of letters, digits, points and signs.
-/

namespace StackLine

/-! ### Characters -/

lemma ne_of_isDigit {c d : Char} (hc : c.isDigit = true) (hd : d.isDigit = false) : c ≠ d := by
  rintro rfl
  rw [hc] at hd
  cases hd

lemma isUpper_iff_toNat {c : Char} : c.isUpper = true ↔ 65 ≤ c.toNat ∧ c.toNat ≤ 90 :=
  decide_eq_true_iff.trans (and_congr UInt32.le_iff_toNat_le UInt32.le_iff_toNat_le)

lemma isLower_iff_toNat {c : Char} : c.isLower = true ↔ 97 ≤ c.toNat ∧ c.toNat ≤ 122 := by
  unfold Char.isLower
  rw [Bool.and_eq_true, decide_eq_true_iff, decide_eq_true_iff]
  exact and_congr UInt32.le_iff_toNat_le UInt32.le_iff_toNat_le

lemma isUpper_of_isDigit {c : Char} (h : c.isDigit = true) : c.isUpper = false := by
  have hdigit : 48 ≤ c.toNat ∧ c.toNat ≤ 57 := Char.isDigit_iff_toNat.1 h
  refine Bool.eq_false_iff.2 fun hupper => ?_
  have hletter := isUpper_iff_toNat.1 hupper
  omega

lemma toLower_eq_self {c : Char} (h : c.isUpper = false) : c.toLower = c := by
  unfold Char.isUpper at h
  exact dif_neg (of_decide_eq_false h)

lemma isAlpha_of_isLower_toLower {c : Char} (h : c.toLower.isLower = true) :
    c.isAlpha = true := by
  change (c.isUpper || c.isLower) = true
  rcases hc : c.isUpper with _ | _
  · rwa [toLower_eq_self hc] at h
  · rfl

namespace Numeral

/-- A letter, a digit, a point or a sign. -/
def isMark (c : Char) : Bool := c.isAlphanum || c == '.' || c == '+' || c == '-'

lemma isMark_of_isDigit {c : Char} (h : c.isDigit = true) : isMark c = true := by
  simp [isMark, Char.isAlphanum, h]

/-! ### The parts of a mantissa -/

section

variable {whole places cs : List Char}

lemma takeMantissa?_of_point (rest : List Char) (hwhole : ∀ c ∈ whole, c.isDigit = true)
    (hne : whole ≠ [] ∨ places ≠ []) (hplaces : ∀ c ∈ places, c.isDigit = true)
    (hrest : ∀ c ∈ rest.head?, c.isDigit = false) :
      takeMantissa? (whole ++ '.' :: (places ++ rest)) = some (whole, places, rest) := by
  have hstop : rest.takeWhile Char.isDigit = [] ∧ rest.dropWhile Char.isDigit = rest := by
    cases rest with
    | nil => exact ⟨rfl, rfl⟩
    | cons c rest =>
      have hc := hrest c rfl
      simp [hc]
  have hpoint : Char.isDigit '.' = false := by decide
  simp [takeMantissa?, List.takeWhile_append_of_pos hwhole, List.dropWhile_append_of_pos hwhole,
    List.takeWhile_append_of_pos hplaces, List.dropWhile_append_of_pos hplaces, hpoint, hstop,
    imp_iff_not_or, hne]

lemma takeMantissa?_of_whole (rest : List Char) (hwhole : ∀ c ∈ whole, c.isDigit = true)
    (hne : whole ≠ []) (hrest : ∀ c ∈ rest.head?, c.isDigit = false ∧ c ≠ '.') :
      takeMantissa? (whole ++ rest) = some (whole, [], rest) := by
  rw [takeMantissa?, List.takeWhile_append_of_pos hwhole, List.dropWhile_append_of_pos hwhole]
  cases rest with
  | nil => simp [hne]
  | cons c rest =>
    obtain ⟨hc, hpoint⟩ := hrest c rfl
    simp [hc, hpoint, hne]

/-- A mantissa is taken apart into digits before its point, if it has one, and digits after it,
one at least. -/
lemma eq_of_takeMantissa? {rest : List Char} (h : takeMantissa? cs = some (whole, places, rest)) :
    (∀ c ∈ whole, c.isDigit = true) ∧ (∀ c ∈ places, c.isDigit = true) ∧
      (whole ≠ [] ∧ places = [] ∧ cs = whole ++ rest ∨
        (whole ≠ [] ∨ places ≠ []) ∧ cs = whole ++ '.' :: (places ++ rest)) := by
  have hsplit := List.takeWhile_append_dropWhile (p := Char.isDigit) (l := cs)
  unfold takeMantissa? at h
  dsimp only at h
  split at h
  case h_1 after hafter =>
    split at h
    case isTrue => cases h
    case isFalse hne =>
      have hafterSplit := List.takeWhile_append_dropWhile (p := Char.isDigit) (l := after)
      simp only [Option.some.injEq, Prod.mk.injEq] at h
      obtain ⟨rfl, rfl, rfl⟩ := h
      refine ⟨fun c => List.mem_takeWhile_imp, fun c => List.mem_takeWhile_imp, .inr ⟨?_, ?_⟩⟩
      · rwa [Bool.and_eq_true, List.isEmpty_iff, List.isEmpty_iff, not_and_or] at hne
      · rw [hafterSplit, ← hafter, hsplit]
  case h_2 =>
    split at h
    case isTrue => cases h
    case isFalse hne =>
      simp only [Option.some.injEq, Prod.mk.injEq] at h
      obtain ⟨rfl, rfl, rfl⟩ := h
      rw [List.isEmpty_iff] at hne
      exact ⟨fun c => List.mem_takeWhile_imp, by simp, .inl ⟨hne, rfl, hsplit.symm⟩⟩

end

/-! ### The parts of a numeral -/

section

variable {cs : List Char} {negative : Bool} {n : Numeral}

lemma takeSign_of_ne {c : Char} (hminus : c ≠ '-') (hplus : c ≠ '+') (cs : List Char) :
    takeSign (c :: cs) = (false, c :: cs) := by
  unfold takeSign
  split
  · next h =>
    cases h
    exact absurd rfl hminus
  · next h =>
    cases h
    exact absurd rfl hplus
  · rfl

lemma forall_takeSign (h : ∀ c ∈ (takeSign cs).2, isMark c = true) :
    ∀ c ∈ cs, isMark c = true := by
  unfold takeSign at h
  split at h
  · exact List.forall_mem_cons.2 ⟨by decide, h⟩
  · exact List.forall_mem_cons.2 ⟨by decide, h⟩
  · exact h

lemma forall_exponent? {e : Int} (h : exponent? cs = some e) : ∀ c ∈ cs, isMark c = true := by
  cases cs with
  | nil => simp
  | cons mark rest =>
    rw [exponent?] at h
    split at h
    · next hmark =>
      dsimp only at h
      split at h
      · next hdigits =>
        rw [Bool.and_eq_true, List.all_eq_true] at hdigits
        refine List.forall_mem_cons.2 ⟨?_, forall_takeSign fun c hc => ?_⟩
        · rcases hmark with rfl | rfl <;> decide
        · exact isMark_of_isDigit (hdigits.2 c hc)
      · cases h
    · cases h

lemma exponent?_of_digits (negative : Bool) {ds : List Char} (hne : ds ≠ [])
    (hds : ∀ c ∈ ds, c.isDigit = true) :
      exponent? ('e' :: (if negative then '-' else '+') :: ds) =
        some (signedValue negative ds) := by
  have hall : (!ds.isEmpty && ds.all Char.isDigit) = true := by
    rw [Bool.and_eq_true, List.all_eq_true]
    exact ⟨by simpa using hne, hds⟩
  cases negative <;> exact if_pos hall

lemma decimal?_of_parts {whole places rest : List Char} {e : Int}
    (hmantissa : takeMantissa? cs = some (whole, places, rest)) (he : exponent? rest = some e) :
    decimal? negative cs =
      some (.decimal negative (digitsValue (whole ++ places)) (e - places.length)) := by
  rw [decimal?, hmantissa]
  dsimp only
  rw [he, Option.map_some]

lemma forall_decimal? (h : decimal? negative cs = some n) : ∀ c ∈ cs, isMark c = true := by
  unfold decimal? at h
  split at h
  · cases h
  · next whole places rest hm =>
    obtain ⟨e, he, -⟩ := Option.map_eq_some_iff.1 h
    obtain ⟨hwhole, hplaces, hcs⟩ := eq_of_takeMantissa? hm
    have hwholeMark := fun c hc => isMark_of_isDigit (hwhole c hc)
    have hrest := forall_exponent? he
    rcases hcs with ⟨-, -, rfl⟩ | ⟨-, rfl⟩
    · exact List.forall_mem_append.2 ⟨hwholeMark, hrest⟩
    · have hplacesMark := fun c hc => isMark_of_isDigit (hplaces c hc)
      exact List.forall_mem_append.2 ⟨hwholeMark, List.forall_mem_cons.2
        ⟨by decide, List.forall_mem_append.2 ⟨hplacesMark, hrest⟩⟩⟩

lemma isLower_of_special? (h : special? negative cs = some n) :
    ∀ c ∈ cs.map Char.toLower, c.isLower = true := by
  unfold special? at h
  dsimp only at h
  split at h
  · next hinf =>
    rcases hinf with hinf | hinf <;> rw [hinf] <;> exact List.all_eq_true.1 (by decide)
  · split at h
    · next hnan =>
      rw [hnan]
      exact List.all_eq_true.1 (by decide)
    · cases h

lemma forall_special? (h : special? negative cs = some n) : ∀ c ∈ cs, isMark c = true := by
  intro c hc
  have halpha := isAlpha_of_isLower_toLower (isLower_of_special? h _ (List.mem_map_of_mem hc))
  simp [isMark, Char.isAlphanum, halpha]

/-- **A numeral consists of letters, digits, points and signs.** -/
theorem forall_ofChars? (h : ofChars? cs = some n) : ∀ c ∈ cs, isMark c = true := by
  refine forall_takeSign ?_
  unfold ofChars? at h
  dsimp only at h
  split at h
  · next hs => exact forall_special? hs
  · exact forall_decimal? h

/-- What starts with neither a digit nor a point has no mantissa. -/
lemma isDigit_of_decimal? {c : Char} (h : decimal? negative (c :: cs) = some n) :
    c.isDigit = true ∨ c = '.' := by
  by_contra hc
  rw [not_or, Bool.not_eq_true] at hc
  simp [decimal?, takeMantissa?, hc] at h

/-- A decimal without a sign neither starts with one nor is one of the special numerals. -/
lemma unsigned_of_decimal? (h : decimal? negative cs = some n) :
    takeSign cs = (false, cs) ∧ special? negative cs = none := by
  cases cs with
  | nil => cases h
  | cons c cs =>
    have hstart : c ≠ '-' ∧ c ≠ '+' ∧ c.toLower ≠ 'i' ∧ c.toLower ≠ 'n' := by
      rcases isDigit_of_decimal? h with hc | rfl
      · have hlower : c.toLower.isDigit = true := by
          rwa [toLower_eq_self (isUpper_of_isDigit hc)]
        refine ⟨?_, ?_, ?_, ?_⟩ <;> exact ne_of_isDigit (by assumption) (by decide)
      · decide
    obtain ⟨hminus, hplus, hi, hn⟩ := hstart
    exact ⟨takeSign_of_ne hminus hplus cs, by simp [special?, hi, hn]⟩

/-- A decimal with its sign before it is read as a decimal with that sign. -/
lemma ofChars?_of_decimal? (h : decimal? negative cs = some n) :
    ofChars? (if negative then '-' :: cs else cs) = some n := by
  obtain ⟨hunsigned, hspecial⟩ := unsigned_of_decimal? h
  have hsign : takeSign (if negative then '-' :: cs else cs) = (negative, cs) := by
    cases negative with
    | true => rfl
    | false => exact hunsigned
  rw [ofChars?, hsign]
  dsimp only
  rw [hspecial, h]

end

end Numeral

end StackLine
