import Mathlib.Algebra.Order.AbsoluteValue.Basic
import Mathlib.Algebra.Order.Field.Power
import Mathlib.Algebra.Order.Field.Rat
import Mathlib.Tactic.NormNum
import Mathlib.Tactic.Positivity
import StackLine.Proofs.Scanner

/-!
The grammar of numerals.

A decimal is a sign or none, a mantissa, and an exponent or none; a special numeral is a sign or
none and one of three words in any case. A text is read as a numeral exactly if the grammar has it,
and a decimal is read as the rational that its digits, point and exponent write.
-/

namespace StackLine

namespace Numeral

/-! ### Decimals as they are written -/

/-- Digits in a row, one at least. -/
structure Digits where
  chars : List Char
  ne_nil : chars ≠ []
  isDigit : ∀ c ∈ chars, c.isDigit = true

def Digits.value (ds : Digits) : ℕ := Nat.ofDigitChars 10 ds.chars 0

inductive Sign
  | absent
  | plus
  | minus
  deriving DecidableEq

namespace Sign

def chars : Sign → List Char
  | absent => []
  | plus => ['+']
  | minus => ['-']

def isNegative : Sign → Bool
  | minus => true
  | absent | plus => false

end Sign

/-- Digits without a point, with one at their end, inside them, and before them: `12`, `12.`, `1.2`
and `.12`. -/
inductive Mantissa
  | whole (ds : Digits)
  | pointed (ds : Digits)
  | split (ds places : Digits)
  | fraction (places : Digits)

namespace Mantissa

def chars : Mantissa → List Char
  | whole ds => ds.chars
  | pointed ds => ds.chars ++ ['.']
  | split ds places => ds.chars ++ '.' :: places.chars
  | fraction places => '.' :: places.chars

def value : Mantissa → ℚ
  | whole ds | pointed ds => ds.value
  | split ds places => ds.value + places.value / 10 ^ places.chars.length
  | fraction places => places.value / 10 ^ places.chars.length

/-- The digits before the point. -/
def wholeDigits : Mantissa → List Char
  | whole ds | pointed ds | split ds _ => ds.chars
  | fraction _ => []

/-- The digits after the point. -/
def placeDigits : Mantissa → List Char
  | whole _ | pointed _ => []
  | split _ places | fraction places => places.chars

end Mantissa

structure Exponent where
  mark : Char
  isMark : mark = 'e' ∨ mark = 'E'
  sign : Sign
  digits : Digits

namespace Exponent

def chars (e : Exponent) : List Char := e.mark :: (e.sign.chars ++ e.digits.chars)

def value (e : Exponent) : ℤ :=
  if e.sign.isNegative then -(e.digits.value : ℤ) else e.digits.value

end Exponent

/-- A decimal as it is written. -/
structure Spelling where
  sign : Sign
  mantissa : Mantissa
  exponent : Option Exponent

namespace Spelling

variable (s : Spelling)

def exponentChars : List Char := s.exponent.elim [] Exponent.chars

def exponentValue : ℤ := s.exponent.elim 0 Exponent.value

def chars : List Char := s.sign.chars ++ (s.mantissa.chars ++ s.exponentChars)

def text : String := String.ofList s.chars

/-- The rational that is written. -/
def value : ℚ :=
  (if s.sign.isNegative then -1 else 1) * (s.mantissa.value * 10 ^ s.exponentValue)

/-- The numeral: all digits make up the coefficient, and those after the point are taken off the
exponent. -/
def numeral : Numeral :=
  .decimal s.sign.isNegative (digitsValue (s.mantissa.wholeDigits ++ s.mantissa.placeDigits))
    (s.exponentValue - s.mantissa.placeDigits.length)

end Spelling

/-- Each letter of the word is there, as it is or as a capital. -/
def InAnyCase (word cs : List Char) : Prop := List.Forall₂ (fun l c => c = l ∨ c = l.toUpper) word cs

/-- **The grammar**: which texts denote a numeral, and which one. -/
inductive Denotes : List Char → Numeral → Prop
  | decimal (s : Spelling) : Denotes s.chars s.numeral
  | infinite (sign : Sign) {cs : List Char}
      (h : InAnyCase "inf".toList cs ∨ InAnyCase "infinity".toList cs) :
      Denotes (sign.chars ++ cs) (.infinite sign.isNegative)
  | nan (sign : Sign) {cs : List Char} (h : InAnyCase "nan".toList cs) :
      Denotes (sign.chars ++ cs) .nan

/-! ### The value of a decimal -/

lemma digitsValue_append (xs ys : List Char) :
    digitsValue (xs ++ ys) = 10 ^ ys.length * digitsValue xs + digitsValue ys := by
  rw [digitsValue, Nat.ofDigitChars_append, Nat.ofDigitChars_eq_ofDigitChars_zero]
  rfl

lemma Mantissa.value_eq (m : Mantissa) :
    m.value = digitsValue (m.wholeDigits ++ m.placeDigits) * 10 ^ (-(m.placeDigits.length : ℤ)) := by
  rw [zpow_neg, zpow_natCast, ← div_eq_mul_inv]
  cases m with
  | whole ds | pointed ds => simp [value, wholeDigits, placeDigits, Digits.value, digitsValue]
  | fraction places => simp [value, wholeDigits, placeDigits, Digits.value, digitsValue]
  | split ds places =>
    have hpow : (10 : ℚ) ^ places.chars.length ≠ 0 := by positivity
    rw [wholeDigits, placeDigits, digitsValue_append]
    push_cast
    rw [add_div, mul_div_cancel_left₀ _ hpow]
    rfl

lemma Mantissa.value_nonneg (m : Mantissa) : 0 ≤ m.value := by
  rw [value_eq]
  positivity

/-- The size of a decimal is that of its numeral. -/
lemma Spelling.abs_value (s : Spelling) :
    |s.value| = digitsValue (s.mantissa.wholeDigits ++ s.mantissa.placeDigits) *
      10 ^ (s.exponentValue - s.mantissa.placeDigits.length) := by
  have hsize : 0 ≤ s.mantissa.value * 10 ^ s.exponentValue :=
    mul_nonneg s.mantissa.value_nonneg (by positivity)
  have habs : |s.value| = s.mantissa.value * 10 ^ s.exponentValue := by
    unfold value
    split <;> simp [abs_of_nonneg hsize]
  rw [habs, Mantissa.value_eq, sub_eq_neg_add, zpow_add₀ (by norm_num), mul_assoc]

/-! ### Letters in any case -/

lemma toNat_toLower {c : Char} (h : c.isUpper = true) : c.toLower.toNat = c.toNat + 32 := by
  have hc := isUpper_iff_toNat.1 h
  unfold Char.toLower
  rw [dif_pos (of_decide_eq_true h)]
  change (c.val + 32).toNat = c.toNat + 32
  rw [UInt32.toNat_add]
  change (c.toNat + 32) % 2 ^ 32 = c.toNat + 32
  omega

lemma toNat_toUpper {c : Char} (h : c.isLower = true) : c.toUpper.toNat + 32 = c.toNat := by
  have hc := isLower_iff_toNat.1 h
  unfold Char.isLower at h
  rw [Bool.and_eq_true, decide_eq_true_iff, decide_eq_true_iff] at h
  unfold Char.toUpper
  rw [dif_pos h]
  -- thirty-two less, in arithmetic modulo `2 ^ 32`
  change (c.val + 4294967264).toNat + 32 = c.toNat
  rw [UInt32.toNat_add]
  change (c.toNat + 4294967264) % 2 ^ 32 + 32 = c.toNat
  omega

lemma toLower_eq_iff {c l : Char} (hl : l.isLower = true) :
    c.toLower = l ↔ c = l ∨ c = l.toUpper := by
  have hupper := toNat_toUpper hl
  rw [isLower_iff_toNat] at hl
  rw [← Char.toNat_inj, ← Char.toNat_inj, ← Char.toNat_inj]
  rcases hc : c.isUpper with _ | _
  · have hrange := mt isUpper_iff_toNat.2 (Bool.eq_false_iff.1 hc)
    rw [toLower_eq_self hc]
    omega
  · have hrange := isUpper_iff_toNat.1 hc
    rw [toNat_toLower hc]
    omega

lemma map_toLower_eq_iff {word cs : List Char} (h : ∀ l ∈ word, l.isLower = true) :
    cs.map Char.toLower = word ↔ InAnyCase word cs := by
  induction word generalizing cs with
  | nil => simp [InAnyCase]
  | cons l word ih =>
    obtain ⟨hl, hword⟩ := List.forall_mem_cons.1 h
    cases cs with
    | nil => simp [InAnyCase]
    | cons c cs =>
      rw [List.map_cons, List.cons.injEq, toLower_eq_iff hl, ih hword, InAnyCase, InAnyCase,
        List.forall₂_cons]

lemma special?_eq_some_iff {negative : Bool} {cs : List Char} {n : Numeral} :
    special? negative cs = some n ↔
      (InAnyCase "inf".toList cs ∨ InAnyCase "infinity".toList cs) ∧ n = .infinite negative ∨
        InAnyCase "nan".toList cs ∧ n = .nan := by
  have hinf : "inf".toList ≠ "nan".toList := by decide
  have hinfinity : "infinity".toList ≠ "nan".toList := by decide
  rw [← map_toLower_eq_iff (List.all_eq_true.1 (by decide)),
    ← map_toLower_eq_iff (List.all_eq_true.1 (by decide)),
    ← map_toLower_eq_iff (List.all_eq_true.1 (by decide))]
  unfold special?
  -- only that the words differ matters
  generalize "inf".toList = inf, "infinity".toList = infinity, "nan".toList = nan at *
  grind

/-! ### What is read is in the grammar -/

lemma exists_sign (cs : List Char) :
    ∃ sign : Sign, sign.isNegative = (takeSign cs).1 ∧ cs = sign.chars ++ (takeSign cs).2 := by
  unfold takeSign
  split
  · exact ⟨.minus, rfl, rfl⟩
  · exact ⟨.plus, rfl, rfl⟩
  · exact ⟨.absent, rfl, rfl⟩

lemma exists_mantissa {cs whole places rest : List Char}
    (h : takeMantissa? cs = some (whole, places, rest)) :
    ∃ m : Mantissa, m.wholeDigits = whole ∧ m.placeDigits = places ∧ cs = m.chars ++ rest := by
  obtain ⟨hwhole, hplaces, ⟨hne, rfl, rfl⟩ | ⟨hne, rfl⟩⟩ := eq_of_takeMantissa? h
  · exact ⟨.whole ⟨whole, hne, hwhole⟩, rfl, rfl, rfl⟩
  · rcases eq_or_ne whole [] with rfl | hw
    · exact ⟨.fraction ⟨places, hne.resolve_left (· rfl), hplaces⟩, rfl, rfl, rfl⟩
    · rcases eq_or_ne places [] with rfl | hp
      · exact ⟨.pointed ⟨whole, hw, hwhole⟩, rfl, rfl, by simp [Mantissa.chars]⟩
      · exact ⟨.split ⟨whole, hw, hwhole⟩ ⟨places, hp, hplaces⟩, rfl, rfl,
          by simp [Mantissa.chars]⟩

lemma exists_exponent {cs : List Char} {e : ℤ} (h : exponent? cs = some e) :
    ∃ x : Option Exponent, x.elim [] Exponent.chars = cs ∧ x.elim 0 Exponent.value = e := by
  cases cs with
  | nil => exact ⟨none, rfl, Option.some.inj h⟩
  | cons mark rest =>
    obtain ⟨sign, hnegative, hrest⟩ := exists_sign rest
    rw [exponent?] at h
    split at h
    case isFalse => cases h
    case isTrue hmark =>
      dsimp only at h
      split at h
      case isFalse => cases h
      case isTrue hdigits =>
        rw [Bool.and_eq_true, List.all_eq_true, Bool.not_eq_true', List.isEmpty_eq_false_iff]
          at hdigits
        refine ⟨some ⟨mark, hmark, sign, ⟨_, hdigits.1, hdigits.2⟩⟩, ?_, ?_⟩
        · exact congrArg (mark :: ·) hrest.symm
        · rw [← Option.some.inj h, ← hnegative]
          rfl

lemma exists_spelling {sign : Sign} {cs : List Char} {n : Numeral}
    (h : decimal? sign.isNegative cs = some n) :
    ∃ s : Spelling, s.chars = sign.chars ++ cs ∧ s.numeral = n := by
  unfold decimal? at h
  split at h
  case h_1 => cases h
  case h_2 whole places rest hm =>
    obtain ⟨e, he, rfl⟩ := Option.map_eq_some_iff.1 h
    obtain ⟨m, rfl, rfl, rfl⟩ := exists_mantissa hm
    obtain ⟨x, rfl, rfl⟩ := exists_exponent he
    exact ⟨⟨sign, m, x⟩, rfl, rfl⟩

/-! ### What is in the grammar is read -/

lemma takeSign_chars_append (sign : Sign) {cs : List Char} (h : takeSign cs = (false, cs)) :
    takeSign (sign.chars ++ cs) = (sign.isNegative, cs) := by
  cases sign with
  | absent => exact h
  | plus | minus => rfl

lemma takeSign_of_head {cs : List Char} (h : ∀ c ∈ cs.head?, c ≠ '-' ∧ c ≠ '+') :
    takeSign cs = (false, cs) := by
  cases cs with
  | nil => rfl
  | cons c cs => exact takeSign_of_ne (h c rfl).1 (h c rfl).2 cs

lemma exponent?_chars (e : Exponent) : exponent? e.chars = some e.value := by
  obtain ⟨mark, hmark, sign, ds, hne, hds⟩ := e
  have hhead : ∀ c ∈ ds.head?, c ≠ '-' ∧ c ≠ '+' := fun c hc =>
    have hdigit := hds c (List.mem_of_mem_head? hc)
    ⟨ne_of_isDigit hdigit (by decide), ne_of_isDigit hdigit (by decide)⟩
  have hall : (!ds.isEmpty && ds.all Char.isDigit) = true := by
    rw [Bool.and_eq_true, List.all_eq_true]
    exact ⟨by simpa using hne, hds⟩
  rw [Exponent.chars, exponent?, if_pos hmark, takeSign_chars_append sign (takeSign_of_head hhead)]
  exact if_pos hall

lemma takeMantissa?_chars (m : Mantissa) {rest : List Char}
    (hrest : ∀ c ∈ rest.head?, c.isDigit = false ∧ c ≠ '.') :
    takeMantissa? (m.chars ++ rest) = some (m.wholeDigits, m.placeDigits, rest) := by
  have hdigit : ∀ c ∈ rest.head?, c.isDigit = false := fun c hc => (hrest c hc).1
  cases m with
  | whole ds => exact takeMantissa?_of_whole rest ds.isDigit ds.ne_nil hrest
  | pointed ds =>
    have h : takeMantissa? (ds.chars ++ '.' :: ([] ++ rest)) = some (ds.chars, [], rest) :=
      takeMantissa?_of_point rest ds.isDigit (.inl ds.ne_nil) (by simp) hdigit
    rwa [Mantissa.chars, List.append_assoc]
  | split ds places =>
    have h := takeMantissa?_of_point rest ds.isDigit (.inl ds.ne_nil) places.isDigit hdigit
    rwa [Mantissa.chars, List.append_assoc]
  | fraction places =>
    have h : takeMantissa? ([] ++ '.' :: (places.chars ++ rest)) = some ([], places.chars, rest) :=
      takeMantissa?_of_point rest (by simp) (.inr places.ne_nil) places.isDigit hdigit
    exact h

lemma decimal?_chars (s : Spelling) :
    decimal? s.sign.isNegative (s.mantissa.chars ++ s.exponentChars) = some s.numeral := by
  obtain ⟨sign, m, _ | e⟩ := s
  · have hnone : ∀ c ∈ ([] : List Char).head?, c.isDigit = false ∧ c ≠ '.' := by simp
    exact decimal?_of_parts (takeMantissa?_chars m hnone) rfl
  · have hmark : ∀ c ∈ e.chars.head?, c.isDigit = false ∧ c ≠ '.' := by
      rintro c ⟨⟩
      rcases e.isMark with h | h <;> rw [h] <;> decide
    exact decimal?_of_parts (takeMantissa?_chars m hmark) (exponent?_chars e)

lemma ofChars?_chars (s : Spelling) : ofChars? s.chars = some s.numeral := by
  have hread := decimal?_chars s
  obtain ⟨hunsigned, hspecial⟩ := unsigned_of_decimal? hread
  rw [ofChars?, Spelling.chars, takeSign_chars_append s.sign hunsigned]
  dsimp only
  rw [hspecial, hread]

/-- The sign is there to be seen at the start. -/
lemma Spelling.isNegative_eq (s : Spelling) :
    s.sign.isNegative = decide (s.chars.head? = some '-') := by
  obtain ⟨hunsigned, -⟩ := unsigned_of_decimal? (decimal?_chars s)
  unfold chars
  generalize s.mantissa.chars ++ s.exponentChars = body at *
  cases s.sign with
  | minus | plus => rfl
  | absent =>
    refine (decide_eq_false fun h => ?_).symm
    obtain ⟨rest, rfl⟩ := List.head?_eq_some_iff.1 h
    exact Bool.noConfusion (congrArg Prod.fst hunsigned)

lemma ofChars?_of_special? {sign : Sign} {cs : List Char} {n : Numeral}
    (h : special? sign.isNegative cs = some n) : ofChars? (sign.chars ++ cs) = some n := by
  have hunsigned : takeSign cs = (false, cs) := by
    refine takeSign_of_head fun c hc => ?_
    have hlower := isLower_of_special? h _ (List.mem_map_of_mem (List.mem_of_mem_head? hc))
    constructor <;> rintro rfl <;> exact absurd hlower (by decide)
  rw [ofChars?, takeSign_chars_append sign hunsigned]
  dsimp only
  rw [h]

/-- **The reading of numerals is that of the grammar.** -/
theorem ofChars?_eq_some_iff {cs : List Char} {n : Numeral} :
    ofChars? cs = some n ↔ Denotes cs n := by
  constructor
  · intro h
    obtain ⟨sign, hnegative, hcs⟩ := exists_sign cs
    unfold ofChars? at h
    dsimp only at h
    rw [← hnegative] at h
    rw [hcs]
    split at h
    case h_1 hspecial =>
      cases h
      rcases special?_eq_some_iff.1 hspecial with ⟨hinf, rfl⟩ | ⟨hnan, rfl⟩
      · exact .infinite sign hinf
      · exact .nan sign hnan
    case h_2 =>
      obtain ⟨s, hs, rfl⟩ := exists_spelling h
      rw [← hs]
      exact .decimal s
  · rintro (s | ⟨sign, hinf⟩ | ⟨sign, hnan⟩)
    · exact ofChars?_chars s
    · exact ofChars?_of_special? (special?_eq_some_iff.2 (.inl ⟨hinf, rfl⟩))
    · exact ofChars?_of_special? (special?_eq_some_iff.2 (.inr ⟨hnan, rfl⟩))

end Numeral

end StackLine
