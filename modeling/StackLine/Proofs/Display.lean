import Mathlib.Data.List.DropRight
import StackLine.Proofs.Sequence

/-!
What is shown is source.

A number on display is a token that is read as that number, but for the sign of zero. So the
numbers of a stack are read off its text, one token each, and the text of an output is a line
that leaves this output as its stack.
-/

namespace StackLine

/-! ### Integers -/

lemma decimal?_toDigits (negative : Bool) (n : ℕ) :
    Numeral.decimal? negative (Nat.toDigits 10 n) = some (.decimal negative n 0) := by
  have hdigits : ∀ c ∈ Nat.toDigits 10 n, c.isDigit = true :=
    fun _ => Nat.isDigit_of_mem_toDigits (by decide) (by decide)
  have hmantissa := Numeral.takeMantissa?_of_whole [] hdigits Nat.toDigits_ne_nil (by simp)
  rw [List.append_nil] at hmantissa
  rw [Numeral.decimal?_of_parts hmantissa rfl, List.append_nil, digitsValue_toDigits]
  rfl

/-- The written form of an integer: a sign if it is negative, and its digits. -/
lemma toList_repr (n : ℤ) :
    n.repr.toList = (if n < 0 then ['-'] else []) ++ Nat.toDigits 10 n.natAbs := by
  rcases n with k | k
  · simp [Int.repr, Nat.repr]
  · simp [Int.repr, Nat.repr, Int.negSucc_lt_zero]

/-! ### Numbers on display -/

namespace Binary64

lemma parse?_repr (n : ℤ) : parse? n.repr = some (ofDecimal (decide (n < 0)) n.natAbs 0) := by
  have hread := Numeral.ofChars?_of_decimal? (decimal?_toDigits (decide (n < 0)) n.natAbs)
  have hchars : n.repr.toList =
      if decide (n < 0) = true then '-' :: Nat.toDigits 10 n.natAbs
      else Nat.toDigits 10 n.natAbs := by
    rw [toList_repr]
    by_cases hn : n < 0 <;> simp [hn]
  rw [parse?, hchars, hread]
  rfl

/-- The number without the sign of zero. -/
def unsignZero (x : Binary64) : Binary64 := if x.isZero then .zero else x

lemma unsignZero_of_isZero {x : Binary64} (h : x.isZero = true) : x.unsignZero = .zero :=
  if_pos h

lemma unsignZero_of_not_isZero {x : Binary64} (h : ¬x.isZero = true) : x.unsignZero = x :=
  if_neg h

lemma isZero_finite_iff {negative : Bool} {m : Magnitude} :
    isZero (.finite negative m) = true ↔ m.units = 0 := by
  rw [isZero, beq_iff_eq, m.units_eq_zero_iff]

/-- The integer of a whole number is read as that number. -/
lemma ofDecimal_whole {m : Magnitude} (h : m.units % 2 ^ unitExponent = 0) (negative : Bool) :
    ofDecimal negative m.whole 0 = .finite negative m := by
  have hunits : (m.whole : ℚ) * 10 ^ (0 : ℤ) * 2 ^ unitExponent = m.units := by
    rw [zpow_zero, mul_one]
    exact_mod_cast Nat.div_mul_cancel (Nat.dvd_of_mod_eq_zero h)
  exact ofDecimal_of_rounds (hunits ▸ m.rounds_units) negative

/-- **A number is read from its display**, but for the sign of zero. -/
theorem parse?_display (x : Binary64) : parse? x.display = some x.unsignZero := by
  rcases x with _ | negative | ⟨negative, m⟩
  · decide
  · cases negative <;> decide
  · rw [display_finite]
    by_cases hz : m.units = 0
    · -- the display of zero is that of the integer, which has no sign
      have hwhole : m.whole = 0 := by
        rw [Magnitude.whole, hz, Nat.zero_div]
      have hinteger : (if negative then -((0 : ℕ) : ℤ) else ((0 : ℕ) : ℤ)) = 0 := by simp
      rw [unsignZero_of_isZero (isZero_finite_iff.2 hz), hz, Nat.zero_mod, if_pos rfl, hwhole,
        hinteger, parse?_repr]
      rfl
    rw [unsignZero_of_not_isZero (mt isZero_finite_iff.1 hz)]
    split
    case isTrue hm =>
      have hpos : 0 < m.whole :=
        Nat.div_pos (Nat.le_of_dvd (by omega) (Nat.dvd_of_mod_eq_zero hm)) (Nat.two_pow_pos _)
      have hsign : decide ((if negative then -(m.whole : ℤ) else m.whole) < 0) = negative := by
        cases negative
        · simp
        · simpa using hpos
      rw [parse?_repr, hsign, m.natAbs_ite_whole, ofDecimal_whole hm]
    case isFalse => exact parse?_text _

lemma ofText_display (x : Binary64) : ofText x.display = x.unsignZero := by
  rw [ofText, parse?_display, Option.getD_some]

lemma display_ne_nil (x : Binary64) : x.display.toList ≠ [] := by
  intro h
  have hread := x.parse?_display
  rw [parse?, h] at hread
  cases hread

lemma space_not_mem_display (x : Binary64) : ' ' ∉ x.display.toList := fun h =>
  absurd (isMark_of_parse? x.parse?_display ' ' h) (by decide)

end Binary64

lemma Instruction.ofToken_display (x : Binary64) : ofToken x.display = .literal x.unsignZero := by
  rw [ofToken, Word.ofToken?_of_parse? x.parse?_display, Binary64.ofText_display]

/-! ### Blanks -/

lemma Numeral.toNat_of_isMark {c : Char} (h : isMark c = true) :
    43 ≤ c.toNat ∧ c.toNat ≤ 122 := by
  simp only [isMark, Bool.or_eq_true, beq_iff_eq] at h
  rcases h with ((h | rfl) | rfl) | rfl
  · change (c.isUpper || c.isLower || c.isDigit) = true at h
    simp only [Bool.or_eq_true] at h
    rcases h with (h | h) | h
    · have hupper := isUpper_iff_toNat.1 h
      omega
    · have hlower := isLower_iff_toNat.1 h
      omega
    · have hdigit : 48 ≤ c.toNat ∧ c.toNat ≤ 57 := Char.isDigit_iff_toNat.1 h
      omega
  all_goals decide

lemma Numeral.isBlank_of_isMark {c : Char} (h : isMark c = true) : Text.isBlank c = false := by
  have hrange := toNat_of_isMark h
  simp [Text.isBlank, Text.isAsciiBlank, Text.isSeparator, Text.isWideBlank]
  omega

/-- A text that ends with a number on display has no blank to cut off. -/
lemma rdropWhile_append_display (cs : List Char) (x : Binary64) :
    (cs ++ x.display.toList).rdropWhile Text.isBlank = cs ++ x.display.toList := by
  refine List.rdropWhile_eq_self_iff.2 fun hne => ?_
  have hmark := Binary64.isMark_of_parse? x.parse?_display _ (List.getLast_mem x.display_ne_nil)
  rw [List.getLast_append_of_ne_nil _ x.display_ne_nil, Numeral.isBlank_of_isMark hmark]
  exact Bool.false_ne_true

lemma exists_intercalate_concat (ts : List String) (t : String) :
    ∃ cs, (" ".intercalate (ts ++ [t])).toList = cs ++ t.toList := by
  rcases eq_or_ne ts [] with rfl | hne
  · exact ⟨[], by simp⟩
  · rw [String.intercalate_append_of_ne_nil hne (List.cons_ne_nil t []),
      String.intercalate_singleton, String.toList_append]
    exact ⟨_, rfl⟩

/-! ### Lines of numbers -/

lemma Machine.foldl_perform_literal (xs : List Binary64) (m : Machine) :
    (xs.map Instruction.literal).foldl perform m =
      { m with stack := xs.reverse ++ m.stack } := by
  induction xs generalizing m with
  | nil => rfl
  | cons x xs ih => simp [ih]

namespace Program

/-- The program that pushes numbers one after another. -/
def pushing (xs : List Binary64) : Program := (xs.map Instruction.literal).toArray

lemma toList_pushing (xs : List Binary64) : (pushing xs).toList = xs.map Instruction.literal := rfl

lemma opcode_ne_jump_of_mem_pushing (xs : List Binary64) :
    ∀ i ∈ (pushing xs).toList, i.opcode ≠ .word .jump := by
  rw [toList_pushing, List.forall_mem_map]
  exact fun x _ => nofun

lemma mem_runToEnd_pushing (xs : List Binary64) :
    { counter := xs.length, machine := ⟨xs.reverse, []⟩ } ∈ (pushing xs).runToEnd {} := by
  have hend := straight_mem_runToEnd (c := {}) rfl (opcode_ne_jump_of_mem_pushing xs)
  rw [List.drop_zero, toList_pushing, Config.straight, Machine.foldl_perform_literal] at hend
  simpa using hend

/-- Numbers on display, put together by single spaces, are a line that pushes them. -/
lemma ofLine_intercalate_display {xs : List Binary64} (hne : xs ≠ []) :
    ofLine (" ".intercalate (xs.map Binary64.display)) = pushing (xs.map Binary64.unsignZero) := by
  rw [ofLine, tokens_intercalate (by simpa using hne)]
  · simp [ofTokens, pushing, Function.comp_def, Instruction.ofToken_display]
  · rw [List.forall_mem_map]
    exact fun x _ => x.space_not_mem_display

end Program

/-! ### Machines -/

namespace Machine

lemma tokens_stackText (m : Machine) :
    tokens m.stackText =
      ("<" ++ m.stack.length.repr ++ ">") :: m.stack.reverse.map Binary64.display := by
  refine tokens_intercalate (List.cons_ne_nil _ _) (List.forall_mem_cons.2 ⟨?_, ?_⟩)
  · have hdigits : ' ' ∉ Nat.toDigits 10 m.stack.length := fun h =>
      absurd (Nat.isDigit_of_mem_toDigits (by decide) (by decide) h) (by decide)
    simp [hdigits]
  · rw [List.forall_mem_map]
    exact fun x _ => x.space_not_mem_display

/-- The text of the stack is what it would be with a space after the depth in any case, less
the blanks at the end. -/
lemma stackText_eq_rdropWhile (m : Machine) :
    m.stackText.toList =
      ("<" ++ m.stack.length.repr ++ "> " ++
        " ".intercalate (m.stack.reverse.map Binary64.display)).toList.rdropWhile
          Text.isBlank := by
  rcases m with ⟨_ | ⟨x, s⟩, out⟩
  · have hcut : "<0>".toList = "<0> ".toList.rdropWhile Text.isBlank := by decide
    simpa [stackText] using hcut
  · obtain ⟨cs, hcs⟩ := exists_intercalate_concat (s.reverse.map Binary64.display) x.display
    have hshown : ∀ front : String,
        (front ++ " ".intercalate ((x :: s).reverse.map Binary64.display)).toList =
          front.toList ++ cs ++ x.display.toList := by
      intro front
      rw [String.toList_append, List.reverse_cons, List.map_append, List.map_singleton, hcs,
        List.append_assoc]
    rw [stackText, String.intercalate_cons_of_ne_nil (by simp), hshown, hshown,
      rdropWhile_append_display]
    simp

lemma unbounded_outputText {m : Machine} (hne : m.output ≠ []) :
    Evaluation.unbounded m.outputText =
      Part.some ⟨(m.output.map Binary64.unsignZero).reverse, []⟩ := by
  have hend := Program.mem_runToEnd_pushing (m.output.map Binary64.unsignZero)
  rw [Evaluation.unbounded, outputText, Program.ofLine_intercalate_display hne]
  exact Part.eq_some_iff.2 (Part.mem_map Config.machine hend)

/-- **What is shown loses nothing.** The text of a stack, which has no blank at its end, is its
depth in angle brackets and one token for each number from the bottom up, and each token is read
as its number, but for the sign of zero. The text of an output that is not empty is a line; its
run ends, with nothing printed and this output as its stack, again but for the signs of zeros. A
finite whole number is shown as its integer: a sign if it is negative, and all its digits. -/
theorem shown_reads_back (m : Machine) :
    let depth := m.stack.length
    let shown := tokens m.stackText
    m.stackText.toList =
        ("<" ++ depth.repr ++ "> " ++
          " ".intercalate (m.stack.reverse.map Binary64.display)).toList.rdropWhile
            Text.isBlank ∧
      shown.length = depth + 1 ∧
      shown[0]? = some ("<" ++ depth.repr ++ ">") ∧
      (∀ (n : ℕ) (x : Binary64), m.stack.reverse[n]? = some x →
        ∃ t, shown[n + 1]? = some t ∧ Binary64.ofText t = x.unsignZero) ∧
      (m.output ≠ [] → ∃ left, Evaluation.unbounded m.outputText = Part.some left ∧
        left.output = [] ∧ left.stack.reverse = m.output.map Binary64.unsignZero) ∧
      ∀ (negative : Bool) (k : Magnitude) (n : ℤ), k.signedValue negative = n →
        (Binary64.display (.finite negative k)).toList =
          (if n < 0 then ['-'] else []) ++ Nat.toDigits 10 n.natAbs := by
  intro depth shown
  have hshown : shown = ("<" ++ depth.repr ++ ">") :: m.stack.reverse.map Binary64.display :=
    m.tokens_stackText
  refine ⟨m.stackText_eq_rdropWhile, by simp [hshown, depth], by rw [hshown]; rfl, ?_, ?_, ?_⟩
  · intro n x hx
    refine ⟨x.display, ?_, x.ofText_display⟩
    rw [hshown, List.getElem?_cons_succ, List.getElem?_map, hx, Option.map_some]
  · intro hne
    exact ⟨_, unbounded_outputText hne, rfl, List.reverse_reverse _⟩
  · intro negative k n hn
    obtain ⟨hmod, hwhole⟩ := Magnitude.ite_whole_of_signedValue hn
    rw [Binary64.display_finite, if_pos hmod, hwhole, toList_repr]

/-- A stack with a negative zero on top of what is not a number, an output with a negative zero
and an infinity, and a whole number of 308 digits. -/
theorem shown_reads_back_minus_zero :
    let m : Machine := ⟨[.finite true .zero, .nan], [.finite true .zero, .infinite true]⟩
    let k : Magnitude := ⟨2 ^ 52, 2045, by decide⟩
    let n : ℤ := -2 ^ 1023
    (m.stack.reverse[1]? = some (.finite true .zero) ∧
      ∃ t, (tokens m.stackText)[2]? = some t ∧ Binary64.ofText t = .zero) ∧
    (m.output ≠ [] ∧ ∃ left, Evaluation.unbounded m.outputText = Part.some left ∧
      left.output = [] ∧ left.stack.reverse = [.infinite true, .zero]) ∧
    k.signedValue true = n ∧
      (Binary64.display (.finite true k)).toList =
        (if n < 0 then ['-'] else []) ++ Nat.toDigits 10 n.natAbs := by
  intro m k n
  obtain ⟨-, -, -, hread, hline, hwhole⟩ := shown_reads_back m
  have hk : k.value = 2 ^ 1023 := by
    have hsignificand : k.significand = 2 ^ 52 := rfl
    have hshift : k.shift = 2045 := rfl
    have hexponent : 1023 + Binary64.unitExponent = 52 + 2045 := rfl
    rw [Magnitude.value, div_eq_iff (by positivity), ← pow_add, hexponent, pow_add,
      Magnitude.units, hsignificand, hshift, Nat.cast_mul, Nat.cast_pow, Nat.cast_pow,
      Nat.cast_ofNat]
  have hn : k.signedValue true = n := by
    rw [Magnitude.signedValue, if_pos rfl, hk, Int.cast_neg, Int.cast_pow, Int.cast_ofNat]
  exact ⟨⟨rfl, hread 1 _ rfl⟩, ⟨by decide, hline (by decide)⟩, hn, hwhole true k n hn⟩

end Machine

end StackLine
