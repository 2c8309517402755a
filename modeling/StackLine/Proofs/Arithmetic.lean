import StackLine.Proofs.Rounded
import StackLine.Proofs.Trailing

/-!
Arithmetic, and the one rule that departs from it.

An operation on finite numbers gives the number nearest to the exact rational result. Where an
operand is infinite or not a number, or a divisor is zero, the result is the usual one, and a
quotient has the sign of the product of its operands. Only the word for division has a rule of its
own: by zero it gives zero.
-/

namespace StackLine

namespace Binary64

/-- The number nearest to a rational, with its sign. A rational of zero has none, so the sign of
zero is given. -/
def IsNearest (zeroSign : Bool) (q : ℚ) (x : Binary64) : Prop :=
  IsRounded (if q = 0 then zeroSign else decide (q < 0)) |q| x

/-- The sign, which is a minus or not. What is not a number has no minus. -/
def isNegative : Binary64 → Bool
  | nan => false
  | infinite negative | finite negative _ => negative

def isInfinite : Binary64 → Bool
  | infinite _ => true
  | nan | finite _ _ => false

@[simp] lemma isNegative_nan : isNegative .nan = false := rfl

@[simp] lemma isNegative_infinite (s : Bool) : isNegative (.infinite s) = s := rfl

@[simp] lemma isNegative_finite (s : Bool) (m : Magnitude) : isNegative (.finite s m) = s := rfl

@[simp] lemma isInfinite_nan : isInfinite .nan = false := rfl

@[simp] lemma isInfinite_infinite (s : Bool) : isInfinite (.infinite s) = true := rfl

@[simp] lemma isInfinite_finite (s : Bool) (m : Magnitude) :
    isInfinite (.finite s m) = false := rfl

variable {v : ℚ} {negative : Bool}

/-! ### Finite operands -/

/-- A rounded rational of at least zero, with a sign put to both. -/
lemma isNearest_of_sign (hv : 0 ≤ v) {x : Binary64} (h : IsRounded negative v x) :
    IsNearest negative (if negative then -v else v) x := by
  have habs : |if negative then -v else v| = v := by
    cases negative <;> simp [abs_of_nonneg hv]
  have hsign : (if (if negative then -v else v) = 0 then negative
      else decide ((if negative then -v else v) < 0)) = negative := by
    rcases hv.eq_or_lt with rfl | hpos
    · simp
    · cases negative <;> simp [hpos.ne', hpos, hpos.le]
  rw [IsNearest, habs, hsign]
  exact h

lemma isNearest_add (s t : Bool) (m n : Magnitude) :
    IsNearest (s && t) (m.signedValue s + n.signedValue t)
      (add (.finite s m) (.finite t n)) := by
  have hD : (0 : ℚ) < 2 ^ unitExponent := by positivity
  have hsum : m.signedValue s + n.signedValue t =
      (m.signed s + n.signed t : ℤ) / 2 ^ unitExponent := by
    rw [m.signedValue_eq, n.signedValue_eq, ← add_div, Int.cast_add]
  rw [hsum, add]
  generalize m.signed s + n.signed t = sum
  split
  case isTrue hzero =>
    have hlimit : (0 : ℚ) < 2 ^ 1024 - 2 ^ 970 :=
      sub_pos.2 (pow_lt_pow_right₀ one_lt_two (by decide))
    have hrounds : Magnitude.zero.Rounds (0 * 2 ^ unitExponent) :=
      Magnitude.zero_rounds_iff.2 (by norm_num)
    rw [hzero, Int.cast_zero, zero_div, IsNearest, if_pos rfl, abs_zero]
    exact .finite hlimit hrounds.nearest
  case isFalse hne =>
    have hq : (sum : ℚ) / 2 ^ unitExponent ≠ 0 := div_ne_zero (Int.cast_ne_zero.2 hne) hD.ne'
    have hsign : (sum : ℚ) / 2 ^ unitExponent < 0 ↔ sum < 0 := by
      rw [div_lt_iff₀ hD, zero_mul, Int.cast_lt_zero]
    rw [IsNearest, if_neg hq, decide_eq_decide.2 hsign]
    refine isRounded_ofQuotient one_pos ?_ _
    rw [abs_div, abs_of_pos hD, div_mul_cancel₀ _ hD.ne', Nat.cast_natAbs, Int.cast_abs,
      Nat.cast_one, div_one]

lemma isNearest_sub (s t : Bool) (m n : Magnitude) :
    IsNearest (s && !t) (m.signedValue s - n.signedValue t)
      (sub (.finite s m) (.finite t n)) := by
  have hneg : n.signedValue (!t) = -n.signedValue t := by
    cases t <;> simp [Magnitude.signedValue]
  rw [sub_eq_add_neg, ← hneg]
  exact isNearest_add s (!t) m n

lemma isNearest_mul (s t : Bool) (m n : Magnitude) :
    IsNearest (s ^^ t) (m.signedValue s * n.signedValue t)
      (mul (.finite s m) (.finite t n)) := by
  have hvalue : m.signedValue s * n.signedValue t =
      if s ^^ t then -(m.value * n.value) else m.value * n.value := by
    cases s <;> cases t <;> simp [Magnitude.signedValue]
  rw [hvalue, mul]
  refine isNearest_of_sign (mul_nonneg m.value_nonneg n.value_nonneg) ?_
  refine isRounded_ofQuotient (Nat.two_pow_pos _) ?_ _
  rw [Magnitude.value, Magnitude.value]
  push_cast
  field_simp

lemma isNearest_div (s t : Bool) (m : Magnitude) {n : Magnitude} (hn : n.significand ≠ 0) :
    IsNearest (s ^^ t) (m.signedValue s / n.signedValue t)
      (div (.finite s m) (.finite t n)) := by
  have hvalue : m.signedValue s / n.signedValue t =
      if s ^^ t then -(m.value / n.value) else m.value / n.value := by
    cases s <;> cases t <;> simp [Magnitude.signedValue, neg_div, div_neg]
  have hunits : 0 < n.units := Nat.pos_of_ne_zero (mt n.units_eq_zero_iff.1 hn)
  rw [hvalue, div, if_neg hn]
  refine isNearest_of_sign (div_nonneg m.value_nonneg n.value_nonneg) ?_
  refine isRounded_ofQuotient hunits ?_ _
  rw [Magnitude.value, Magnitude.value]
  push_cast
  field_simp

/-! ### Operands that are infinite or not a number, and divisors of zero -/

lemma ofQuotient_ne_nan (negative : Bool) (num den : ℕ) : ofQuotient negative num den ≠ .nan := by
  unfold ofQuotient
  split <;> exact nofun

lemma isNegative_ofQuotient (negative : Bool) (num den : ℕ) :
    (ofQuotient negative num den).isNegative = negative := by
  unfold ofQuotient
  split <;> rfl

/-- Beside the sums of finite numbers: infinities of both signs have no sum. -/
structure SpecialSum (a b x : Binary64) : Prop where
  nan_iff : x = .nan ↔ a = .nan ∨ b = .nan ∨ ∃ s, a = .infinite s ∧ b = .infinite !s
  left : x ≠ .nan → a.isInfinite = true → x = a
  right : x ≠ .nan → b.isInfinite = true → x = b

/-- Beside the products of finite numbers: zero and an infinity have no product. -/
structure SpecialProduct (a b x : Binary64) : Prop where
  nan_iff : x = .nan ↔ a = .nan ∨ b = .nan ∨ (a.isZero = true ∧ b.isInfinite = true) ∨
    (a.isInfinite = true ∧ b.isZero = true)
  infinite : x ≠ .nan → a.isInfinite = true ∨ b.isInfinite = true → x.isInfinite = true
  sign : x ≠ .nan → x.isNegative = (a.isNegative ^^ b.isNegative)

/-- Beside the quotients of finite numbers: two zeros have no quotient, nor do two infinities. -/
structure SpecialQuotient (a b x : Binary64) : Prop where
  nan_iff : x = .nan ↔ a = .nan ∨ b = .nan ∨ (a.isZero = true ∧ b.isZero = true) ∨
    (a.isInfinite = true ∧ b.isInfinite = true)
  infinite : x ≠ .nan → a.isInfinite = true ∨ b.isZero = true → x.isInfinite = true
  zero : x ≠ .nan → b.isInfinite = true → x.isZero = true
  sign : x ≠ .nan → x.isNegative = (a.isNegative ^^ b.isNegative)

lemma specialSum_add (a b : Binary64) : SpecialSum a b (a.add b) := by
  rcases a with _ | s | ⟨s, m⟩ <;> rcases b with _ | t | ⟨t, n⟩
  case infinite.infinite => cases s <;> cases t <;> constructor <;> simp [add]
  case finite.finite =>
    simp only [add]
    split <;> constructor <;> simp [ofQuotient_ne_nan]
  all_goals constructor <;> simp [add]

lemma specialProduct_mul (a b : Binary64) : SpecialProduct a b (a.mul b) := by
  rcases a with _ | s | ⟨s, m⟩ <;> rcases b with _ | t | ⟨t, n⟩
  case finite.finite =>
    constructor <;> simp [mul, isZero, ofQuotient_ne_nan, isNegative_ofQuotient]
  case infinite.finite =>
    by_cases hn : n.significand = 0 <;> constructor <;> simp [mul, isZero, hn]
  case finite.infinite =>
    by_cases hm : m.significand = 0 <;> constructor <;> simp [mul, isZero, hm]
  all_goals constructor <;> simp [mul, isZero]

lemma specialQuotient_div (a b : Binary64) : SpecialQuotient a b (a.div b) := by
  rcases a with _ | s | ⟨s, m⟩ <;> rcases b with _ | t | ⟨t, n⟩
  case finite.finite =>
    by_cases hn : n.significand = 0
    · by_cases hm : m.significand = 0 <;> constructor <;> simp [div, isZero, hm, hn]
    · constructor <;> simp [div, isZero, hn, ofQuotient_ne_nan, isNegative_ofQuotient]
  all_goals constructor <;> simp [div, isZero, Magnitude.zero]

end Binary64

/-! ### The word for division -/

lemma Program.ofLine_quotient {x y : String} (hx : ' ' ∉ x.toList) (hy : ' ' ∉ y.toList)
    (hx' : Word.ofToken? x = none) (hy' : Word.ofToken? y = none) :
    (ofLine (x ++ " " ++ y ++ " / print")).toList =
      [.literal (.ofText x), .literal (.ofText y), .operator .div none,
        .operator .print none] := by
  have hline : " / print" = " " ++ "/ print" := rfl
  have hwords : tokens "/ print" = [Word.div.token, Word.print.token] := by decide
  rw [ofLine, tokens_append_of_eq hline, tokens_append, tokens_eq_singleton hx,
    tokens_eq_singleton hy, hwords]
  simp [ofTokens, Instruction.ofToken_of_not_word hx', Instruction.ofToken_of_not_word hy',
    Instruction.ofToken_word]

/-- What a line prints that divides its two numbers. -/
lemma Evaluation.unbounded_quotient {x y : String} (hx : ' ' ∉ x.toList) (hy : ' ' ∉ y.toList)
    (hx' : Word.ofToken? x = none) (hy' : Word.ofToken? y = none) :
    ∃ left, unbounded (x ++ " " ++ y ++ " / print") = Part.some left ∧
      left.output = [Machine.quotient (.ofText x) (.ofText y)] := by
  have hcode := Program.ofLine_quotient hx hy hx' hy'
  have hstraight : ∀ i ∈ (Program.ofLine (x ++ " " ++ y ++ " / print")).toList,
      i.opcode ≠ .word .jump := by
    simp [hcode, Instruction.opcode]
  have hend := Program.straight_mem_runToEnd (c := {}) List.drop_zero hstraight
  refine ⟨_, Part.eq_some_iff.2 (Part.mem_map _ hend), ?_⟩
  rw [Config.straight, hcode]
  simp [Machine.top, Machine.next, Machine.output]

namespace Binary64

/-- **Arithmetic is exact up to one rounding, and only the word for division has its own way with
zero.** A sum, a difference, a product or a quotient of finite numbers is the number nearest to the
exact result, unless the divisor is zero. All other results are the usual ones: a quotient is not a
number exactly if an operand is not, both are zero or both are infinite; what else is divided by
zero is infinite; and a quotient has the sign of the product of its operands. The word for division
takes the divisor from the top and what is divided from below it, and puts their quotient in their
place, and zero without a minus if the divisor is zero. So this zero is all that a line prints which
divides whatever number by zero. -/
theorem isNearest_arithmetic :
    (∀ (s t : Bool) (m n : Magnitude),
      let a : Binary64 := .finite s m
      let b : Binary64 := .finite t n
      let x := m.signedValue s
      let y := n.signedValue t
      IsNearest (s && t) (x + y) (a.add b) ∧ IsNearest (s && !t) (x - y) (a.sub b) ∧
        IsNearest (s ^^ t) (x * y) (a.mul b) ∧
        (b.isZero = false → IsNearest (s ^^ t) (x / y) (a.div b))) ∧
      (∀ a b : Binary64, SpecialSum a b (a.add b) ∧ SpecialSum a b.neg (a.sub b) ∧
        SpecialProduct a b (a.mul b) ∧ SpecialQuotient a b (a.div b)) ∧
      (∀ (m : Machine) (carried : Option Binary64),
        let a := m.next
        let b := m.top
        m.perform (.operator .div carried) =
          { m with stack := (if b.isZero then .zero else a.div b) :: m.stack.tail.tail }) ∧
      ∀ x y : String, ' ' ∉ x.toList → ' ' ∉ y.toList → Word.ofToken? x = none →
        Word.ofToken? y = none → (ofText y).isZero = true →
          ∃ left, Evaluation.unbounded (x ++ " " ++ y ++ " / print") = Part.some left ∧
            left.output = [.zero] := by
  refine ⟨fun s t m n => ⟨isNearest_add s t m n, isNearest_sub s t m n, isNearest_mul s t m n,
    fun hn => isNearest_div s t m (by simpa [isZero] using hn)⟩, fun a b => ⟨specialSum_add a b,
    specialSum_add a b.neg, specialProduct_mul a b, specialQuotient_div a b⟩,
    fun m carried => m.perform_div carried, fun x y hx hy hx' hy' hzero => ?_⟩
  obtain ⟨left, hleft, hout⟩ := Evaluation.unbounded_quotient hx hy hx' hy'
  refine ⟨left, hleft, ?_⟩
  rw [hout, Machine.quotient, if_pos hzero]

/-- The least numbers, whose quotient is a third; infinity by a negative zero; and what is not a
number, divided by a numeral so small that it is read as a negative zero. -/
theorem isNearest_arithmetic_small_divisor :
    let m : Magnitude := ⟨1, 0, by decide⟩
    let n : Magnitude := ⟨3, 0, by decide⟩
    let a : Binary64 := .infinite false
    let b : Binary64 := .finite true .zero
    (isZero (.finite false n) = false ∧
      IsNearest (true ^^ false) (m.signedValue true / n.signedValue false)
        (div (.finite true m) (.finite false n))) ∧
      (a.div b ≠ .nan ∧ (a.div b).isInfinite = true ∧
        (a.div b).isNegative = (a.isNegative ^^ b.isNegative)) ∧
      (' ' ∉ "nan".toList ∧ ' ' ∉ "-1e-400".toList ∧ Word.ofToken? "nan" = none ∧
        Word.ofToken? "-1e-400" = none ∧ (ofText "-1e-400").isZero = true ∧
        ∃ left, Evaluation.unbounded "nan -1e-400 / print" = Part.some left ∧
          left.output = [.zero]) := by
  intro m n a b
  have hn : isZero (.finite false n) = false := by decide
  have hab : a.div b ≠ .nan := by decide
  have hnan : Word.ofToken? "nan" = none := by decide
  have hsmall : Word.ofToken? "-1e-400" = none := by decide
  have hzero : (ofText "-1e-400").isZero = true := by decide +kernel
  obtain ⟨hfinite, hspecial, -, hline⟩ := isNearest_arithmetic
  obtain ⟨-, -, -, hquotient⟩ := hspecial a b
  exact ⟨⟨hn, (hfinite true false m n).2.2.2 hn⟩,
    ⟨hab, hquotient.infinite hab (.inl rfl), hquotient.sign hab⟩,
    by decide, by decide, hnan, hsmall, hzero,
    hline "nan" "-1e-400" (by decide) (by decide) hnan hsmall hzero⟩

end Binary64

end StackLine
