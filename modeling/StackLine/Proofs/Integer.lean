import StackLine.Operand
import StackLine.Proofs.Arithmetic
import StackLine.Proofs.Natural

/-!
Integers beside numbers.

A comparison takes an integer as it stands, and an operation rounds it first. So a number that is
equal to an integer is equal to what the integer is rounded to, and the other way round this holds
only of the integers that are numbers themselves.
-/

namespace StackLine

namespace Binary64

/-- The rational that a finite number stands for. -/
def value? : Binary64 → Option ℚ
  | finite negative m => some (m.signedValue negative)
  | nan | infinite _ => none

@[simp] lemma value?_nan : value? .nan = none := rfl

@[simp] lemma value?_infinite (s : Bool) : value? (.infinite s) = none := rfl

@[simp] lemma value?_finite (s : Bool) (m : Magnitude) :
    value? (.finite s m) = some (m.signedValue s) := rfl

variable {x y : Binary64} {n : ℤ}

/-! ### Comparison -/

/-- **An integer is compared without rounding.** -/
theorem equalsInt_iff : x.equalsInt n = true ↔ x.value? = some (n : ℚ) := by
  rcases x with _ | s | ⟨s, m⟩
  · exact iff_of_false Bool.false_ne_true nofun
  · exact iff_of_false Bool.false_ne_true nofun
  · rw [equalsInt, beq_iff_eq, cast_unit, value?_finite, Option.some_inj,
      Magnitude.signedValue_eq_intCast_iff]

lemma equals_iff_of_value? {q : ℚ} (hy : y.value? = some q) :
    x.equals y = true ↔ x.value? = some q := by
  rcases y with _ | t | ⟨t, l⟩
  case nan | infinite => cases hy
  rw [← hy]
  rcases x with _ | s | ⟨s, m⟩
  · exact iff_of_false Bool.false_ne_true nofun
  · exact iff_of_false Bool.false_ne_true nofun
  · rw [equals, beq_iff_eq, value?_finite, value?_finite, Option.some_inj, m.signedValue_eq,
      l.signedValue_eq, div_left_inj' (by positivity), Int.cast_inj]

/-! ### Conversion -/

/-- The units of an integer. -/
lemma cast_natAbs_units (n : ℤ) :
    ((n.natAbs * 2 ^ unitExponent : ℕ) / (1 : ℕ) : ℚ) = |(n : ℚ)| * 2 ^ unitExponent := by
  -- no power is to be computed
  generalize unitExponent = e
  rw [Nat.cast_one, div_one, Nat.cast_mul, Nat.cast_natAbs, Int.cast_abs, Nat.cast_pow,
    Nat.cast_ofNat]

lemma ofInt?_eq_map (n : ℤ) : ofInt? n =
    (Magnitude.ofQuotient? (n.natAbs * 2 ^ unitExponent) 1).map (.finite (decide (n < 0))) := rfl

lemma ofInt?_eq_none_iff : ofInt? n = none ↔ 2 ^ 1024 - 2 ^ 970 ≤ |(n : ℚ)| := by
  have hD : (0 : ℚ) < 2 ^ unitExponent := by positivity
  rw [ofInt?_eq_map, Option.map_eq_none_iff, Magnitude.ofQuotient?_eq_none_iff one_pos,
    cast_natAbs_units, Magnitude.cast_limit, mul_le_mul_iff_of_pos_right hD]

/-- **An integer is rounded to nearest.** -/
theorem isNearest_of_ofInt? (h : ofInt? n = some x) : IsNearest false n x := by
  have hsign : (if (n : ℚ) = 0 then false else decide ((n : ℚ) < 0)) = decide (n < 0) := by
    rcases eq_or_ne n 0 with rfl | hne
    · simp
    · rw [if_neg (Int.cast_ne_zero.2 hne), decide_eq_decide.2 Int.cast_lt_zero]
  rw [ofInt?_eq_map] at h
  obtain ⟨m, hm, rfl⟩ := Option.map_eq_some_iff.1 h
  have hrounds := (Magnitude.ofQuotient?_eq_some_iff one_pos).1 hm
  rw [IsNearest, hsign, ← ofQuotient_of_rounds one_pos hrounds]
  exact isRounded_ofQuotient one_pos (cast_natAbs_units n) _

/-- An integer that is the value of a number is not changed by rounding. -/
lemma exists_ofInt?_eq_some (h : y.value? = some (n : ℚ)) :
    ∃ x, ofInt? n = some x ∧ x.value? = some (n : ℚ) := by
  rcases y with _ | s | ⟨s, m⟩
  case nan | infinite => cases h
  have hunits := Magnitude.units_of_signedValue (Option.some.inj h)
  have hrounds : m.Rounds ((n.natAbs * 2 ^ unitExponent : ℕ) / (1 : ℕ)) := by
    rw [← hunits, Nat.cast_one, div_one]
    exact m.rounds_units
  refine ⟨.finite (decide (n < 0)) m, ?_, ?_⟩
  · rw [ofInt?_eq_map, (Magnitude.ofQuotient?_eq_some_iff one_pos).2 hrounds, Option.map_some]
  · rw [value?_finite, Option.some_inj, Magnitude.signedValue_eq_intCast_iff, Magnitude.signed,
      hunits, Nat.cast_mul, Int.natCast_natAbs]
    rcases lt_or_ge n 0 with hn | hn
    · rw [decide_eq_true hn, if_pos rfl, abs_of_neg hn, neg_mul, neg_neg]
    · rw [decide_eq_false (not_lt.2 hn), if_neg Bool.false_ne_true, abs_of_nonneg hn]

/-- A rounded integer is finite. -/
lemma exists_value?_of_ofInt? (h : ofInt? n = some x) : ∃ r, x.value? = some r := by
  rw [ofInt?_eq_map] at h
  obtain ⟨m, -, rfl⟩ := Option.map_eq_some_iff.1 h
  exact ⟨_, rfl⟩

/-! ### Arithmetic -/

/-- The operations on finite numbers, by their values. -/
lemma isNearest_of_value? {q r : ℚ} (hx : x.value? = some q) (hy : y.value? = some r) :
    (x.add y).IsNearest (x.isNegative && y.isNegative) (q + r) ∧
      (x.sub y).IsNearest (x.isNegative && !y.isNegative) (q - r) ∧
      (x.mul y).IsNearest (x.isNegative ^^ y.isNegative) (q * r) ∧
      (r ≠ 0 → (x.div y).IsNearest (x.isNegative ^^ y.isNegative) (q / r)) := by
  rcases x with _ | s | ⟨s, m⟩
  case nan | infinite => cases hx
  rcases y with _ | t | ⟨t, l⟩
  case nan | infinite => cases hy
  cases hx
  cases hy
  refine ⟨isNearest_add s t m l, isNearest_sub s t m l, isNearest_mul s t m l, fun hr => ?_⟩
  refine isNearest_div s t m fun hl => hr ?_
  have hunits := l.units_eq_zero_iff.2 hl
  simp [Magnitude.signedValue, Magnitude.value, hunits]

end Binary64

/-! ### Operands -/

namespace Operand

variable {n : ℤ} {x v : Binary64}

lemma toBinary64_integer (n : ℤ) :
    (integer n).toBinary64 = (Binary64.ofInt? n).elim (.error .integerTooLarge) .ok := by
  -- no integer is to be rounded here, so the rounding is made a variable
  obtain ⟨f, hf⟩ : ∃ f, f = Binary64.ofInt? := ⟨_, rfl⟩
  rw [toBinary64.eq_def, ← hf]
  cases h : f n <;> simp only [h, Option.elim_none, Option.elim_some]

lemma toBinary64_integer_eq_ok_iff :
    (integer n).toBinary64 = .ok x ↔ Binary64.ofInt? n = some x := by
  rw [toBinary64_integer]
  cases Binary64.ofInt? n <;> simp

lemma toBinary64_integer_eq_error_iff :
    (integer n).toBinary64 = .error .integerTooLarge ↔ 2 ^ 1024 - 2 ^ 970 ≤ |(n : ℚ)| := by
  rw [← Binary64.ofInt?_eq_none_iff, toBinary64_integer]
  cases Binary64.ofInt? n <;> simp

/-- A number equal to an integer is equal to what the integer is rounded to. -/
lemma equals_number_of_integer (hx : (integer n).toBinary64 = .ok x)
    (hv : equals v (.integer n) = true) : equals v (.number x) = true := by
  have hvalue := Binary64.equalsInt_iff.1 hv
  obtain ⟨z, hz, hzn⟩ := Binary64.exists_ofInt?_eq_some hvalue
  obtain rfl : z = x := Option.some_inj.1 (hz.symm.trans (toBinary64_integer_eq_ok_iff.1 hx))
  exact (Binary64.equals_iff_of_value? hzn).2 hvalue

/-- What is equal to a rounded integer is equal to the integer, if that is a number itself. -/
lemma forall_equals_integer_iff (hx : (integer n).toBinary64 = .ok x) :
    (∀ v, equals v (.number x) = true → equals v (.integer n) = true) ↔
      ∃ y : Binary64, y.value? = some (n : ℚ) := by
  rw [toBinary64_integer_eq_ok_iff] at hx
  constructor
  · intro h
    obtain ⟨r, hr⟩ := Binary64.exists_value?_of_ofInt? hx
    -- the rounded integer is equal to itself
    exact ⟨x, Binary64.equalsInt_iff.1 (h x ((Binary64.equals_iff_of_value? hr).2 hr))⟩
  · rintro ⟨y, hy⟩ v hv
    obtain ⟨z, hz, hzn⟩ := Binary64.exists_ofInt?_eq_some hy
    obtain rfl : z = x := Option.some_inj.1 (hz.symm.trans hx)
    exact Binary64.equalsInt_iff.2 ((Binary64.equals_iff_of_value? hzn).1 hv)

/-- An operation on an integer fails exactly if the integer is too large. -/
lemma operate_integer_eq_error_iff (op : Binary64.Operation) :
    Binary64.operate op v (.integer n) = .error .integerTooLarge ↔
      2 ^ 1024 - 2 ^ 970 ≤ |(n : ℚ)| := by
  rw [← toBinary64_integer_eq_error_iff, Binary64.operate]
  cases (integer n).toBinary64 <;> simp [Except.map]

/-- An operation on an integer is that on what the integer is rounded to. -/
lemma operate_integer_eq_ok (hx : (integer n).toBinary64 = .ok x) (v : Binary64) :
    Binary64.operate .add v (.integer n) = .ok (v.add x) ∧
      Binary64.operate .sub v (.integer n) = .ok (v.sub x) ∧
      Binary64.operate .mul v (.integer n) = .ok (v.mul x) ∧
      Binary64.operate .div v (.integer n) = .ok (v.div x) := by
  simp only [Binary64.operate, hx]
  exact ⟨rfl, rfl, rfl, rfl⟩

/-- **An integer is compared exactly, and rounded for all else.** A number is equal to an integer
exactly if it is finite and the integer is its value. To become a number, or an operand beside one,
an integer is first rounded to the nearest number, of two equally near ones to the even one, and
this fails exactly from half a gap above the largest number on. The sum, the difference, the product
and the quotient of a number and an integer are those of the number and the rounded integer: where
the number is finite and nothing is divided by zero, each is nearest to the exact result on their
values. And of an integer that converts, a number equal to the integer is equal to the rounded
integer too, and the converse holds of all numbers exactly if the integer is the value of one. -/
theorem integer_exact_or_rounded :
    (∀ (v : Binary64) (n : ℤ), equals v (.integer n) = true ↔ v.value? = some (n : ℚ)) ∧
      (∀ n : ℤ,
        ((integer n).toBinary64 = .error .integerTooLarge ↔ 2 ^ 1024 - 2 ^ 970 ≤ |(n : ℚ)|) ∧
        ∀ op v, Binary64.operate op v (.integer n) = .error .integerTooLarge ↔
          2 ^ 1024 - 2 ^ 970 ≤ |(n : ℚ)|) ∧
      ∀ n : ℤ, |(n : ℚ)| < 2 ^ 1024 - 2 ^ 970 →
        ∃ (x : Binary64) (r : ℚ), x.value? = some r ∧ x.IsNearest false n ∧
          (integer n).toBinary64 = .ok x ∧
          (∀ v : Binary64,
            Binary64.operate .add v (.integer n) = .ok (v.add x) ∧
              Binary64.operate .sub v (.integer n) = .ok (v.sub x) ∧
              Binary64.operate .mul v (.integer n) = .ok (v.mul x) ∧
              Binary64.operate .div v (.integer n) = .ok (v.div x)) ∧
          (∀ (v : Binary64) (q : ℚ), v.value? = some q →
            (v.add x).IsNearest (v.isNegative && x.isNegative) (q + r) ∧
              (v.sub x).IsNearest (v.isNegative && !x.isNegative) (q - r) ∧
              (v.mul x).IsNearest (v.isNegative ^^ x.isNegative) (q * r) ∧
              (r ≠ 0 → (v.div x).IsNearest (v.isNegative ^^ x.isNegative) (q / r))) ∧
          (∀ v, equals v (.integer n) = true → equals v (.number x) = true) ∧
          ((∀ v, equals v (.number x) = true → equals v (.integer n) = true) ↔
            ∃ y : Binary64, y.value? = some (n : ℚ)) := by
  refine ⟨fun v n => Binary64.equalsInt_iff, fun n => ⟨toBinary64_integer_eq_error_iff,
    fun op v => operate_integer_eq_error_iff op⟩, fun n hn => ?_⟩
  obtain ⟨x, hx⟩ := Option.ne_none_iff_exists'.1 (mt Binary64.ofInt?_eq_none_iff.1 (not_le.2 hn))
  obtain ⟨r, hr⟩ := Binary64.exists_value?_of_ofInt? hx
  have hok := toBinary64_integer_eq_ok_iff.2 hx
  exact ⟨x, r, hr, Binary64.isNearest_of_ofInt? hx, hok, operate_integer_eq_ok hok,
    fun v q hq => Binary64.isNearest_of_value? hq hr,
    fun v hv => equals_number_of_integer hok hv, forall_equals_integer_iff hok⟩

/-- The integer next to an even number of 54 bits is no number. It is halfway between two and is
rounded to the even one, which it is not equal to, so a sum with it is a sum with that number, and a
difference from it is zero. The even number itself is equal to the integer that it is. -/
theorem integer_exact_or_rounded_halfway :
    let v := Binary64.ofText "9007199254740992"
    let n : ℤ := 2 ^ 53
    (|((n + 1 : ℤ) : ℚ)| < 2 ^ 1024 - 2 ^ 970 ∧ (integer (n + 1)).toBinary64 = .ok v ∧
      Binary64.operate .add v (.integer (n + 1)) = .ok (.ofText "18014398509481984") ∧
      Binary64.operate .sub v (.integer (n + 1)) = .ok .zero ∧
      (v.value? = some (n : ℚ) ∧
        (v.add v).IsNearest (v.isNegative && v.isNegative) ((n : ℚ) + n)) ∧
      equals v (.number v) = true ∧ equals v (.integer (n + 1)) = false ∧
      ¬∃ y : Binary64, y.value? = some ((n + 1 : ℤ) : ℚ)) ∧
      |(n : ℚ)| < 2 ^ 1024 - 2 ^ 970 ∧ equals v (.integer n) = true ∧
        ∃ x : Binary64, (integer n).toBinary64 = .ok x ∧ equals v (.number x) = true := by
  intro v n
  obtain ⟨hequalsInt, -, hconvert⟩ := integer_exact_or_rounded
  have hlimit : (2 : ℚ) ^ 54 - 1 ≤ 2 ^ 1024 - 2 ^ 970 := by
    rw [Magnitude.two_pow_sub_eq]
    exact le_mul_of_one_le_right (by norm_num) (one_le_pow₀ one_le_two)
  have hn : |(n : ℚ)| < 2 ^ 1024 - 2 ^ 970 := lt_of_lt_of_le (by norm_num [n]) hlimit
  have hnext : |((n + 1 : ℤ) : ℚ)| < 2 ^ 1024 - 2 ^ 970 := lt_of_lt_of_le (by norm_num [n]) hlimit
  have hv : equals v (.integer n) = true := by decide +kernel
  have hvalue : v.value? = some (n : ℚ) := (hequalsInt v n).1 hv
  have hself : equals v (.number v) = true := by decide +kernel
  have hne : equals v (.integer (n + 1)) = false := by decide +kernel
  have hround : (integer (n + 1)).toBinary64 = .ok v := by decide +kernel
  have hsum : v.add v = .ofText "18014398509481984" := by decide +kernel
  have hdifference : v.sub v = .zero := by decide +kernel
  obtain ⟨x, r, hr, -, hx, hoperate, hnearest, -, hconverse⟩ := hconvert (n + 1) hnext
  obtain rfl : v = x := Except.ok.inj (hround.symm.trans hx)
  obtain rfl : (n : ℚ) = r := Option.some.inj (hvalue.symm.trans hr)
  obtain ⟨hadd, hsub, -, -⟩ := hoperate v
  rw [hsum] at hadd
  rw [hdifference] at hsub
  have hnone : ¬∃ y : Binary64, y.value? = some ((n + 1 : ℤ) : ℚ) := fun hy => by
    rw [hconverse.2 hy v hself] at hne
    cases hne
  obtain ⟨x, -, -, -, hx, -, -, hequals, -⟩ := hconvert n hn
  exact ⟨⟨hnext, hround, hadd, hsub, ⟨hvalue, (hnearest v n hvalue).1⟩, hself, hne, hnone⟩,
    hn, hv, x, hx, hequals v hv⟩

end Operand

end StackLine
