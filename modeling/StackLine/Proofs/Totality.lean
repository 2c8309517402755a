import Mathlib.Tactic.NormNum
import StackLine.Proofs.Checked
import StackLine.Proofs.Exact

/-!
The checked machine never fails, except that a budget runs out: it does what the machine of this
library does.
-/

namespace StackLine

namespace Magnitude

lemma length_toDigits_whole (m : Magnitude) : (Nat.toDigits 10 m.whole).length ≤ 309 := by
  rw [Nat.length_toDigits_le_iff (by decide) (by decide)]
  exact m.whole_lt.trans (by decide +kernel)

end Magnitude

namespace Checked

/-! ### Operations -/

lemma truncate_finite (negative : Bool) (m : Magnitude) :
    truncate (.finite negative m) = .ok (if negative then -(m.whole : Int) else m.whole) := by
  cases negative
  · rw [truncate, Magnitude.signed, Binary64.cast_unit]
    rfl
  · simp only [truncate, Magnitude.signed, Binary64.cast_unit, if_true, Int.neg_tdiv]
    rfl

lemma atMost_zero_finite (m : Magnitude) : atMost (.finite false m) 0 = true ↔ m.units = 0 := by
  simp [atMost, Magnitude.signed]

lemma atLeast_finite (m : Magnitude) (n : ℕ) :
    atLeast (.finite false m) n = true ↔ n ≤ m.whole := by
  rw [Magnitude.whole, Nat.le_div_iff_mul_le (Nat.two_pow_pos _)]
  simp only [atLeast, Magnitude.signed, Binary64.cast_unit, Bool.false_eq_true, if_false,
    decide_eq_true_eq]
  exact_mod_cast Iff.rfl

lemma index_eq (x : Binary64) : index x = .ok (x.toIndex : Int) := by
  rcases x with _ | negative | ⟨negative, m⟩
  · rfl
  · cases negative <;> rfl
  · cases negative
    · have hindex : Binary64.toIndex (.finite false m) = min Binary64.maxIndex m.whole := rfl
      rw [index, hindex]
      by_cases hz : m.units = 0
      · -- zero is at most zero
        rw [if_pos (Or.inr ((atMost_zero_finite m).2 hz)), Magnitude.whole, hz]
        simp
      rw [if_neg (by simp [atMost_zero_finite, hz])]
      by_cases hl : Binary64.maxIndex ≤ m.whole
      · rw [if_pos ((atLeast_finite m _).2 hl), Nat.min_eq_left hl]
      · rw [if_neg (fun h => hl ((atLeast_finite m _).1 h)), truncate_finite,
          Nat.min_eq_right (by omega)]
        rfl
    · -- a negative number is at most zero
      have hle : atMost (.finite true m) 0 = true := by simp [atMost, Magnitude.signed]
      rw [index, if_pos (Or.inr hle)]
      rfl

lemma equals_zero (x : Binary64) : x.equals .zero = x.isZero := by
  rcases x with _ | negative | ⟨negative, m⟩
  · rfl
  · rfl
  · have hz := m.units_eq_zero_iff
    cases negative <;>
      simp [Binary64.equals, Binary64.zero, Binary64.isZero, Magnitude.signed, ← hz, beq_eq_decide]

/-- The word that divides meets no divisor of zero. -/
lemma division_eq (a b : Binary64) : division a b = .ok (Machine.quotient a b) := by
  unfold division divide Machine.quotient
  rw [equals_zero]
  split <;> rfl

lemma equalsInt_whole_iff (negative : Bool) (m : Magnitude) :
    Binary64.equalsInt (.finite negative m)
        (if negative then -(m.whole : Int) else m.whole) = true ↔
      m.units % 2 ^ Binary64.unitExponent = 0 := by
  have hdiv : m.units = m.whole * 2 ^ Binary64.unitExponent ↔
      m.units % 2 ^ Binary64.unitExponent = 0 := by
    have := Nat.div_add_mod m.units (2 ^ Binary64.unitExponent)
    rw [Nat.mul_comm] at this
    unfold Magnitude.whole
    omega
  rw [← hdiv, Binary64.equalsInt, Binary64.cast_unit]
  cases negative <;>
    simp only [Magnitude.signed, Bool.false_eq_true, if_true, if_false, neg_mul, beq_iff_eq,
      neg_inj] <;>
    exact_mod_cast Iff.rfl

lemma digits_whole (negative : Bool) (m : Magnitude) :
    digits (if negative then -(m.whole : Int) else m.whole) =
      .ok (if negative then -(m.whole : Int) else m.whole).repr := by
  have hlen := m.length_toDigits_whole
  rw [digits, m.natAbs_ite_whole, if_neg]
  unfold maxIntegerDigits
  omega

lemma display_eq (x : Binary64) : display x = .ok x.display := by
  rcases x with _ | negative | ⟨negative, m⟩
  · rfl
  · cases negative <;> rfl
  · have htrunc : display (.finite negative m) = (do
        let n ← truncate (.finite negative m)
        if Binary64.equalsInt (.finite negative m) n then digits n
        else .ok (Binary64.text (.finite negative m))) := rfl
    rw [htrunc, truncate_finite, Binary64.display_finite]
    simp only [bind, Except.bind, equalsInt_whole_iff, digits_whole]
    split_ifs <;> rfl

lemma mapM_display (xs : List Binary64) : xs.mapM display = .ok (xs.map Binary64.display) := by
  rw [funext display_eq]
  exact List.mapM_pure

lemma stackText_eq (m : Machine) : stackText m = .ok m.stackText := by
  rw [stackText, mapM_display]
  rfl

lemma outputText_eq (m : Machine) : outputText m = .ok m.outputText := by
  rw [outputText, mapM_display]
  rfl

/-! ### Instructions and runs -/

lemma binary_eq (f : Binary64 → Binary64 → Binary64) (m : Machine) :
    binary (fun a b => .ok (f a b)) m = .ok (none, m.combine f) := by
  rw [binary, Machine.combine]
  rfl

lemma jump_eq (m : Machine) (carried : Option Binary64) :
    jump m = .ok ((m.jump? (.operator .jump carried)).map fun t => (t.toIndex : Int),
      m.apply .jump) := by
  rw [jump, Machine.jump?_jump, Machine.apply, Machine.popTwo_eq]
  simp only [equals_zero, index_eq]
  split <;> rfl

/-- **One instruction.** Every opcode has a handler or is that of a literal with its number, and
no handler fails. -/
lemma dispatch_eq (m : Machine) (i : Instruction) :
    dispatch m i = .ok ((m.jump? i).map fun t => (t.toIndex : Int), m.perform i) := by
  rcases i with ⟨w, carried⟩ | x
  · cases w with
    | add => exact binary_eq .add m
    | sub => exact binary_eq .sub m
    | mul => exact binary_eq .mul m
    | div =>
      rw [show dispatch m (.operator .div carried) = binary division m from rfl,
        funext fun a => funext fun b => division_eq a b]
      exact binary_eq Machine.quotient m
    | dup | swap | print => rfl
    | jump => exact jump_eq m carried
  · rfl

lemma fetch_eq {p : Program} {n : ℕ} (h : n < p.size) : fetch p n = .ok p[n] := by
  change fetch p (.ofNat n) = .ok p[n]
  rw [fetch, Array.getElem?_eq_getElem h]

lemma step_eq (p : Program) (c : Config) :
    step p (ofConfig c) = .ok ((p.step? c).map ofConfig) := by
  by_cases h : c.counter < p.size
  · have hs : (ofConfig c).counter < p.size := Int.ofNat_lt.2 h
    rw [step, if_pos hs, Program.step?, Array.getElem?_eq_getElem h]
    rw [show (ofConfig c).counter = (c.counter : Int) from rfl, fetch_eq h]
    simp only [bind, Except.bind, dispatch_eq, ofConfig, Option.map_some, Config.machine_after]
    rcases hj : c.machine.jump? p[c.counter] with _ | t
    · rw [Config.counter_after_of_no_jump hj]
      rfl
    · rw [Config.counter_after_of_jump hj]
      rfl
  · have hs : ¬(ofConfig c).counter < p.size := fun hs => h (Int.ofNat_lt.1 hs)
    rw [step, if_neg hs, Program.step?, Array.getElem?_eq_none (by omega)]
    rfl

/-- **A run.** -/
lemma run_eq (p : Program) (k : ℕ) (c : Config) :
    run p k (ofConfig c) = .ok (ofConfig (p.run k c)) := by
  induction k generalizing c with
  | zero => rfl
  | succ k ih =>
    rw [run, step_eq, Program.run_succ]
    rcases p.step? c with _ | d
    · rfl
    · exact ih d

/-- The counted run ends where the one of this library does, and fails where that one gives up. -/
lemma runCounted_eq (p : Program) (limit : Int) (count : ℕ) (c : Config) :
    runCounted p limit count (ofConfig c) =
      match p.runCounted limit count c with
      | (_, .exhausted steps) => .error (.budgetExhausted steps)
      | (d, _) => .ok (ofConfig d) := by
  have hstep := step_eq p c
  fun_induction Program.runCounted p limit count c with
  | case1 count c h =>
    rw [h] at hstep
    rw [runCounted]
    split <;> simp_all
  | case2 count c d h hd =>
    rw [h] at hstep
    have hlt : (ofConfig d).counter < p.size := by
      have := hd.2
      simp only [Program.hasEnded, decide_eq_false_iff_not, not_le] at this
      exact Int.ofNat_lt.2 this
    rw [runCounted]
    split <;> simp_all
  | case3 count c d h hd ih =>
    rw [h] at hstep
    have hlt : ¬(limit ≤ (count + 1 : ℕ) ∧ (ofConfig d).counter < p.size) := by
      rintro ⟨hl, hs⟩
      refine hd ⟨hl, ?_⟩
      simpa [Program.hasEnded] using Int.ofNat_lt.1 hs
    rw [← ih (step_eq p d), runCounted]
    split
    · simp_all
    · simp_all
    · next t ht =>
      rw [hstep] at ht
      cases ht
      rw [if_neg hlt]

/-! ### Lines -/

lemma decode_eq (token : String) : decode token = .ok (.ofToken token) := by
  unfold decode Instruction.ofToken
  rcases Word.ofToken? token with _ | w
  · dsimp only
    unfold Binary64.ofText Binary64.parse
    rcases Binary64.parse? token with _ | x
    · -- the fault is that the text is not plain, or else that it is malformed
      dsimp only
      cases Text.isPlain token.toList <;> rfl
    · rfl
  · rfl

lemma compile_eq (line : String) : compile line = .ok (Program.ofLine line) := by
  have hm : (tokens line).mapM decode = .ok ((tokens line).map Instruction.ofToken) := by
    rw [funext decode_eq]
    exact List.mapM_pure
  rw [compile, hm]
  rfl

lemma evaluate_none (steps : ℕ) (line : String) :
    evaluate none steps line = .ok (ofConfig ((Program.ofLine line).run steps {})) := by
  rw [evaluate, compile_eq]
  exact run_eq _ _ _

lemma evaluate_some (limit : Int) (steps : ℕ) (line : String) :
    evaluate (some limit) steps line =
      match (Program.ofLine line).runCounted limit 0 {} with
      | (_, .exhausted steps) => .error (.budgetExhausted steps)
      | (d, _) => .ok (ofConfig d) := by
  rw [evaluate, compile_eq]
  exact runCounted_eq _ _ _ _

/-- An evaluation fails only by its budget. -/
lemma eq_budgetExhausted_of_evaluate {budget : Budget} {steps : ℕ} {line : String}
    {failure : Failure} (h : evaluate budget steps line = .error failure) :
    budget ≠ none ∧ ∃ n, failure = .budgetExhausted n := by
  rcases budget with _ | limit
  · rw [evaluate_none] at h
    cases h
  · rw [evaluate_some] at h
    split at h
    · cases h
      exact ⟨Option.some_ne_none _, _, rfl⟩
    · cases h

lemma eq_budgetExhausted_of_execute {s : Session} {steps : ℕ} {line : String}
    {failure : Failure} (h : execute s steps line = .error failure) :
    s.budget ≠ none ∧ ∃ n, failure = .budgetExhausted n := by
  rw [execute] at h
  rcases he : evaluate s.budget steps line with e | c
  · rw [he] at h
    cases h
    exact eq_budgetExhausted_of_evaluate he
  · rw [he] at h
    cases h

end Checked

namespace Program

lemma counter_after_le {c : Config} (i : Instruction) (hc : c.counter < Binary64.maxIndex) :
    (c.after i).counter ≤ Binary64.maxIndex := by
  rcases hj : c.machine.jump? i with _ | t
  · rw [Config.counter_after_of_no_jump hj]
    exact hc
  · rw [Config.counter_after_of_jump hj]
    exact t.toIndex_le

lemma counter_run_le {p : Program} (hp : p.size ≤ Binary64.maxIndex) {c : Config}
    (hc : c.counter ≤ Binary64.maxIndex) (k : ℕ) : (p.run k c).counter ≤ Binary64.maxIndex := by
  induction k generalizing c with
  | zero => exact hc
  | succ k ih =>
    rw [run_succ, step?]
    rcases hi : p[c.counter]? with _ | i
    · exact hc
    · obtain ⟨hlt, -⟩ := Array.getElem?_eq_some_iff.1 hi
      exact ih (counter_after_le i (by omega))

/-- **Nothing fails.** From any machine the checked run of a program takes any number of steps
without a failure, and is then where the run of this library is. Its counter is not negative and
at most `2 ^ 63 - 1`; where it is below the size of the program there is an instruction to read
and a handler that does it; the stack, the output and each number on them can be shown. A line,
whatever its text, fails only by its budget, and so does a session. -/
theorem run_never_fails (p : Program) (hp : p.size ≤ Binary64.maxIndex) (m : Machine) (k : ℕ) :
    (∃ s, Checked.run p k ⟨0, m⟩ = .ok s ∧
      s = Checked.ofConfig (p.run k (.start m)) ∧
      0 ≤ s.counter ∧ s.counter ≤ Binary64.maxIndex ∧
      (s.counter < p.size → ∃ i, Checked.fetch p s.counter = .ok i ∧
        ∃ result, Checked.dispatch s.machine i = .ok result) ∧
      (∀ x ∈ s.machine.stack ++ s.machine.output, Checked.display x = .ok x.display) ∧
      Checked.stackText s.machine = .ok s.machine.stackText ∧
      Checked.outputText s.machine = .ok s.machine.outputText) ∧
    (∀ (steps : ℕ) (line : String), ∃ s, Checked.evaluate none steps line = .ok s) ∧
    (∀ (n : Int) (steps : ℕ) (line : String) (failure : Failure),
      Checked.evaluate (some n) steps line = .error failure →
        ∃ performed, failure = .budgetExhausted performed) ∧
    ∀ (s : Session) (steps : ℕ) (line : String) (failure : Failure),
      Checked.execute s steps line = .error failure →
        s.budget ≠ none ∧ ∃ performed, failure = .budgetExhausted performed := by
  refine ⟨⟨_, Checked.run_eq p k (.start m), rfl, ?_, ?_, ?_, ?_, ?_, ?_⟩, ?_, ?_, ?_⟩
  · exact Int.natCast_nonneg _
  · exact Int.ofNat_le.2 (counter_run_le hp (Nat.zero_le _) k)
  · intro hlt
    exact ⟨_, Checked.fetch_eq (Int.ofNat_lt.1 hlt), _, Checked.dispatch_eq _ _⟩
  · exact fun x _ => Checked.display_eq x
  · exact Checked.stackText_eq _
  · exact Checked.outputText_eq _
  · exact fun steps line => ⟨_, Checked.evaluate_none steps line⟩
  · exact fun n steps line failure h => (Checked.eq_budgetExhausted_of_evaluate h).2
  · exact fun s steps line failure h => Checked.eq_budgetExhausted_of_execute h

/-- A division of nothing by nothing, and a jump to what is no number. -/
theorem run_never_fails_jump_to_nan :
    let p : Program := #[.operator .div (some .nan), .literal (.infinite true), .literal .nan,
      .operator .jump none]
    p.size ≤ Binary64.maxIndex ∧ ∃ s, Checked.run p 4 ⟨0, {}⟩ = .ok s ∧ s.counter = 0 := by
  intro p
  have hp : p.size ≤ Binary64.maxIndex := by decide
  obtain ⟨⟨s, hs, rfl, -⟩, -⟩ := run_never_fails p hp {} 4
  refine ⟨hp, ?_⟩
  exact ⟨_, hs, by decide⟩

end Program

end StackLine
