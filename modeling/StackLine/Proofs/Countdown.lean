import StackLine.Proofs.Natural
import StackLine.Proofs.Skip

/-!
Counting down.

A loop prints a number and takes one from it, until zero is left. Up to `2 ^ 53` no subtraction
rounds, so the loop goes round once for every natural from the number down to one.
-/

namespace StackLine

open Binary64 (ofNat)

lemma Instruction.ofToken_natRepr (n : ℕ) : ofToken n.repr = .literal (ofNat n) := by
  have hparse := Binary64.parse?_natRepr n
  rw [ofToken, Word.ofToken?_of_parse? hparse, Binary64.ofText, hparse, Option.getD_some]

namespace Program

/-- One round up to its jump: the number is printed and made less, and then stands below the target
as the condition. -/
def countRound (one : Binary64) : List Instruction :=
  [.operator .dup none, .operator .print none, .literal one, .operator .sub none,
    .operator .dup none, .literal one]

/-- The program that counts down from a number. -/
def countdown (x one : Binary64) : Program :=
  (.literal x :: (countRound one ++ [.operator .jump none])).toArray

lemma ofLine_countdown (n : ℕ) :
    ofLine (n.repr ++ " dup print 1 - dup 1 jnz") = countdown (ofNat n) (ofNat 1) := by
  have hline : " dup print 1 - dup 1 jnz" = " " ++ "dup print 1 - dup 1 jnz" := rfl
  have hspace : ' ' ∉ n.repr.toList := fun h =>
    absurd (Binary64.isMark_of_parse? (Binary64.parse?_natRepr n) ' ' h) (by decide)
  have hloop : tokens "dup print 1 - dup 1 jnz" =
      [Word.dup.token, Word.print.token, (1 : ℕ).repr, Word.sub.token, Word.dup.token,
        (1 : ℕ).repr, Word.jump.token] := by
    decide
  rw [ofLine, tokens_append_of_eq hline, tokens_eq_singleton hspace, hloop]
  simp [ofTokens, countdown, countRound, Instruction.ofToken_natRepr, Instruction.ofToken_word]

/-- **One round.** The loop goes round again unless zero is left. -/
lemma run_countRound (x y one : Binary64) (printed jumps : List Binary64) :
    let c : Config := ⟨1, ⟨[y], printed⟩, jumps⟩
    (7 : ℕ) ≤ (countdown x one).duration c ∧
      (countdown x one).run 7 c =
        if (y.sub one).isZero then ⟨8, ⟨[y.sub one], y :: printed⟩, jumps⟩
        else ⟨one.toIndex, ⟨[y.sub one], y :: printed⟩, one :: jumps⟩ := by
  intro c
  have hcode : (countdown x one).toList.drop c.counter =
      countRound one ++ .operator .jump none :: [] := rfl
  have hstraight : ∀ i ∈ countRound one, i.opcode ≠ .word .jump := by
    simp [countRound, Instruction.opcode]
  have hbefore : c.straight (countRound one) =
      ⟨7, ⟨[one, y.sub one, y.sub one], y :: printed⟩, jumps⟩ := by
    simp [c, Config.straight, countRound, Machine.top, Machine.next]
  obtain ⟨hle, hrun⟩ := run_block_succ hcode hstraight
  refine ⟨hle, ?_⟩
  have hlength : (countRound one).length + 1 = 7 := rfl
  rw [hbefore, hlength] at hrun
  rw [hrun, Config.after, Machine.jump?_jump, Machine.perform_jump]
  cases h : (y.sub one).isZero <;> simp [Machine.top, Machine.next, h]

/-- At the head of the loop with `n` rounds to go; with none to go, behind the program. -/
def loopHead (n : ℕ) (printed jumps : List Binary64) : Config :=
  ⟨if n = 0 then 8 else 1, ⟨[ofNat n], printed⟩, jumps⟩

lemma run_loopHead_succ {n : ℕ} (h : n + 1 ≤ 2 ^ 53) (x : Binary64)
    (printed jumps : List Binary64) :
    let c := loopHead (n + 1) printed jumps
    (7 : ℕ) ≤ (countdown x (ofNat 1)).duration c ∧
      ∃ jumps', (countdown x (ofNat 1)).run 7 c =
        loopHead n (ofNat (n + 1) :: printed) jumps' := by
  intro c
  obtain ⟨hle, hrun⟩ := run_countRound x (ofNat (n + 1)) (ofNat 1) printed jumps
  have hzero : (ofNat n).isZero = decide (n = 0) := Binary64.isZero_ofNat (by omega)
  have hindex : (ofNat 1).toIndex = 1 := Binary64.toIndex_ofNat (by norm_num)
  rw [Binary64.sub_ofNat h, hzero, hindex] at hrun
  have hc : c = ⟨1, ⟨[ofNat (n + 1)], printed⟩, jumps⟩ := by
    simp [c, loopHead]
  rw [hc]
  refine ⟨hle, ?_⟩
  rw [hrun]
  by_cases hn : n = 0
  · exact ⟨jumps, by simp [loopHead, hn]⟩
  · exact ⟨ofNat 1 :: jumps, by simp [loopHead, hn]⟩

/-- **All rounds.** -/
lemma run_loopHead {n : ℕ} (h : n ≤ 2 ^ 53) (x : Binary64) (printed jumps : List Binary64) :
    let c := loopHead n printed jumps
    (countdown x (ofNat 1)).duration c = (7 * n : ℕ) ∧
      ∃ jumps', (countdown x (ofNat 1)).run (7 * n) c =
        loopHead 0 ((List.range' 1 n).map ofNat ++ printed) jumps' := by
  induction n generalizing printed jumps with
  | zero => exact ⟨duration_of_hasEnded rfl, jumps, rfl⟩
  | succ n ih =>
    intro c
    obtain ⟨hle, jumps₁, hround⟩ := run_loopHead_succ h x printed jumps
    obtain ⟨hduration, jumps₂, hrun⟩ := ih (by omega) (ofNat (n + 1) :: printed) jumps₁
    have hcount : 7 * (n + 1) = 7 + 7 * n := by omega
    constructor
    · rw [duration_eq_add hle, hround, hduration, hcount, Nat.cast_add]
    · refine ⟨jumps₂, ?_⟩
      rw [hcount, run_add, hround, hrun, List.range'_1_concat, List.map_append,
        List.append_assoc, Nat.add_comm 1 n]
      rfl

/-- The whole run: it pushes the number, and then goes round. -/
lemma run_countdown {n : ℕ} (hpos : 0 < n) (h : n ≤ 2 ^ 53) :
    let p := countdown (ofNat n) (ofNat 1)
    p.duration {} = (7 * n + 1 : ℕ) ∧
      (p.run (7 * n + 1) {}).machine = ⟨[.zero], (List.range' 1 n).map ofNat⟩ := by
  intro p
  have hstep : p.step? {} = some (loopHead n [] []) := by
    have hfirst : (Config.after {} (.literal (ofNat n))) = loopHead n [] [] := by
      simp [Config.after, Machine.jump?, loopHead, hpos.ne']
    rw [← hfirst]
    rfl
  obtain ⟨hduration, jumps, hrun⟩ := run_loopHead h (ofNat n) [] []
  constructor
  · rw [duration_of_step? hstep, hduration, Nat.cast_succ]
  · rw [run_succ_of_step? hstep, hrun, loopHead, Binary64.ofNat_zero, List.append_nil]

end Program

/-- **Counting down ends for every natural up to `2 ^ 53`.** The line that counts down from `n`
performs `7 * n + 1` instructions. It prints exactly `n`, and then every natural below it down to
one, and leaves one zero on the stack. So a budget fails it if and only if it allows fewer
instructions. -/
theorem Evaluation.unbounded_countdown {n : ℕ} (hpos : 0 < n) (h : n ≤ 2 ^ 53) :
    let line := n.repr ++ " dup print 1 - dup 1 jnz"
    duration line = (7 * n + 1 : ℕ) ∧
      ∃ left, unbounded line = Part.some left ∧
        left.output.map Binary64.toInt? =
          (List.range' 1 n).reverse.map (fun k : ℕ => some (k : ℤ)) ∧
        left.stack = [.zero] ∧
        ∀ (budget : ℤ) (patience : ℕ), (ofLine (some budget) patience line).machine? =
          if max 1 budget < 7 * n + 1 then
            some (.error (.budgetExhausted (max 1 budget).toNat))
          else some (.ok left) := by
  intro line
  obtain ⟨hduration, hrun⟩ := Program.run_countdown hpos h
  rw [← Program.ofLine_countdown] at hduration hrun
  have hleft := run_mem_unbounded hduration.le
  rw [hrun] at hleft
  refine ⟨hduration, _, Part.eq_some_iff.2 hleft, ?_, rfl, fun budget patience => ?_⟩
  · have hexact : ∀ k ∈ List.range' 1 n, (ofNat k).toInt? = some (k : ℤ) := fun k hk =>
      Binary64.toInt?_ofNat (by rw [List.mem_range'_1] at hk; omega)
    rw [Machine.output, ← List.map_reverse, List.map_map, Function.comp_def]
    exact List.map_congr_left fun k hk => hexact k (List.mem_reverse.1 hk)
  · split
    case isTrue hlt =>
      have hshort : Program.allowance budget < duration line := by
        rw [duration, hduration, Nat.cast_lt, Program.allowance]
        omega
      rw [machine?_ofLine_of_lt_duration hshort, Program.allowance]
    case isFalse hle =>
      have hlong : 7 * n + 1 ≤ Program.allowance budget := by
        rw [Program.allowance]
        omega
      rw [machine?_ofLine_of_duration_le (hduration.trans_le (Nat.cast_le.2 hlong)),
        Program.run_eq_of_le hlong (Program.duration_le_iff.1 hduration.le), hrun]

/-- From `2 ^ 53`, within a budget that is just large enough and within one less. -/
theorem Evaluation.unbounded_countdown_two_pow :
    let n := 2 ^ 53
    let line := "9007199254740992 dup print 1 - dup 1 jnz"
    0 < n ∧ n ≤ 2 ^ 53 ∧ n.repr ++ " dup print 1 - dup 1 jnz" = line ∧
      duration line = (63050394783186945 : ℕ) ∧
      ∃ left, unbounded line = Part.some left ∧ left.stack = [.zero] ∧
        (ofLine (some 63050394783186945) 0 line).machine? = some (.ok left) ∧
        (ofLine (some 63050394783186944) 0 line).machine? =
          some (.error (.budgetExhausted 63050394783186944)) := by
  intro n line
  have hpos : 0 < n := by decide
  have hline : n.repr ++ " dup print 1 - dup 1 jnz" = line := by decide
  have hcount : 7 * n + 1 = 63050394783186945 := by norm_num [n]
  have hcountInt : 7 * (n : ℤ) + 1 = 63050394783186945 := by norm_num [n]
  obtain ⟨hduration, left, hleft, -, hstack, hbudget⟩ := unbounded_countdown hpos le_rfl
  rw [hline] at hduration hleft hbudget
  rw [hcount] at hduration
  refine ⟨hpos, le_rfl, hline, hduration, left, hleft, hstack, ?_, ?_⟩
  · rw [hbudget, hcountInt, if_neg (by norm_num)]
  · rw [hbudget, hcountInt, if_pos (by norm_num)]
    rfl

end StackLine
