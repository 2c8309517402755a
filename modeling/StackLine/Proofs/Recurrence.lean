import Mathlib.Data.List.DropRight
import StackLine.Proofs.Duration
import StackLine.Proofs.Effect
import StackLine.Proofs.Endless

/-!
Runs that come back to where they were.

Zeros at the bottom of a stack are as good as none, so a run that comes back to a position with
the same stack up to such zeros goes on as it did before: it never ends, passes through the same
positions again and again, and prints the same numbers on every round.
-/

namespace StackLine

/-- The stack without the zeros at its bottom. -/
def Machine.visible (m : Machine) : List Binary64 := m.stack.rdropWhile (· = .zero)

lemma Endless.extend_visible (m : Machine) : extend m.visible = extend m.stack := by
  have hzeros : m.stack.rtakeWhile (· = .zero) =
      List.replicate (m.stack.rtakeWhile (· = .zero)).length Binary64.zero :=
    List.eq_replicate_iff.2 ⟨rfl, fun x hx => by simpa using List.mem_rtakeWhile_imp hx⟩
  have hsplit : m.visible ++ m.stack.rtakeWhile (· = .zero) = m.stack :=
    List.rdropWhile_append_rtakeWhile
  rw [← extend_append_zeros m.visible, ← hzeros, hsplit]

lemma Endless.extend_append (xs s : List Binary64) : extend (xs ++ s) = xs ++ₛ extend s :=
  Stream'.append_append_stream xs s _

lemma Endless.extend_drop (n : ℕ) (s : List Binary64) :
    extend (s.drop n) = (extend s).drop n := by
  induction n generalizing s with
  | zero => rfl
  | succ n ih => rw [← List.drop_tail, ih, ← tail_extend]; rfl

/-- Two configurations at one position, with the same stack up to zeros at its bottom. -/
structure Config.Alike (c d : Config) : Prop where
  counter : d.counter = c.counter
  stack : Endless.extend d.machine.stack = Endless.extend c.machine.stack

namespace Config.Alike

variable {c d e : Config} {p : Program}

lemma of_visible (hcounter : d.counter = c.counter) (h : d.machine.visible = c.machine.visible) :
    c.Alike d :=
  ⟨hcounter, by rw [← Endless.extend_visible, h, Endless.extend_visible]⟩

lemma refl (c : Config) : c.Alike c := ⟨rfl, rfl⟩

lemma trans (h : c.Alike d) (h' : d.Alike e) : c.Alike e :=
  ⟨h'.counter.trans h.counter, h'.stack.trans h.stack⟩

lemma top (h : c.Alike d) : d.machine.top = c.machine.top := by
  rw [← Endless.head_extend, h.stack, Endless.head_extend]

lemma next (h : c.Alike d) : d.machine.next = c.machine.next := by
  rw [← Endless.head_extend_tail, ← Endless.tail_extend, h.stack, Endless.tail_extend,
    Endless.head_extend_tail]

/-- **One instruction.** -/
lemma after (h : c.Alike d) (i : Instruction) : (c.after i).Alike (d.after i) where
  counter := by rw [counter_after, counter_after, h.counter, h.top, h.next]
  stack := by
    rw [stack_after, stack_after, Endless.extend_append, Endless.extend_append,
      Endless.extend_drop, Endless.extend_drop, h.stack, h.top, h.next]

/-- **A run.** From configurations that are alike it goes on alike, and prints the same. -/
lemma run (h : c.Alike d) (p : Program) (k : ℕ) :
    (p.run k c).Alike (p.run k d) ∧
      ∃ shown, (p.run k c).machine.printed = shown ++ c.machine.printed ∧
        (p.run k d).machine.printed = shown ++ d.machine.printed := by
  induction k generalizing c d with
  | zero => exact ⟨h, [], rfl, rfl⟩
  | succ k ih =>
    rw [Program.run_succ, Program.run_succ, Program.step?, Program.step?, h.counter]
    rcases p[c.counter]? with _ | i
    · exact ⟨h, [], rfl, rfl⟩
    · obtain ⟨halike, shown, hc, hd⟩ := ih (h.after i)
      refine ⟨halike, shown ++ i.shown c.machine.top, ?_, ?_⟩
      · rw [hc, printed_after, List.append_assoc]
      · rw [hd, printed_after, h.top, List.append_assoc]

end Config.Alike

namespace Program

variable {p : Program} {c : Config} {n : ℕ}

/-- A configuration that recurs up to zeros at the bottom of the stack recurs on every round. -/
lemma alike_run_mul (h : c.Alike (p.run n c)) (r : ℕ) : c.Alike (p.run (r * n) c) := by
  induction r with
  | zero => simpa using Config.Alike.refl c
  | succ r ih =>
    rw [Nat.succ_mul, Nat.add_comm, run_add]
    exact ih.trans (h.run p (r * n)).1

/-- So does every later one. -/
lemma alike_run_run (h : c.Alike (p.run n c)) (k : ℕ) :
    (p.run k c).Alike (p.run n (p.run k c)) := by
  have hlater := (h.run p k).1
  rwa [← run_add, Nat.add_comm n k, run_add] at hlater

lemma duration_eq_top_of_alike (h : c.Alike (p.run n c)) (hn : 0 < n)
    (hc : p.hasEnded c = false) : p.duration c = ⊤ := by
  refine ENat.eq_top_iff_forall_gt.2 fun k => ?_
  have hend : p.hasEnded (p.run (k * n) c) = false := by
    rw [hasEnded, (alike_run_mul h k).counter]
    exact hc
  calc (k : ℕ∞) ≤ (k * n : ℕ) := Nat.cast_le.2 (Nat.le_mul_of_pos_right k hn)
    _ < p.duration c := lt_duration_iff.2 hend

/-- Two rounds on end print the same. -/
lemma exists_shown_of_alike (h : c.Alike (p.run n c)) :
    ∃ shown, ∀ r : ℕ, (p.run ((r + 1) * n) c).machine.output =
      (p.run (r * n) c).machine.output ++ shown := by
  obtain ⟨-, shown, hfirst, -⟩ := (Config.Alike.refl c).run p n
  refine ⟨shown.reverse, fun r => ?_⟩
  obtain ⟨-, shown', hfirst', hround⟩ := (alike_run_mul h r).run p n
  obtain rfl : shown' = shown := List.append_cancel_right (hfirst'.symm.trans hfirst)
  rw [Nat.succ_mul, run_add, Machine.output, hround, List.reverse_append, Machine.output]

/-- **A run that comes back never ends.** If after `i` and after `j > i` instructions the position
is the same, inside the program, and so is the stack up to zeros at its bottom, then the run never
ends: from step `i` on its positions have the period `j - i`, and every period prints the same
numbers. A line whose run on a new machine is such a run exhausts every budget. -/
theorem run_periodic (p : Program) (m : Machine) {i j : ℕ} (hij : i < j)
    (hcounter : (p.run j (.start m)).counter = (p.run i (.start m)).counter)
    (hinside : (p.run i (.start m)).counter < p.size)
    (hstack : (p.run j (.start m)).machine.visible = (p.run i (.start m)).machine.visible) :
    (∀ k, (p.run k (.start m)).counter < p.size) ∧
      (∀ k, i ≤ k →
        (p.run (k + (j - i)) (.start m)).counter = (p.run k (.start m)).counter) ∧
      (∀ k, i ≤ k → ∃ shown, ∀ r : ℕ,
        (p.run (k + (r + 1) * (j - i)) (.start m)).machine.output =
          (p.run (k + r * (j - i)) (.start m)).machine.output ++ shown) ∧
      ∀ line, p = ofLine line → m = {} → ∀ (n : Int) (patience : ℕ),
        (Evaluation.ofLine (some n) patience line).machine? =
          some (.error (.budgetExhausted (max 1 n).toNat)) := by
  obtain ⟨n, hn, rfl⟩ : ∃ n, 0 < n ∧ j = i + n := ⟨j - i, by omega, by omega⟩
  rw [Nat.add_sub_cancel_left]
  rw [run_add] at hcounter hstack
  have hrecurs : ∀ k, i ≤ k →
      (p.run k (.start m)).Alike (p.run n (p.run k (.start m))) := by
    intro k hk
    obtain ⟨l, rfl⟩ := Nat.exists_eq_add_of_le hk
    rw [run_add p i l]
    exact alike_run_run (.of_visible hcounter hstack) l
  have hopen : p.hasEnded (p.run i (.start m)) = false := hasEnded_eq_false_iff.2 hinside
  have htop : p.duration (.start m) = ⊤ := by
    have hround := duration_eq_top_of_alike (hrecurs i le_rfl) hn hopen
    exact top_le_iff.1 (hround ▸ p.duration_run_le i (.start m))
  refine ⟨duration_eq_top_iff.1 htop, fun k hk => ?_, fun k hk => ?_, ?_⟩
  · rw [run_add]
    exact (hrecurs k hk).counter
  · simp only [run_add p k]
    exact exists_shown_of_alike (hrecurs k hk)
  · rintro line rfl rfl b patience
    have hlong : (allowance b : ℕ∞) < Evaluation.duration line :=
      (ENat.natCast_lt_top _).trans_eq htop.symm
    exact Evaluation.machine?_ofLine_of_lt_duration hlong

/-- A loop that leaves one zero more at the bottom of the stack on every round. -/
theorem run_periodic_growing_stack :
    let line := "dup 7 print 1 0 jnz"
    let p := ofLine line
    (p.run 6 (.start {})).counter = (p.run 0 (.start {})).counter ∧
      (p.run 0 (.start {})).counter < p.size ∧
      (p.run 6 (.start {})).machine.visible = (p.run 0 (.start {})).machine.visible ∧
      (p.run 6 (.start {})).machine.stack ≠ (p.run 0 (.start {})).machine.stack ∧
      (∀ k, (p.run (k + 6) (.start {})).counter = (p.run k (.start {})).counter) ∧
      ∀ (n : Int) (patience : ℕ), (Evaluation.ofLine (some n) patience line).machine? =
        some (.error (.budgetExhausted (max 1 n).toNat)) := by
  intro line p
  have hcounter : (p.run 6 (.start {})).counter = (p.run 0 (.start {})).counter := by
    decide +kernel
  have hinside : (p.run 0 (.start {})).counter < p.size := by decide
  have hstack : (p.run 6 (.start {})).machine.visible = (p.run 0 (.start {})).machine.visible := by
    decide +kernel
  obtain ⟨-, hperiod, -, hline⟩ := run_periodic p {} (by decide) hcounter hinside hstack
  exact ⟨hcounter, hinside, hstack, by decide +kernel, fun k => hperiod k (Nat.zero_le k),
    hline line rfl rfl⟩

end Program

end StackLine
