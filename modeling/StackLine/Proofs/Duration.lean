import Mathlib.Computability.StateTransition
import Mathlib.Data.ENat.Lattice
import StackLine.Evaluation

/-!
How long a run is, and what a budget makes of it.

The duration of a run is the number of instructions it performs before its position is past the
last one; it is infinite when the position never is. A budget cuts a run off exactly when the
duration exceeds it.
-/

namespace StackLine

namespace Program

variable {p : Program} {c d : Config}

open Classical in
/-- The least number of instructions after which the run has ended. -/
noncomputable def duration (p : Program) (c : Config) : ℕ∞ :=
  if h : ∃ k, p.hasEnded (p.run k c) = true then Nat.find h else ⊤

/-- The configuration that the unbounded run ends in, if it ends. -/
def runToEnd (p : Program) (c : Config) : Part Config := StateTransition.eval p.step? c

lemma run_succ_of_step? (h : p.step? c = some d) (k : ℕ) : p.run (k + 1) c = p.run k d := by
  rw [run_succ, h]

lemma run_of_step?_eq_none (h : p.step? c = none) (k : ℕ) : p.run k c = c :=
  run_of_hasEnded ((step?_eq_none_iff p c).1 h) k

/-- The instruction performed last. -/
lemma run_succ_of_getElem? {k : ℕ} {i : Instruction} (h : p[(p.run k c).counter]? = some i) :
    p.run (k + 1) c = (p.run k c).after i := by
  have hstep : p.step? (p.run k c) = some ((p.run k c).after i) := by
    rw [step?, h]
  rw [run_add, run_succ_of_step? hstep, run_zero]

lemma run_succ_of_getElem?_eq_none {k : ℕ} (h : p[(p.run k c).counter]? = none) :
    p.run (k + 1) c = p.run k c := by
  have hstep : p.step? (p.run k c) = none := by
    rw [step?, h]
  rw [run_add, run_of_step?_eq_none hstep]

lemma run_eq_of_le {j k : ℕ} (hjk : j ≤ k) (h : p.hasEnded (p.run j c) = true) :
    p.run k c = p.run j c := by
  obtain ⟨i, rfl⟩ := Nat.exists_eq_add_of_le hjk
  rw [run_add, run_of_hasEnded h]

lemma duration_le_iff {k : ℕ} : p.duration c ≤ k ↔ p.hasEnded (p.run k c) = true := by
  unfold duration
  split
  case isTrue h =>
    rw [Nat.cast_le, Nat.find_le_iff]
    constructor
    · rintro ⟨j, hjk, hj⟩
      rwa [run_eq_of_le hjk hj]
    · exact fun hk => ⟨k, le_rfl, hk⟩
  case isFalse h =>
    have hk : ¬p.hasEnded (p.run k c) = true := fun hk => h ⟨k, hk⟩
    simp [hk]

lemma lt_duration_iff {k : ℕ} : k < p.duration c ↔ p.hasEnded (p.run k c) = false := by
  rw [← not_le, duration_le_iff, Bool.not_eq_true]

/-- Runs that end after the same numbers of instructions are equally long. -/
lemma duration_congr {q : Program} (h : ∀ k, p.hasEnded (p.run k c) = q.hasEnded (q.run k d)) :
    p.duration c = q.duration d := by
  refine eq_of_forall_ge_iff fun n => ?_
  cases n with
  | top => simp
  | coe k => rw [duration_le_iff, duration_le_iff, h]

lemma hasEnded_eq_false_iff : p.hasEnded c = false ↔ c.counter < p.size := by
  simp [hasEnded]

/-- A run without end never leaves its program. -/
lemma duration_eq_top_iff : p.duration c = ⊤ ↔ ∀ k, (p.run k c).counter < p.size := by
  simp only [← hasEnded_eq_false_iff, ← lt_duration_iff]
  exact ENat.eq_top_iff_forall_gt

/-- The first instruction accounts for one, the rest of the run for the others. -/
lemma duration_of_step? (h : p.step? c = some d) : p.duration c = p.duration d + 1 := by
  refine eq_of_forall_ge_iff fun n => ?_
  cases n with
  | top => simp
  | coe n =>
    cases n with
    | zero =>
      have hc : p.hasEnded c = false := by
        rw [← Bool.not_eq_true, ← step?_eq_none_iff, h]
        exact Option.some_ne_none d
      rw [duration_le_iff, run_zero, hc]
      simp
    | succ n =>
      rw [duration_le_iff, run_succ_of_step? h, ← duration_le_iff, Nat.cast_succ]
      exact (WithTop.add_le_add_iff_right ENat.one_ne_top).symm

lemma succ_le_duration_iff (h : p.step? c = some d) {k : ℕ} :
    (k + 1 : ℕ) ≤ p.duration c ↔ k ≤ p.duration d := by
  rw [duration_of_step? h, Nat.cast_succ]
  exact WithTop.add_le_add_iff_right ENat.one_ne_top

lemma duration_of_hasEnded (h : p.hasEnded c = true) : p.duration c = 0 :=
  nonpos_iff_eq_zero.1 (duration_le_iff.2 h)

/-- What is left of a run, and what came before. -/
lemma duration_eq_add {k : ℕ} (h : k ≤ p.duration c) :
    p.duration c = k + p.duration (p.run k c) := by
  induction k generalizing c with
  | zero => simp
  | succ k ih =>
    rcases hstep : p.step? c with _ | d
    · rw [duration_of_hasEnded ((step?_eq_none_iff p c).1 hstep)] at h
      simp at h
    · rw [duration_of_step? hstep, run_succ_of_step? hstep, ih ((succ_le_duration_iff hstep).1 h),
        Nat.cast_succ, add_right_comm]

lemma duration_run_le (p : Program) (j : ℕ) (c : Config) :
    p.duration (p.run j c) ≤ p.duration c := by
  cases h : p.duration c with
  | top => exact le_top
  | coe k =>
    have hend := duration_le_iff.1 h.le
    rw [duration_le_iff, ← run_add, run_eq_of_le (Nat.le_add_left k j) hend]
    exact hend

/-! ### The unbounded run -/

lemma reaches_run (p : Program) (k : ℕ) (c : Config) :
    StateTransition.Reaches p.step? c (p.run k c) := by
  induction k generalizing c with
  | zero => exact .refl
  | succ k ih =>
    rcases h : p.step? c with _ | d
    · rw [run_of_step?_eq_none h]
      exact .refl
    · rw [run_succ_of_step? h]
      exact .head h (ih d)

lemma exists_run_of_reaches (h : StateTransition.Reaches p.step? c d) : ∃ k, p.run k c = d := by
  induction h using Relation.ReflTransGen.head_induction_on with
  | refl => exact ⟨0, rfl⟩
  | head hstep _ ih =>
    obtain ⟨k, hk⟩ := ih
    exact ⟨k + 1, by rwa [run_succ_of_step? hstep]⟩

lemma run_mem_runToEnd {k : ℕ} (h : p.duration c ≤ k) : p.run k c ∈ p.runToEnd c :=
  StateTransition.mem_eval.2 ⟨p.reaches_run k c, (step?_eq_none_iff p _).2 (duration_le_iff.1 h)⟩

/-- The unbounded run ends where the run does that performs its whole duration. -/
lemma mem_runToEnd_iff :
    d ∈ p.runToEnd c ↔ ∃ n : ℕ, p.duration c = n ∧ p.run n c = d := by
  constructor
  · intro hd
    obtain ⟨hreach, hend⟩ := StateTransition.mem_eval.1 hd
    obtain ⟨k, rfl⟩ := exists_run_of_reaches hreach
    have hk : p.duration c ≤ k := duration_le_iff.2 ((step?_eq_none_iff p _).1 hend)
    obtain ⟨n, hn⟩ := ENat.ne_top_iff_exists.1 (ne_top_of_le_ne_top (ENat.natCast_ne_top k) hk)
    have hnk : n ≤ k := by rwa [← hn, Nat.cast_le] at hk
    exact ⟨n, hn.symm, (run_eq_of_le hnk (duration_le_iff.1 hn.ge)).symm⟩
  · rintro ⟨n, hn, rfl⟩
    exact run_mem_runToEnd hn.le

/-- Where the unbounded run ends does not depend on how much of it has been performed. -/
lemma runToEnd_run (p : Program) (k : ℕ) (c : Config) : p.runToEnd (p.run k c) = p.runToEnd c :=
  (StateTransition.reaches_eval (p.reaches_run k c)).symm

/-! ### The counted run -/

/-- The number of instructions that a run may perform within a limit: at least one. -/
def allowance (limit : Int) : ℕ := (max 1 limit).toNat

/-- A counted run stops where the run does that performs what is left of the limit. -/
lemma runCounted_eq (p : Program) (limit : Int) (count : ℕ) (c : Config) :
    p.runCounted limit count c =
      (p.run (allowance (limit - count)) c,
        if p.hasEnded (p.run (allowance (limit - count)) c) then .ended
        else .exhausted (count + allowance (limit - count))) := by
  fun_induction runCounted p limit count c with
  | case1 count c h =>
    rw [run_of_step?_eq_none h, if_pos ((step?_eq_none_iff p c).1 h)]
  | case2 count c d h hd =>
    have hone : allowance (limit - count) = 1 := by
      unfold allowance
      omega
    rw [hone, run_succ_of_step? h, run_zero, hd.2]
    rfl
  | case3 count c d h hd ih =>
    rw [ih]
    by_cases hl : limit ≤ (count + 1 : ℕ)
    · -- the last instruction within the limit has ended the run
      have hend : p.hasEnded d = true := by simp_all
      have hone : allowance (limit - count) = 1 := by
        unfold allowance
        omega
      rw [hone, run_succ_of_step? h, run_zero, run_of_hasEnded hend, hend]
      rfl
    · have hsucc : allowance (limit - count) = allowance (limit - (count + 1 : ℕ)) + 1 := by
        unfold allowance
        omega
      rw [hsucc, run_succ_of_step? h, Nat.add_assoc, Nat.add_comm 1]

end Program

namespace Evaluation

/-- The number of instructions that a line performs. -/
noncomputable def duration (line : String) : ℕ∞ := (Program.ofLine line).duration {}

/-- The machine that the unbounded run of a line leaves, if it ends. -/
def unbounded (line : String) : Part Machine :=
  ((Program.ofLine line).runToEnd {}).map Config.machine

lemma run_mem_unbounded {line : String} {k : ℕ} (h : duration line ≤ k) :
    ((Program.ofLine line).run k {}).machine ∈ unbounded line :=
  Part.mem_map _ (Program.run_mem_runToEnd h)

lemma machine?_ofLine_of_duration_le {line : String} {n : Int} {patience : ℕ}
    (h : duration line ≤ Program.allowance n) :
    (ofLine (some n) patience line).machine? =
      some (.ok ((Program.ofLine line).run (Program.allowance n) {}).machine) := by
  have hend := Program.duration_le_iff.1 h
  simp [ofLine, machine?, Program.runWithin, Program.runCounted_eq, hend]

lemma machine?_ofLine_of_lt_duration {line : String} {n : Int} {patience : ℕ}
    (h : Program.allowance n < duration line) :
    (ofLine (some n) patience line).machine? =
      some (.error (.budgetExhausted (Program.allowance n))) := by
  have hend := Program.lt_duration_iff.1 h
  simp [ofLine, machine?, Program.runWithin, Program.runCounted_eq, hend]

lemma machine?_ofLine_none {line : String} {patience : ℕ} (h : duration line ≤ patience) :
    (ofLine none patience line).machine? =
      some (.ok ((Program.ofLine line).run patience {}).machine) := by
  have hend := Program.duration_le_iff.1 h
  simp [ofLine, machine?, Program.runWithin, hend]

/-- **A budget is exact.** Under a budget of `n` a line fails if and only if its duration exceeds
the larger of `1` and `n`, and the fault then names that number. In all other cases the line
leaves the machine that its unbounded run leaves. So does a line without a budget whose duration
is finite, given patience enough. -/
theorem machine?_ofLine (line : String) :
    (∀ (n : Int) (patience : ℕ),
      let allowed := (max 1 n).toNat
      let result := (ofLine (some n) patience line).machine?
      ((∃ f, result = some (.error f)) ↔ allowed < duration line) ∧
        (∀ f, result = some (.error f) → f = .budgetExhausted allowed) ∧
        (duration line ≤ allowed → ∃ m ∈ unbounded line, result = some (.ok m))) ∧
    ∀ patience : ℕ, duration line ≤ patience →
      ∃ m ∈ unbounded line, (ofLine none patience line).machine? = some (.ok m) := by
  constructor
  · intro n patience
    dsimp only
    rcases le_or_gt (duration line) (Program.allowance n) with h | h
    · rw [machine?_ofLine_of_duration_le h]
      refine ⟨⟨by simp, fun hlt => absurd hlt (not_lt.2 h)⟩, by simp, fun _ => ?_⟩
      exact ⟨_, run_mem_unbounded h, rfl⟩
    · rw [machine?_ofLine_of_lt_duration h]
      refine ⟨⟨fun _ => h, fun _ => ⟨_, rfl⟩⟩, ?_, fun hle => absurd h (not_lt.2 hle)⟩
      intro f hf
      cases hf
      rfl
  · intro patience h
    exact ⟨_, run_mem_unbounded h, machine?_ofLine_none h⟩

end Evaluation

end StackLine
