import Mathlib.Order.Filter.AtTopBot.Basic
import StackLine.Proofs.Duration

/-!
What a line comes to under a budget.

The verdict on a line is the machine that its unbounded run leaves, if this run ends within the
budget, and the exhausted budget otherwise. An evaluation that gives an answer gives the
verdict, and with patience enough it gives an answer, unless the line has no budget and its run
no end.
-/

namespace StackLine

open Filter

namespace Evaluation

variable {b : Budget} {line : String}

/-- The run of the line ends, and within the budget if there is one. -/
def Finishes : Budget → String → Prop
  | some n, line => duration line ≤ Program.allowance n
  | none, line => duration line ≠ ⊤

/-- The line has a budget or its run an end. -/
def Settles (b : Budget) (line : String) : Prop := b = none → duration line ≠ ⊤

open Classical in
/-- The machine that the line leaves, or its fault. -/
noncomputable def verdict (b : Budget) (line : String) : Part (Except Fault Machine) :=
  if Finishes b line then (unbounded line).map .ok
  else (Part.ofOption b).map fun n => .error (.budgetExhausted (Program.allowance n))

lemma ok_mem_verdict_iff {m : Machine} :
    .ok m ∈ verdict b line ↔ Finishes b line ∧ m ∈ unbounded line := by
  by_cases h : Finishes b line <;> simp [verdict, h]

lemma error_mem_verdict_iff {fault : Fault} :
    .error fault ∈ verdict b line ↔
      ¬Finishes b line ∧ ∃ n ∈ b, fault = .budgetExhausted (Program.allowance n) := by
  by_cases h : Finishes b line <;> simp [verdict, h, eq_comm]

/-- **An answer is the verdict.** -/
lemma mem_verdict_of_machine? {patience : ℕ} {r : Except Fault Machine}
    (h : (ofLine b patience line).machine? = some r) : r ∈ verdict b line := by
  rcases b with _ | n
  · have hend : (Program.ofLine line).hasEnded ((Program.ofLine line).run patience {}) = true := by
      by_contra hend
      simp [ofLine, machine?, Program.runWithin, hend] at h
    have hle : duration line ≤ patience := Program.duration_le_iff.2 hend
    rw [machine?_ofLine_none hle] at h
    cases h
    exact ok_mem_verdict_iff.2 ⟨ne_top_of_le_ne_top (ENat.natCast_ne_top _) hle,
      run_mem_unbounded hle⟩
  · by_cases hfin : Finishes (some n) line
    · rw [machine?_ofLine_of_duration_le hfin] at h
      cases h
      exact ok_mem_verdict_iff.2 ⟨hfin, run_mem_unbounded hfin⟩
    · rw [machine?_ofLine_of_lt_duration (not_le.1 hfin)] at h
      cases h
      exact error_mem_verdict_iff.2 ⟨hfin, n, rfl, rfl⟩

/-- **With patience enough there is an answer.** -/
lemma eventually_machine? (h : Settles b line) :
    ∀ᶠ patience in atTop, ∃ r, (ofLine b patience line).machine? = some r := by
  rcases b with _ | n
  · obtain ⟨k, hk⟩ := ENat.ne_top_iff_exists.1 (h rfl)
    refine eventually_atTop.2 ⟨k, fun patience hle => ⟨_, machine?_ofLine_none ?_⟩⟩
    rw [← hk]
    exact Nat.cast_le.2 hle
  · refine Eventually.of_forall fun patience => ?_
    rcases le_or_gt (duration line) (Program.allowance n) with hle | hlt
    · exact ⟨_, machine?_ofLine_of_duration_le hle⟩
    · exact ⟨_, machine?_ofLine_of_lt_duration hlt⟩

end Evaluation

end StackLine
