import StackLine.Proofs.Sequence

/-!
Runs that only jump ahead.

Where every jump that is taken names a later position, the position grows with every instruction,
so no instruction is performed twice and the run ends within as many steps as the program has
instructions. It is the run that has to jump ahead: the targets are numbers found on the stack.
-/

namespace StackLine

namespace Program

variable {p : Program} {c : Config} {i j k n : ℕ}

/-- Every jump that the run takes names a position behind that of the jump itself. -/
def JumpsAhead (p : Program) (c : Config) : Prop :=
  ∀ k, ∀ t ∈ p.target? (p.run k c), (p.run k c).counter < t.toIndex

/-- For a run that ends, the jumps before its end are all there are. -/
lemma jumpsAhead_of_forall_lt (hend : p.hasEnded (p.run n c) = true)
    (h : ∀ k < n, ∀ t ∈ p.target? (p.run k c), (p.run k c).counter < t.toIndex) :
    p.JumpsAhead c := by
  intro k t ht
  rcases Nat.lt_or_ge k n with hk | hk
  · exact h k hk t ht
  · have hpast : p[(p.run k c).counter]? = none := by
      rw [run_eq_of_le hk hend]
      exact Array.getElem?_eq_none (by simpa [hasEnded] using hend)
    rw [target?_of_getElem?_eq_none hpast] at ht
    cases ht

lemma jumpsAhead_of_straight (h : ∀ i ∈ p.toList, i.opcode ≠ .word .jump) (c : Config) :
    p.JumpsAhead c := by
  intro k t ht
  rcases hi : p[(p.run k c).counter]? with _ | i
  · rw [target?_of_getElem?_eq_none hi] at ht
    cases ht
  · have hmem : i ∈ p.toList := Array.mem_toList_iff.2 (Array.mem_of_getElem? hi)
    rw [target?_of_getElem? hi, ← Machine.jump?_eq, Machine.jump?_eq_none _ (h i hmem)] at ht
    cases ht

/-- **One step.** -/
lemma JumpsAhead.counter_lt (h : p.JumpsAhead c) (hk : k < p.duration c) :
    (p.run k c).counter < (p.run (k + 1) c).counter := by
  have hinside := hasEnded_eq_false_iff.1 (lt_duration_iff.1 hk)
  have hi := Array.getElem?_eq_getElem hinside
  have hahead := h k
  rw [target?_of_getElem? hi] at hahead
  rw [run_succ_of_getElem? hi, Config.counter_after]
  cases ht : p[(p.run k c).counter].target? (p.run k c).machine.top (p.run k c).machine.next with
  | none => exact Nat.lt_succ_self _
  | some t => exact hahead t ht

/-- **A run.** With every instruction the position grows by one at least. -/
lemma JumpsAhead.counter_add_le (h : p.JumpsAhead c) (hle : (j + i : ℕ) ≤ p.duration c) :
    (p.run j c).counter + i ≤ (p.run (j + i) c).counter := by
  induction i with
  | zero => exact le_rfl
  | succ i ih =>
    have hlt : (j + i : ℕ) < p.duration c :=
      (Nat.cast_lt.2 (Nat.lt_succ_self (j + i))).trans_le hle
    exact (Nat.succ_le_succ (ih hlt.le)).trans (h.counter_lt hlt)

lemma JumpsAhead.duration_le (h : p.JumpsAhead c) : p.duration c ≤ (p.size - c.counter : ℕ) := by
  by_contra hlong
  rw [not_le] at hlong
  have hinside := hasEnded_eq_false_iff.1 (lt_duration_iff.1 hlong)
  have hgrown := h.counter_add_le (j := 0) (i := p.size - c.counter) (by simpa using hlong.le)
  rw [run_zero, Nat.zero_add] at hgrown
  omega

lemma counter_run_of_straight (h : ∀ i ∈ p.toList, i.opcode ≠ .word .jump) (m : Machine)
    (hk : k ≤ p.size) : (p.run k (.start m)).counter = k := by
  have hsplit : p.toList.drop (Config.start m).counter = p.toList.take k ++ p.toList.drop k :=
    (List.take_append_drop k p.toList).symm
  have hlength : (p.toList.take k).length = k := by
    rw [List.length_take, Array.length_toList, Nat.min_eq_left hk]
  obtain ⟨-, hrun⟩ := run_block hsplit fun i hi => h i (List.mem_of_mem_take hi)
  rw [hlength] at hrun
  rw [hrun, Config.straight, hlength]
  exact Nat.zero_add k

/-- **A run that only jumps ahead ends.** It performs no more instructions than the program has,
each at most once and in the order in which they stand. A program without jumps performs each of
its instructions exactly once, from the first to the last. A line that only jumps ahead finishes
within every budget that its tokens do not exceed. -/
theorem duration_le_of_jumpsAhead (p : Program) (m : Machine) :
    (p.JumpsAhead (.start m) →
      p.duration (.start m) ≤ p.size ∧
        ∀ j k : ℕ, j < k → k < p.duration (.start m) →
          (p.run j (.start m)).counter < (p.run k (.start m)).counter) ∧
      ((∀ i ∈ p.toList, i.opcode ≠ .word .jump) →
        p.JumpsAhead (.start m) ∧ p.duration (.start m) = p.size ∧
          ∀ k < p.size, (p.run k (.start m)).counter = k) ∧
      ∀ line, p = ofLine line → m = {} → p.JumpsAhead (.start m) →
        ∀ (n : Int) (patience : ℕ), (tokens line).length ≤ n →
          ∃ left ∈ Evaluation.unbounded line,
            (Evaluation.ofLine (some n) patience line).machine? = some (.ok left) := by
  refine ⟨fun h => ⟨h.duration_le, fun j k hjk hk => ?_⟩, fun h => ⟨?_, ?_, fun k hk => ?_⟩, ?_⟩
  · obtain ⟨i, hi, rfl⟩ : ∃ i, 0 < i ∧ k = j + i := ⟨k - j, by omega, by omega⟩
    have hgrown := h.counter_add_le hk.le
    omega
  · exact jumpsAhead_of_straight h _
  · exact (run_straight (c := .start m) List.drop_zero h).1
  · exact counter_run_of_straight h m hk.le
  · rintro line rfl rfl h n patience hn
    have hallowed : (tokens line).length ≤ allowance n := by
      rw [allowance]
      omega
    have hshort : Evaluation.duration line ≤ allowance n := by
      refine (h.duration_le).trans (Nat.cast_le.2 ?_)
      rw [ofLine, size_ofTokens]
      exact (Nat.sub_le _ _).trans hallowed
    exact ⟨_, Evaluation.run_mem_unbounded hshort,
      Evaluation.machine?_ofLine_of_duration_le hshort⟩

/-- A jump ahead over one instruction, and a jump back that is not taken; and a program without
jumps. -/
theorem duration_le_of_jumpsAhead_jump_over :
    let line := "1 4.9 jnz 9 0 0 jnz print"
    let p := ofLine line
    let q : Program := #[.operator .swap none, .literal .nan, .operator .print (some .zero)]
    p.JumpsAhead (.start {}) ∧ p.duration (.start {}) ≤ p.size ∧
      ((5 : ℕ) < p.duration (.start {}) ∧
        (p.run 2 (.start {})).counter < (p.run 5 (.start {})).counter) ∧
      ((tokens line).length ≤ (8 : ℤ) ∧
        ∃ left ∈ Evaluation.unbounded line,
          (Evaluation.ofLine (some 8) 0 line).machine? = some (.ok left)) ∧
      (∀ i ∈ q.toList, i.opcode ≠ .word .jump) ∧ q.duration (.start {}) = q.size ∧
        (q.run 2 (.start {})).counter = 2 := by
  intro line p q
  have hahead : p.JumpsAhead (.start {}) :=
    jumpsAhead_of_forall_lt (n := 7) (by decide +kernel) (by decide +kernel)
  have hlong : (5 : ℕ) < p.duration (.start {}) := lt_duration_iff.2 (by decide +kernel)
  have htokens : (tokens line).length ≤ (8 : ℤ) := by decide
  have hstraight : ∀ i ∈ q.toList, i.opcode ≠ .word .jump := by decide
  obtain ⟨hend, -, hfinish⟩ := duration_le_of_jumpsAhead p {}
  obtain ⟨-, hduration, hcounter⟩ := (duration_le_of_jumpsAhead q {}).2.1 hstraight
  exact ⟨hahead, (hend hahead).1, ⟨hlong, (hend hahead).2 2 5 (by decide) hlong⟩,
    ⟨htokens, hfinish line rfl rfl hahead 8 0 htokens⟩, hstraight, hduration,
    hcounter 2 (by decide)⟩

end Program

end StackLine
