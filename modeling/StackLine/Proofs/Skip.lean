import StackLine.Proofs.Sequence

/-!
A jump ahead.

A condition, a target and a jump stand between two programs without jumps. Whether the jump is
taken or not, both numbers are gone from the stack afterwards, so what is left is the run of the
first program and of that part of the second one which starts where the jump goes to.
-/

namespace StackLine

namespace Program

variable {p : Program} {before behind : List Instruction} {condition target : Binary64}

/-- The instruction behind a block without jumps. -/
lemma run_block_succ {c : Config} {is rest : List Instruction} {i : Instruction}
    (h : p.toList.drop c.counter = is ++ i :: rest) (hstraight : ∀ i ∈ is, i.opcode ≠ .word .jump) :
    (is.length + 1 : ℕ) ≤ p.duration c ∧ p.run (is.length + 1) c = (c.straight is).after i := by
  obtain ⟨hle, hrun⟩ := run_block h hstraight
  have hfetch : p[c.counter + is.length]? = some i := by
    rw [← Array.getElem?_toList, ← List.getElem?_drop, h]
    simp
  have hstep : p.step? (c.straight is) = some ((c.straight is).after i) := by
    rw [step?, Config.straight, hfetch]
  constructor
  · rw [duration_eq_add hle, hrun, duration_of_step? hstep, Nat.cast_succ]
    gcongr
    exact le_add_self
  · rw [run_add, hrun, run_succ_of_step? hstep, run_zero]

/-- The instructions that end in a jump to the target, taken if the condition is not zero. -/
def jumpBlock (condition target : Binary64) : List Instruction :=
  [.literal condition, .literal target, .operator .jump none]

/-- Through the first program and the jump: both numbers are gone. -/
lemma run_jumpBlock (hp : p.toList = before ++ jumpBlock condition target ++ behind)
    (hbefore : ∀ i ∈ before, i.opcode ≠ .word .jump) (m : Machine) :
    (p.run (before.length + 3) (.start m)).machine = before.foldl Machine.perform m ∧
      (p.run (before.length + 3) (.start m)).counter =
        if condition.isZero then before.length + 3 else target.toIndex := by
  let numbers : List Instruction := [.literal condition, .literal target]
  have hsplit : p.toList.drop (Config.start m).counter =
      (before ++ numbers) ++ .operator .jump none :: behind := by
    rw [Config.start, List.drop_zero, hp, jumpBlock]
    simp [numbers]
  have hstraight : ∀ i ∈ before ++ numbers, i.opcode ≠ .word .jump := by
    rw [List.forall_mem_append]
    exact ⟨hbefore, by simp [numbers, Instruction.opcode]⟩
  obtain ⟨-, hrun⟩ := run_block_succ hsplit hstraight
  have hstraightMachine : ((Config.start m).straight (before ++ numbers)).machine =
      { before.foldl Machine.perform m with
        stack := target :: condition :: (before.foldl Machine.perform m).stack } := by
    simp [Config.straight, Config.start, numbers, List.foldl_append]
  have hlength : (before ++ numbers).length + 1 = before.length + 3 := by simp [numbers]
  rw [← hlength, hrun, Config.machine_after, Config.counter_after, hstraightMachine]
  constructor
  · simp
  · cases hzero : condition.isZero <;>
      simp [Instruction.target?, Machine.top, Machine.next, hzero, Config.straight, Config.start,
        numbers]

/-- Behind the jump the second program runs from where it is entered. -/
lemma exists_mem_runToEnd_skip (hp : p.toList = before ++ jumpBlock condition target ++ behind)
    (hbefore : ∀ i ∈ before, i.opcode ≠ .word .jump)
    (hbehind : ∀ i ∈ behind, i.opcode ≠ .word .jump) {j : ℕ}
    (hj : (if condition.isZero then before.length + 3 else target.toIndex) =
      before.length + 3 + j) (m : Machine) :
    ∃ d ∈ p.runToEnd (.start m),
      d.machine = (before ++ behind.drop j).foldl Machine.perform m := by
  obtain ⟨hmachine, hcounter⟩ := run_jumpBlock hp hbefore m
  rw [hj] at hcounter
  have hrest : p.toList.drop (p.run (before.length + 3) (.start m)).counter = behind.drop j := by
    have hlength : (before ++ jumpBlock condition target).length = before.length + 3 := by
      simp [jumpBlock]
    rw [hcounter, hp, ← hlength, List.drop_length_add_append]
  have hend := straight_mem_runToEnd hrest fun i hi => hbehind i (List.mem_of_mem_drop hi)
  rw [runToEnd_run] at hend
  refine ⟨_, hend, ?_⟩
  rw [Config.straight, hmachine, List.foldl_append]

/-- On the machine both programs end, and they leave the same stack and the same output. -/
def EndAlike (m : Machine) (p q : Program) : Prop :=
  ∃ d ∈ p.runToEnd (.start m), ∃ e ∈ q.runToEnd (.start m),
    d.machine.stack = e.machine.stack ∧ d.machine.output = e.machine.output

lemma endAlike_skip {ts us : List String} {c t : String} (hts : "jnz" ∉ ts) (hus : "jnz" ∉ us)
    (hc : Word.ofToken? c = none) (ht : Word.ofToken? t = none) {j : ℕ}
    (hj : (if (Binary64.ofText c).isZero then ts.length + 3 else (Binary64.ofText t).toIndex) =
      ts.length + 3 + j) (m : Machine) :
    EndAlike m (ofTokens (ts ++ [c, t, "jnz"] ++ us)) (ofTokens (ts ++ us.drop j)) := by
  have hjump : Word.ofToken? "jnz" = some .jump := Word.ofToken?_token .jump
  have hwhole : (ofTokens (ts ++ [c, t, "jnz"] ++ us)).toList =
      ts.map Instruction.ofToken ++ jumpBlock (Binary64.ofText c) (Binary64.ofText t) ++
        us.map Instruction.ofToken := by
    simp [ofTokens, jumpBlock, Instruction.ofToken, hc, ht, hjump]
  have hshort : (ofTokens (ts ++ us.drop j)).toList =
      ts.map Instruction.ofToken ++ (us.map Instruction.ofToken).drop j := by
    simp [ofTokens]
  have hbefore := opcode_ne_jump_of_mem_ofTokens hts
  have hbehind := opcode_ne_jump_of_mem_ofTokens hus
  obtain ⟨d, hd, hmachine⟩ :=
    exists_mem_runToEnd_skip hwhole hbefore hbehind (by simpa using hj) m
  have he := straight_mem_runToEnd (p := ofTokens (ts ++ us.drop j)) (c := .start m) hshort
    (List.forall_mem_append.2 ⟨hbefore, fun i hi => hbehind i (List.mem_of_mem_drop hi)⟩)
  refine ⟨d, hd, _, he, ?_⟩
  rw [hmachine]
  exact ⟨rfl, rfl⟩

/-- **A jump ahead skips exactly.** Between tokens `ts` and `us` without jumps let a condition `c`,
a target `t` and a jump stand. On every machine the whole ends. If the condition is zero it leaves
the stack and output of `ts` and `us` without them. If not, and the target names the position of
the token number `j` of `us`, it leaves those of `ts` and of `us` without its first `j` tokens,
which is `ts` alone from the end of `us` on. -/
theorem runToEnd_skip (m : Machine) (ts us : List String) (c t : String) (hts : "jnz" ∉ ts)
    (hus : "jnz" ∉ us) (hc : Word.ofToken? c = none) (ht : Word.ofToken? t = none) :
    let whole := ofTokens (ts ++ [c, t, "jnz"] ++ us)
    ((Binary64.ofText c).isZero = true → EndAlike m whole (ofTokens (ts ++ us))) ∧
      ((Binary64.ofText c).isZero = false →
        ∀ j, (Binary64.ofText t).toIndex = ts.length + 3 + j →
          EndAlike m whole (ofTokens (ts ++ us.drop j)) ∧
            (us.length ≤ j → EndAlike m whole (ofTokens ts))) := by
  intro whole
  refine ⟨fun hzero => ?_, fun hzero j hj => ?_⟩
  · exact endAlike_skip (j := 0) hts hus hc ht (by rw [hzero]; rfl) m
  · have hskip : EndAlike m whole (ofTokens (ts ++ us.drop j)) :=
      endAlike_skip hts hus hc ht (by rw [hzero]; exact hj) m
    refine ⟨hskip, fun hle => ?_⟩
    rwa [List.drop_eq_nil_of_le hle, List.append_nil] at hskip

/-- A first program that takes from an empty stack and has an empty token: what is not a number
counts as a condition, a fraction in the target is dropped, and infinity is past every end. -/
theorem runToEnd_skip_past_empty_tokens :
    let m : Machine := ⟨[.nan], [.zero]⟩
    let ts := ["+", ""]
    let us := ["9", "print", "dup"]
    "jnz" ∉ ts ∧ "jnz" ∉ us ∧
      (Word.ofToken? "nan" = none ∧ Word.ofToken? "6.9" = none ∧
        (Binary64.ofText "nan").isZero = false ∧
        (Binary64.ofText "6.9").toIndex = ts.length + 3 + 1 ∧
        EndAlike m (ofTokens (ts ++ ["nan", "6.9", "jnz"] ++ us)) (ofTokens (ts ++ us.drop 1))) ∧
      (Word.ofToken? "inf" = none ∧
        (Binary64.ofText "inf").toIndex = ts.length + 3 + 9223372036854775802 ∧
        us.length ≤ 9223372036854775802 ∧
        EndAlike m (ofTokens (ts ++ ["nan", "inf", "jnz"] ++ us)) (ofTokens ts)) ∧
      Word.ofToken? "-0" = none ∧ (Binary64.ofText "-0").isZero = true ∧
        EndAlike m (ofTokens (ts ++ ["-0", "inf", "jnz"] ++ us)) (ofTokens (ts ++ us)) := by
  intro m ts us
  have hts : "jnz" ∉ ts := by decide
  have hus : "jnz" ∉ us := by decide
  have hnan : Word.ofToken? "nan" = none := by decide
  have hfraction : Word.ofToken? "6.9" = none := by decide
  have hinf : Word.ofToken? "inf" = none := by decide
  have hminus : Word.ofToken? "-0" = none := by decide
  have hnonzero : (Binary64.ofText "nan").isZero = false := by decide +kernel
  have hzero : (Binary64.ofText "-0").isZero = true := by decide +kernel
  have hsix : (Binary64.ofText "6.9").toIndex = ts.length + 3 + 1 := by decide +kernel
  have hfar : (Binary64.ofText "inf").toIndex = ts.length + 3 + 9223372036854775802 := by
    decide +kernel
  have hpast : us.length ≤ 9223372036854775802 := by decide
  exact ⟨hts, hus,
    ⟨hnan, hfraction, hnonzero, hsix,
      ((runToEnd_skip m ts us "nan" "6.9" hts hus hnan hfraction).2 hnonzero 1 hsix).1⟩,
    ⟨hinf, hfar, hpast,
      ((runToEnd_skip m ts us "nan" "inf" hts hus hnan hinf).2 hnonzero _ hfar).2 hpast⟩,
    hminus, hzero, (runToEnd_skip m ts us "-0" "inf" hts hus hminus hinf).1 hzero⟩

end Program

end StackLine
