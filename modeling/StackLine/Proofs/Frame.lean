import StackLine.Proofs.Duration
import StackLine.Proofs.Effect

/-!
What a run leaves alone.

No instruction reads what has been printed, or the stack below the numbers that it takes. So what
was printed before a run stays in front of what the run prints; and as long as no instruction takes
from an empty stack, whatever lies beneath the stack stays there and changes nothing.
-/

namespace StackLine

namespace Machine

variable {m below : Machine} {i : Instruction}

/-- How often an instruction takes from an empty stack. -/
def missing (m : Machine) (i : Instruction) : ℕ := i.taken - m.stack.length

/-- The machine with another one beneath: its stack stands on the other stack, and its output
behind the other output. -/
def above (m below : Machine) : Machine :=
  ⟨m.stack ++ below.stack, m.printed ++ below.printed⟩

lemma output_above (m below : Machine) : (m.above below).output = below.output ++ m.output :=
  List.reverse_append

/-- The numbers that the instruction takes are those on top. -/
lemma operands_above (h : below.stack = [] ∨ m.missing i = 0) :
    (0 < i.taken → (m.above below).top = m.top) ∧
      (1 < i.taken → (m.above below).next = m.next) := by
  rcases h with h | h
  · simp [above, top, next, h]
  · rcases m with ⟨_ | ⟨x, _ | ⟨y, s⟩⟩, out⟩ <;> simp [missing, above, top, next] at h ⊢ <;> omega

lemma jump?_above (h : below.stack = [] ∨ m.missing i = 0) :
    (m.above below).jump? i = m.jump? i := by
  obtain ⟨htop, hnext⟩ := operands_above h
  rw [jump?_eq, jump?_eq]
  exact (Instruction.effect_congr htop hnext).2.2

lemma perform_above (h : below.stack = [] ∨ m.missing i = 0) :
    (m.above below).perform i = (m.perform i).above below := by
  obtain ⟨htop, hnext⟩ := operands_above h
  obtain ⟨hput, hshown, -⟩ := Instruction.effect_congr htop hnext
  have hdrop : below.stack.drop (m.missing i) = below.stack := by
    rcases h with h | h <;> simp [h]
  rw [missing] at hdrop
  rw [perform_eq, perform_eq, hput, hshown]
  simp [above, List.drop_append, hdrop]

end Machine

namespace Config

/-- The configuration with another machine beneath its own. -/
def above (c : Config) (below : Machine) : Config := { c with machine := c.machine.above below }

/-- **One instruction.** What lies beneath stays there and changes nothing. -/
lemma after_above {c : Config} {below : Machine} {i : Instruction}
    (h : below.stack = [] ∨ c.machine.missing i = 0) :
    (c.above below).after i = (c.after i).above below := by
  have hjump : (c.above below).machine.jump? i = c.machine.jump? i := Machine.jump?_above h
  have hperform : (c.above below).machine.perform i = (c.machine.perform i).above below :=
    Machine.perform_above h
  unfold after
  rw [hjump, hperform]
  cases c.machine.jump? i <;> rfl

end Config

namespace Program

variable {p : Program} {c : Config} {below : Machine} {k : ℕ}

/-- None of the first `k` instructions of a run takes from an empty stack. -/
def Supplied (p : Program) (k : ℕ) (c : Config) : Prop :=
  ∀ j < k, ∀ i ∈ p[(p.run j c).counter]?, (p.run j c).machine.missing i = 0

instance : Decidable (p.Supplied k c) :=
  inferInstanceAs (Decidable (∀ j < k, ∀ i ∈ p[(p.run j c).counter]?, _ = 0))

/-- **A run.** -/
lemma run_above (h : below.stack = [] ∨ p.Supplied k c) :
    p.run k (c.above below) = (p.run k c).above below := by
  induction k with
  | zero => rfl
  | succ k ih =>
    have hrun := ih (h.imp_right fun h j hj => h j (by omega))
    have hcounter : (p.run k (c.above below)).counter = (p.run k c).counter := by
      rw [hrun]
      rfl
    rcases hi : p[(p.run k c).counter]? with _ | i
    · rw [run_succ_of_getElem?_eq_none (hcounter ▸ hi), hrun, run_succ_of_getElem?_eq_none hi]
    · rw [run_succ_of_getElem? (hcounter ▸ hi), hrun, run_succ_of_getElem? hi]
      exact Config.after_above (h.imp_right fun h => h k k.lt_succ_self i hi)

/-! ### What was printed before -/

lemma duration_above (h : below.stack = []) : p.duration (c.above below) = p.duration c := by
  refine duration_congr fun k => ?_
  rw [run_above (.inl h)]
  rfl

lemma runToEnd_above (h : below.stack = []) :
    p.runToEnd (c.above below) = (p.runToEnd c).map (·.above below) := by
  refine Part.ext fun d => ?_
  simp only [mem_runToEnd_iff, Part.mem_map_iff, duration_above h, run_above (.inl h)]
  constructor
  · rintro ⟨n, hn, rfl⟩
    exact ⟨_, ⟨n, hn, rfl⟩, rfl⟩
  · rintro ⟨_, ⟨n, hn, rfl⟩, rfl⟩
    exact ⟨n, hn, rfl⟩

/-- Only a print adds to the output, and it adds the number that it takes. -/
lemma output_after (c : Config) (i : Instruction) :
    (c.after i).machine.output =
      c.machine.output ++ if i.opcode = .word .print then [c.machine.pop.1] else [] := by
  have hshown : (i.shown c.machine.top).reverse =
      if i.opcode = .word .print then [c.machine.pop.1] else [] := by
    rw [Machine.pop_eq]
    cases i with
    | literal x => rfl
    | operator w carried => cases w <;> rfl
  rw [Machine.output, Config.printed_after, List.reverse_append, hshown, Machine.output]

/-- **Output is only added to, and never read.** The run on a machine that has printed before goes
through the same positions and stacks as on the same machine without that output, and its output
is what was printed before and then the output of the other run. A print adds exactly the number
that it takes from the stack, and no other instruction adds to the output. So if one of the
unbounded runs ends, both do, and what was printed before stands in front of what the program
prints on this stack. -/
theorem output_run_eq_append (p : Program) (m : Machine) :
    let fresh : Machine := { m with printed := [] }
    (∀ k,
      let c := p.run k (.start m)
      let d := p.run k (.start fresh)
      c.counter = d.counter ∧ c.machine.stack = d.machine.stack ∧
        c.machine.output = m.output ++ d.machine.output ∧
        ∀ i ∈ p[c.counter]?, (p.run (k + 1) (.start m)).machine.output =
          c.machine.output ++ if i.opcode = .word .print then [c.machine.pop.1] else []) ∧
      (p.runToEnd (.start m)).map (·.machine.output) =
        (p.runToEnd (.start fresh)).map (m.output ++ ·.machine.output) := by
  intro fresh
  let before : Machine := ⟨[], m.printed⟩
  have hstart : Config.start m = (Config.start fresh).above before := by
    simp [Config.start, Config.above, Machine.above, fresh, before]
  constructor
  · intro k c d
    have hrun : c = d.above before := by
      rw [← run_above (.inl rfl), ← hstart]
    refine ⟨by rw [hrun]; rfl, ?_, ?_, fun i hi => ?_⟩
    · rw [hrun]
      exact List.append_nil _
    · rw [hrun]
      exact d.machine.output_above before
    · rw [run_succ_of_getElem? hi]
      exact output_after c i
  · rw [hstart, runToEnd_above rfl, Part.map_map]
    exact congrArg (Part.map · _) (funext fun d => d.machine.output_above before)

/-- The second print of a machine with a number on its stack and one in its output. -/
theorem output_run_eq_append_print :
    let p := ofLine "7 print + print"
    let m : Machine := ⟨[.nan], [.zero]⟩
    let i : Instruction := .operator .print none
    i ∈ p[(p.run 3 (.start m)).counter]? ∧
      (p.run 4 (.start m)).machine.output = (p.run 3 (.start m)).machine.output ++ [.nan] := by
  intro p m i
  have hi : i ∈ p[(p.run 3 (.start m)).counter]? := by decide +kernel
  obtain ⟨-, -, -, hprint⟩ := (output_run_eq_append p m).1 3
  have hpop : (p.run 3 (.start m)).machine.pop.1 = .nan := by decide +kernel
  exact ⟨hi, by rw [hprint i hi, hpop]; rfl⟩

/-! ### What lies beneath the stack -/

/-- **What lies beneath the stack stays there and changes nothing.** Let none of the first `k`
instructions of a run take from an empty stack. Then the run from the stack with other numbers
beneath it performs the same instructions, comes to the same positions and prints the same, and
its stack is that of the first run with the other numbers still beneath it. -/
theorem run_stack_append (p : Program) (m : Machine) (beneath : List Binary64) (k : ℕ)
    (h : p.Supplied k (.start m)) :
    let raised : Machine := { m with stack := m.stack ++ beneath }
    ∀ j ≤ k,
      let c := p.run j (.start m)
      let d := p.run j (.start raised)
      p[d.counter]? = p[c.counter]? ∧ d.counter = c.counter ∧
        d.machine.output = c.machine.output ∧ d.machine.stack = c.machine.stack ++ beneath := by
  intro raised j hj c d
  have hstart : Config.start raised = (Config.start m).above ⟨beneath, []⟩ := by
    simp [Config.start, Config.above, Machine.above, raised]
  have hrun : d = c.above ⟨beneath, []⟩ := by
    rw [← run_above (.inr fun l hl => h l (by omega)), ← hstart]
  rw [hrun]
  exact ⟨rfl, rfl, c.machine.output_above _, rfl⟩

/-- A loop that counts down from three on top of two numbers. -/
theorem run_stack_append_loop :
    let p := ofLine "dup print 1 - dup 0 jnz"
    let m : Machine := ⟨[.ofText "3"], []⟩
    let beneath : List Binary64 := [.nan, .infinite false]
    p.Supplied 21 (.start m) ∧ (p.run 21 (.start m)).machine.stack = [.zero] ∧
      (p.run 21 (.start { m with stack := m.stack ++ beneath })).machine.stack =
        [.zero] ++ beneath := by
  intro p m beneath
  have hsupplied : p.Supplied 21 (.start m) := by decide +kernel
  have hstack : (p.run 21 (.start m)).machine.stack = [.zero] := by decide +kernel
  obtain ⟨-, -, -, hraised⟩ := run_stack_append p m beneath 21 hsupplied 21 le_rfl
  rw [hstack] at hraised
  exact ⟨hsupplied, hstack, hraised⟩

end Program

end StackLine
