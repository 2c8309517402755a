import Mathlib.Algebra.BigOperators.Group.List.Basic
import Mathlib.Algebra.BigOperators.Intervals
import Mathlib.Algebra.Ring.Int.Defs
import StackLine.Proofs.Frame

/-!
The books of a run: how deep the stack is, and how much has been printed.

Each opcode changes the depth by a fixed amount, except that a number taken from an empty stack was
never there to be lost. So the depth after a run is told by how often each opcode was performed and
how often the stack was found empty, and by nothing else that the run did.
-/

namespace StackLine

namespace Machine

/-- How often the stack is found empty while so many numbers are taken off. -/
def emptyPops : ℕ → Machine → ℕ
  | 0, _ => 0
  | n + 1, m => (if m.stack = [] then 1 else 0) + emptyPops n m.pop.2

lemma emptyPops_eq (n : ℕ) (m : Machine) : m.emptyPops n = n - m.stack.length := by
  induction n generalizing m with
  | zero => simp [emptyPops]
  | succ n ih =>
    rw [emptyPops, ih, pop_eq]
    rcases m with ⟨_ | ⟨x, s⟩, out⟩
    · simp [Nat.add_comm]
    · simp

end Machine

namespace Opcode

/-- By how much an instruction deepens a stack that has what it takes. -/
def gain : Opcode → ℤ
  | literal | word .dup => 1
  | word .add | word .sub | word .mul | word .div | word .print => -1
  | word .swap => 0
  | word .jump => -2

/-- The gains of some instructions, by how often each opcode is among them. -/
lemma sum_gain (ops : List Opcode) :
    (ops.map gain).sum =
      ops.count literal + ops.count (word .dup)
        - (ops.count (word .add) + ops.count (word .sub) + ops.count (word .mul)
          + ops.count (word .div))
        - ops.count (word .print) - 2 * ops.count (word .jump) := by
  induction ops with
  | nil => rfl
  | cons op ops ih =>
    rw [List.map_cons, List.sum_cons, ih]
    rcases op with w | _
    · cases w <;> simp [gain] <;> omega
    · simp [gain]
      omega

end Opcode

namespace Instruction

lemma length_put (i : Instruction) (top next : Binary64) :
    ((i.put top next).length : ℤ) = i.taken + i.opcode.gain := by
  cases i with
  | literal x => rfl
  | operator w carried => cases w <;> rfl

/-- A stack of depth `n` is raised by at most one number, but that a copy and an exchange put two
numbers on an empty stack. -/
lemma length_put_add_le (i : Instruction) (top next : Binary64) (n : ℕ) :
    if n = 0 ∧ (i.opcode = .word .dup ∨ i.opcode = .word .swap) then
      (i.put top next).length + (n - i.taken) = n + 2
    else (i.put top next).length + (n - i.taken) ≤ n + 1 := by
  cases i with
  | literal x => simp [put, taken, opcode, Nat.add_comm]
  | operator w carried =>
    cases w with
    | dup | swap =>
      simp only [put, taken, opcode, List.length_cons, List.length_nil]
      split_ifs with h <;> simp at h <;> omega
    | add | sub | mul | div | jump | print =>
      simp [put, taken, opcode]
      omega

end Instruction

namespace Config

variable (c : Config) (i : Instruction)

/-- **One instruction.** -/
lemma length_after :
    ((c.after i).machine.stack.length : ℤ) =
      c.machine.stack.length + c.machine.emptyPops i.taken + i.opcode.gain := by
  have hput := i.length_put c.machine.top c.machine.next
  rw [stack_after, List.length_append, List.length_drop, Machine.emptyPops_eq]
  push_cast
  omega

lemma length_after_le :
    if c.machine.stack = [] ∧ (i.opcode = .word .dup ∨ i.opcode = .word .swap) then
      (c.after i).machine.stack.length = c.machine.stack.length + 2
    else (c.after i).machine.stack.length ≤ c.machine.stack.length + 1 := by
  rw [stack_after, List.length_append, List.length_drop]
  simpa only [List.length_eq_zero_iff] using
    i.length_put_add_le c.machine.top c.machine.next c.machine.stack.length

end Config

namespace Program

variable {p : Program} {c : Config} {k : ℕ}

/-- How often the instruction ahead finds the stack empty. -/
def emptyPopsAhead (p : Program) (c : Config) : ℕ :=
  p[c.counter]?.elim 0 fun i => c.machine.emptyPops i.taken

/-- How often the first `k` instructions of a run find the stack empty. -/
def emptyPops (p : Program) (k : ℕ) (c : Config) : ℕ :=
  ∑ j ∈ Finset.range k, p.emptyPopsAhead (p.run j c)

/-- The opcodes of the first `k` instructions that a run performs, in order. -/
def opcodes (p : Program) (k : ℕ) (c : Config) : List Opcode :=
  (List.range k).filterMap fun j => p[(p.run j c).counter]?.map Instruction.opcode

lemma emptyPops_succ :
    p.emptyPops (k + 1) c = p.emptyPops k c + p.emptyPopsAhead (p.run k c) :=
  Finset.sum_range_succ _ k

lemma opcodes_succ :
    p.opcodes (k + 1) c =
      p.opcodes k c ++ (p[(p.run k c).counter]?.map Instruction.opcode).toList :=
  filterMap_range_succ _ k

/-- **The depth after a run.** -/
lemma length_run (p : Program) (k : ℕ) (c : Config) :
    ((p.run k c).machine.stack.length : ℤ) =
      c.machine.stack.length + p.emptyPops k c + ((p.opcodes k c).map Opcode.gain).sum := by
  induction k with
  | zero => simp [emptyPops, opcodes]
  | succ k ih =>
    rw [emptyPops_succ, opcodes_succ, emptyPopsAhead]
    rcases hi : p[(p.run k c).counter]? with _ | i
    · rw [run_succ_of_getElem?_eq_none hi, ih]
      simp
    · rw [run_succ_of_getElem? hi, Config.length_after, ih]
      simp
      omega

/-- **The output of a run.** -/
lemma exists_output_run (p : Program) (k : ℕ) (c : Config) :
    ∃ new, (p.run k c).machine.output = c.machine.output ++ new ∧
      new.length = (p.opcodes k c).count (.word .print) := by
  induction k with
  | zero => exact ⟨[], by simp, rfl⟩
  | succ k ih =>
    obtain ⟨new, hnew, hlength⟩ := ih
    rw [opcodes_succ]
    rcases hi : p[(p.run k c).counter]? with _ | i
    · rw [run_succ_of_getElem?_eq_none hi]
      exact ⟨new, hnew, by simpa using hlength⟩
    · rw [run_succ_of_getElem? hi, output_after, hnew, List.append_assoc]
      refine ⟨_, rfl, ?_⟩
      rw [List.length_append, hlength, List.count_append, Option.map_some, Option.toList_some,
        List.count_singleton]
      split_ifs <;> simp_all

/-- **The books of a run balance.** After any number of instructions, the stack is as deep as at
the start, and deeper by one for each time that it was found empty, for each literal and for each
copy; and less deep by one for each calculation and each print, and by two for each jump, taken or
not. The output is that of the start and one number more for each print. No instruction raises the
stack by more than one number, except a copy and an exchange on an empty stack, which raise it by
two. -/
theorem accounting_run (p : Program) (m : Machine) (k : ℕ) :
    let c := p.run k (.start m)
    let ops := p.opcodes k (.start m)
    (c.machine.stack.length : ℤ) =
        m.stack.length + p.emptyPops k (.start m) + ops.count .literal + ops.count (.word .dup)
          - (ops.count (.word .add) + ops.count (.word .sub) + ops.count (.word .mul)
            + ops.count (.word .div))
          - ops.count (.word .print) - 2 * ops.count (.word .jump) ∧
      (∃ new, c.machine.output = m.output ++ new ∧ new.length = ops.count (.word .print)) ∧
      ∀ i ∈ p[c.counter]?,
        let d := p.run (k + 1) (.start m)
        if c.machine.stack = [] ∧ (i.opcode = .word .dup ∨ i.opcode = .word .swap) then
          d.machine.stack.length = c.machine.stack.length + 2
        else d.machine.stack.length ≤ c.machine.stack.length + 1 := by
  intro c ops
  refine ⟨?_, exists_output_run p k _, fun i hi => ?_⟩
  · have hlength : (c.machine.stack.length : ℤ) =
        m.stack.length + p.emptyPops k (.start m) + (ops.map Opcode.gain).sum :=
      length_run p k (.start m)
    rw [Opcode.sum_gain] at hlength
    omega
  · intro d
    simp only [d]
    rw [run_succ_of_getElem? hi]
    exact c.length_after_le i

/-- A sum that finds one of its numbers, and an exchange that finds none. -/
theorem accounting_run_underflow :
    let p := ofLine "+ print swp 0 jnz"
    let m : Machine := ⟨[.nan], [.zero]⟩
    let i : Instruction := .operator .swap none
    i ∈ p[(p.run 2 (.start m)).counter]? ∧
      (p.run 3 (.start m)).machine.stack.length = 2 ∧
      p.emptyPops 5 (.start m) = 3 ∧ (p.run 5 (.start m)).machine.stack.length = 1 ∧
      (p.run 5 (.start m)).machine.output.length = 2 := by
  intro p m i
  have hi : i ∈ p[(p.run 2 (.start m)).counter]? := by decide +kernel
  have hempty : (p.run 2 (.start m)).machine.stack = [] := by decide +kernel
  have hpops : p.emptyPops 5 (.start m) = 3 := by decide +kernel
  have hops : p.opcodes 5 (.start m) =
      [.word .add, .word .print, .word .swap, .literal, .word .jump] := by decide +kernel
  obtain ⟨-, -, hraised⟩ := accounting_run p m 2
  have hswap := hraised i hi
  rw [if_pos ⟨hempty, .inr rfl⟩, hempty] at hswap
  obtain ⟨hdepth, ⟨new, hout, hnew⟩, -⟩ := accounting_run p m 5
  rw [hpops, hops] at hdepth
  rw [hops] at hnew
  refine ⟨hi, hswap, hpops, Int.ofNat_inj.1 hdepth, ?_⟩
  rw [hout, List.length_append, hnew]
  rfl

end Program

end StackLine
