import StackLine.Proofs.Perform

/-!
One rule for all instructions.

An instruction takes a number of numbers off the stack, puts others in their place and prints at
most one. How many it takes is fixed; what it puts and prints, and whether it jumps, depends on
the two upper numbers alone. So what holds of every instruction needs no look at each of them.
-/

namespace StackLine

namespace Instruction

/-- How many numbers an instruction takes off the stack. -/
def taken : Instruction → Nat
  | literal _ => 0
  | operator .dup _ | operator .print _ => 1
  | operator _ _ => 2

/-- What an instruction puts in the place of the numbers that it takes, the top first. -/
def put (top next : Binary64) : Instruction → List Binary64
  | literal x => [x]
  | operator .add _ => [next.add top]
  | operator .sub _ => [next.sub top]
  | operator .mul _ => [next.mul top]
  | operator .div _ => [Machine.quotient next top]
  | operator .dup _ => [top, top]
  | operator .swap _ => [next, top]
  | operator .jump _ | operator .print _ => []

def shown (top : Binary64) : Instruction → List Binary64
  | operator .print _ => [top]
  | _ => []

/-- The target of the jump that an instruction takes, if it takes one. -/
def target? (top next : Binary64) : Instruction → Option Binary64
  | operator .jump _ => if next.isZero then none else some top
  | _ => none

/-- What an instruction does depends on the numbers that it takes alone. -/
lemma effect_congr {i : Instruction} {top top' next next' : Binary64}
    (htop : 0 < i.taken → top = top') (hnext : 1 < i.taken → next = next') :
    i.put top next = i.put top' next' ∧ i.shown top = i.shown top' ∧
      i.target? top next = i.target? top' next' := by
  cases i with
  | literal x => exact ⟨rfl, rfl, rfl⟩
  | operator w carried =>
    obtain rfl : top = top' := htop (by cases w <;> simp [taken])
    cases w with
    | dup | print => exact ⟨rfl, rfl, rfl⟩
    | add | sub | mul | div | swap | jump =>
      obtain rfl : next = next' := hnext (by simp [taken])
      exact ⟨rfl, rfl, rfl⟩

end Instruction

namespace Machine

variable (m : Machine) (i : Instruction)

/-- **One rule for all instructions.** -/
lemma perform_eq :
    m.perform i =
      ⟨i.put m.top m.next ++ m.stack.drop i.taken, i.shown m.top ++ m.printed⟩ := by
  cases i with
  | literal x => rfl
  | operator w carried =>
    cases w <;> simp [Instruction.put, Instruction.taken, Instruction.shown, ← List.drop_one]

lemma jump?_eq : m.jump? i = i.target? m.top m.next := by
  cases i with
  | literal x => rfl
  | operator w carried =>
    cases w with
    | jump => exact m.jump?_jump carried
    | add | sub | mul | div | dup | swap | print => rfl

end Machine

namespace Config

variable (c : Config) (i : Instruction)

lemma counter_after :
    (c.after i).counter =
      (i.target? c.machine.top c.machine.next).elim (c.counter + 1) Binary64.toIndex := by
  rw [← Machine.jump?_eq, after]
  split <;> next h => rw [h]; rfl

lemma stack_after :
    (c.after i).machine.stack =
      i.put c.machine.top c.machine.next ++ c.machine.stack.drop i.taken := by
  rw [machine_after, Machine.perform_eq]

lemma printed_after :
    (c.after i).machine.printed = i.shown c.machine.top ++ c.machine.printed := by
  rw [machine_after, Machine.perform_eq]

lemma jumps_after :
    (c.after i).jumps = (i.target? c.machine.top c.machine.next).toList ++ c.jumps := by
  rw [← Machine.jump?_eq, after]
  split <;> next h => rw [h]; rfl

end Config

namespace Program

variable {p : Program} {c : Config}

/-- What the steps of a run give, with one step more. -/
lemma filterMap_range_succ {α : Type} (f : Nat → Option α) (k : Nat) :
    (List.range (k + 1)).filterMap f = (List.range k).filterMap f ++ (f k).toList := by
  rw [List.range_succ, List.filterMap_append]
  cases h : f k <;> simp [h]

/-- The target of the jump that the instruction ahead takes, if it takes one. -/
def target? (p : Program) (c : Config) : Option Binary64 :=
  p[c.counter]?.bind fun i => i.target? c.machine.top c.machine.next

lemma target?_of_getElem? {i : Instruction} (h : p[c.counter]? = some i) :
    p.target? c = i.target? c.machine.top c.machine.next := by
  rw [target?, h, Option.bind_some]

lemma target?_of_getElem?_eq_none (h : p[c.counter]? = none) : p.target? c = none := by
  rw [target?, h, Option.bind_none]

end Program

end StackLine
