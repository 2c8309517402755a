import Mathlib.Tactic.Lemma
import StackLine.Run

/-!
What an instruction does, in terms of the two upper numbers of the stack.

A number that is not there counts as zero: `top` and `next` are defined on every machine, and
what is left below them is a tail.
-/

namespace StackLine

namespace Machine

variable (m : Machine) (carried : Option Binary64)

def top : Binary64 := m.stack.headD .zero

/-- The number below the top. -/
def next : Binary64 := m.stack.tail.headD .zero

lemma pop_eq : m.pop = (m.top, { m with stack := m.stack.tail }) := by
  rcases m with ⟨_ | ⟨x, s⟩, out⟩ <;> rfl

lemma popTwo_eq : m.popTwo = (m.top, m.next, { m with stack := m.stack.tail.tail }) := by
  simp [popTwo, pop_eq, top, next]

lemma combine_eq (f : Binary64 → Binary64 → Binary64) :
    m.combine f = { m with stack := f m.next m.top :: m.stack.tail.tail } := by
  simp [combine, popTwo_eq, push]

@[simp] lemma perform_literal (x : Binary64) :
    m.perform (.literal x) = { m with stack := x :: m.stack } := rfl

@[simp] lemma perform_add :
    m.perform (.operator .add carried) =
      { m with stack := m.next.add m.top :: m.stack.tail.tail } := m.combine_eq _

@[simp] lemma perform_sub :
    m.perform (.operator .sub carried) =
      { m with stack := m.next.sub m.top :: m.stack.tail.tail } := m.combine_eq _

@[simp] lemma perform_mul :
    m.perform (.operator .mul carried) =
      { m with stack := m.next.mul m.top :: m.stack.tail.tail } := m.combine_eq _

@[simp] lemma perform_div :
    m.perform (.operator .div carried) =
      { m with stack := quotient m.next m.top :: m.stack.tail.tail } := m.combine_eq _

@[simp] lemma perform_dup :
    m.perform (.operator .dup carried) = { m with stack := m.top :: m.top :: m.stack.tail } := by
  simp [perform, apply, pop_eq, push]

@[simp] lemma perform_swap :
    m.perform (.operator .swap carried) =
      { m with stack := m.next :: m.top :: m.stack.tail.tail } := by
  simp [perform, apply, popTwo_eq, push]

@[simp] lemma perform_jump :
    m.perform (.operator .jump carried) = { m with stack := m.stack.tail.tail } := by
  simp [perform, apply, popTwo_eq]

@[simp] lemma perform_print :
    m.perform (.operator .print carried) = ⟨m.stack.tail, m.top :: m.printed⟩ := by
  simp [perform, apply, pop_eq, emit]

lemma jump?_jump :
    m.jump? (.operator .jump carried) = if m.next.isZero then none else some m.top := by
  simp [jump?, popTwo_eq]

/-- Only the jump word jumps. -/
lemma jump?_eq_none {i : Instruction} (h : i.opcode ≠ .word .jump) : m.jump? i = none := by
  cases i with
  | literal x => rfl
  | operator w carried =>
    cases w with
    | jump => exact absurd rfl h
    | add | sub | mul | div | dup | swap | print => rfl

end Machine

namespace Config

variable (c : Config) (i : Instruction)

/-- The configuration from which a program runs on a machine. -/
def start (m : Machine) : Config := { machine := m }

@[simp] lemma machine_after : (c.after i).machine = c.machine.perform i := by
  unfold after
  split <;> rfl

variable {c i}

lemma counter_after_of_jump {t : Binary64} (h : c.machine.jump? i = some t) :
    (c.after i).counter = t.toIndex := by
  rw [after, h]

lemma counter_after_of_no_jump (h : c.machine.jump? i = none) :
    (c.after i).counter = c.counter + 1 := by
  rw [after, h]

end Config

end StackLine
