import Mathlib.Data.Stream.Init
import StackLine.Proofs.Exact
import StackLine.Proofs.Perform

/-!
A machine without edges: below the numbers pushed its stack has zeros without end, so no
instruction ever meets an empty stack, and the position that a jump names is not cut off.

The machine of this library runs in lockstep with it. In particular, zeros at the bottom of the
stack are of no consequence to a run.
-/

namespace StackLine

/-- A configuration of the machine without edges. -/
structure Endless where
  counter : ℕ∞
  stack : Stream' Binary64
  /-- The latest comes first. -/
  printed : List Binary64

namespace Endless

/-- The stack with zeros below it. -/
def extend (s : List Binary64) : Stream' Binary64 := s ++ₛ Stream'.const .zero

def start (m : Machine) : Endless := ⟨0, extend m.stack, m.printed⟩

/-- The instruction at the position, if it is inside the program. -/
def fetch (p : Program) (a : Endless) : Option Instruction :=
  match a.counter with
  | ⊤ => none
  | (n : ℕ) => p[n]?

/-- The two upper numbers give way to one; the function gets the lower one first. -/
def combine (f : Binary64 → Binary64 → Binary64) (s : Stream' Binary64) : Stream' Binary64 :=
  .cons (f s.tail.head s.head) s.tail.tail

/-- The configuration after an instruction. -/
def after (a : Endless) : Instruction → Endless
  | .literal x => ⟨a.counter + 1, .cons x a.stack, a.printed⟩
  | .operator .add _ => ⟨a.counter + 1, combine .add a.stack, a.printed⟩
  | .operator .sub _ => ⟨a.counter + 1, combine .sub a.stack, a.printed⟩
  | .operator .mul _ => ⟨a.counter + 1, combine .mul a.stack, a.printed⟩
  | .operator .div _ => ⟨a.counter + 1, combine Machine.quotient a.stack, a.printed⟩
  | .operator .dup _ =>
    ⟨a.counter + 1, .cons a.stack.head (.cons a.stack.head a.stack.tail), a.printed⟩
  | .operator .swap _ =>
    ⟨a.counter + 1, .cons a.stack.tail.head (.cons a.stack.head a.stack.tail.tail), a.printed⟩
  | .operator .print _ => ⟨a.counter + 1, a.stack.tail, a.stack.head :: a.printed⟩
  | .operator .jump _ =>
    let next := if a.stack.tail.head.isZero then a.counter + 1 else a.stack.head.position
    ⟨next, a.stack.tail.tail, a.printed⟩

/-- The configuration after a number of instructions, or at the end if that comes first. -/
def run (p : Program) : ℕ → Endless → Endless
  | 0, a => a
  | k + 1, a =>
    match a.fetch p with
    | some i => run p k (a.after i)
    | none => a

/-! ### The stack with zeros below it -/

lemma head_extend (m : Machine) : (extend m.stack).head = m.top := by
  rcases m with ⟨_ | ⟨x, s⟩, out⟩ <;> rfl

lemma tail_extend (s : List Binary64) : (extend s).tail = extend s.tail := by
  cases s <;> rfl

lemma head_extend_tail (m : Machine) : (extend m.stack.tail).head = m.next := by
  rcases m with ⟨_ | ⟨x, _ | ⟨y, s⟩⟩, out⟩ <;> rfl

lemma cons_extend (x : Binary64) (s : List Binary64) : .cons x (extend s) = extend (x :: s) := rfl

lemma extend_append_zeros (s : List Binary64) (j : ℕ) :
    extend (s ++ List.replicate j .zero) = extend s := by
  have hz : ∀ j, List.replicate j Binary64.zero ++ₛ Stream'.const .zero = Stream'.const .zero := by
    intro j
    induction j with
    | zero => rfl
    | succ j ih =>
      rw [List.replicate_succ, Stream'.cons_append_stream, ih, ← Stream'.const_eq]
  rw [extend, Stream'.append_append_stream, hz, extend]

end Endless

/-- The configuration stands for the one without edges. -/
structure Config.Refines (c : Config) (a : Endless) : Prop where
  counter : (c.counter : ℕ∞) = min a.counter Binary64.maxIndex
  stack : a.stack = Endless.extend c.machine.stack
  printed : a.printed = c.machine.printed

namespace Config.Refines

variable {c : Config} {a : Endless} {p : Program}

lemma start (m : Machine) : (Config.start m).Refines (Endless.start m) :=
  ⟨by simp [Config.start, Endless.start], rfl, rfl⟩

/-- Below the cap the two counters are the same. -/
lemma counter_eq (h : c.Refines a) (hc : c.counter < Binary64.maxIndex) :
    a.counter = c.counter := by
  have hmin := h.counter
  rcases min_choice a.counter (Binary64.maxIndex : ℕ∞) with ha | ha
  · rw [hmin, ha]
  · rw [ha, Nat.cast_inj] at hmin
    omega

lemma le_counter_iff (h : c.Refines a) {n : ℕ} (hn : n ≤ Binary64.maxIndex) :
    (n : ℕ∞) ≤ a.counter ↔ n ≤ c.counter := by
  rw [← @Nat.cast_le ℕ∞, h.counter, le_min_iff, Nat.cast_le]
  exact ⟨fun ha => ⟨ha, hn⟩, fun ha => ha.1⟩

lemma fetch_eq (h : c.Refines a) (hp : p.size ≤ Binary64.maxIndex) :
    a.fetch p = p[c.counter]? := by
  by_cases hc : c.counter < Binary64.maxIndex
  · rw [Endless.fetch, h.counter_eq hc]
  · -- at the cap both positions are past the end
    have hcap : (Binary64.maxIndex : ℕ∞) ≤ a.counter := (h.le_counter_iff le_rfl).2 (by omega)
    rw [Array.getElem?_eq_none (by omega), Endless.fetch]
    split
    · rfl
    · next n hn =>
      have hn : a.counter = (n : ℕ∞) := hn
      rw [hn, Nat.cast_le] at hcap
      exact Array.getElem?_eq_none (by omega)

/-- Without a jump the counters go on together. -/
lemma counter_succ (h : c.Refines a) (hc : c.counter < Binary64.maxIndex) :
    ((c.counter + 1 : ℕ) : ℕ∞) = min (a.counter + 1) Binary64.maxIndex := by
  rw [h.counter_eq hc, ← Nat.cast_succ, ← Nat.mono_cast.map_min, Nat.min_eq_left hc]

lemma after_of_no_jump (h : c.Refines a) (hc : c.counter < Binary64.maxIndex) {i : Instruction}
    (hi : i.opcode ≠ .word .jump) : (c.after i).Refines (a.after i) := by
  have hnext := Config.counter_after_of_no_jump (Machine.jump?_eq_none c.machine hi)
  have hcounter := h.counter_succ hc
  cases i with
  | literal x =>
    refine ⟨?_, ?_, ?_⟩ <;>
      simp [Endless.after, hnext, hcounter, h.stack, h.printed, Endless.cons_extend]
  | operator w carried =>
    cases w with
    | jump => exact absurd rfl hi
    | add | sub | mul | div | dup | swap | print =>
      refine ⟨?_, ?_, ?_⟩ <;>
        simp [Endless.after, Endless.combine, hnext, hcounter, h.stack, h.printed,
          Endless.head_extend, Endless.head_extend_tail, Endless.tail_extend,
          Endless.cons_extend]

lemma after_jump (h : c.Refines a) (hc : c.counter < Binary64.maxIndex)
    (carried : Option Binary64) :
      (c.after (.operator .jump carried)).Refines (a.after (.operator .jump carried)) := by
  have hjump := c.machine.jump?_jump carried
  refine ⟨?_, ?_, ?_⟩
  · rw [Endless.after, h.stack, Endless.tail_extend, Endless.head_extend_tail,
      Endless.head_extend]
    rcases hcond : c.machine.next.isZero with _ | _ <;> rw [hcond] at hjump
    · rw [Config.counter_after_of_jump hjump, Binary64.toIndex_eq_min]
      rfl
    · rw [Config.counter_after_of_no_jump hjump, h.counter_succ hc]
      rfl
  · simp [Endless.after, h.stack, Endless.tail_extend]
  · simp [Endless.after, h.printed]

/-- **One instruction.** Whatever the instruction is and however few numbers are on the stack,
the two configurations after it stand for each other again. -/
lemma after (h : c.Refines a) (hc : c.counter < Binary64.maxIndex) (i : Instruction) :
    (c.after i).Refines (a.after i) := by
  by_cases hi : i.opcode = .word .jump
  · rcases i with ⟨w, carried⟩ | x
    · cases hi
      exact h.after_jump hc carried
    · cases hi
  · exact h.after_of_no_jump hc hi

/-- **A run.** -/
lemma run (h : c.Refines a) (hp : p.size ≤ Binary64.maxIndex) (k : ℕ) :
    (p.run k c).Refines (Endless.run p k a) := by
  induction k generalizing c a with
  | zero => exact h
  | succ k ih =>
    rw [Program.run_succ, Program.step?, Endless.run, h.fetch_eq hp]
    rcases hi : p[c.counter]? with _ | i
    · exact h
    · obtain ⟨hlt, -⟩ := Array.getElem?_eq_some_iff.1 hi
      exact ih (h.after (by omega) i)

end Config.Refines

namespace Program

/-- **Lockstep.** A program of at most `2 ^ 63 - 1` instructions and its run on the machine
without edges go together: after any number of steps from any machine the next instruction is
the same, one has ended exactly if the other has, the output is the same, and the stack with
zeros below it is the endless stack. Zeros beneath the first stack therefore change neither the
counters nor the output of the run. -/
theorem run_lockstep (p : Program) (hp : p.size ≤ Binary64.maxIndex) (m : Machine) (k : ℕ) :
    let c := p.run k (.start m)
    let a := Endless.run p k (.start m)
    a.fetch p = p[c.counter]? ∧
      (p.hasEnded c = true ↔ (p.size : ℕ∞) ≤ a.counter) ∧
      a.printed.reverse = c.machine.output ∧
      a.stack = Endless.extend c.machine.stack ∧
      ∀ j : ℕ,
        let below := { m with stack := m.stack ++ List.replicate j .zero }
        let d := p.run k (.start below)
        d.counter = c.counter ∧ d.machine.output = c.machine.output := by
  intro c a
  have h : c.Refines a := (Config.Refines.start m).run hp k
  refine ⟨h.fetch_eq hp, ?_, ?_, h.stack, ?_⟩
  · rw [h.le_counter_iff hp]
    simp [hasEnded]
  · rw [h.printed, Machine.output]
  · intro j below d
    -- both machines have the same endless stack
    have hstart : Endless.start below = Endless.start m := by
      simp [Endless.start, below, Endless.extend_append_zeros]
    have hd : d.Refines a := by
      have hbelow := (Config.Refines.start below).run hp k
      rwa [hstart] at hbelow
    constructor
    · exact Nat.cast_injective (hd.counter.trans h.counter.symm)
    · rw [Machine.output, Machine.output, ← hd.printed, ← h.printed]

/-- A swap on the empty stack, and a jump so far that its position is cut off. -/
theorem run_lockstep_far_jump :
    let p : Program := #[.operator .swap none, .literal .nan, .literal (.infinite false),
      .operator .jump none]
    p.size ≤ Binary64.maxIndex ∧
      (p.run 4 (.start {})).counter = Binary64.maxIndex ∧
      (Endless.run p 4 (.start {})).stack = Endless.extend [.zero, .zero] :=
  ⟨by decide, by decide, (run_lockstep _ (by decide) {} 4).2.2.2.1⟩

end Program

end StackLine
