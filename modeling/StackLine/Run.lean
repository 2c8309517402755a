import StackLine.Machine
import StackLine.Program

/-!
Running a program.

A configuration is a position in the program and a machine; it also remembers the targets of the
jumps taken. A run ends when the position is past the last instruction. A jump may go back, so a
run need not end, and every function here takes the number of instructions it may perform.
-/

namespace StackLine

structure Config where
  counter : Nat := 0
  machine : Machine := {}
  /-- The targets of the jumps taken, the latest first. -/
  jumps : List Binary64 := []
  deriving DecidableEq

/-- The configuration after an instruction: a jump goes to the position that its target names,
all else to the next. -/
def Config.after (c : Config) (i : Instruction) : Config :=
  match c.machine.jump? i with
  | some target => ⟨target.toIndex, c.machine.perform i, target :: c.jumps⟩
  | none => ⟨c.counter + 1, c.machine.perform i, c.jumps⟩

namespace Program

/-- There is no next configuration exactly when the position is past the last instruction. -/
def step? (p : Program) (c : Config) : Option Config :=
  match p[c.counter]? with
  | some i => some (c.after i)
  | none => none

def hasEnded (p : Program) (c : Config) : Bool := decide (p.size ≤ c.counter)

/-- The configuration after a number of instructions, or at the end if that comes first. -/
def run (p : Program) : Nat → Config → Config
  | 0, c => c
  | k + 1, c =>
    match p.step? c with
    | some d => p.run k d
    | none => c

/-- The configurations after each of a number of instructions, as far as there are any. -/
def trace (p : Program) : Nat → Config → List Config
  | 0, _ => []
  | k + 1, c =>
    match p.step? c with
    | some d => d :: p.trace k d
    | none => []

/-- Whether a trace of at most `limit` configurations shows that the run ends: only a trace
that stops short of its limit does. -/
def traceEnds (limit : Nat) (configs : List Config) : Bool := decide (configs.length < limit)

@[simp] theorem run_zero (p : Program) (c : Config) : p.run 0 c = c := rfl

theorem run_succ (p : Program) (k : Nat) (c : Config) :
    p.run (k + 1) c = match p.step? c with
      | some d => p.run k d
      | none => c := rfl

theorem step?_eq_none_iff (p : Program) (c : Config) :
    p.step? c = none ↔ p.hasEnded c = true := by
  unfold step? hasEnded
  cases h : p[c.counter]? with
  | none => simpa using h
  | some i =>
    have := (Array.getElem?_eq_some_iff.1 h).1
    simp
    omega

/-- A run that has ended stays where it is. -/
theorem run_of_hasEnded {p : Program} {c : Config} (h : p.hasEnded c = true) (k : Nat) :
    p.run k c = c := by
  cases k with
  | zero => rfl
  | succ k => rw [run_succ, (step?_eq_none_iff p c).2 h]

theorem run_add (p : Program) (j k : Nat) (c : Config) :
    p.run (j + k) c = p.run k (p.run j c) := by
  induction j generalizing c with
  | zero => simp
  | succ j ih =>
    rw [Nat.succ_add, run_succ, run_succ]
    cases h : p.step? c with
    | none => exact (run_of_hasEnded ((step?_eq_none_iff p c).1 h) k).symm
    | some d => exact ih d

end Program

/-- How many instructions a line may perform; `none` sets no bound. -/
abbrev Budget := Option Int

def Budget.standard : Budget := some 1000000

/-- How a run within a budget came out. -/
inductive Outcome
  | ended
  | exhausted (steps : Nat)
  /-- There was no bound, and the run had not ended when patience did. -/
  | unfinished
  deriving DecidableEq

namespace Program

/-- The run that counts its instructions, `count` of them so far. It is given up after an
instruction that brings the count to the limit and leaves the position inside the program, so
one instruction is always performed, and a run that ends with its last one has ended. -/
def runCounted (p : Program) (limit : Int) (count : Nat) (c : Config) : Config × Outcome :=
  match h : p.step? c with
  | none => (c, .ended)
  | some d =>
    if limit ≤ (count + 1 : Nat) ∧ p.hasEnded d = false then (d, .exhausted (count + 1))
    else p.runCounted limit (count + 1) d
termination_by ((limit - count).toNat, if p.hasEnded c then 0 else 1)
decreasing_by
  have hc : p.hasEnded c = false := by
    rw [← Bool.not_eq_true, ← step?_eq_none_iff, h]
    exact Option.some_ne_none d
  by_cases hl : limit ≤ (count + 1 : Nat)
  · -- the limit is reached, so the position has left the program
    have hd : p.hasEnded d = true := by simp_all
    rw [hc, hd, Prod.lex_def]
    simp
    omega
  · apply Prod.Lex.left
    omega

/-- The configuration that a run within a budget reaches, and how it came out. -/
def runWithin (p : Program) (budget : Budget) (patience : Nat) (c : Config) :
    Config × Outcome :=
  match budget with
  | some limit => p.runCounted limit 0 c
  | none =>
    let final := p.run patience c
    if p.hasEnded final then (final, .ended) else (final, .unfinished)

end Program

end StackLine
