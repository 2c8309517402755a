import StackLine.Instruction

/-!
The machine: a stack of numbers, and what has been printed.

Taking from an empty stack gives zero, so no instruction fails. Dividing by zero gives zero.
-/

namespace StackLine

structure Machine where
  /-- The top comes first. -/
  stack : List Binary64 := []
  /-- The latest comes first. -/
  printed : List Binary64 := []
  deriving DecidableEq

namespace Machine

def output (m : Machine) : List Binary64 := m.printed.reverse

def push (m : Machine) (x : Binary64) : Machine := { m with stack := x :: m.stack }

def pop (m : Machine) : Binary64 × Machine :=
  match m.stack with
  | [] => (.zero, m)
  | x :: rest => (x, { m with stack := rest })

def emit (m : Machine) (x : Binary64) : Machine := { m with printed := x :: m.printed }

/-- The top number and the one below it are taken off. -/
def popTwo (m : Machine) : Binary64 × Binary64 × Machine :=
  let (top, m) := m.pop
  let (next, m) := m.pop
  (top, next, m)

/-- The two upper numbers give way to one; the function gets the lower one first. -/
def combine (f : Binary64 → Binary64 → Binary64) (m : Machine) : Machine :=
  let (top, next, m) := m.popTwo
  m.push (f next top)

/-- Division as the word makes it: by zero it gives zero. -/
def quotient (a b : Binary64) : Binary64 := if b.isZero then .zero else a.div b

/-- The machine after a word. -/
def apply (m : Machine) : Word → Machine
  | .add => m.combine .add
  | .sub => m.combine .sub
  | .mul => m.combine .mul
  | .div => m.combine quotient
  | .dup => let (x, m) := m.pop; (m.push x).push x
  | .swap => let (top, next, m) := m.popTwo; (m.push top).push next
  | .jump => m.popTwo.2.2
  | .print => let (x, m) := m.pop; m.emit x

/-- The machine after an instruction. -/
def perform (m : Machine) : Instruction → Machine
  | .operator w _ => m.apply w
  | .literal x => m.push x

/-- The target of the jump that an instruction takes on this machine, if it takes one: the top
number, when the number below it is not zero. -/
def jump? (m : Machine) : Instruction → Option Binary64
  | .operator .jump _ =>
    let (target, condition, _) := m.popTwo
    if condition.isZero then none else some target
  | _ => none

/-- The depth in angle brackets, then the numbers from the bottom up. -/
def stackText (m : Machine) : String :=
  " ".intercalate
    (("<" ++ m.stack.length.repr ++ ">") :: m.stack.reverse.map Binary64.display)

/-- What has been printed, as one line. -/
def outputText (m : Machine) : String := " ".intercalate (m.output.map Binary64.display)

@[simp] theorem pop_nil (out : List Binary64) : pop ⟨[], out⟩ = (.zero, ⟨[], out⟩) := rfl

@[simp] theorem pop_cons (x : Binary64) (s out : List Binary64) :
    pop ⟨x :: s, out⟩ = (x, ⟨s, out⟩) := rfl

end Machine

end StackLine
