import StackLine.Binary64.Arithmetic
import StackLine.Binary64.Text
import StackLine.Numeral.Value
import StackLine.Word

/-!
Instructions: one for each token of a line.

A token that is no word is a literal, and one that denotes no number is a literal of zero. An
operator made by hand may carry a number, which takes part in comparison and in nothing else.
-/

namespace StackLine

/-- What an instruction does: a word, or pushing the number it carries. -/
inductive Opcode
  | word (word : Word)
  | literal
  deriving DecidableEq

namespace Opcode

def all : List Opcode := Word.all.map word ++ [literal]

def name : Opcode → String
  | word w => w.name
  | literal => "LITERAL"

end Opcode

inductive Instruction
  | operator (word : Word) (carried : Option Binary64)
  | literal (value : Binary64)
  deriving DecidableEq

namespace Instruction

/-- An instruction made by hand; a literal without a number pushes zero. -/
def make : Opcode → Option Binary64 → Instruction
  | .word w, carried => operator w carried
  | .literal, value => literal (value.getD .zero)

def ofToken (token : String) : Instruction :=
  match Word.ofToken? token with
  | some w => operator w none
  | none => literal (.ofText token)

def opcode : Instruction → Opcode
  | operator w _ => .word w
  | literal _ => .literal

def carried? : Instruction → Option Binary64
  | operator _ carried => carried
  | literal x => some x

/-- The number that an instruction stands for: that of a literal, else zero. -/
def asNumber : Instruction → Binary64
  | operator _ _ => .zero
  | literal x => x

/-- The instruction as a token. -/
def token : Instruction → String
  | operator w _ => w.token
  | literal x => x.text

/-- The instruction with its kind spelt out. -/
def describe : Instruction → String
  | operator w _ => "Instruction(Opcode." ++ w.name ++ ")"
  | literal x => "Instruction.literal(" ++ x.describe ++ ")"

/-- Equality of carried numbers is that of numbers, so an instruction that carries what is not
a number equals nothing. -/
def equals (i j : Instruction) : Bool :=
  i.opcode == j.opcode &&
    match i.carried?, j.carried? with
    | none, none => true
    | some x, some y => x.equals y
    | _, _ => false

end Instruction

end StackLine
