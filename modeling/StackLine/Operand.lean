import StackLine.Binary64.Arithmetic
import StackLine.Numeral.Lenient

/-!
What may stand beside a number in an operation: a number, an integer of any size, a text, or
nothing.
-/

namespace StackLine

inductive Operand
  | number (x : Binary64)
  | integer (n : Int)
  | text (s : String)
  | missing
  deriving DecidableEq

namespace Operand

/-- The operand as a number. An integer is rounded, and a text is read leniently. -/
def toBinary64 : Operand → Except Fault Binary64
  | number x => .ok x
  | integer n =>
    match Binary64.ofInt? n with
    | some x => .ok x
    | none => .error .integerTooLarge
  | text s => Binary64.parseLenient s
  | missing => .error .noNumber

/-- An integer is compared as it stands, and a text is never equal to a number. -/
def equals (x : Binary64) : Operand → Bool
  | number y => x.equals y
  | integer n => x.equalsInt n
  | text _ | missing => false

end Operand

namespace Binary64

inductive Operation
  | add | sub | mul | div
  deriving DecidableEq

def Operation.apply : Operation → Binary64 → Binary64 → Binary64
  | .add => Binary64.add
  | .sub => Binary64.sub
  | .mul => Binary64.mul
  | .div => Binary64.div

/-- An operation on a number and an operand, which becomes a number first. -/
def operate (op : Operation) (x : Binary64) (y : Operand) : Except Fault Binary64 :=
  y.toBinary64.map (op.apply x)

end Binary64

end StackLine
