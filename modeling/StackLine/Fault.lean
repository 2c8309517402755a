import StackLine.Text.Quoted

/-!
What can go wrong, as causes, and the wording of each.
-/

namespace StackLine

/-- The two kinds of value that never change once made. -/
inductive Frozen
  | number
  | instruction
  deriving DecidableEq

inductive Fault
  /-- The text is empty or has a character that no strictly read number has. -/
  | notPlain (text : String)
  | malformed (text : String)
  | noNumber
  | integerTooLarge
  | budgetExhausted (steps : Nat)
  | readOnly (target : Frozen)
  deriving DecidableEq

namespace Fault

def message : Fault → String
  | .notPlain text => "not a number: " ++ Text.quoted text
  | .malformed text => "could not convert string to float: " ++ Text.quoted text
  | .noNumber => "float() argument must be a string or a real number, not 'NoneType'"
  | .integerTooLarge => "int too large to convert to float"
  | .budgetExhausted steps =>
    "step budget exhausted after " ++ steps.repr ++ " instructions"
  | .readOnly .number => "Value is immutable"
  | .readOnly .instruction => "Instruction is immutable"

end Fault

end StackLine
