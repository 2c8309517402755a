import StackLine.Binary64.Text
import StackLine.Text.Quoted

/-!
Log records: what an evaluation notes beside its answer.
-/

namespace StackLine

inductive Record
  /-- A line was decoded to a program of `size` instructions. -/
  | compiled (size : Nat)
  | jumped (target : Binary64)
  /-- The run of a program of `size` instructions ended at `counter`. -/
  | ended (counter size : Nat)
  /-- The budget in the environment is no integer. -/
  | budgetIgnored (raw : String)
  deriving DecidableEq

namespace Record

def isWarning : Record → Bool
  | budgetIgnored _ => true
  | _ => false

/-- The component that makes the record. -/
def source : Record → String
  | compiled _ => "imastack.compiler"
  | jumped _ => "imastack.control_flow"
  | ended _ _ | budgetIgnored _ => "imastack.repl"

def message : Record → String
  | compiled size => "compiled " ++ size.repr ++ " instructions"
  | jumped target => "jnz taken -> " ++ target.text
  | ended counter size => "halted at " ++ counter.repr ++ " of " ++ size.repr
  | budgetIgnored raw =>
    "ignoring IMASTACK_STEP_BUDGET=" ++ Text.quoted raw ++ ", not an integer"

/-- The record as a line of the log. In verbose mode all are shown, with their source and
level; else the warnings alone, as bare messages. -/
def line (verbose : Bool) (r : Record) : String :=
  if verbose then
    r.source ++ (if r.isWarning then " WARNING " else " DEBUG ") ++ r.message ++ "\n"
  else if r.isWarning then r.message ++ "\n"
  else ""

def log (verbose : Bool) (rs : List Record) : String := String.join (rs.map (line verbose))

end Record

end StackLine
