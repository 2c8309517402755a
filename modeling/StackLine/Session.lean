import StackLine.Evaluation
import StackLine.Numeral.Lenient

/-!
A session: a budget for every line, and the machine of the last line that kept to it.

Lines are evaluated one after another, each on a machine of its own, and the budget may be
changed between them.
-/

namespace StackLine

structure Session where
  budget : Budget := .standard
  last : Machine := {}
  deriving DecidableEq

namespace Session

/-- The session after a line. A line that fails leaves the session as it was. -/
def after (s : Session) (result : Except Fault Machine) : Session :=
  match result with
  | .ok m => { s with last := m }
  | .error _ => s

def execute? (s : Session) (patience : Nat) (line : String) :
    Option (Except Fault Machine × Session) :=
  (Evaluation.ofLine s.budget patience line).machine?.map fun r => (r, s.after r)

/-- What is done with a session: a line is evaluated for its output, a line is evaluated, or the
lines to come are given another budget. -/
inductive Action
  | call (line : String)
  | execute (line : String)
  | setBudget (budget : Budget)
  deriving DecidableEq

/-- What an action gives back. -/
inductive Result
  | numbers (output : List Binary64)
  | session (s : Session)
  | nothing
  deriving DecidableEq

/-- An action that was done: what it gave back, and the session after it. -/
structure Step where
  result : Except Fault Result
  session : Session

def act? (s : Session) (patience : Nat) : Action → Option Step
  | .call line =>
    (s.execute? patience line).map fun (r, t) => ⟨r.map fun _ => .numbers t.last.output, t⟩
  | .execute line => (s.execute? patience line).map fun (r, t) => ⟨r.map fun _ => .session t, t⟩
  | .setBudget budget => some ⟨.ok .nothing, { s with budget }⟩

/-- The actions in order. -/
def replay? (patience : Nat) (s : Session) : List Action → Option (List Step)
  | [] => some []
  | a :: rest =>
    match s.act? patience a with
    | none => none
    | some step => (replay? patience step.session rest).map (step :: ·)

/-- The session with the stack of its last machine. -/
def describe (s : Session) : String := "<InteractiveImastack " ++ s.last.stackText ++ ">"

/-- The session under the budget that the environment sets. An integer that is not positive
lifts the bound, and a text that is no integer changes nothing but is noted. -/
def underEnvironment (s : Session) : Option String → Session × List Record
  | none => (s, [])
  | some raw =>
    match Numeral.integer? raw with
    | some n => ({ s with budget := if 0 < n then some n else none }, [])
    | none => (s, [.budgetIgnored raw])

end Session

end StackLine
