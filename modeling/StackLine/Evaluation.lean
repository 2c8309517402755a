import StackLine.Fault
import StackLine.Record
import StackLine.Run

/-!
The evaluation of one line on a fresh machine.
-/

namespace StackLine

structure Evaluation where
  program : Program
  /-- Where the run ended, or was given up. -/
  final : Config
  outcome : Outcome

namespace Evaluation

def ofLine (budget : Budget) (patience : Nat) (line : String) : Evaluation :=
  let program := Program.ofLine line
  let (final, outcome) := program.runWithin budget patience {}
  ⟨program, final, outcome⟩

/-- The machine that a line leaves, or its fault. There is no answer when a line without a bound
outlasts patience. -/
def machine? (e : Evaluation) : Option (Except Fault Machine) :=
  match e.outcome with
  | .ended => some (.ok e.final.machine)
  | .exhausted steps => some (.error (.budgetExhausted steps))
  | .unfinished => none

/-- The decoding, each jump taken, and the end if the run came to it. -/
def records (e : Evaluation) : List Record :=
  .compiled e.program.size :: e.final.jumps.reverse.map Record.jumped ++
    match e.outcome with
    | .ended => [.ended e.final.counter e.program.size]
    | _ => []

end Evaluation

end StackLine
