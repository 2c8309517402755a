import StackLine.Repl

/-!
The command line: its arguments, and what an invocation shows.
-/

namespace StackLine

def version : String := "0.1.0"

namespace CommandLine

inductive Request
  | usage
  | interactive
  | evaluate (line : String)
  deriving DecidableEq

structure Invocation where
  verbose : Bool
  request : Request
  deriving DecidableEq

namespace Invocation

def requestOf : List String → Request
  | [] => .usage
  | first :: rest =>
    if first = "repl" then .interactive else .evaluate (" ".intercalate (first :: rest))

/-- A first argument `-v` asks for the whole log. The others are the line, joined by spaces,
unless the first of them asks for the interactive loop. -/
def ofArguments : List String → Invocation
  | [] => ⟨false, .usage⟩
  | first :: rest =>
    if first = "-v" then ⟨true, requestOf rest⟩ else ⟨false, requestOf (first :: rest)⟩

end Invocation

def usageText : String :=
  "\nimastack - minimal stack language interpreter\n\nUsage:\n" ++
  "1. Interactive REPL:        python main.py repl\n" ++
  "2. Evaluate a single line:  python main.py \"1 2 + print\"\n" ++
  "   Add -v before the arguments for debug logging.\n\nCompatible with:\n" ++
  "- Any standard Python 3.x\n" ++
  "- No external dependencies (IPython is used for the prompt when present)\n\n"

structure Report where
  exitCode : Nat
  out : String
  err : String
  deriving DecidableEq

/-- The report on one line: its output, or its fault on the error stream. -/
def reportLine (verbose : Bool) (e : Evaluation) : Option Report :=
  e.machine?.map fun
    | .ok m => ⟨0, m.outputText ++ "\n", Record.log verbose e.records⟩
    | .error fault =>
      ⟨1, "", Record.log verbose e.records ++ "Error: " ++ fault.message ++ "\n"⟩

/-- What the program is given from outside: its environment, the shell around it, and what
will be read. -/
structure Surroundings where
  environment : Option String := none
  host : Repl.Host := .absent
  reads : List Repl.Read := []

/-- The report on an invocation. The environment sets the budget of the interactive loop and not
that of a single line. -/
def report? (patience : Nat) (s : Session) (around : Surroundings) (i : Invocation) :
    Option Report :=
  match i.request with
  | .usage => some ⟨0, usageText, ""⟩
  | .interactive =>
    (Repl.transcript? patience s around.environment (around.host.prompt none)
      around.reads).map fun t => ⟨0, t.out, Record.log i.verbose t.records⟩
  | .evaluate line => reportLine i.verbose (Evaluation.ofLine s.budget patience line)

end CommandLine

end StackLine
