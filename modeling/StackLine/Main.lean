import StackLine.CommandLine

/-!
The program: arguments, environment and standard streams.

A single line is reported as `CommandLine.report?` says. The interactive loop answers each line
before it reads the next, by the replies of `Repl.respond`.
-/

namespace StackLine

open scoped CorePower

namespace Main

/-- More instructions than any run performs: a line without a bound may take for ever. -/
def patience : Nat := 2 ^ (62 : Nat)

partial def loop (verbose : Bool) (s : Session) : IO Unit := do
  let out ← IO.getStdout
  out.putStr Repl.promptText
  out.flush
  let text ← (← IO.getStdin).getLine
  if text.isEmpty then return
  let line := if text.endsWith "\n" then (text.dropEnd 1).toString else text
  match Repl.respond patience s (.line line) with
  | none => return
  | some reply =>
    IO.eprint (Record.log verbose reply.records)
    out.putStr reply.text
    out.flush
    unless reply.leaves do loop verbose reply.session

def interactive (verbose : Bool) : IO Unit := do
  IO.print Repl.greeting
  let (s, warnings) := Session.underEnvironment {} (← IO.getEnv "IMASTACK_STEP_BUDGET")
  IO.eprint (Record.log verbose warnings)
  IO.println ""
  loop verbose s

end Main

end StackLine

open StackLine in
def main (args : List String) : IO UInt32 := do
  let invocation := CommandLine.Invocation.ofArguments args
  match invocation.request with
  | .interactive =>
    Main.interactive invocation.verbose
    return 0
  | _ =>
    match CommandLine.report? Main.patience {} {} invocation with
    | none => return 1
    | some report =>
      IO.print report.out
      IO.eprint report.err
      return report.exitCode.toUInt32
