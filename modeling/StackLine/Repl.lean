import StackLine.Session

/-!
The interactive loop, as a function of what is read.

A line that is a command is answered as such, whatever blanks stand around it and in whatever
case it is; any other line is evaluated as it stands, since its blanks are tokens and move the
positions that jumps name. The loop ends when the input does, or at the command to leave.
-/

namespace StackLine

namespace Repl

inductive Command
  | leave
  | help
  | showStack
  | list (code : String)
  | execute (line : String)
  deriving DecidableEq

/-- Lower case, for the letters of commands: besides those of ASCII the Kelvin sign is a `k`. -/
def lower (c : Char) : Char := if c.toNat = 0x212a then 'k' else c.toLower

def Command.ofLine (line : String) : Command :=
  let stripped := Text.trim Text.isBlank line.toList
  let lowered := stripped.map lower
  if lowered = "bye".toList then .leave
  else if lowered = "help".toList then .help
  else if lowered = "stack".toList ∨ lowered = ".s".toList then .showStack
  else if "see ".toList.isPrefixOf lowered then .list (String.ofList (stripped.drop 4))
  else .execute line

/-- What a read gives: a line, or an interrupt from the keyboard. -/
inductive Read
  | line (text : String)
  | interrupt
  deriving DecidableEq

def greeting : String :=
  "imastack - stack language REPL\nType 'bye' to exit, 'help' for help\n"

def farewell : String := "Bye!\n"

def helpText : String :=
  "Words: + - * / dup swp jnz print; anything else is a number\n" ++
  "Commands: .s (stack of last line), see <code>, help, bye\n"

def interruptText : String := "\n(Ctrl+C) Type 'bye' to exit\n"

/-- What an evaluated line shows: the numbers printed, if any, or its fault. -/
def resultText : Except Fault Machine → String
  | .ok m => if m.output.isEmpty then "" else m.outputText ++ "\n"
  | .error fault => "Error: " ++ fault.message ++ "\n"

/-- The reply to one read, with the session after it. -/
structure Reply where
  text : String
  records : List Record := []
  session : Session
  leaves : Bool := false

/-- There is no reply only when a line without a bound outlasts patience. -/
def respond (patience : Nat) (s : Session) : Read → Option Reply
  | .interrupt => some { text := interruptText, session := s }
  | .line text =>
    match Command.ofLine text with
    | .leave => some { text := farewell, session := s, leaves := true }
    | .help => some { text := helpText, session := s }
    | .showStack => some { text := s.last.stackText ++ "\n", session := s }
    | .list code =>
      let p := Program.ofLine code
      some { text := p.listing ++ "\n", records := [.compiled p.size], session := s }
    | .execute line =>
      let e := Evaluation.ofLine s.budget patience line
      e.machine?.map fun r =>
        { text := resultText r, records := e.records, session := s.after r }

/-- The replies in order, the session after them, and whether the last was a farewell. -/
structure Dialogue where
  replies : List Reply
  session : Session
  left : Bool

def converse (patience : Nat) (s : Session) : List Read → Option Dialogue
  | [] => some ⟨[], s, false⟩
  | r :: rest =>
    match respond patience s r with
    | none => none
    | some reply =>
      if reply.leaves then some ⟨[reply], reply.session, true⟩
      else (converse patience reply.session rest).map fun d =>
        { d with replies := reply :: d.replies }

namespace Dialogue

/-- Each reply follows its prompt; a dialogue that was not left ends with a prompt that met the
end of the input. -/
def text (prompt : String) (d : Dialogue) : String :=
  String.join (d.replies.map fun reply => prompt ++ reply.text) ++
    if d.left then "" else prompt

def records (d : Dialogue) : List Record := d.replies.flatMap Reply.records

end Dialogue

/-- The shell around the program. One that prompts writes a mark before each prompt. -/
inductive Host
  | absent
  | detached
  | plain
  | prompting (mark : String)
  deriving DecidableEq

/-- Whether a shell is there to be asked. -/
def Host.isPresent : Host → Bool
  | .plain | .prompting _ => true
  | .absent | .detached => false

def promptText : String := "OK> "

/-- The prompt as it appears. `useHost` says whether to let the shell prompt; when it is not
given, a shell that is present does if it can. -/
def Host.prompt (useHost : Option Bool) (host : Host) : String :=
  match host with
  | .prompting mark => if useHost.getD host.isPresent then mark ++ promptText else promptText
  | _ => promptText

/-- All that a session at the keyboard shows, notes and leaves behind. -/
structure Transcript where
  out : String
  records : List Record
  session : Session

/-- A session from the greeting on. The budget in the environment is taken over before the first
prompt. -/
def transcript? (patience : Nat) (s : Session) (environment : Option String) (prompt : String)
    (reads : List Read) : Option Transcript :=
  let (started, warnings) := s.underEnvironment environment
  (converse patience started reads).map fun d =>
    { out := greeting ++ "\n" ++ d.text prompt
      records := warnings ++ d.records
      session := d.session }

end Repl

end StackLine
