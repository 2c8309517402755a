import StackLine.Instruction

/-!
From a line to its program, and a program as a listing.

A line is split at every single space, so two spaces in a row enclose an empty token. Empty
tokens are literals like any other: each token gives one instruction, and the number of a token
is the position that a jump to it names.
-/

namespace StackLine

/-- The pieces of a text between single spaces, empty ones included. -/
def pieces : List Char → List (List Char)
  | [] => [[]]
  | c :: rest =>
    if c = ' ' then [] :: pieces rest
    else
      match pieces rest with
      | first :: others => (c :: first) :: others
      | [] => [[c]]

def tokens (line : String) : List String := (pieces line.toList).map String.ofList

abbrev Program := Array Instruction

namespace Program

def ofTokens (ts : List String) : Program := (ts.map Instruction.ofToken).toArray

def ofLine (line : String) : Program := ofTokens (tokens line)

def padLeft (width : Nat) (s : String) : String :=
  String.ofList (List.replicate (width - s.length) ' ') ++ s

def padRight (width : Nat) (s : String) : String :=
  s ++ String.ofList (List.replicate (width - s.length) ' ')

/-- One line of a listing: the position, the name of the opcode, and the token. -/
def listingLine (position : Nat) (i : Instruction) : String :=
  padLeft 3 position.repr ++ ". " ++ padRight 10 i.opcode.name ++ " " ++ i.token

def listing (p : Program) : String :=
  "\n".intercalate (p.toList.mapIdx listingLine)

end Program

theorem pieces_ne_nil (cs : List Char) : pieces cs ≠ [] := by
  cases cs with
  | nil => simp [pieces]
  | cons c rest =>
    unfold pieces
    split
    · simp
    · split <;> simp

@[simp] theorem Program.size_ofTokens (ts : List String) :
    (Program.ofTokens ts).size = ts.length := by
  simp [Program.ofTokens]

end StackLine
