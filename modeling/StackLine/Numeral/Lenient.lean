import StackLine.Numeral.Value
import StackLine.Text.DecimalDigit

/-!
The lenient reading of a text as a number or an integer.

Blanks and digits of every script stand for those of ASCII, blanks around the number are
dropped, and a single underscore may stand between two digits. What is left is read strictly.
-/

namespace StackLine

namespace Text

/-- The ASCII character that a character stands for, if it does. -/
def fold? (c : Char) : Option Char :=
  if c.toNat < 128 then some c
  else if isWideBlank c then some ' '
  else (digitValue? c).map Nat.digitChar

/-- A text in ASCII without blanks around it. -/
def folded? (text : String) : Option (List Char) :=
  (text.toList.mapM fold?).map (trim isAsciiBlank)

/-- The text without its underscores, if each stands between two digits. The first argument
says whether a digit stands before the text. -/
def dropUnderscores? : Bool → List Char → Option (List Char)
  | _, [] => some []
  | afterDigit, '_' :: rest =>
    match rest with
    | next :: _ =>
      if afterDigit && next.isDigit then dropUnderscores? false rest else none
    | [] => none
  | _, c :: rest => (dropUnderscores? c.isDigit rest).map (c :: ·)

end Text

/-- More digits than this are not read as an integer. -/
def maxIntegerDigits : Nat := 4300

/-- The integer that a text denotes: an optional sign and digits. -/
def Numeral.integer? (text : String) : Option Int :=
  match Text.folded? text with
  | none => none
  | some cs =>
    let (negative, body) := takeSign cs
    match Text.dropUnderscores? false body with
    | none => none
    | some ds =>
      if ds.isEmpty || !ds.all Char.isDigit || maxIntegerDigits < ds.length then none
      else some (signedValue negative ds)

namespace Binary64

def parseLenient? (text : String) : Option Binary64 :=
  match Text.folded? text with
  | none => none
  | some cs =>
    match Text.dropUnderscores? false cs with
    | none => none
    | some ds => (Numeral.ofChars? ds).map Numeral.toBinary64

def parseLenient (text : String) : Except Fault Binary64 :=
  match parseLenient? text with
  | some x => .ok x
  | none => .error (.malformed text)

end Binary64

end StackLine
