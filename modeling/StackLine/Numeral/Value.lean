import StackLine.Binary64.Basic
import StackLine.Fault
import StackLine.Numeral.Basic
import StackLine.Text.Blank

/-!
The number that a numeral denotes, and the strict reading of a text.

A decimal is rounded once, to the nearest number. Exponents may be of any size, so a decimal
that is surely infinite or surely rounds to zero is settled by its size before a power of ten is
formed.
-/

namespace StackLine

open scoped CorePower

namespace Binary64

/-- The number nearest to `coefficient · 10 ^ exponent`. -/
def ofDecimal (negative : Bool) (coefficient : Nat) (exponent : Int) : Binary64 :=
  if coefficient = 0 then .finite negative .zero
  else
    match exponent with
    | .ofNat k =>
      if 309 ≤ k then .infinite negative
      else ofQuotient negative (coefficient * 10 ^ k * 2 ^ unitExponent) 1
    | .negSucc k =>
      -- eight to the power of `k + 1` is already large enough a divisor
      if coefficient.log2 + 1 + (unitExponent + 1) ≤ 3 * (k + 1) then .finite negative .zero
      else ofQuotient negative (coefficient * 2 ^ unitExponent) (10 ^ (k + 1))

end Binary64

def Numeral.toBinary64 : Numeral → Binary64
  | .decimal negative coefficient exponent => .ofDecimal negative coefficient exponent
  | .infinite negative => .infinite negative
  | .nan => .nan

namespace Text

/-- Whether a text is ASCII without an underscore, not empty, and without a blank or a
separator at its ends. -/
def isPlain (cs : List Char) : Bool :=
  let isEdge := fun c => isAsciiBlank c || isSeparator c
  !cs.isEmpty && cs.all (fun c => c.toNat < 128 && c != '_') && trim isEdge cs == cs

end Text

namespace Binary64

/-- The number that a text denotes exactly as it stands. -/
def parse? (text : String) : Option Binary64 :=
  (Numeral.ofChars? text.toList).map Numeral.toBinary64

/-- The strict reading, with the reason for a refusal. -/
def parse (text : String) : Except Fault Binary64 :=
  match parse? text with
  | some x => .ok x
  | none =>
    if Text.isPlain text.toList then .error (.malformed text) else .error (.notPlain text)

/-- The number that a text denotes, and zero if it denotes none. -/
def ofText (text : String) : Binary64 := (parse? text).getD zero

end Binary64

end StackLine
