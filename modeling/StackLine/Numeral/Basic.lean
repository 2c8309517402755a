/-!
Numerals: what a text denotes when it denotes a number.

A numeral has an optional sign, then digits with at most one point among them and at least one
digit, then optionally an exponent; or, after the sign, `inf`, `infinity` or `nan` in any case.
Nothing may stand around it.
-/

namespace StackLine

inductive Numeral
  /-- The number `coefficient · 10 ^ exponent` with the sign given, zero included. -/
  | decimal (negative : Bool) (coefficient : Nat) (exponent : Int)
  | infinite (negative : Bool)
  | nan
  deriving DecidableEq

namespace Numeral

def takeSign : List Char → Bool × List Char
  | '-' :: rest => (true, rest)
  | '+' :: rest => (false, rest)
  | cs => (false, cs)

def digitsValue (ds : List Char) : Nat := Nat.ofDigitChars 10 ds 0

def signedValue (negative : Bool) (ds : List Char) : Int :=
  if negative then -(digitsValue ds : Int) else digitsValue ds

/-- The digits of a mantissa before and after its point, and what follows it. -/
def takeMantissa? (cs : List Char) : Option (List Char × List Char × List Char) :=
  let whole := cs.takeWhile Char.isDigit
  match cs.dropWhile Char.isDigit with
  | '.' :: rest =>
    let places := rest.takeWhile Char.isDigit
    if whole.isEmpty && places.isEmpty then none
    else some (whole, places, rest.dropWhile Char.isDigit)
  | rest => if whole.isEmpty then none else some (whole, [], rest)

/-- The exponent that follows a mantissa: nothing, or a letter, a sign and digits. -/
def exponent? : List Char → Option Int
  | [] => some 0
  | mark :: rest =>
    if mark = 'e' ∨ mark = 'E' then
      let (negative, ds) := takeSign rest
      if !ds.isEmpty && ds.all Char.isDigit then some (signedValue negative ds) else none
    else none

def decimal? (negative : Bool) (cs : List Char) : Option Numeral :=
  match takeMantissa? cs with
  | none => none
  | some (whole, places, rest) =>
    (exponent? rest).map fun e =>
      .decimal negative (digitsValue (whole ++ places)) (e - places.length)

def special? (negative : Bool) (cs : List Char) : Option Numeral :=
  let lower := cs.map Char.toLower
  if lower = "inf".toList ∨ lower = "infinity".toList then some (.infinite negative)
  else if lower = "nan".toList then some .nan
  else none

def ofChars? (cs : List Char) : Option Numeral :=
  let (negative, body) := takeSign cs
  match special? negative body with
  | some numeral => some numeral
  | none => decimal? negative body

end Numeral

end StackLine
