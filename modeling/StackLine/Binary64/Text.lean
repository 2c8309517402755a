import StackLine.Decimal.Shortest

/-!
The two ways a number is written.

As text it is the shortest decimal that reads back. On display a whole number shows all its
digits and no point, and the sign of zero is dropped.
-/

namespace StackLine

open scoped CorePower

namespace Binary64

def text : Binary64 → String
  | .nan => "nan"
  | .infinite negative => if negative then "-inf" else "inf"
  | .finite negative m =>
    let unsigned := m.shortest.write .plain
    String.ofList (if negative then '-' :: unsigned else unsigned)

/-- The number with its kind spelt out. -/
def describe (x : Binary64) : String := "Value(" ++ x.text ++ ")"

/-- The integer that a number is, if it is one. -/
def toInt? : Binary64 → Option Int
  | .finite negative m =>
    if m.units % 2 ^ unitExponent = 0 then
      let whole : Int := m.units / 2 ^ unitExponent
      some (if negative then -whole else whole)
    else none
  | _ => none

def display (x : Binary64) : String :=
  match x with
  | .nan => "NaN"
  | _ =>
    match x.toInt? with
    | some n => n.repr
    | none => x.text

end Binary64

end StackLine
