/-!
Decimals, and how one is written.

A layout says which decimals are written positionally, always with a point, and how many
digits an exponent has at least. The leading exponent of a decimal is that of its first digit:
`d.ddd` times ten to that power.
-/

namespace StackLine

/-- The number `coefficient · 10 ^ exponent`. -/
structure Decimal where
  coefficient : Nat
  exponent : Int
  deriving DecidableEq

namespace Decimal

structure Layout where
  /-- From this leading exponent on, up to the bound, a decimal is written positionally. -/
  least : Int
  bound : Int
  exponentDigits : Nat

/-- Positional from `0.0001` up to ten to the power of `16`; at least two digits of exponent. -/
def Layout.plain : Layout := ⟨-4, 16, 2⟩

def digits (d : Decimal) : List Char := Nat.toDigits 10 d.coefficient

def leadingExponent (d : Decimal) : Int := d.exponent + d.digits.length - 1

/-- Digits with the last `places` of them after the point, and at least one before it. -/
def withPoint (ds : List Char) (places : Nat) : List Char :=
  let padded := List.replicate (places + 1 - ds.length) '0' ++ ds
  padded.take (padded.length - places) ++ '.' :: padded.drop (padded.length - places)

def positional (d : Decimal) : List Char :=
  match d.exponent with
  | .ofNat k => withPoint (d.digits ++ List.replicate (k + 1) '0') 1
  | .negSucc k => withPoint d.digits (k + 1)

/-- The exponent with its sign, and zeros before it up to `width` digits. -/
def signedExponent (width : Nat) (e : Int) : List Char :=
  let ds := Nat.toDigits 10 e.natAbs
  (if e < 0 then '-' else '+') :: (List.replicate (width - ds.length) '0' ++ ds)

/-- One digit before the point, and no point when it is the only one. -/
def scientific (width : Nat) (d : Decimal) : List Char :=
  let mantissa :=
    match d.digits with
    | first :: second :: rest => first :: '.' :: second :: rest
    | ds => ds
  mantissa ++ 'e' :: signedExponent width d.leadingExponent

def write (layout : Layout) (d : Decimal) : List Char :=
  if layout.least ≤ d.leadingExponent ∧ d.leadingExponent < layout.bound then d.positional
  else d.scientific layout.exponentDigits

end Decimal

end StackLine
