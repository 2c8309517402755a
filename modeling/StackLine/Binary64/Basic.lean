import StackLine.Rounding

/-!
Binary64 numbers, by meaning.

A magnitude counts units of `2 ^ -1074`, the least positive one: it is `significand · 2 ^ shift`
of them. The significand has at most 53 bits, and all 53 unless the shift is `0`, so every
magnitude is written in one way.
-/

namespace StackLine

open scoped CorePower

structure Magnitude where
  significand : Nat
  shift : Nat
  canonical : significand < 2 ^ (53 : Nat) ∧ shift ≤ 2045 ∧
    (shift = 0 ∨ 2 ^ (52 : Nat) ≤ significand)
  deriving DecidableEq

namespace Magnitude

def zero : Magnitude := ⟨0, 0, by decide⟩

def units (m : Magnitude) : Nat := m.significand * 2 ^ m.shift

def ofParts? (significand shift : Nat) : Option Magnitude :=
  if h : significand < 2 ^ (53 : Nat) ∧ shift ≤ 2045 ∧
      (shift = 0 ∨ 2 ^ (52 : Nat) ≤ significand) then
    some ⟨significand, shift, h⟩
  else none

/-- The magnitude nearest to `num / den` units, a half going to the even significand. The
shift leaves 53 bits before the point; a significand rounded up to `2 ^ 53` moves to the next
shift. There is none when the shift would exceed `2045`. -/
def ofQuotient? (num den : Nat) : Option Magnitude :=
  let shift := (num / den).log2 - 52
  let significand := roundHalfEven num (den * 2 ^ shift)
  if significand < 2 ^ (53 : Nat) then ofParts? significand shift
  else ofParts? (2 ^ (52 : Nat)) (shift + 1)

/-- The units as a signed number. -/
def signed (negative : Bool) (m : Magnitude) : Int :=
  if negative then -(m.units : Int) else m.units

@[simp] theorem units_zero : zero.units = 0 := by simp [zero, units]

theorem units_eq_zero_iff (m : Magnitude) : m.units = 0 ↔ m.significand = 0 := by
  have := Nat.two_pow_pos m.shift
  rw [units, Nat.mul_eq_zero]
  omega

@[simp] theorem natAbs_signed (negative : Bool) (m : Magnitude) :
    (m.signed negative).natAbs = m.units := by
  cases negative <;> simp [signed]

end Magnitude

inductive Binary64
  | nan
  | infinite (negative : Bool)
  | finite (negative : Bool) (magnitude : Magnitude)
  deriving DecidableEq

namespace Binary64

/-- The exponent of the unit: a unit is `2 ^ -1074`. -/
def unitExponent : Nat := 1074

def zero : Binary64 := .finite false .zero

instance : Inhabited Binary64 := ⟨zero⟩

/-- The number nearest to `num / den` units, with the sign given; infinite where no magnitude
is near enough. -/
def ofQuotient (negative : Bool) (num den : Nat) : Binary64 :=
  match Magnitude.ofQuotient? num den with
  | some m => .finite negative m
  | none => .infinite negative

/-- The number nearest to an integer, unless that is infinite. -/
def ofInt? (n : Int) : Option Binary64 :=
  (Magnitude.ofQuotient? (n.natAbs * 2 ^ unitExponent) 1).map (.finite (decide (n < 0)))

def isZero : Binary64 → Bool
  | .finite _ m => m.significand == 0
  | _ => false

end Binary64

end StackLine
