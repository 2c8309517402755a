import StackLine.Binary64.Basic

/-!
Arithmetic and comparison of binary64 numbers.

On finite operands an operation forms its exact result as a quotient of naturals, counted in
units, and rounds it once. The zero policy of the division word is not made here: a number
divided by zero is infinite, and zero by zero is not a number.
-/

namespace StackLine

open scoped CorePower

namespace Binary64

def neg : Binary64 → Binary64
  | .nan => .nan
  | .infinite s => .infinite (!s)
  | .finite s m => .finite (!s) m

/-- A sum of exactly zero is negative only when both operands are. -/
def add : Binary64 → Binary64 → Binary64
  | .nan, _ => .nan
  | _, .nan => .nan
  | .infinite s, .infinite t => if s = t then .infinite s else .nan
  | .infinite s, .finite _ _ => .infinite s
  | .finite _ _, .infinite t => .infinite t
  | .finite s m, .finite t n =>
    let sum := m.signed s + n.signed t
    if sum = 0 then .finite (s && t) .zero
    else ofQuotient (decide (sum < 0)) sum.natAbs 1

def sub (a b : Binary64) : Binary64 := a.add b.neg

def mul : Binary64 → Binary64 → Binary64
  | .nan, _ => .nan
  | _, .nan => .nan
  | .infinite s, .infinite t => .infinite (s ^^ t)
  | .infinite s, .finite t n => if n.significand = 0 then .nan else .infinite (s ^^ t)
  | .finite s m, .infinite t => if m.significand = 0 then .nan else .infinite (s ^^ t)
  | .finite s m, .finite t n => ofQuotient (s ^^ t) (m.units * n.units) (2 ^ unitExponent)

def div : Binary64 → Binary64 → Binary64
  | .nan, _ => .nan
  | _, .nan => .nan
  | .infinite _, .infinite _ => .nan
  | .infinite s, .finite t _ => .infinite (s ^^ t)
  | .finite s _, .infinite t => .finite (s ^^ t) .zero
  | .finite s m, .finite t n =>
    if n.significand = 0 then
      if m.significand = 0 then .nan else .infinite (s ^^ t)
    else ofQuotient (s ^^ t) (m.units * 2 ^ unitExponent) n.units

/-- Equality as numbers: the two zeros are equal, and what is not a number equals nothing. -/
def equals : Binary64 → Binary64 → Bool
  | .infinite s, .infinite t => s == t
  | .finite s m, .finite t n => m.signed s == n.signed t
  | _, _ => false

/-- Equality with an integer, which is not rounded. -/
def equalsInt : Binary64 → Int → Bool
  | .finite s m, n => m.signed s == n * 2 ^ unitExponent
  | _, _ => false

def maxIndex : Nat := 2 ^ (63 : Nat) - 1

/-- The position that a number names: its whole part, kept within `0` and `maxIndex`. What is
not a number names position `0`. -/
def toIndex : Binary64 → Nat
  | .finite false m => min maxIndex (m.units / 2 ^ unitExponent)
  | .infinite false => maxIndex
  | _ => 0

theorem equals_comm (a b : Binary64) : a.equals b = b.equals a := by
  cases a <;> cases b <;> simp [equals, Bool.beq_comm]

theorem toIndex_le (x : Binary64) : x.toIndex ≤ maxIndex := by
  unfold toIndex
  split <;> omega

@[simp] theorem toIndex_nan : toIndex .nan = 0 := rfl

end Binary64

end StackLine
