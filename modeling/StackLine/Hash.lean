import StackLine.Instruction

/-!
The hashes of numbers and instructions.

A rational number has the hash that its residue modulo a prime gives, so equal numbers share it
however they are written. What is not a number has a hash of the object that holds it.
-/

namespace StackLine

open scoped CorePower

/-- What hashes rest on beside the numbers, free from one execution to the next. -/
structure Hashing where
  text : String → Int
  /-- The hash of a number that is missing. -/
  absent : Int
  /-- The hash of a pair, from those of its parts. -/
  pair : Int → Int → Int
  /-- The hash of what is not a number, by the identity of the object that holds it. -/
  nan : Nat → Int

namespace Binary64

/-- The prime that hashes are residues of. -/
def hashModulus : Nat := 2 ^ (61 : Nat) - 1

/-- The residue of the unit, the inverse of that of `2 ^ 1074`. -/
def unitResidue : Nat := 2 ^ (24 : Nat)

example : unitResidue * 2 ^ unitExponent % hashModulus = 1 := by decide +kernel

def infinityHash : Int := 314159

/-- The residue takes the sign of the number. No number has the hash `-1`. -/
def hash (hashing : Hashing) (identity : Nat) : Binary64 → Int
  | .nan => hashing.nan identity
  | .infinite negative => if negative then -infinityHash else infinityHash
  | .finite negative m =>
    let residue := (m.signed negative * unitResidue).tmod hashModulus
    if residue = -1 then -2 else residue

end Binary64

namespace Instruction

/-- The hash of an instruction is that of its opcode, by name, and of the number it carries. -/
def hash (hashing : Hashing) (identity : Nat) (i : Instruction) : Int :=
  hashing.pair (hashing.text i.opcode.name)
    (i.carried?.elim hashing.absent (Binary64.hash hashing identity))

end Instruction

end StackLine
