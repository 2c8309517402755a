/-!
Blanks, and trimming them off the ends of a text.

Three sets are in use: the blanks of Unicode, for command lines; the six of ASCII, around a
number that is read leniently; and these six with the four separators `U+001C` to `U+001F`,
which a number that is read strictly must not have at its ends.
-/

namespace StackLine

namespace Text

/-- Space, tab, line feed, vertical tab, form feed and carriage return. -/
def isAsciiBlank (c : Char) : Bool :=
  c.toNat == 32 || (9 ≤ c.toNat && c.toNat ≤ 13)

def isSeparator (c : Char) : Bool :=
  28 ≤ c.toNat && c.toNat ≤ 31

/-- The blanks beyond ASCII. -/
def isWideBlank (c : Char) : Bool :=
  c.toNat == 0x85 || c.toNat == 0xa0 || c.toNat == 0x1680 ||
    (0x2000 ≤ c.toNat && c.toNat ≤ 0x200a) || c.toNat == 0x2028 || c.toNat == 0x2029 ||
    c.toNat == 0x202f || c.toNat == 0x205f || c.toNat == 0x3000

def isBlank (c : Char) : Bool :=
  isAsciiBlank c || isSeparator c || isWideBlank c

/-- The text without the characters at its two ends that the class holds. -/
def trim (inClass : Char → Bool) (cs : List Char) : List Char :=
  ((cs.dropWhile inClass).reverse.dropWhile inClass).reverse

@[simp] theorem trim_nil (inClass : Char → Bool) : trim inClass [] = [] := rfl

end Text

end StackLine
