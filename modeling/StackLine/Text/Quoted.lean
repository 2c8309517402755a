import StackLine.Text.Printable

/-!
A text in quotes, as messages show it.

The quote is an apostrophe, or a double quote when the text has apostrophes and no double
quote. A backslash marks the quote in use and itself; tab, line feed and carriage return have
letters; all other characters that cannot be printed are written by their code, in two, four or
eight hexadecimal digits.
-/

namespace StackLine

namespace Text

def apostrophe : Char := Char.ofNat 39
def doubleQuote : Char := Char.ofNat 34
def backslash : Char := Char.ofNat 92

def quoteFor (cs : List Char) : Char :=
  if cs.contains apostrophe && !cs.contains doubleQuote then doubleQuote else apostrophe

/-- The last `width` hexadecimal digits of a number. -/
def hexDigits : Nat → Nat → List Char
  | 0, _ => []
  | width + 1, n => hexDigits width (n / 16) ++ [Nat.digitChar (n % 16)]

/-- A character by its code, in as few digits as there are forms for. -/
def codeEscape (c : Char) : List Char :=
  if c.toNat < 0x100 then backslash :: 'x' :: hexDigits 2 c.toNat
  else if c.toNat < 0x10000 then backslash :: 'u' :: hexDigits 4 c.toNat
  else backslash :: 'U' :: hexDigits 8 c.toNat

def escape (quote c : Char) : List Char :=
  if c = quote ∨ c = backslash then [backslash, c]
  else if c.toNat = 9 then [backslash, 't']
  else if c.toNat = 10 then [backslash, 'n']
  else if c.toNat = 13 then [backslash, 'r']
  else if isHidden c then codeEscape c
  else [c]

/-- The text in quotes. Every character that cannot be printed is escaped. -/
def quoted (text : String) : String :=
  let cs := text.toList
  let quote := quoteFor cs
  String.ofList (quote :: cs.flatMap (escape quote) ++ [quote])

/-- A zero width space is escaped, and a character beyond the basic plane is not. -/
example :
    let cs := [Char.ofNat 0x200b, Char.ofNat 0x1f600]
    cs.flatMap (escape apostrophe) =
      [backslash, 'u', '2', '0', '0', 'b', Char.ofNat 0x1f600] := by decide +kernel

end Text

end StackLine
