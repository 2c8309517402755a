/-!
The eight words of the language.

A word is written in a line by its token, in exactly this case; listings show its name.
-/

namespace StackLine

inductive Word
  | add | sub | mul | div | dup | swap | jump | print
  deriving DecidableEq

namespace Word

def all : List Word := [add, sub, mul, div, dup, swap, jump, print]

def token : Word → String
  | add => "+"
  | sub => "-"
  | mul => "*"
  | div => "/"
  | dup => "dup"
  | swap => "swp"
  | jump => "jnz"
  | print => "print"

def name : Word → String
  | add => "ADD"
  | sub => "SUB"
  | mul => "MUL"
  | div => "DIV"
  | dup => "DUP"
  | swap => "SWP"
  | jump => "JNZ"
  | print => "PRINT"

def ofToken? (token : String) : Option Word := all.find? (·.token == token)

@[simp] theorem ofToken?_token (w : Word) : ofToken? w.token = some w := by
  cases w <;> decide

theorem token_of_ofToken? {t : String} {w : Word} (h : ofToken? t = some w) : w.token = t := by
  have := List.find?_some h
  simpa using this

end Word

end StackLine
