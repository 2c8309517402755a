/-!
Counting the members of a set.

The equality that decides which members are one need not hold between a member and itself, as
with what is not a number; such a member always counts. A set that goes by hashes looks no further
than the hashes when these differ, and takes an object for itself whatever the equality says.
-/

namespace StackLine

/-- How many members a set of these has, when `same` decides which are one. -/
def distinctCount {α : Type} (same : α → α → Bool) : List α → Nat
  | [] => 0
  | x :: rest => if rest.any (same x) then distinctCount same rest else distinctCount same rest + 1

/-- A value as it was made. What is made apart differs in identity, whatever its value. -/
structure Object (α : Type) where
  identity : Nat
  value : α

namespace Object

variable {α : Type} (hash : Nat → α → Int) (same : α → α → Bool)

/-- Whether a set that has `x` takes `y` for it: their hashes agree, and then they are one object
or equal. -/
def takenFor (x y : Object α) : Bool :=
  hash x.identity x.value == hash y.identity y.value &&
    (x.identity == y.identity || same x.value y.value)

/-- The members with one more, unless they have it. -/
def insert (kept : List (Object α)) (x : Object α) : List (Object α) :=
  if kept.any (takenFor hash same · x) then kept else x :: kept

/-- The members of the set of some objects, put in one after another. -/
def members (objects : List (Object α)) : List (Object α) :=
  objects.foldl (insert hash same) []

theorem members_concat (objects : List (Object α)) (x : Object α) :
    members hash same (objects ++ [x]) = insert hash same (members hash same objects) x :=
  List.foldl_append

end Object

end StackLine
