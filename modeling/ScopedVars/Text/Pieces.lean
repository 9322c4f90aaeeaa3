/-!
# `Text/Pieces` — small texts that larger ones are made of

Texts are lists of characters until they are finished: what a writer of this library says about its
output it says about lists.
-/

set_option autoImplicit false

namespace ScopedVars

namespace Text

/-- A count in decimal. -/
def count (n : Nat) : List Char :=
  Nat.toDigits 10 n

/-- A truth value. -/
def bool : Bool → List Char
  | true => "true".toList
  | false => "false".toList

/-- The pieces in a row, with a comma and a blank between two of them. -/
def spaced : List (List Char) → List Char
  | [] => []
  | [piece] => piece
  | piece :: rest => piece ++ ',' :: ' ' :: spaced rest

/-- The pieces in a row, with a comma between two of them. -/
def compact : List (List Char) → List Char
  | [] => []
  | [piece] => piece
  | piece :: rest => piece ++ ',' :: compact rest

end Text

end ScopedVars
