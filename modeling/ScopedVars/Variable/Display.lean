import ScopedVars.Double.Text
import ScopedVars.Text.Pieces
import ScopedVars.Variable

/-!
# `Variable/Display` — the text a player would read

Primitive variables show what they hold; records and arrays only say how much they hold.
-/

set_option autoImplicit false

namespace ScopedVars

namespace Variable

/-- Numbers are shown to a reader in full: never with an exponent, and whole numbers without a
point. -/
def displayStyle : NumberStyle where
  tie := .up
  positional _ := true
  marksWhole := false
  signsExponent := false

/-- The characters of `Variable.display`. -/
def displayChars : Variable → List Char
  | number x => x.text displayStyle
  | string s => s.toList
  | boolean b => Text.bool b
  | record children => "<structure: ".toList ++ Text.count children.length ++ " children>".toList
  | array elements => "<array: ".toList ++ Text.count elements.length ++ " elements>".toList

/-- The text of a variable for a reader. -/
def display (v : Variable) : String :=
  String.ofList v.displayChars

end Variable

end ScopedVars
