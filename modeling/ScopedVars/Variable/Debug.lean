import ScopedVars.Double.Text
import ScopedVars.Text.Pieces
import ScopedVars.Text.Quoted
import ScopedVars.Variable

/-!
# `Variable/Debug` — the text that shows all of a variable

Every variable is written out in full, with its kind in front and its strings in quotes, so that
variables which differ have texts which differ (NaNs apart, which all look alike).
-/

set_option autoImplicit false

namespace ScopedVars

namespace Variable

/-- Numbers have at least one decimal, and an exponent from `1e16` on and below `1e-4`. -/
def debugStyle : NumberStyle where
  tie := .up
  positional point := decide (-3 ≤ point ∧ point ≤ 16)
  marksWhole := true
  signsExponent := false

mutual

/-- The characters of `Variable.debug`: the kind and, in parentheses, what the variable holds. -/
def debugChars : Variable → List Char
  | number x => "Number(".toList ++ x.text debugStyle ++ ")".toList
  | string s => "String(".toList ++ Text.quoted s ++ ")".toList
  | boolean b => "Boolean(".toList ++ Text.bool b ++ ")".toList
  | record children =>
    "Structure(\x7b".toList ++ Text.spaced (debugChildren children) ++ "\x7d)".toList
  | array elements => "Array([".toList ++ Text.spaced (debugElements elements) ++ "])".toList

/-- Each child as its name and its text. -/
def debugChildren : List (String × Variable) → List (List Char)
  | [] => []
  | (name, v) :: rest => (Text.quoted name ++ ": ".toList ++ debugChars v) :: debugChildren rest

/-- The text of each element. -/
def debugElements : List Variable → List (List Char)
  | [] => []
  | v :: rest => debugChars v :: debugElements rest

end

/-- The text that shows all of a variable. -/
def debug (v : Variable) : String :=
  String.ofList v.debugChars

end Variable

end ScopedVars
