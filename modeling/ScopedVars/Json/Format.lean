import ScopedVars.Double.Text
import ScopedVars.Variable

/-!
# `Json/Format` — the words and limits of the JSON form

What the writer and the reader have to agree on:

* a variable is an object of its `type`, one of five words, and its `value`;
* a container and the children of a record are an object of variables by name;
* a layout is an object of `name` and `variables`, a project has `layouts` as well;
* numbers are written with the fewest digits that read back.
-/

set_option autoImplicit false

namespace ScopedVars

namespace Json

/-- The keys of the objects that stand for variables, layouts and projects. -/
inductive Field where
  | type
  | value
  | name
  | vars
  | layouts
deriving DecidableEq

def Field.key : Field → String
  | type => "type"
  | value => "value"
  | name => "name"
  | vars => "variables"
  | layouts => "layouts"

/-- The word for a kind of variable. -/
def kindWord : Kind → String
  | .number => "number"
  | .string => "string"
  | .boolean => "boolean"
  | .record => "structure"
  | .array => "array"

/-- The kind that a word stands for. -/
def kindOfWord? : String → Option Kind
  | "number" => some .number
  | "string" => some .string
  | "boolean" => some .boolean
  | "structure" => some .record
  | "array" => some .array
  | _ => none

/-- Numbers have at least one decimal. They have an exponent, always with its sign, from `1e+16` on
and below `1e-5`. -/
def numberStyle : NumberStyle where
  tie := .even
  positional point := decide (-4 ≤ point ∧ point ≤ 16)
  marksWhole := true
  signsExponent := true

/-- How many brackets may be open at once in what is read. What is skipped has no limit. -/
def nestingLimit : Nat :=
  127

end Json

end ScopedVars
