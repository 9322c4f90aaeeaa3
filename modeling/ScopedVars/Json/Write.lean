import ScopedVars.Json.Format
import ScopedVars.Project
import ScopedVars.Text.Pieces

/-!
# `Json/Write` — the JSON form of variables, containers, layouts and projects

Everything is written compactly, without blanks, and in one way only: every variable as its type and
then its value, every map in the order of its names. JSON has no number that is not finite; such a
number is written as null, which no reader takes for a number.
-/

set_option autoImplicit false

namespace ScopedVars

namespace Json

/-! ## Strings and maps -/

/-- One character of a string. Only quotes, backslashes and control characters are escaped. -/
def escape (c : Char) : List Char :=
  match c with
  | '"' => ['\\', '"']
  | '\\' => ['\\', '\\']
  | '\x08' => ['\\', 'b']
  | '\x0c' => ['\\', 'f']
  | '\n' => ['\\', 'n']
  | '\r' => ['\\', 'r']
  | '\t' => ['\\', 't']
  | c =>
    if c < ' ' then
      ['\\', 'u', '0', '0', Nat.digitChar (c.toNat / 16), Nat.digitChar (c.toNat % 16)]
    else [c]

/-- A string in quotes. -/
def stringChars (s : String) : List Char :=
  '"' :: (s.toList.flatMap escape ++ ['"'])

/-- An entry of a map. -/
def entry (key : String) (value : List Char) : List Char :=
  stringChars key ++ ':' :: value

/-- A map of these entries. -/
def map (entries : List (List Char)) : List Char :=
  '{' :: (Text.compact entries ++ ['}'])

/-- A list of these items. -/
def list (items : List (List Char)) : List Char :=
  '[' :: (Text.compact items ++ [']'])

/-- A number. -/
def numberChars (x : Double) : List Char :=
  if x.isFinite then x.text numberStyle else "null".toList

/-! ## Variables -/

/-- A variable of this kind and with this value. -/
def typed (kind : Kind) (value : List Char) : List Char :=
  map [entry Field.type.key (stringChars (kindWord kind)), entry Field.value.key value]

mutual

/-- The JSON form of a variable. -/
def variableChars : Variable → List Char
  | .number x => typed .number (numberChars x)
  | .string s => typed .string (stringChars s)
  | .boolean b => typed .boolean (Text.bool b)
  | .record children => typed .record (map (childEntries children))
  | .array elements => typed .array (list (elementItems elements))

/-- Each child as an entry of a map. -/
def childEntries : List (String × Variable) → List (List Char)
  | [] => []
  | (name, v) :: rest => entry name (variableChars v) :: childEntries rest

/-- Each element as an item of a list. -/
def elementItems : List Variable → List (List Char)
  | [] => []
  | v :: rest => variableChars v :: elementItems rest

end

/-! ## Containers, layouts and projects -/

/-- The JSON form of a container. -/
def containerChars (c : Container) : List Char :=
  map (childEntries c.entries)

/-- The JSON form of a layout. -/
def layoutChars (l : Layout) : List Char :=
  map [entry Field.name.key (stringChars l.name),
    entry Field.vars.key (containerChars l.locals)]

/-- The JSON form of a project. -/
def projectChars (p : Project) : List Char :=
  map [entry Field.name.key (stringChars p.name),
    entry Field.vars.key (containerChars p.globals),
    entry Field.layouts.key (list (p.layouts.map layoutChars))]

end Json

/-- The JSON text of a variable. -/
def Variable.toJson (v : Variable) : String :=
  String.ofList (Json.variableChars v)

/-- The JSON text of a container. -/
def Container.toJson (c : Container) : String :=
  String.ofList (Json.containerChars c)

/-- The JSON text of a layout. -/
def Layout.toJson (l : Layout) : String :=
  String.ofList (Json.layoutChars l)

/-- The JSON text of a project. -/
def Project.toJson (p : Project) : String :=
  String.ofList (Json.projectChars p)

end ScopedVars
