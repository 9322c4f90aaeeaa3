import ScopedVars.Text.Printable

/-!
# `Text/Quoted` — strings in double quotes, as debugging texts show them

A quoted string can be told from everything around it: a quote or backslash inside it is escaped, so
the first quote that no backslash precedes ends it. What cannot be seen is written by its code
point.
-/

set_option autoImplicit false

namespace ScopedVars

namespace Text

/-- One character of a quoted string. -/
def escape (c : Char) : List Char :=
  match c with
  | '\x00' => ['\\', '0']
  | '\t' => ['\\', 't']
  | '\n' => ['\\', 'n']
  | '\r' => ['\\', 'r']
  | '"' => ['\\', '"']
  | '\\' => ['\\', '\\']
  | c => if printable c then [c] else '\\' :: 'u' :: '{' :: (Nat.toDigits 16 c.toNat ++ ['}'])

/-- The string in double quotes. -/
def quoted (s : String) : List Char :=
  '"' :: (s.toList.flatMap escape ++ ['"'])

end Text

end ScopedVars
