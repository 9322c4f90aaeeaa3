import ScopedVars.Json.Token

/-!
# `Json/Scanner/Quoted` — a string, character by character

A string that has begun collects its characters. An escape may be one half of a surrogate pair; if
its other half does not come next, the string has no contents, although it goes on as a string.
-/

set_option autoImplicit false

namespace ScopedVars

namespace Json

/-- Where in a string the scanner is. -/
inductive StringPart where
  | text
  /-- After a backslash. -/
  | escape
  /-- Among the four digits of a `\u` escape: how many characters and bytes of it there are, and
  their value, if they are all hexadecimal digits. -/
  | unicode (count bytes : Nat) (value : Option Nat)
deriving DecidableEq

/-- A string that has begun. -/
structure StringScan where
  part : StringPart
  /-- The characters so far, the last one first. -/
  text : List Char
  /-- A first half of a surrogate pair, if the last escape was one. -/
  half : Option Nat
  /-- Whether some half had no other half beside it. -/
  broken : Bool

namespace StringScan

/-- A string after its opening quote. -/
def start : StringScan :=
  ⟨.text, [], none, false⟩

/-- The string with one more character. A first half that waits for its other half waits in vain. -/
def push (s : StringScan) (c : Char) : StringScan :=
  ⟨.text, c :: s.text, none, s.broken || s.half.isSome⟩

/-- The string with one more UTF-16 unit. -/
def pushUnit (s : StringScan) (unit : Nat) : StringScan :=
  match s.half with
  | some high =>
    if 0xDC00 ≤ unit ∧ unit < 0xE000 then
      let c := Char.ofNat (0x10000 + (high - 0xD800) * 0x400 + (unit - 0xDC00))
      ⟨.text, c :: s.text, none, s.broken⟩
    else ⟨.text, s.text, none, true⟩
  | none =>
    if 0xDC00 ≤ unit ∧ unit < 0xE000 then ⟨.text, s.text, none, true⟩
    else if 0xD800 ≤ unit ∧ unit < 0xDC00 then ⟨.text, s.text, some unit, s.broken⟩
    else ⟨.text, Char.ofNat unit :: s.text, none, s.broken⟩

/-- The string, when its closing quote has come. -/
def contents (s : StringScan) : Option String :=
  if s.broken || s.half.isSome then none else some (String.ofList s.text.reverse)

/-- The flaw of a string that breaks off for this reason. -/
def flaw (s : StringScan) (fault : Fault) : Flaw :=
  .string (if s.broken then .malformed else fault) fault

/-- The character that a short escape stands for. -/
def unescape? (c : Char) : Option Char :=
  match c with
  | '"' => some '"'
  | '\\' => some '\\'
  | '/' => some '/'
  | 'b' => some '\x08'
  | 'f' => some '\x0c'
  | 'n' => some '\n'
  | 'r' => some '\r'
  | 't' => some '\t'
  | _ => none

/-- The value of a hexadecimal digit. -/
def hexValue? (c : Char) : Option Nat :=
  if '0' ≤ c ∧ c ≤ '9' then some (c.toNat - '0'.toNat)
  else if 'a' ≤ c ∧ c ≤ 'f' then some (c.toNat - 'a'.toNat + 10)
  else if 'A' ≤ c ∧ c ≤ 'F' then some (c.toNat - 'A'.toNat + 10)
  else none

/-- One more character after `\u`. Whether the escape is malformed is decided when there are four
bytes of it, not before: a text that ends earlier has just ended. -/
def pushHex (s : StringScan) (count bytes : Nat) (value : Option Nat) (c : Char) :
    Except Flaw StringScan :=
  let bytes := bytes + c.utf8Size
  let value := value.bind fun v => (hexValue? c).map (16 * v + ·)
  if bytes < 4 then .ok { s with part := .unicode (count + 1) bytes value }
  else
    match value with
    | some unit => .ok (s.pushUnit unit)
    | none => .error (s.flaw .malformed)

end StringScan

end Json

end ScopedVars
