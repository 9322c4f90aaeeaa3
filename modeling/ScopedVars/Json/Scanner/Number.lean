import ScopedVars.Json.Numeral

/-!
# `Json/Scanner/Number` — a number, character by character

A number that has begun knows what may come next. It may end after any digit except the digits that
it has yet to have: one after the sign, one after the point, one after the mark of the exponent.
-/

set_option autoImplicit false

namespace ScopedVars

namespace Json

/-- The value of a decimal digit. -/
def digitValue (c : Char) : Nat :=
  c.toNat - '0'.toNat

/-- How far a number has come. -/
inductive NumberPart where
  /-- After the minus sign. -/
  | sign
  /-- After a leading zero, which no digit may follow. -/
  | zero
  | whole
  /-- After the decimal point. -/
  | point
  | fraction
  /-- After the `e` of the exponent. -/
  | mark
  /-- After the sign of the exponent. -/
  | markSign
  | exponent
deriving DecidableEq

/-- A number that has begun. -/
structure NumberScan where
  part : NumberPart
  negative : Bool
  digits : Nat
  /-- How many of the digits stand after the decimal point. -/
  places : Nat
  exponentNegative : Bool
  exponent : Nat

namespace NumberScan

/-- A number at its first character, which is a minus sign or a digit. -/
def first (c : Char) : NumberScan :=
  let part := if c = '-' then .sign else if c = '0' then .zero else .whole
  let digits := if c = '-' then 0 else digitValue c
  ⟨part, c = '-', digits, 0, false, 0⟩

/-- What has been scanned, as a numeral. -/
def numeral (n : NumberScan) : Numeral where
  negative := n.negative
  digits := n.digits
  power := (if n.exponentNegative then -(n.exponent : Int) else n.exponent) - n.places
  whole := n.part = .zero ∨ n.part = .whole

/-- Whether the number may end here. -/
def complete (n : NumberScan) : Bool :=
  match n.part with
  | .zero | .whole | .fraction | .exponent => true
  | .sign | .point | .mark | .markSign => false

/-- One more digit of the significand. -/
def pushDigit (n : NumberScan) (part : NumberPart) (c : Char) : NumberScan :=
  { n with part, digits := 10 * n.digits + digitValue c }

/-- One more digit after the decimal point. -/
def pushPlace (n : NumberScan) (c : Char) : NumberScan :=
  { n.pushDigit .fraction c with places := n.places + 1 }

/-- One more digit of the exponent. -/
def pushExponent (n : NumberScan) (c : Char) : NumberScan :=
  { n with part := .exponent, exponent := 10 * n.exponent + digitValue c }

/-- The number with one more character, if it can go on with that character. -/
def push? (n : NumberScan) (c : Char) : Option NumberScan :=
  match n.part with
  | .sign =>
    if c = '0' then some (n.pushDigit .zero c)
    else if c.isDigit then some (n.pushDigit .whole c)
    else none
  | .zero =>
    if c = '.' then some { n with part := .point }
    else if c = 'e' ∨ c = 'E' then some { n with part := .mark }
    else none
  | .whole =>
    if c.isDigit then some (n.pushDigit .whole c)
    else if c = '.' then some { n with part := .point }
    else if c = 'e' ∨ c = 'E' then some { n with part := .mark }
    else none
  | .point => if c.isDigit then some (n.pushPlace c) else none
  | .fraction =>
    if c.isDigit then some (n.pushPlace c)
    else if c = 'e' ∨ c = 'E' then some { n with part := .mark }
    else none
  | .mark =>
    if c = '+' then some { n with part := .markSign }
    else if c = '-' then some { n with part := .markSign, exponentNegative := true }
    else if c.isDigit then some (n.pushExponent c)
    else none
  | .markSign | .exponent => if c.isDigit then some (n.pushExponent c) else none

/-- Whether the number is over with this character, which it cannot go on with. A leading zero does
not end before another digit. -/
def endsBefore (n : NumberScan) (c : Char) : Bool :=
  n.complete && !(n.part == .zero && c.isDigit)

end NumberScan

end Json

end ScopedVars
