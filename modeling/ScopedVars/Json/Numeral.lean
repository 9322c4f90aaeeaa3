import ScopedVars.Double.Nearest

/-!
# `Json/Numeral` — numbers as a JSON text spells them

A numeral is kept exactly: its sign, its digits as one natural, and the power of ten that scales
them. Whether it was spelled as a whole number is part of it, because messages speak of integers and
of floating point numbers; every numeral is good for a `Double`, unless it is too large for one.
-/

set_option autoImplicit false

namespace ScopedVars

namespace Json

/-- The numeral `± digits · 10 ^ power`. -/
structure Numeral where
  negative : Bool
  digits : Nat
  power : Int
  /-- Spelled without decimal point and exponent. -/
  whole : Bool
deriving DecidableEq

namespace Numeral

/-- The nearest double, if the numeral does not round to infinity. -/
def toDouble? (n : Numeral) : Option Double :=
  let x := Double.ofDecimal n.negative n.digits n.power
  if x.isFinite then some x else none

/-- The integer that the numeral is taken for: a whole number that 64 bits hold, with sign if it is
negative and without if it is not. The numeral `-0` is no integer, since it would lose its sign. -/
def integer? (n : Numeral) : Option Int :=
  if !n.whole then none
  else if n.negative then
    if 0 < n.digits ∧ n.digits ≤ 0x8000000000000000 then some (-n.digits) else none
  else if n.digits < 0x10000000000000000 then some n.digits
  else none

end Numeral

end Json

end ScopedVars
