import ScopedVars.Double

/-!
# `Double/Nearest` — the double nearest to a decimal

A decimal is `digits · 10 ^ power`, and the number read for it is the nearest double, ties to the
even mantissa. Rounding is done once, on a quotient of naturals:

> `nearest n d` is the double whose rank is `n / d`, in steps of the doubles around it, rounded half
> to even.

The steps around a quotient are `2 ^ shift` times the least positive double, where `shift` leaves 53
binary digits before the point; below that many digits the step is the least double itself, so
subnormal numbers need no case of their own.
-/

set_option autoImplicit false

namespace ScopedVars

/-- The quotient `n / d` rounded to a whole number, a half to the even neighbour. -/
def roundHalfEven (n d : Nat) : Nat :=
  let q := n / d
  match compare (2 * (n % d)) d with
  | .lt => q
  | .gt => q + 1
  | .eq => q + q % 2

namespace Double

/-- The double nearest to `± n / d`, ties to even. Quotients past the largest finite double by half
a step or more give infinity. -/
def nearest (negative : Bool) (n d : Nat) : Double :=
  let steps := n * Nat.pow 2 1074
  let shift := (steps / d).log2 - 52
  ofRank negative (shift * 0x10000000000000 + roundHalfEven steps (d * Nat.pow 2 shift))

/-- The double nearest to `± digits · 10 ^ power`, ties to even.

The first three cases keep the arithmetic small for powers that no double comes near to, such as
`1e999999999`. They change no result: `10 ^ 400` is past every finite double, and a decimal below
`2 ^ (-1076)`, which is less than half of the least double, rounds to zero. -/
def ofDecimal (negative : Bool) (digits : Nat) (power : Int) : Double :=
  if digits = 0 then ofRank negative 0
  else if 400 < power then ofRank negative infinityRank
  else if (digits.log2 : Int) + 3 * power < -1077 then ofRank negative 0
  else nearest negative (digits * Nat.pow 10 power.toNat) (Nat.pow 10 (-power).toNat)

end Double

end ScopedVars
