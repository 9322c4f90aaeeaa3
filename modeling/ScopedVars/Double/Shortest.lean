import ScopedVars.Double

/-!
# `Double/Shortest` — the fewest decimal digits that read back

The text of a finite number names the shortest decimal that rounds to it. The reals that round to a
number are an interval around it, its ends half a step away; below a power of two the step is half
as wide, so all three points are whole in *quarter steps*. The ends belong to the interval exactly
when the mantissa is even, because ties go to even.

A decimal of power `k` is a point of the grid of multiples of `10 ^ k`. If any point of a grid lies
in the interval, one of the value's two neighbours on that grid does, so the search asks these two,
from a grid too coarse to have a hit down to the grid that holds the value itself. The first hit
has the fewest digits; of two hits the nearer wins, and a tie goes where the caller's notation says.
-/

set_option autoImplicit false

namespace ScopedVars

/-- The decimal `digits · 10 ^ power`. -/
structure Decimal where
  digits : Nat
  power : Int
deriving DecidableEq

/-- Where a decimal goes that lies halfway between two candidates. -/
inductive Tie where
  | up
  | even
deriving DecidableEq

/-- The upper or lower of the candidates `below` and `below + 1`, both equally near. -/
def Tie.choose (below : Nat) : Tie → Nat
  | .up => below + 1
  | .even => below + below % 2

/-- The reals that round to one positive number, in units of `2 ^ scale`, a quarter of the number's
step. -/
structure RoundingSpan where
  value : Nat
  lower : Nat
  upper : Nat
  scale : Int
  closed : Bool

namespace RoundingSpan

/-- The span of a finite number other than zero. The step below a power of two is half the step
above it, unless the number is subnormal or the least normal one. -/
def ofDouble (x : Double) : RoundingSpan where
  value := 4 * x.mantissa
  lower := 4 * x.mantissa - (if x.fraction.val = 0 ∧ 1 < x.exponent.val then 1 else 2)
  upper := 4 * x.mantissa + 2
  scale := x.scale - 2
  closed := x.mantissa % 2 = 0

/-- A point `p` of the span and a point `c` of the grid of multiples of `10 ^ power` compare as
`p * s.weight power` and `c * s.spacing power` do. -/
def weight (s : RoundingSpan) (power : Int) : Nat :=
  Nat.pow 2 s.scale.toNat * Nat.pow 10 (-power).toNat

/-- The distance of two grid points, in the unit in which `weight` measures the span. -/
def spacing (s : RoundingSpan) (power : Int) : Nat :=
  Nat.pow 2 (-s.scale).toNat * Nat.pow 10 power.toNat

/-- Whether the decimal `c · 10 ^ power` lies in the span. -/
def contains (s : RoundingSpan) (power : Int) (c : Nat) : Bool :=
  let point := c * s.spacing power
  let low := s.lower * s.weight power
  let high := s.upper * s.weight power
  if s.closed then decide (low ≤ point ∧ point ≤ high) else decide (low < point ∧ point < high)

/-- The nearest multiple of `10 ^ power` in the span, if there is one. -/
def onGrid (s : RoundingSpan) (tie : Tie) (power : Int) : Option Nat :=
  let value := s.value * s.weight power
  let below := value / s.spacing power
  match s.contains power below, s.contains power (below + 1) with
  | false, false => none
  | true, false => some below
  | false, true => some (below + 1)
  | true, true =>
    match compare (2 * (value % s.spacing power)) (s.spacing power) with
    | .lt => some below
    | .gt => some (below + 1)
    | .eq => some (tie.choose below)

/-- The power of ten of a grid that holds the value itself: a negative power of two is a whole
number of the same negative powers of ten. -/
def exactPower (s : RoundingSpan) : Int :=
  min s.scale 0

/-- A power of ten above the span: the value is below `2 ^ n`, where `2 ^ n ≤ 10 ^ (n / 3 + 1)`, and
for negative `n`, `2 ^ n ≤ 10 ^ (-(3 * -n / 10))`, since eight is below ten and a thousand below
1024. -/
def coarsePower (s : RoundingSpan) : Int :=
  let n : Int := s.value.log2 + 1 + s.scale
  if 0 ≤ n then n / 3 + 1 else -(3 * -n / 10)

/-- The first hit on the grids from `exactPower + fuel` down to `exactPower`. -/
def search (s : RoundingSpan) (tie : Tie) : Nat → Decimal
  | 0 => ⟨s.value * s.weight s.exactPower / s.spacing s.exactPower, s.exactPower⟩
  | fuel + 1 =>
    let power := s.exactPower + (fuel + 1 : Nat)
    match s.onGrid tie power with
    | some c => ⟨c, power⟩
    | none => s.search tie fuel

end RoundingSpan

/-- The decimal with the fewest digits that rounds to the absolute value of a finite number; the
nearest of them if there are several. Zero is the digit 0. -/
def Double.shortest (tie : Tie) (x : Double) : Decimal :=
  if x.isZero then ⟨0, 0⟩
  else
    let s := RoundingSpan.ofDouble x
    s.search tie (s.coarsePower - s.exactPower).toNat

end ScopedVars
