import ScopedVars.Double.Shortest

/-!
# `Double/Text` — the texts of numbers

Every text of a number shows the digits of its shortest decimal; the texts differ in where the
decimal point may stand and what an exponent looks like. Those decisions are a `NumberStyle`, one
value of it for each kind of text, kept beside the text it belongs to.
-/

set_option autoImplicit false

namespace ScopedVars

/-- The decisions of one kind of number text.

The *point* of a number is the place of its decimal point, counted from its first digit: 1 for
`2.5`, 2 for `25`, 0 for `0.25`, -1 for `0.025`. -/
structure NumberStyle where
  /-- Where a tie between two shortest decimals goes. -/
  tie : Tie
  /-- Whether a number with this point is written without an exponent. -/
  positional : Int → Bool
  /-- Whether a whole number without exponent ends in `.0`. -/
  marksWhole : Bool
  /-- Whether a positive exponent has a sign. -/
  signsExponent : Bool

namespace NumberStyle

/-- Digits with the decimal point after the first `point` of them, filled up with zeros on the side
where there are too few. -/
def positionalText (style : NumberStyle) (digits : List Char) (point : Int) : List Char :=
  if point ≤ 0 then
    '0' :: '.' :: (List.replicate (-point).toNat '0' ++ digits)
  else if digits.length ≤ point.toNat then
    digits ++ List.replicate (point.toNat - digits.length) '0'
      ++ (if style.marksWhole then ['.', '0'] else [])
  else
    digits.take point.toNat ++ '.' :: digits.drop point.toNat

/-- One digit, the others after the decimal point if there are any, and the exponent. -/
def exponentText (style : NumberStyle) (digits : List Char) (point : Int) : List Char :=
  let exponent := point - 1
  let sign :=
    if exponent < 0 then ['-'] else if style.signsExponent then ['+'] else []
  digits.take 1 ++ (if digits.length ≤ 1 then [] else '.' :: digits.drop 1)
    ++ 'e' :: (sign ++ Nat.toDigits 10 exponent.natAbs)

/-- The text of a decimal without its sign. -/
def decimalText (style : NumberStyle) (d : Decimal) : List Char :=
  let digits := Nat.toDigits 10 d.digits
  let point := digits.length + d.power
  if style.positional point then style.positionalText digits point
  else style.exponentText digits point

end NumberStyle

/-- The text of a number. A NaN has no sign, not even when its sign bit is set. -/
def Double.text (style : NumberStyle) (x : Double) : List Char :=
  if x.isNaN then ['N', 'a', 'N']
  else
    (if x.negative then ['-'] else [])
      ++ (if x.isFinite then style.decimalText (x.shortest style.tie) else ['i', 'n', 'f'])

end ScopedVars
