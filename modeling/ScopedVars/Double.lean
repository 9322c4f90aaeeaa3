/-!
# `Double` — binary64 numbers, by their three fields

A number of this library is a binary64 number, and it is kept as the three fields of its
encoding: sign, biased exponent, fraction. Nothing is lost that way (two zeros, every NaN), equality
of `Double`s is equality bit for bit, and every fact about a value is one about two naturals:

> a finite `x` is `± x.mantissa · 2 ^ x.scale`.

The *rank* of a number reads exponent and fraction as one natural. It counts the doubles between
zero and the number, so rounding is arithmetic on ranks: one more is the next double, also where
the fraction overflows into the exponent and where the exponent reaches infinity.

The constant `0x10000000000000` is `2 ^ 52`, the number of fractions to one exponent.
-/

set_option autoImplicit false

namespace ScopedVars

/-- A binary64 number: sign, biased exponent and fraction. Exponent 0 holds zero and the subnormal
numbers, exponent 2047 the infinities and the NaNs. -/
structure Double where
  negative : Bool
  exponent : Fin 2048
  fraction : Fin 0x10000000000000
deriving DecidableEq

namespace Double

/-! ## The encoding -/

/-- The number whose 64 bits are `bits`: the sign stands first, then the exponent. -/
def ofBits (bits : UInt64) : Double where
  negative := bits.toNat / 0x8000000000000000 % 2 = 1
  exponent := Fin.ofNat 2048 (bits.toNat / 0x10000000000000)
  fraction := Fin.ofNat 0x10000000000000 bits.toNat

/-- Exponent and fraction as one natural: how many doubles lie between zero and this one. -/
def rank (x : Double) : Nat :=
  x.exponent.val * 0x10000000000000 + x.fraction.val

/-- The 64 bits of a number. -/
def toBits (x : Double) : UInt64 :=
  UInt64.ofNat ((if x.negative then 0x8000000000000000 else 0) + x.rank)

/-- The rank of infinity: every finite number ranks below it. -/
def infinityRank : Nat :=
  2047 * 0x10000000000000

/-- The number of a sign and a rank. A rank past infinity is infinity: there is no larger number to
round to. -/
def ofRank (negative : Bool) (rank : Nat) : Double :=
  let r := min rank infinityRank
  { negative
    exponent := Fin.ofNat 2048 (r / 0x10000000000000)
    fraction := Fin.ofNat 0x10000000000000 r }

/-- Positive zero. -/
def zero : Double :=
  ofRank false 0

instance : Inhabited Double :=
  ⟨zero⟩

/-! ## Classes of numbers -/

def isNaN (x : Double) : Bool :=
  x.exponent.val == 2047 && x.fraction.val != 0

def isFinite (x : Double) : Bool :=
  x.exponent.val != 2047

/-- Either of the two zeros. -/
def isZero (x : Double) : Bool :=
  x.rank == 0

/-! ## The value of a finite number -/

/-- The whole number that, scaled by `2 ^ scale`, is the number's absolute value. Normal numbers
have an implicit leading bit. -/
def mantissa (x : Double) : Nat :=
  if x.exponent.val = 0 then x.fraction.val else 0x10000000000000 + x.fraction.val

/-- The power of two that scales the mantissa. Subnormal numbers share the scale of the smallest
normal ones. -/
def scale (x : Double) : Int :=
  (max x.exponent.val 1 : Nat) - 1075

/-! ## Numeric equality -/

/-- Equality as arithmetic has it: the two zeros are equal, and a NaN equals nothing, not even
itself. It is neither coarser nor finer than `=`. -/
def equal (x y : Double) : Bool :=
  !x.isNaN && !y.isNaN && (x == y || (x.isZero && y.isZero))

end Double

end ScopedVars
