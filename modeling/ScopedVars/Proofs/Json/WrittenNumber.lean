import ScopedVars.Json.Write
import ScopedVars.Proofs.Double.Text

/-!
# `Proofs/Json/WrittenNumber` — a written number is read as itself

The writer has one text for a number: the digits of its shortest decimal with a point among them or
behind them, zeros to fill up, and an exponent where the point would be too far away. The numeral of
this text is the decimal up to zeros at its end (`Numeral.written`); and since the decimal is the
shortest one of the number, the numeral is good for exactly this number (`toDouble?_written`).
-/

set_option autoImplicit false

namespace ScopedVars

namespace Json

/-! ## The text of a number -/

/-- How many zeros a decimal is written with at its end: those that fill up a whole number, and the
one behind its point. -/
def writtenZeros (d : Decimal) : Nat :=
  if numberStyle.positional ((Nat.toDigits 10 d.digits).length + d.power) ∧ 0 ≤ d.power then
    d.power.toNat + 1
  else 0

def Numeral.ofDecimal (negative : Bool) (d : Decimal) : Numeral where
  negative
  digits := d.digits * Nat.pow 10 (writtenZeros d)
  power := d.power - writtenZeros d
  whole := false

theorem Numeral.ofDecimal_eq (negative : Bool) (d : Decimal) :
    Numeral.ofDecimal negative d = numberStyle.numeral negative d := by
  have hwhole : (numberStyle.numeral negative d).whole = false := Bool.and_false _
  have hzeros : numberStyle.zeros d = writtenZeros d := rfl
  unfold Numeral.ofDecimal
  rw [← hzeros, ← hwhole]
  rfl

/-! ## A number and its numeral -/

def Numeral.written (x : Double) : Numeral :=
  Numeral.ofDecimal x.negative (x.shortest numberStyle.tie)

theorem Numeral.written_eq (x : Double) : Numeral.written x = x.numeral numberStyle :=
  Numeral.ofDecimal_eq x.negative _

/-- **The numeral that is written for a number is good for this number.** -/
theorem toDouble?_written {x : Double} (hx : x.isFinite = true) :
    (Numeral.written x).toDouble? = some x := by
  unfold Numeral.toDouble?
  rw [Numeral.written_eq]
  simp only [Double.ofDecimal_numeral hx, hx, if_true]

/-- **A finite number is written as a text of its numeral.** -/
theorem numberText_numberChars {x : Double} (hx : x.isFinite = true) :
    NumberText (Numeral.written x) (numberChars x) := by
  unfold numberChars
  rw [Numeral.written_eq, if_pos hx]
  exact Double.numberText_text hx numberStyle

end Json

end ScopedVars
