import Mathlib.Tactic.Ring
import Mathlib.Tactic.Linarith
import ScopedVars.Double

/-!
# `Proofs/Double/Rank` — a finite number by its mantissa and its binade

`Double.rank` counts the doubles below a number, `Double.mantissa` and `Double.scale` say what the
number is worth, and rounding needs to go from the one view to the other. The bridge is the
*binade*: how often the step between neighbours has doubled since the subnormal numbers.

> `x.rank = x.binade * 2 ^ 52 + x.mantissa`

holds for subnormal and normal numbers alike, because the implicit leading bit of a normal mantissa
is what the exponent is ahead of the binade. So the rank of a number is a binade and a rounded
mantissa put together, which is the form in which `Double.nearest` computes it.
-/

set_option autoImplicit false

namespace ScopedVars

namespace Double

/-- How often the step between neighbours has doubled, counted from the subnormal numbers. -/
def binade (x : Double) : Nat :=
  max x.exponent.val 1 - 1

theorem rank_eq (x : Double) : x.rank = x.binade * 2 ^ 52 + x.mantissa := by
  unfold rank binade mantissa
  split <;> omega

theorem scale_eq (x : Double) : x.scale = (x.binade : Int) - 1074 := by
  unfold scale binade
  omega

theorem mantissa_lt (x : Double) : x.mantissa < 2 ^ 53 := by
  have hf := x.fraction.isLt
  unfold mantissa
  split <;> omega

/-- Past the subnormal numbers and the least normal ones the leading bit is there. -/
theorem le_mantissa {x : Double} (h : 0 < x.binade) : 2 ^ 52 ≤ x.mantissa := by
  unfold binade at h
  unfold mantissa
  rw [if_neg (by omega)]
  omega

theorem mantissa_pos {x : Double} (h : x.isZero = false) : 0 < x.mantissa := by
  rcases Nat.eq_zero_or_pos x.binade with hb | hb
  · have hr := x.rank_eq
    rw [hb, Nat.zero_mul, Nat.zero_add] at hr
    rw [← hr]
    exact Nat.pos_of_ne_zero (by simpa [isZero] using h)
  · exact Nat.lt_of_lt_of_le (by norm_num) (le_mantissa hb)

/-! ## Back from a rank -/

theorem exponent_lt {x : Double} (h : x.isFinite = true) : x.exponent.val < 2047 := by
  have hlt := x.exponent.isLt
  have hne : x.exponent.val ≠ 2047 := by simpa [isFinite] using h
  omega

theorem rank_lt_infinityRank {x : Double} (h : x.isFinite = true) : x.rank < infinityRank := by
  have he := exponent_lt h
  have hf := x.fraction.isLt
  unfold rank infinityRank
  omega

/-- Sign and rank are all there is to a finite number. -/
theorem ofRank_rank {x : Double} (h : x.isFinite = true) : ofRank x.negative x.rank = x := by
  have hlt := rank_lt_infinityRank h
  obtain ⟨negative, ⟨e, he⟩, ⟨f, hf⟩⟩ := x
  unfold ofRank
  rw [Nat.min_eq_left hlt.le]
  simp only [rank, Double.mk.injEq, Fin.ext_iff, Fin.val_ofNat, true_and]
  omega

theorem eq_ofRank_zero {x : Double} (h : x.isZero = true) : x = ofRank x.negative 0 := by
  have hr : x.rank = 0 := by simpa [isZero] using h
  have hfin : x.isFinite = true := by
    have hle : x.exponent.val * 0x10000000000000 ≤ x.rank := Nat.le_add_right _ _
    simp only [isFinite, bne_iff_ne]
    omega
  rw [← hr, ofRank_rank hfin]

/-- Ranks from infinity on are all infinity. -/
theorem ofRank_of_infinityRank_le (negative : Bool) {rank : Nat} (h : infinityRank ≤ rank) :
    ofRank negative rank = ofRank negative infinityRank := by
  unfold ofRank
  rw [Nat.min_eq_right h, Nat.min_self]

end Double

end ScopedVars
