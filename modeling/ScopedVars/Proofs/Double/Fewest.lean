import Mathlib.Data.Nat.Digits.Lemmas
import ScopedVars.Proofs.Double.Rounding

/-!
# `Proofs/Double/Fewest` — no decimal with fewer digits rounds to the number

The search goes from a grid too coarse to have a point in the span down to the grid that holds the
value. This module proves that it does not miss a point on the way: no point of a coarser grid than
the one it ends on lies in the span (`contains_of_lt_power`). It takes three facts, one for each
choice of the search:

* the two neighbours of the value are enough to ask (`contains_of_onGrid_none`),
* the coarsest grid asked is coarse enough (`contains_of_coarsePower_lt`),
* the search goes through every grid between (`onGrid_of_search`).

That this decimal has the fewest digits follows (`significantDigits_shortest_le`). A decimal with
fewer digits is on a coarser grid, or it is so small that a power of ten lies between it and the
shortest one; and that power of ten is on a coarser grid.
-/

set_option autoImplicit false

namespace ScopedVars

/-! ## Significant digits -/

/-- How many digits a natural has, the zeros at its end not counted. -/
def significantDigits (n : Nat) : Nat :=
  ((Nat.digits 10 n).dropWhile (· == 0)).length

theorem significantDigits_le (n : Nat) : significantDigits n ≤ (Nat.digits 10 n).length :=
  (List.dropWhile_sublist _).length_le

theorem significantDigits_mul_ten (n : Nat) :
    significantDigits (n * 10) = significantDigits n := by
  rcases Nat.eq_zero_or_pos n with rfl | hn
  · rfl
  · unfold significantDigits
    rw [Nat.mul_comm, Nat.digits_base_mul (by decide) hn]
    rfl

theorem significantDigits_mul_pow (n zeros : Nat) :
    significantDigits (n * 10 ^ zeros) = significantDigits n := by
  induction zeros with
  | zero => rw [Nat.pow_zero, Nat.mul_one]
  | succ zeros ih => rw [Nat.pow_succ, ← Nat.mul_assoc, significantDigits_mul_ten, ih]

/-- Without the zeros at its end a natural has its significant digits only. -/
theorem exists_eq_mul_pow (n : Nat) :
    ∃ m zeros, n = m * 10 ^ zeros ∧ m < 10 ^ significantDigits n := by
  induction n using Nat.strongRecOn with
  | _ n ih =>
    by_cases hten : n % 10 = 0 ∧ 0 < n
    · obtain ⟨m, zeros, heq, hlt⟩ := ih (n / 10) (by omega)
      have hn : n = n / 10 * 10 := by omega
      refine ⟨m, zeros + 1, ?_, ?_⟩
      · rw [hn, heq, Nat.pow_succ, Nat.mul_assoc]
      · rwa [hn, significantDigits_mul_ten]
    · refine ⟨n, 0, (Nat.mul_one n).symm, ?_⟩
      have hlt : n < 10 ^ (Nat.digits 10 n).length := Nat.lt_base_pow_length_digits (by decide)
      have hsame : significantDigits n = (Nat.digits 10 n).length := by
        rcases Nat.eq_zero_or_pos n with rfl | hn
        · rfl
        · unfold significantDigits
          have hfirst : n % 10 ≠ 0 := fun h => hten ⟨h, hn⟩
          rw [Nat.digits_def' (by decide) hn, List.dropWhile_cons_of_neg (by simpa using hfirst)]
      rwa [hsame]

/-! ## The search misses nothing -/

namespace RoundingSpan

/-- Halfway between the ends of a span is what it encloses, whether it is closed or not. -/
theorem encloses_value {s : RoundingSpan} (hl : s.lower < s.value) (hu : s.value < s.upper) :
    s.Encloses (s.value * 2 ^ s.scale) := by
  have hunit : (0 : ℚ) < 2 ^ s.scale := by positivity
  have hlow : (s.lower : ℚ) * 2 ^ s.scale < s.value * 2 ^ s.scale :=
    mul_lt_mul_of_pos_right (mod_cast hl) hunit
  have hupp : (s.value : ℚ) * 2 ^ s.scale < s.upper * 2 ^ s.scale :=
    mul_lt_mul_of_pos_right (mod_cast hu) hunit
  unfold Encloses
  split
  · exact ⟨hlow.le, hupp.le⟩
  · exact ⟨hlow, hupp⟩

theorem spacing_pos (s : RoundingSpan) (power : ℤ) : 0 < s.spacing power :=
  Nat.mul_pos (Nat.pow_pos (by decide)) (Nat.pow_pos (by decide))

/-- If neither neighbour of the value is in the span, no point of the grid is. -/
theorem contains_of_onGrid_none {s : RoundingSpan} (hl : s.lower < s.value)
    (hu : s.value < s.upper) {tie : Tie} {power : ℤ} (h : s.onGrid tie power = none) (c : Nat) :
    s.contains power c = false := by
  have hvalue := encloses_value hl hu
  have hpos := s.spacing_pos power
  have hten : (0 : ℚ) ≤ 10 ^ power := by positivity
  simp only [onGrid] at h
  split at h
  case h_1 hbelow habove =>
    by_contra hc
    rw [Bool.not_eq_false, contains_iff_encloses] at hc
    rw [← Bool.not_eq_true, contains_iff_encloses] at hbelow habove
    -- Between a point of the grid and the value lies the neighbour on that side.
    rcases Nat.lt_or_ge (s.value * s.weight power / s.spacing power) c with hlt | hge
    · refine habove (hvalue.between hc ?_ ?_)
      · rw [← mul_weight_le_iff]
        exact (Nat.lt_mul_of_div_lt (Nat.lt_succ_self _) hpos).le
      · exact mul_le_mul_of_nonneg_right (mod_cast hlt) hten
    · refine hbelow (hc.between hvalue ?_ ?_)
      · exact mul_le_mul_of_nonneg_right (mod_cast hge) hten
      · rw [← mul_spacing_le_iff]
        exact Nat.div_mul_le_self _ _
  case h_2 => cases h
  case h_3 => cases h
  case h_4 => split at h <;> cases h

/-- The search asks every grid from its first one down to the one it ends on. -/
theorem onGrid_of_search {s : RoundingSpan} {tie : Tie} {fuel : Nat} {power : ℤ}
    (hend : (s.search tie fuel).power < power) (hfirst : power ≤ s.exactPower + fuel) :
    s.onGrid tie power = none := by
  induction fuel with
  | zero =>
    have hpower : (s.search tie 0).power = s.exactPower := rfl
    omega
  | succ fuel ih =>
    unfold search at hend
    simp only at hend
    split at hend
    case h_1 c hc =>
      have hpower : s.exactPower + (fuel + 1 : Nat) < power := hend
      omega
    case h_2 hnone =>
      by_cases hthis : power = s.exactPower + (fuel + 1 : Nat)
      · rwa [hthis]
      · exact ih hend (by omega)

end RoundingSpan

/-! ## The first grid is coarse enough -/

/-- Three powers of ten fit into ten powers of two. -/
theorem ten_pow_le_two_pow {a b : Nat} (h : 10 * a ≤ 3 * b) : 10 ^ a ≤ 2 ^ b := by
  rw [← Nat.pow_le_pow_iff_left (n := 10) (by decide), ← Nat.pow_mul', ← Nat.pow_mul']
  calc 10 ^ (10 * a)
      ≤ 10 ^ (3 * b) := Nat.pow_le_pow_right (by decide) h
    _ = (10 ^ 3) ^ b := Nat.pow_mul ..
    _ ≤ (2 ^ 10) ^ b := Nat.pow_le_pow_left (by decide) b
    _ = 2 ^ (10 * b) := (Nat.pow_mul ..).symm

namespace RoundingSpan

theorem value_lt_coarsePower (s : RoundingSpan) :
    (s.value : ℚ) * 2 ^ s.scale < 10 ^ s.coarsePower := by
  have hlog : (s.value : ℚ) < 2 ^ ((s.value.log2 + 1 : Nat) : ℤ) := by
    rw [zpow_natCast]
    exact_mod_cast Nat.lt_log2_self
  have hvalue : (s.value : ℚ) * 2 ^ s.scale < 2 ^ ((s.value.log2 : ℤ) + 1 + s.scale) := by
    rw [zpow_add₀ two_ne_zero]
    exact mul_lt_mul_of_pos_right (mod_cast hlog) (by positivity)
  refine hvalue.trans_le ?_
  unfold coarsePower
  simp only
  generalize (s.value.log2 : ℤ) + 1 + s.scale = n
  split
  case isTrue hn =>
    calc (2 : ℚ) ^ n
        ≤ 2 ^ (3 * (n / 3 + 1)) := zpow_le_zpow_right₀ (by norm_num) (by omega)
      _ = (2 ^ (3 : ℤ)) ^ (n / 3 + 1) := zpow_mul ..
      _ ≤ 10 ^ (n / 3 + 1) := zpow_le_zpow_left₀ (by omega) (by norm_num) (by norm_num)
  case isFalse hn =>
    obtain ⟨b, hb⟩ : ∃ b : Nat, n = -(b : ℤ) := ⟨(-n).toNat, by omega⟩
    have hdiv : 3 * -n / 10 = ((3 * b / 10 : Nat) : ℤ) := by omega
    rw [hdiv, hb, zpow_neg, zpow_neg, zpow_natCast, zpow_natCast]
    refine inv_anti₀ (by positivity) ?_
    exact_mod_cast ten_pow_le_two_pow (by omega : 10 * (3 * b / 10) ≤ 3 * b)

end RoundingSpan

namespace Double

open RoundingSpan

/-- The search for a number's decimal starts at a grid too coarse to have a hit. -/
theorem contains_of_coarsePower_lt {x : Double} (hzero : x.isZero = false) {power : ℤ}
    (h : (ofDouble x).coarsePower < power) (c : Nat) :
    (ofDouble x).contains power c = false := by
  by_contra hc
  rw [Bool.not_eq_false] at hc
  have hm := mantissa_pos hzero
  have hl := le_lower_ofDouble x
  have hcpos : (1 : ℚ) ≤ c := mod_cast digits_pos_of_contains (by omega) hc
  have hupper : ((ofDouble x).upper : ℚ) ≤ 2 * (ofDouble x).value := by
    have : (ofDouble x).upper ≤ 2 * (ofDouble x).value := by
      show 4 * x.mantissa + 2 ≤ 2 * (4 * x.mantissa)
      omega
    exact_mod_cast this
  have henclosed := ((contains_iff_encloses _ _ _).mp hc).le.2
  have hcoarse := value_lt_coarsePower (ofDouble x)
  have hpower : (10 : ℚ) ^ (ofDouble x).coarsePower * 10 ≤ 10 ^ power := by
    rw [← zpow_add_one₀ (by norm_num)]
    exact zpow_le_zpow_right₀ (by norm_num) h
  have hunit : (0 : ℚ) < 10 ^ (ofDouble x).coarsePower := by positivity
  have hscale : (0 : ℚ) < 2 ^ (ofDouble x).scale := by positivity
  have hle : (10 : ℚ) ^ power ≤ c * 10 ^ power :=
    le_mul_of_one_le_left (by positivity) hcpos
  have htwice : ((ofDouble x).upper : ℚ) * 2 ^ (ofDouble x).scale
      ≤ 2 * ((ofDouble x).value * 2 ^ (ofDouble x).scale) := by
    rw [← mul_assoc]
    exact mul_le_mul_of_nonneg_right hupper hscale.le
  linarith

/-- **No point of a coarser grid than that of the shortest decimal rounds to the number.** -/
theorem not_encloses_of_lt_power {x : Double} (hzero : x.isZero = false) {tie : Tie} {power : ℤ}
    (h : (x.shortest tie).power < power) (c : Nat) :
    ¬ (ofDouble x).Encloses (c * 10 ^ power) := by
  unfold shortest at h
  rw [hzero, if_neg Bool.false_ne_true] at h
  rw [← contains_iff_encloses, Bool.not_eq_true]
  by_cases hcoarse : (ofDouble x).coarsePower < power
  · exact contains_of_coarsePower_lt hzero hcoarse c
  · have hnone := onGrid_of_search h (by omega)
    exact contains_of_onGrid_none (lower_lt_ofDouble hzero)
      (Nat.lt_add_of_pos_right (by decide)) hnone c

/-- Nor does a decimal on a grid as fine as that, if it is below the power of ten that has as many
digits as the shortest decimal. -/
theorem not_encloses_of_lt_pow {x : Double} (hzero : x.isZero = false) {tie : Tie} {power : ℤ}
    (h : power ≤ (x.shortest tie).power) {n c : Nat}
    (hn : (Nat.digits 10 (x.shortest tie).digits).length = n + 1) (hc : c < 10 ^ n) :
    ¬ (ofDouble x).Encloses (c * 10 ^ power) := by
  intro hin
  have hshortest := contains_shortest hzero tie
  rw [contains_iff_encloses] at hshortest
  have hlong : 10 ^ n ≤ (x.shortest tie).digits := by
    have hlength := Nat.base_pow_length_digits_le 10 (x.shortest tie).digits (by decide)
      (shortest_digits_pos hzero tie).ne'
    rw [hn, Nat.pow_succ'] at hlength
    exact Nat.le_of_mul_le_mul_left hlength (by decide)
  have hmiddle : ((1 : Nat) : ℚ) * 10 ^ ((x.shortest tie).power + n)
      = (10 ^ n : Nat) * 10 ^ (x.shortest tie).power := by
    rw [zpow_add₀ (by norm_num), zpow_natCast]
    push_cast
    ring
  have hbelow : (c : ℚ) * 10 ^ power ≤ (1 : Nat) * 10 ^ ((x.shortest tie).power + n) := by
    rw [hmiddle]
    exact mul_le_mul (mod_cast hc.le) (zpow_le_zpow_right₀ (by norm_num) h) (by positivity)
      (by positivity)
  have habove : ((1 : Nat) : ℚ) * 10 ^ ((x.shortest tie).power + n)
      ≤ (x.shortest tie).digits * 10 ^ (x.shortest tie).power := by
    rw [hmiddle]
    exact mul_le_mul_of_nonneg_right (mod_cast hlong) (by positivity)
  cases n with
  | zero =>
    -- Below one there is only zero, which rounds to itself.
    have hm := mantissa_pos hzero
    have hl := le_lower_ofDouble x
    have hpos := digits_pos_of_contains (by omega) ((contains_iff_encloses _ _ _).mpr hin)
    omega
  | succ n =>
    have hcoarse : (x.shortest tie).power < (x.shortest tie).power + (n + 1 : Nat) := by omega
    exact not_encloses_of_lt_power hzero hcoarse 1 (hin.between hshortest hbelow habove)

/-- **A decimal that rounds to the number has no fewer digits than the shortest one.** -/
theorem significantDigits_shortest_le {x : Double} (hx : x.isFinite = true) (tie : Tie) {c : Nat}
    {power : ℤ} (h : x.IsNearestTo (c * 10 ^ power)) :
    significantDigits (x.shortest tie).digits ≤ significantDigits c := by
  cases hzero : x.isZero with
  | true =>
    rw [shortest_of_isZero hzero]
    exact Nat.zero_le _
  | false =>
    by_contra hfewer
    rw [isNearestTo_iff_encloses hx hzero] at h
    obtain ⟨m, zeros, hc, hm⟩ := exists_eq_mul_pow c
    have hcompetitor : (c : ℚ) * 10 ^ power = m * 10 ^ (power + zeros) := by
      rw [hc, zpow_add₀ (by norm_num), zpow_natCast]
      push_cast
      ring
    rw [hcompetitor] at h
    by_cases hcoarse : (x.shortest tie).power < power + zeros
    · exact not_encloses_of_lt_power hzero hcoarse m h
    · have hlength := significantDigits_le (x.shortest tie).digits
      obtain ⟨n, hn⟩ : ∃ n, (Nat.digits 10 (x.shortest tie).digits).length = n + 1 :=
        ⟨_, (Nat.succ_pred_eq_of_pos (by omega)).symm⟩
      have hmn : m < 10 ^ n := hm.trans_le (Nat.pow_le_pow_right (by decide) (by omega))
      exact not_encloses_of_lt_pow hzero (by omega) hn hmn h

/-- **The shortest decimal of a number rounds to the number.** -/
theorem isNearestTo_shortest {x : Double} (hx : x.isFinite = true) (tie : Tie) :
    x.IsNearestTo ((x.shortest tie).digits * 10 ^ (x.shortest tie).power) := by
  cases hzero : x.isZero with
  | true =>
    rw [shortest_of_isZero hzero, Nat.cast_zero, zero_mul]
    exact isNearestTo_zero hzero
  | false =>
    rw [isNearestTo_iff_encloses hx hzero, ← contains_iff_encloses]
    exact contains_shortest hzero tie

end Double

end ScopedVars
