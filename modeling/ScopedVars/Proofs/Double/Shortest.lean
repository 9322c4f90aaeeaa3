import ScopedVars.Double.Shortest
import ScopedVars.Proofs.Double.Nearest

/-!
# `Proofs/Double/Shortest` — the shortest decimal reads back

A `RoundingSpan` says which reals round to a number, in whole quarter steps; `Double.nearest` is
what rounding computes. This module proves that they agree in the direction that reading needs:

> **a decimal in the span of a number reads back to the number** (`ofDecimal_of_contains`),

and that the search for the shortest decimal ends on a point of the span whichever way it ends
(`contains_search`). Together: `ofDecimal_shortest`, for either way to break ties.

The one case that is not plain arithmetic is a number whose mantissa is a power of two. The step
below it is half as wide, so a quotient in the lower part of its span belongs to the binade below,
and rounds up to a mantissa that this binade has no room for. The carry goes into the exponent.
-/

set_option autoImplicit false

namespace ScopedVars

namespace RoundingSpan

/-! ## Points of a span on any scale -/

/-- Whether a point is in the span, when both are measured so that a quarter step is `unit`. -/
def Between (s : RoundingSpan) (point unit : Nat) : Prop :=
  if s.closed then s.lower * unit ≤ point ∧ point ≤ s.upper * unit
  else s.lower * unit < point ∧ point < s.upper * unit

theorem contains_iff (s : RoundingSpan) (power : Int) (c : Nat) :
    s.contains power c = true ↔ s.Between (c * s.spacing power) (s.weight power) := by
  unfold contains Between
  split <;> exact decide_eq_true_iff

theorem between_mul {k : Nat} (hk : 0 < k) (s : RoundingSpan) (point unit : Nat) :
    s.Between (point * k) (unit * k) ↔ s.Between point unit := by
  unfold Between
  simp only [← Nat.mul_assoc, Nat.mul_le_mul_right_iff hk, Nat.mul_lt_mul_right hk]

theorem Between.le {s : RoundingSpan} {point unit : Nat} (h : s.Between point unit) :
    s.lower * unit ≤ point ∧ point ≤ s.upper * unit := by
  unfold Between at h
  split at h
  · exact h
  · exact ⟨h.1.le, h.2.le⟩

/-- The ends belong to the span of an even mantissa only. -/
theorem Between.lt {s : RoundingSpan} {point unit : Nat} (h : s.Between point unit)
    (hopen : s.closed = false) : s.lower * unit < point ∧ point < s.upper * unit := by
  unfold Between at h
  rw [hopen] at h
  exact h

/-! ## The span of a number -/

theorem closed_ofDouble (x : Double) :
    (ofDouble x).closed = false ↔ x.mantissa % 2 = 1 := by
  have h : (ofDouble x).closed = decide (x.mantissa % 2 = 0) := rfl
  rw [h, decide_eq_false_iff_not]
  omega

theorem upper_ofDouble (x : Double) : (ofDouble x).upper = 4 * x.mantissa + 2 := rfl

theorem le_lower_ofDouble (x : Double) : 4 * x.mantissa ≤ (ofDouble x).lower + 2 := by
  have h : (ofDouble x).lower
      = 4 * x.mantissa - (if x.fraction.val = 0 ∧ 1 < x.exponent.val then 1 else 2) := rfl
  rw [h]
  split <;> omega

theorem lower_lt_ofDouble {x : Double} (h : x.isZero = false) :
    (ofDouble x).lower < (ofDouble x).value := by
  have hm := Double.mantissa_pos h
  have hl : (ofDouble x).lower
      = 4 * x.mantissa - (if x.fraction.val = 0 ∧ 1 < x.exponent.val then 1 else 2) := rfl
  have hv : (ofDouble x).value = 4 * x.mantissa := rfl
  rw [hl, hv]
  split <;> omega

/-- Within its span a number is either further up than the first of its binade, or it is that first
one and has the narrow step below it. -/
theorem lower_ofDouble_of_lt {x : Double} (hb : 0 < x.binade)
    (h : (ofDouble x).lower < 4 * 2 ^ 52) :
    x.mantissa = 2 ^ 52 ∧ (ofDouble x).lower = 4 * 2 ^ 52 - 1 := by
  have hl : (ofDouble x).lower
      = 4 * x.mantissa - (if x.fraction.val = 0 ∧ 1 < x.exponent.val then 1 else 2) := rfl
  have hexp : 1 < x.exponent.val := by
    unfold Double.binade at hb
    omega
  have hm : x.mantissa = 0x10000000000000 + x.fraction.val := by
    unfold Double.mantissa
    rw [if_neg (by omega)]
  rw [hl] at h ⊢
  split at h
  case isTrue hnarrow =>
    rw [if_pos hnarrow]
    omega
  case isFalse hwide =>
    have hf : x.fraction.val ≠ 0 := fun h0 => hwide ⟨h0, hexp⟩
    omega

end RoundingSpan

namespace Double

open RoundingSpan

/-- The shift that `nearest` chooses for a quotient of 53 binary digits, or of fewer if the step is
the least one. -/
theorem log2_div_sub {steps d shift : Nat} (hd : 0 < d)
    (lower : shift = 0 ∨ 2 ^ 52 * (d * 2 ^ shift) ≤ steps)
    (upper : steps < 2 ^ 53 * (d * 2 ^ shift)) : (steps / d).log2 - 52 = shift := by
  have hlt : steps / d < 2 ^ (53 + shift) := by
    apply Nat.div_lt_of_lt_mul
    calc steps < 2 ^ 53 * (d * 2 ^ shift) := upper
      _ = d * 2 ^ (53 + shift) := by ring
  have hge : shift = 0 ∨ 2 ^ (52 + shift) ≤ steps / d := by
    refine lower.imp_right fun hle => (Nat.le_div_iff_mul_le hd).mpr ?_
    calc 2 ^ (52 + shift) * d = 2 ^ 52 * (d * 2 ^ shift) := by ring
      _ ≤ steps := hle
  rcases Nat.eq_zero_or_pos (steps / d) with hzero | hpos
  · have hlog : Nat.log2 0 = 0 := rfl
    have hpow := Nat.two_pow_pos (52 + shift)
    rw [hzero] at hge ⊢
    omega
  · have hup : (steps / d).log2 < 53 + shift := (Nat.log2_lt hpos.ne').mpr hlt
    have hdown : shift = 0 ∨ 52 + shift ≤ (steps / d).log2 :=
      hge.imp_right (Nat.le_log2 hpos.ne').mpr
    omega

theorem ofSteps_eq {steps d shift k : Nat} (hshift : (steps / d).log2 - 52 = shift)
    (hround : roundHalfEven steps (d * 2 ^ shift) = k) (negative : Bool) :
    ofSteps negative steps d = ofRank negative (shift * 2 ^ 52 + k) := by
  unfold ofSteps
  simp only [hshift, hround]
  rfl

/-- **What is in the span of a number rounds to it.** -/
theorem ofSteps_of_between {x : Double} {steps d : Nat} (hd : 0 < d)
    (h : (ofDouble x).Between (4 * steps) (d * 2 ^ x.binade)) (negative : Bool) :
    ofSteps negative steps d = ofRank negative x.rank := by
  obtain ⟨hlower, hupper⟩ := h.le
  have hm := x.mantissa_lt
  have hD : 0 < d * 2 ^ x.binade := Nat.mul_pos hd (Nat.two_pow_pos _)
  rw [upper_ofDouble] at hupper
  by_cases hbinade : x.binade = 0 ∨ 2 ^ 52 * (d * 2 ^ x.binade) ≤ steps
  · -- The quotient is in the binade of the number.
    have hlt : steps < 2 ^ 53 * (d * 2 ^ x.binade) := by
      have hle : (4 * x.mantissa + 2) * (d * 2 ^ x.binade)
          ≤ (4 * 2 ^ 53 - 2) * (d * 2 ^ x.binade) := Nat.mul_le_mul_right _ (by omega)
      omega
    have hround : roundHalfEven steps (d * 2 ^ x.binade) = x.mantissa := by
      have hlow := Nat.mul_le_mul_right (d * 2 ^ x.binade) (le_lower_ofDouble x)
      rw [Nat.add_mul, Nat.mul_assoc] at hlow
      rw [Nat.add_mul, Nat.mul_assoc] at hupper
      refine roundHalfEven_eq hD (by omega) (by omega) fun hodd => ?_
      obtain ⟨hlower', hupper'⟩ := h.lt ((closed_ofDouble x).mpr hodd)
      rw [upper_ofDouble, Nat.add_mul, Nat.mul_assoc] at hupper'
      omega
    rw [ofSteps_eq (log2_div_sub hd hbinade hlt) hround, rank_eq]
  · -- It is in the binade below, under the first number of this one.
    obtain ⟨hb, hlt⟩ := not_or.mp hbinade
    obtain ⟨e, he⟩ : ∃ e, x.binade = e + 1 := ⟨x.binade - 1, by omega⟩
    obtain ⟨hfirst, hnarrow⟩ := lower_ofDouble_of_lt (x := x) (by omega) (by
      by_contra hge
      have hle := Nat.mul_le_mul_right (d * 2 ^ x.binade) (Nat.not_lt.mp hge)
      omega)
    have hhalf : d * 2 ^ x.binade = 2 * (d * 2 ^ e) := by rw [he]; ring
    rw [hnarrow, hhalf] at hlower
    rw [hhalf] at hlt
    have hround : roundHalfEven steps (d * 2 ^ e) = 2 ^ 53 :=
      roundHalfEven_eq (Nat.mul_pos hd (Nat.two_pow_pos _)) (by omega) (by omega) (by omega)
    have hshift : (steps / d).log2 - 52 = e :=
      log2_div_sub hd (Or.inr (by omega)) (by omega)
    have hcarry : e * 2 ^ 52 + 2 ^ 53 = (e + 1) * 2 ^ 52 + 2 ^ 52 := by omega
    rw [ofSteps_eq hshift hround, rank_eq, hfirst, he, hcarry]

theorem scale_ofDouble (x : Double) : (ofDouble x).scale = (x.binade : Int) - 1076 := by
  have h : (ofDouble x).scale = x.scale - 2 := rfl
  rw [h, scale_eq]
  omega

/-- The powers of two of `spacing` and `weight` have a common factor to the least steps and to the
steps of the number. -/
theorem two_pow_scale (x : Double) :
    2 ^ (-(ofDouble x).scale).toNat * 2 ^ min x.binade 1076 = 4 * 2 ^ 1074 ∧
      2 ^ (ofDouble x).scale.toNat * 2 ^ min x.binade 1076 = 2 ^ x.binade := by
  have hsteps : (-((x.binade : Int) - 1076)).toNat + min x.binade 1076 = 2 + 1074 := by omega
  have hunit : ((x.binade : Int) - 1076).toNat + min x.binade 1076 = x.binade := by omega
  rw [scale_ofDouble, ← Nat.pow_add, ← Nat.pow_add, hsteps, hunit]
  refine ⟨?_, rfl⟩
  -- As a numeral the power would be worked out.
  generalize 1074 = k
  exact Nat.pow_add 2 2 k

/-- **A decimal in the span of a number reads back to the number.** -/
theorem ofDecimal_of_contains {x : Double} (hx : x.isFinite = true) {power : Int} {c : Nat}
    (h : (ofDouble x).contains power c = true) : ofDecimal x.negative c power = x := by
  obtain ⟨hsteps, hunit⟩ := two_pow_scale x
  have hbetween := (contains_iff _ power c).mp h
  rw [← between_mul (Nat.two_pow_pos (min x.binade 1076))] at hbetween
  have hpoint : c * (ofDouble x).spacing power * 2 ^ min x.binade 1076
      = 4 * (c * 10 ^ power.toNat * 2 ^ 1074) := by
    unfold spacing
    simp only [Nat.pow_eq]
    rw [Nat.mul_assoc, Nat.mul_right_comm, hsteps]
    generalize 2 ^ 1074 = one
    ring
  have hweight : (ofDouble x).weight power * 2 ^ min x.binade 1076
      = 10 ^ (-power).toNat * 2 ^ x.binade := by
    unfold weight
    simp only [Nat.pow_eq]
    rw [Nat.mul_right_comm, hunit, Nat.mul_comm]
  rw [hpoint, hweight] at hbetween
  rw [ofDecimal_eq_nearest, nearest_eq_ofSteps,
    ofSteps_of_between (Nat.pow_pos (by decide)) hbetween, ofRank_rank hx]

end Double

/-! ## The search ends in the span -/

theorem Tie.choose_mem (tie : Tie) (below : Nat) :
    tie.choose below = below ∨ tie.choose below = below + 1 := by
  cases tie with
  | up => exact Or.inr rfl
  | even =>
    have h : Tie.even.choose below = below + below % 2 := rfl
    omega

namespace RoundingSpan

theorem contains_of_onGrid {s : RoundingSpan} {tie : Tie} {power : Int} {c : Nat}
    (h : s.onGrid tie power = some c) : s.contains power c = true := by
  simp only [onGrid] at h
  split at h
  case h_1 => cases h
  case h_2 hbelow _ => cases h; exact hbelow
  case h_3 _ habove => cases h; exact habove
  case h_4 hbelow habove =>
    split at h
    · cases h; exact hbelow
    · cases h; exact habove
    · cases h
      rcases tie.choose_mem _ with hc | hc <;> rw [hc] <;> assumption

theorem weight_pos (s : RoundingSpan) (power : Int) : 0 < s.weight power :=
  Nat.mul_pos (Nat.pow_pos (by decide)) (Nat.pow_pos (by decide))

/-- A grid that is fine enough for the value holds it. -/
theorem spacing_dvd_weight (s : RoundingSpan) :
    s.spacing s.exactPower ∣ s.weight s.exactPower := by
  unfold spacing weight exactPower
  simp only [Nat.pow_eq]
  rcases Int.le_total s.scale 0 with h | h
  · have hup : s.scale.toNat = 0 := by omega
    rw [min_eq_left h, hup, Nat.pow_zero, Nat.mul_one, Nat.one_mul]
    -- A power of two divides the same power of ten.
    exact pow_dvd_pow_of_dvd (by decide) _
  · have hdown : (-s.scale).toNat = 0 := by omega
    rw [min_eq_right h, hdown]
    exact Nat.one_dvd _

theorem contains_exact {s : RoundingSpan} (hl : s.lower < s.value) (hu : s.value < s.upper) :
    s.contains s.exactPower (s.value * s.weight s.exactPower / s.spacing s.exactPower) = true := by
  have hdvd : s.spacing s.exactPower ∣ s.value * s.weight s.exactPower :=
    Nat.dvd_mul_left_of_dvd (spacing_dvd_weight s) s.value
  have hw := s.weight_pos s.exactPower
  have hlow := Nat.mul_lt_mul_of_pos_right hl hw
  have hupp := Nat.mul_lt_mul_of_pos_right hu hw
  rw [contains_iff, Nat.div_mul_cancel hdvd]
  unfold Between
  split
  · exact ⟨hlow.le, hupp.le⟩
  · exact ⟨hlow, hupp⟩

/-- Whatever grid the search ends on, it ends on a point of the span. -/
theorem contains_search {s : RoundingSpan} (hl : s.lower < s.value) (hu : s.value < s.upper)
    (tie : Tie) (fuel : Nat) :
    s.contains (s.search tie fuel).power (s.search tie fuel).digits = true := by
  induction fuel with
  | zero => exact contains_exact hl hu
  | succ fuel ih =>
    unfold search
    simp only
    split
    case h_1 c hc => exact contains_of_onGrid hc
    case h_2 => exact ih

theorem digits_pos_of_contains {s : RoundingSpan} {power : Int} {c : Nat} (hl : 0 < s.lower)
    (h : s.contains power c = true) : 0 < c := by
  obtain ⟨hle, _⟩ := ((contains_iff s power c).mp h).le
  have hpos := Nat.mul_pos hl (s.weight_pos power)
  rcases Nat.eq_zero_or_pos c with hc | hc
  · rw [hc, Nat.zero_mul] at hle
    omega
  · exact hc

end RoundingSpan

namespace Double

open RoundingSpan

theorem contains_shortest {x : Double} (h : x.isZero = false) (tie : Tie) :
    (ofDouble x).contains (x.shortest tie).power (x.shortest tie).digits = true := by
  unfold shortest
  rw [h]
  exact contains_search (lower_lt_ofDouble h) (Nat.lt_add_of_pos_right (by decide)) tie _

theorem shortest_of_isZero {x : Double} (h : x.isZero = true) (tie : Tie) :
    x.shortest tie = ⟨0, 0⟩ := by
  unfold shortest
  rw [if_pos h]

theorem shortest_digits_pos {x : Double} (h : x.isZero = false) (tie : Tie) :
    0 < (x.shortest tie).digits := by
  have hm := mantissa_pos h
  have hl := le_lower_ofDouble x
  exact digits_pos_of_contains (by omega) (contains_shortest h tie)

/-- **The shortest decimal of a number reads back to it**, bit for bit. -/
theorem ofDecimal_shortest {x : Double} (hx : x.isFinite = true) (tie : Tie) :
    ofDecimal x.negative (x.shortest tie).digits (x.shortest tie).power = x := by
  cases hz : x.isZero with
  | true =>
    rw [shortest_of_isZero hz]
    exact (eq_ofRank_zero hz).symm
  | false => exact ofDecimal_of_contains hx (contains_shortest hz tie)

end Double

end ScopedVars
