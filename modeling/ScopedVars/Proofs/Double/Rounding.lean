import Mathlib.Algebra.Order.Field.Power
import Mathlib.Algebra.Order.Ring.Rat
import Mathlib.Tactic.FieldSimp
import Mathlib.Tactic.Positivity
import ScopedVars.Proofs.Double.Shortest

/-!
# `Proofs/Double/Rounding` — the nearest number, said without rounding

What a decimal rounds to is said here without any of the machinery that computes it: a number is
nearest to a rational if no number is nearer, and if it has the even mantissa should another be as
near (`Double.IsNearestTo`). The one convention is that infinity counts as the power of two that
would come next, so that what rounds to a finite number is nearer to it than to that.

The main statement is that a `RoundingSpan` is exactly this:

> `x.IsNearestTo q ↔ (RoundingSpan.ofDouble x).Encloses q`

for every finite `x` but zero. From the left to the right it takes the two neighbours of `x`, whose
midpoints with `x` are the ends of the span; from the right to the left it takes all other numbers,
which are further away than the neighbours. The ends are a matter of parity in both directions.
-/

set_option autoImplicit false

namespace ScopedVars

namespace Double

/-- The absolute value of a number that is no NaN. Infinity is the power of two behind the largest
finite number. -/
def magnitude (x : Double) : ℚ :=
  x.mantissa * 2 ^ x.scale

/-- The number is what `q` rounds to, to nearest and ties to even. -/
structure IsNearestTo (x : Double) (q : ℚ) : Prop where
  nearest : ∀ y : Double, y.isNaN = false → |q - x.magnitude| ≤ |q - y.magnitude|
  even : ∀ y : Double, y.isNaN = false → y.magnitude ≠ x.magnitude →
    |q - x.magnitude| = |q - y.magnitude| → x.mantissa % 2 = 0

/-! ## Distances in least steps -/

/-- How many of the least steps a number is away from zero. -/
def steps (x : Double) : Nat :=
  x.mantissa * 2 ^ x.binade

/-- A number further up is one step of its own further up at least. -/
theorem steps_add_le {x y : Double} (h : x.rank < y.rank) :
    x.steps + 2 ^ x.binade ≤ y.steps := by
  rw [rank_eq, rank_eq] at h
  have hx := x.mantissa_lt
  have hy := y.mantissa_lt
  unfold steps
  rw [← Nat.succ_mul]
  by_cases hb : x.binade = y.binade
  · rw [hb] at h ⊢
    exact Nat.mul_le_mul_right _ (by omega)
  · -- Between two binades lies a factor of two, which the leading bit makes up for.
    have hlt : x.binade < y.binade := by
      by_contra hge
      have hlead := le_mantissa (x := x) (by omega)
      omega
    have hlead := le_mantissa (x := y) (by omega)
    calc (x.mantissa + 1) * 2 ^ x.binade
        ≤ 2 ^ 53 * 2 ^ x.binade := Nat.mul_le_mul_right _ hx
      _ = 2 ^ 52 * 2 ^ (x.binade + 1) := by ring
      _ ≤ 2 ^ 52 * 2 ^ y.binade :=
          Nat.mul_le_mul_left _ (Nat.pow_le_pow_right (by decide) hlt)
      _ ≤ y.mantissa * 2 ^ y.binade := Nat.mul_le_mul_right _ hlead

theorem steps_of_rank_succ {x y : Double} (h : y.rank = x.rank + 1) :
    y.steps = x.steps + 2 ^ x.binade := by
  rw [rank_eq, rank_eq] at h
  have hx := x.mantissa_lt
  have hy := y.mantissa_lt
  have hxlead := @le_mantissa x
  have hylead := @le_mantissa y
  have hcases : y.binade = x.binade ∧ y.mantissa = x.mantissa + 1
      ∨ y.binade = x.binade + 1 ∧ y.mantissa = 2 ^ 52 ∧ x.mantissa = 2 ^ 53 - 1 := by
    omega
  unfold steps
  rcases hcases with ⟨hb, hm⟩ | ⟨hb, hy, hx⟩
  · rw [hb, hm]
    ring
  · rw [hb, hy, hx]
    ring

/-- **The upper end of a span is no further than halfway** to any number further up. -/
theorem upper_le_of_lt {x y : Double} (h : x.rank < y.rank) :
    2 * ((RoundingSpan.ofDouble x).upper * 2 ^ x.binade) ≤ 4 * x.steps + 4 * y.steps := by
  have hstep := steps_add_le h
  rw [RoundingSpan.upper_ofDouble, Nat.add_mul, Nat.mul_assoc]
  show 2 * (4 * x.steps + _) ≤ _
  omega

theorem upper_of_rank_succ {x y : Double} (h : y.rank = x.rank + 1) :
    2 * ((RoundingSpan.ofDouble x).upper * 2 ^ x.binade) = 4 * x.steps + 4 * y.steps := by
  have hstep := steps_of_rank_succ h
  rw [RoundingSpan.upper_ofDouble, Nat.add_mul, Nat.mul_assoc]
  show 2 * (4 * x.steps + _) = _
  omega

/-- A number in a lower binade, when the steps are counted from the upper one. -/
theorem four_mul_steps_le {y : Double} {binade : Nat} (h : y.binade < binade) :
    4 * y.steps ≤ (2 ^ 54 - 2) * 2 ^ binade := by
  have hy : y.mantissa ≤ 2 ^ 53 - 1 := Nat.le_pred_of_lt y.mantissa_lt
  calc 4 * y.steps
      ≤ 4 * ((2 ^ 53 - 1) * 2 ^ y.binade) :=
        Nat.mul_le_mul_left 4 (Nat.mul_le_mul_right _ hy)
    _ = (2 ^ 54 - 2) * 2 ^ (y.binade + 1) := by rw [Nat.pow_succ]; omega
    _ ≤ (2 ^ 54 - 2) * 2 ^ binade :=
        Nat.mul_le_mul_left _ (Nat.pow_le_pow_right (by decide) h)

theorem lower_ofDouble (x : Double) : (RoundingSpan.ofDouble x).lower
    = 4 * x.mantissa - if x.mantissa = 2 ^ 52 ∧ 0 < x.binade then 1 else 2 := by
  have hfirst : x.fraction.val = 0 ∧ 1 < x.exponent.val
      ↔ x.mantissa = 2 ^ 52 ∧ 0 < x.binade := by
    unfold mantissa binade
    split <;> omega
  simp only [RoundingSpan.ofDouble, hfirst]

/-- **The lower end of a span is no further than halfway** to any number further down. -/
theorem le_lower_of_lt {x y : Double} (h : y.rank < x.rank) :
    4 * x.steps + 4 * y.steps ≤ 2 * ((RoundingSpan.ofDouble x).lower * 2 ^ x.binade) := by
  rw [rank_eq, rank_eq] at h
  have hx := x.mantissa_lt
  have hlower := RoundingSpan.le_lower_ofDouble x
  have hsum : ∀ {k : Nat}, 4 * y.steps ≤ k * 2 ^ x.binade →
      4 * x.mantissa + k ≤ 2 * (RoundingSpan.ofDouble x).lower →
      4 * x.steps + 4 * y.steps ≤ 2 * ((RoundingSpan.ofDouble x).lower * 2 ^ x.binade) := by
    intro k hk hle
    have hmul := Nat.mul_le_mul_right (2 ^ x.binade) hle
    rw [Nat.add_mul, Nat.mul_assoc, Nat.mul_assoc] at hmul
    exact Nat.le_trans (Nat.add_le_add_left hk _) hmul
  by_cases hb : y.binade = x.binade
  · refine hsum (k := 4 * y.mantissa) ?_ (by omega)
    unfold steps
    rw [hb, Nat.mul_assoc]
  · have hlt : y.binade < x.binade := by
      by_contra hge
      have hlead := le_mantissa (x := y) (by omega)
      omega
    refine hsum (four_mul_steps_le hlt) ?_
    -- Either the lower end is in the binade of the number, or the number is the first one of it.
    have hfirst := @RoundingSpan.lower_ofDouble_of_lt x (by omega)
    omega

theorem lower_of_rank_pred {x y : Double} (h : x.rank = y.rank + 1) :
    4 * x.steps + 4 * y.steps = 2 * ((RoundingSpan.ofDouble x).lower * 2 ^ x.binade) := by
  have hrank := h
  rw [rank_eq, rank_eq] at hrank
  have hx := x.mantissa_lt
  have hy := y.mantissa_lt
  have hxlead := @le_mantissa x
  have hylead := @le_mantissa y
  have hlower := lower_ofDouble x
  have hcases : x.binade = y.binade ∧ x.mantissa = y.mantissa + 1
        ∧ (RoundingSpan.ofDouble x).lower = 4 * y.mantissa + 2
      ∨ x.binade = y.binade + 1 ∧ x.mantissa = 2 ^ 52 ∧ y.mantissa = 2 ^ 53 - 1
        ∧ (RoundingSpan.ofDouble x).lower = 2 ^ 54 - 1 := by
    split at hlower <;> omega
  unfold steps
  rcases hcases with ⟨hb, hm, hl⟩ | ⟨hb, hx, hy, hl⟩
  · rw [hb, hm, hl]
    ring
  · rw [hb, hx, hy, hl]
    ring

/-! ## Neighbours -/

theorem rank_ofRank {negative : Bool} {rank : Nat} (h : rank ≤ infinityRank) :
    (ofRank negative rank).rank = rank := by
  unfold ofRank Double.rank
  rw [Nat.min_eq_left h]
  unfold infinityRank at h
  simp only [Fin.val_ofNat]
  omega

theorem isNaN_ofRank {negative : Bool} {rank : Nat} (h : rank ≤ infinityRank) :
    (ofRank negative rank).isNaN = false := by
  have hrank : (ofRank negative rank).rank = rank := rank_ofRank h
  unfold Double.rank at hrank
  unfold infinityRank at h
  rw [isNaN, Bool.and_eq_false_iff, beq_eq_false_iff_ne, bne_eq_false_iff_eq]
  omega

/-- Not even infinity is without a number behind a finite one. -/
theorem exists_rank_succ {x : Double} (h : x.isFinite = true) :
    ∃ y : Double, y.isNaN = false ∧ y.rank = x.rank + 1 :=
  have hle : x.rank + 1 ≤ infinityRank := rank_lt_infinityRank h
  ⟨ofRank false (x.rank + 1), isNaN_ofRank hle, rank_ofRank hle⟩

theorem exists_rank_pred {x : Double} (h : x.isFinite = true) (hzero : x.isZero = false) :
    ∃ y : Double, y.isNaN = false ∧ x.rank = y.rank + 1 := by
  have hlt := rank_lt_infinityRank h
  have hpos : x.rank ≠ 0 := by simpa [isZero] using hzero
  have hle : x.rank - 1 ≤ infinityRank := by omega
  refine ⟨ofRank false (x.rank - 1), isNaN_ofRank hle, ?_⟩
  rw [rank_ofRank hle]
  omega

end Double

/-! ## Spans of rationals -/

/-- The rational is one of those that the span stands for. -/
def RoundingSpan.Encloses (s : RoundingSpan) (q : ℚ) : Prop :=
  if s.closed then s.lower * 2 ^ s.scale ≤ q ∧ q ≤ s.upper * 2 ^ s.scale
  else s.lower * 2 ^ s.scale < q ∧ q < s.upper * 2 ^ s.scale

namespace RoundingSpan

theorem Encloses.le {s : RoundingSpan} {q : ℚ} (h : s.Encloses q) :
    s.lower * 2 ^ s.scale ≤ q ∧ q ≤ s.upper * 2 ^ s.scale := by
  unfold Encloses at h
  split at h
  · exact h
  · exact ⟨h.1.le, h.2.le⟩

theorem Encloses.lt {s : RoundingSpan} {q : ℚ} (h : s.Encloses q) (hopen : s.closed = false) :
    s.lower * 2 ^ s.scale < q ∧ q < s.upper * 2 ^ s.scale := by
  unfold Encloses at h
  rw [hopen] at h
  exact h

/-- With two rationals a span encloses all between them. -/
theorem Encloses.between {s : RoundingSpan} {p q r : ℚ} (hp : s.Encloses p) (hr : s.Encloses r)
    (hpq : p ≤ q) (hqr : q ≤ r) : s.Encloses q := by
  cases hclosed : s.closed with
  | true =>
    rw [Encloses, if_pos hclosed]
    exact ⟨hp.le.1.trans hpq, hqr.trans hr.le.2⟩
  | false =>
    rw [Encloses, hclosed, if_neg Bool.false_ne_true]
    exact ⟨(hp.lt hclosed).1.trans_le hpq, hqr.trans_lt (hr.lt hclosed).2⟩

theorem zpow_mul_pow_toNat {a : ℚ} (ha : a ≠ 0) (n : ℤ) :
    a ^ n * a ^ (-n).toNat = a ^ n.toNat := by
  rw [← zpow_natCast, ← zpow_natCast, ← zpow_add₀ ha]
  congr 1
  omega

/-- `weight` and `spacing` are the unit of the span and of the grid, made whole by one factor. -/
theorem exists_weight_spacing (s : RoundingSpan) (power : ℤ) :
    ∃ unit : ℚ, 0 < unit ∧ (s.weight power : ℚ) = 2 ^ s.scale * unit
      ∧ (s.spacing power : ℚ) = 10 ^ power * unit := by
  refine ⟨2 ^ (-s.scale).toNat * 10 ^ (-power).toNat, by positivity, ?_, ?_⟩
  · rw [← mul_assoc, zpow_mul_pow_toNat (by norm_num)]
    unfold weight
    push_cast [Nat.pow_eq]
    rfl
  · rw [mul_left_comm, zpow_mul_pow_toNat (by norm_num)]
    unfold spacing
    push_cast [Nat.pow_eq]
    rfl

theorem mul_weight_le_iff (s : RoundingSpan) (power : ℤ) (p c : Nat) :
    p * s.weight power ≤ c * s.spacing power ↔ (p : ℚ) * 2 ^ s.scale ≤ c * 10 ^ power := by
  obtain ⟨unit, hunit, hweight, hspacing⟩ := s.exists_weight_spacing power
  rw [← Nat.cast_le (α := ℚ), Nat.cast_mul, Nat.cast_mul, hweight, hspacing, ← mul_assoc,
    ← mul_assoc, mul_le_mul_iff_left₀ hunit]

theorem mul_spacing_le_iff (s : RoundingSpan) (power : ℤ) (p c : Nat) :
    c * s.spacing power ≤ p * s.weight power ↔ (c : ℚ) * 10 ^ power ≤ p * 2 ^ s.scale := by
  obtain ⟨unit, hunit, hweight, hspacing⟩ := s.exists_weight_spacing power
  rw [← Nat.cast_le (α := ℚ), Nat.cast_mul, Nat.cast_mul, hweight, hspacing, ← mul_assoc,
    ← mul_assoc, mul_le_mul_iff_left₀ hunit]

/-- What is found to be in a span is enclosed by it. -/
theorem contains_iff_encloses (s : RoundingSpan) (power : ℤ) (c : Nat) :
    s.contains power c = true ↔ s.Encloses (c * 10 ^ power) := by
  rw [contains_iff]
  unfold Between Encloses
  simp only [← not_le, mul_weight_le_iff, mul_spacing_le_iff]

end RoundingSpan

namespace Double

open RoundingSpan

/-! ## Midpoints -/

/-- A quarter of the least step. -/
def quarterStep : ℚ :=
  2 ^ (-1076 : ℤ)

theorem quarterStep_pos : 0 < quarterStep := by
  unfold quarterStep
  positivity

theorem two_zpow_scale_ofDouble (x : Double) :
    (2 : ℚ) ^ (ofDouble x).scale = 2 ^ x.binade * quarterStep := by
  rw [scale_ofDouble, sub_eq_add_neg, zpow_add₀ two_ne_zero, zpow_natCast]
  rfl

theorem magnitude_eq (x : Double) : x.magnitude = (4 * x.steps : Nat) * quarterStep := by
  have hscale : (2 : ℚ) ^ x.scale = 4 * (2 ^ x.binade * quarterStep) := by
    rw [← two_zpow_scale_ofDouble, show x.scale = 2 + (ofDouble x).scale by
      show x.scale = 2 + (x.scale - 2); omega, zpow_add₀ two_ne_zero]
    norm_num
  unfold magnitude steps
  rw [hscale]
  push_cast
  ring

theorem magnitude_lt {x y : Double} (h : x.rank < y.rank) : x.magnitude < y.magnitude := by
  have hstep := steps_add_le h
  have hpos := Nat.two_pow_pos x.binade
  rw [magnitude_eq, magnitude_eq]
  refine mul_lt_mul_of_pos_right ?_ quarterStep_pos
  exact_mod_cast (by omega : 4 * x.steps < 4 * y.steps)

theorem magnitude_congr {x y : Double} (h : x.rank = y.rank) : x.magnitude = y.magnitude := by
  rw [rank_eq, rank_eq] at h
  have hx := x.mantissa_lt
  have hy := y.mantissa_lt
  have hxlead := @le_mantissa x
  have hylead := @le_mantissa y
  have hbinade : x.binade = y.binade := by omega
  have hmantissa : x.mantissa = y.mantissa := by omega
  unfold magnitude
  rw [scale_eq, scale_eq, hbinade, hmantissa]

/-- Two numbers and a multiple of the quarter steps of one of them, in one unit. -/
theorem midpoint_eq (x y : Double) (a : Nat) :
    2 * (a * (2 : ℚ) ^ (ofDouble x).scale) = (2 * (a * 2 ^ x.binade) : Nat) * quarterStep
      ∧ x.magnitude + y.magnitude = (4 * x.steps + 4 * y.steps : Nat) * quarterStep := by
  rw [two_zpow_scale_ofDouble, magnitude_eq, magnitude_eq]
  push_cast
  constructor <;> ring

theorem upper_le_midpoint {x y : Double} (h : x.rank < y.rank) :
    2 * ((ofDouble x).upper * (2 : ℚ) ^ (ofDouble x).scale) ≤ x.magnitude + y.magnitude := by
  obtain ⟨hend, hsum⟩ := midpoint_eq x y (ofDouble x).upper
  rw [hend, hsum]
  exact mul_le_mul_of_nonneg_right (mod_cast upper_le_of_lt h) quarterStep_pos.le

theorem midpoint_le_lower {x y : Double} (h : y.rank < x.rank) :
    x.magnitude + y.magnitude ≤ 2 * ((ofDouble x).lower * (2 : ℚ) ^ (ofDouble x).scale) := by
  obtain ⟨hend, hsum⟩ := midpoint_eq x y (ofDouble x).lower
  rw [hend, hsum]
  exact mul_le_mul_of_nonneg_right (mod_cast le_lower_of_lt h) quarterStep_pos.le

/-- The ends of a span are halfway to the neighbours. -/
theorem exists_upper_midpoint {x : Double} (h : x.isFinite = true) :
    ∃ y : Double, y.isNaN = false ∧ x.magnitude < y.magnitude
      ∧ 2 * ((ofDouble x).upper * (2 : ℚ) ^ (ofDouble x).scale) = x.magnitude + y.magnitude := by
  obtain ⟨y, hy, hrank⟩ := exists_rank_succ h
  obtain ⟨hend, hsum⟩ := midpoint_eq x y (ofDouble x).upper
  refine ⟨y, hy, magnitude_lt (by omega), ?_⟩
  rw [hend, hsum, upper_of_rank_succ hrank]

theorem exists_lower_midpoint {x : Double} (h : x.isFinite = true) (hzero : x.isZero = false) :
    ∃ y : Double, y.isNaN = false ∧ y.magnitude < x.magnitude
      ∧ 2 * ((ofDouble x).lower * (2 : ℚ) ^ (ofDouble x).scale) = x.magnitude + y.magnitude := by
  obtain ⟨y, hy, hrank⟩ := exists_rank_pred h hzero
  obtain ⟨hend, hsum⟩ := midpoint_eq x y (ofDouble x).lower
  refine ⟨y, hy, magnitude_lt (by omega), ?_⟩
  rw [hend, hsum, ← lower_of_rank_pred hrank]

/-! ## Nearest numbers -/

/-- The nearer of two points is the one on the same side of their midpoint. -/
theorem abs_sub_le_iff {a b q : ℚ} (h : a < b) : |q - a| ≤ |q - b| ↔ 2 * q ≤ a + b := by
  rw [← sq_le_sq]
  constructor
  · intro hle
    nlinarith
  · intro hle
    nlinarith

theorem abs_sub_eq_iff {a b q : ℚ} (h : a < b) : |q - a| = |q - b| ↔ 2 * q = a + b := by
  rw [abs_eq_abs]
  constructor
  · rintro (heq | heq) <;> linarith
  · intro heq
    right
    linarith

/-- `abs_sub_le_iff` from the other side. -/
theorem abs_sub_ge_iff {a b q : ℚ} (h : a < b) : |q - b| ≤ |q - a| ↔ a + b ≤ 2 * q := by
  rw [← sq_le_sq]
  constructor
  · intro hle
    nlinarith
  · intro hle
    nlinarith

/-- **What a number is nearest to is what its span encloses.** -/
theorem isNearestTo_iff_encloses {x : Double} (h : x.isFinite = true) (hzero : x.isZero = false)
    (q : ℚ) : x.IsNearestTo q ↔ (ofDouble x).Encloses q := by
  obtain ⟨up, hup, hltup, hupper⟩ := exists_upper_midpoint h
  obtain ⟨down, hdown, hltdown, hlower⟩ := exists_lower_midpoint h hzero
  constructor
  · intro hnearest
    have hleup := (abs_sub_le_iff hltup).mp (hnearest.nearest up hup)
    have hledown := (abs_sub_ge_iff hltdown).mp (hnearest.nearest down hdown)
    cases hclosed : (ofDouble x).closed with
    | true =>
      rw [Encloses, if_pos hclosed]
      constructor <;> linarith
    | false =>
      have hodd : x.mantissa % 2 ≠ 0 := by
        have := (closed_ofDouble x).mp hclosed
        omega
      have hneup : 2 * q ≠ x.magnitude + up.magnitude := fun heq =>
        hodd (hnearest.even up hup hltup.ne' ((abs_sub_eq_iff hltup).mpr heq))
      have hnedown : 2 * q ≠ down.magnitude + x.magnitude := fun heq =>
        hodd (hnearest.even down hdown hltdown.ne ((abs_sub_eq_iff hltdown).mpr heq).symm)
      rw [Encloses, hclosed, if_neg Bool.false_ne_true]
      have h1 := lt_of_le_of_ne hleup hneup
      have h2 := lt_of_le_of_ne hledown hnedown.symm
      constructor <;> linarith
  · intro hq
    -- All other numbers are on the far side of an end.
    have hfar : ∀ y : Double, y.magnitude < x.magnitude ∧ y.magnitude + x.magnitude
          ≤ 2 * ((ofDouble x).lower * (2 : ℚ) ^ (ofDouble x).scale)
        ∨ y.magnitude = x.magnitude
        ∨ x.magnitude < y.magnitude ∧ 2 * ((ofDouble x).upper * (2 : ℚ) ^ (ofDouble x).scale)
          ≤ x.magnitude + y.magnitude := by
      intro y
      rcases Nat.lt_trichotomy y.rank x.rank with hlt | heq | hgt
      · exact .inl ⟨magnitude_lt hlt, by rw [add_comm]; exact midpoint_le_lower hlt⟩
      · exact .inr (.inl (magnitude_congr heq))
      · exact .inr (.inr ⟨magnitude_lt hgt, upper_le_midpoint hgt⟩)
    refine ⟨fun y _ => ?_, fun y _ hne htie => ?_⟩
    · rcases hfar y with ⟨hlt, hmid⟩ | heq | ⟨hlt, hmid⟩
      · exact (abs_sub_ge_iff hlt).mpr (by linarith [hq.le.1])
      · rw [heq]
      · exact (abs_sub_le_iff hlt).mpr (by linarith [hq.le.2])
    · by_contra hodd
      have hin := hq.lt ((closed_ofDouble x).mpr (by omega))
      rcases hfar y with ⟨hlt, hmid⟩ | heq | ⟨hlt, hmid⟩
      · have := (abs_sub_eq_iff hlt).mp htie.symm
        linarith
      · exact hne heq
      · have := (abs_sub_eq_iff hlt).mp htie
        linarith

theorem mantissa_of_isZero {x : Double} (hzero : x.isZero = true) : x.mantissa = 0 := by
  have hrank : x.rank = 0 := by simpa [isZero] using hzero
  have hlead := @le_mantissa x
  rw [rank_eq] at hrank
  omega

/-- Zero is nearest to itself, as no number is to another. -/
theorem isNearestTo_zero {x : Double} (hzero : x.isZero = true) : x.IsNearestTo 0 := by
  have hmantissa := mantissa_of_isZero hzero
  have hmagnitude : x.magnitude = 0 := by simp [magnitude, hmantissa]
  refine ⟨fun y _ => ?_, fun _ _ _ _ => by simp [hmantissa]⟩
  rw [hmagnitude, sub_zero, abs_zero]
  exact abs_nonneg _

end Double

end ScopedVars
