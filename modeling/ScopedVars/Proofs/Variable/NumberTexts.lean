import ScopedVars.Json.Write
import ScopedVars.Proofs.Double.Fewest
import ScopedVars.Proofs.Double.Text
import ScopedVars.Variable.Debug
import ScopedVars.Variable.Display

/-!
# `Proofs/Variable/NumberTexts` — the three texts of a number

A number has one text for a reader, one for debugging and one in JSON. All three are exact, and no
decimal with fewer digits would be (`Numeral.IsShortest`); they differ in when there is an exponent.
A style decides that by the place of the decimal point in the shortest decimal, whereas a reader
would like to know it of the number. For that

> **the number and its shortest decimal are on the same side of a power of ten**
> (`Double.pow_le_shortest_iff`),

which is not so for every power of ten. It is for one whose nearest number is not below it and is
written as it (`Double.Marks`), and the powers where the styles change are of this kind.
-/

set_option autoImplicit false

namespace ScopedVars

open Json (Numeral NumberText)

/-- The numeral has the sign of the number and rounds to it, and no decimal that rounds to it has
fewer digits. -/
structure Json.Numeral.IsShortest (n : Numeral) (x : Double) : Prop where
  negative : n.negative = x.negative
  nearest : x.IsNearestTo (n.digits * 10 ^ n.power)
  fewest : ∀ (c : Nat) (power : ℤ), x.IsNearestTo (c * 10 ^ power) →
    significantDigits n.digits ≤ significantDigits c

/-- The text is that of a shortest numeral, and begins with a minus if the sign bit is set. -/
structure Double.IsExactText (x : Double) (cs : List Char) : Prop where
  numeral : ∃ n : Numeral, NumberText n cs ∧ n.IsShortest x
  minus : cs.head? = some '-' ↔ x.negative = true

namespace Double

open RoundingSpan

theorem isShortest_numeral {x : Double} (hx : x.isFinite = true) (style : NumberStyle) :
    (x.numeral style).IsShortest x := by
  have hvalue : ((x.numeral style).digits : ℚ) * 10 ^ (x.numeral style).power
      = (x.shortest style.tie).digits * 10 ^ (x.shortest style.tie).power := by
    unfold numeral NumberStyle.numeral
    rw [Nat.pow_eq, zpow_sub₀ (by norm_num), zpow_natCast, Nat.cast_mul, Nat.cast_pow,
      Nat.cast_ofNat]
    field_simp
  refine ⟨rfl, hvalue ▸ isNearestTo_shortest hx style.tie, fun c power hc => ?_⟩
  unfold numeral NumberStyle.numeral
  rw [Nat.pow_eq, significantDigits_mul_pow]
  exact significantDigits_shortest_le hx style.tie hc

/-- **Every style is exact and shortest.** -/
theorem isExactText_text {x : Double} (hx : x.isFinite = true) (style : NumberStyle) :
    x.IsExactText (x.text style) :=
  ⟨⟨x.numeral style, numberText_text hx style, isShortest_numeral hx style⟩,
    (numberText_text hx style).head?_eq_minus_iff⟩

/-! ## Powers of ten -/

/-- The decimal point of a decimal tells which powers of ten are not above it. -/
theorem pow_le_iff_lt_point {d : Decimal} (hd : 0 < d.digits) (k : ℤ) :
    (10 : ℚ) ^ k ≤ d.digits * 10 ^ d.power ↔ k < d.point := by
  have hlength : 0 < (Nat.toDigits 10 d.digits).length := Nat.length_toDigits_pos
  have hlt : d.digits < 10 ^ (Nat.toDigits 10 d.digits).length :=
    (Nat.length_toDigits_le_iff (by decide) hlength).mp (Nat.le_refl _)
  have hle : 10 ^ ((Nat.toDigits 10 d.digits).length - 1) ≤ d.digits := by
    rcases Nat.eq_zero_or_pos ((Nat.toDigits 10 d.digits).length - 1) with hone | hmore
    · rw [hone]
      exact hd
    · rw [← Nat.not_lt, ← Nat.length_toDigits_le_iff (by decide) hmore]
      omega
  have hpower : (0 : ℚ) < 10 ^ d.power := by positivity
  unfold Decimal.point
  constructor
  · intro h
    by_contra hpoint
    have hbelow : (d.digits : ℚ) * 10 ^ d.power < 10 ^ k := by
      calc (d.digits : ℚ) * 10 ^ d.power
          < 10 ^ ((Nat.toDigits 10 d.digits).length : ℤ) * 10 ^ d.power := by
            refine mul_lt_mul_of_pos_right ?_ hpower
            rw [zpow_natCast]
            exact_mod_cast hlt
        _ = 10 ^ (((Nat.toDigits 10 d.digits).length : ℤ) + d.power) :=
            (zpow_add₀ (by norm_num) _ _).symm
        _ ≤ 10 ^ k := zpow_le_zpow_right₀ (by norm_num) (by omega)
    exact absurd h (not_le.mpr hbelow)
  · intro h
    calc (10 : ℚ) ^ k
        ≤ 10 ^ ((((Nat.toDigits 10 d.digits).length - 1 : Nat) : ℤ) + d.power) :=
          zpow_le_zpow_right₀ (by norm_num) (by omega)
      _ = 10 ^ (((Nat.toDigits 10 d.digits).length - 1 : Nat) : ℤ) * 10 ^ d.power :=
          zpow_add₀ (by norm_num) _ _
      _ ≤ d.digits * 10 ^ d.power := by
          refine mul_le_mul_of_nonneg_right ?_ hpower.le
          rw [zpow_natCast]
          exact_mod_cast hle

theorem magnitude_eq_value (x : Double) :
    x.magnitude = (ofDouble x).value * 2 ^ (ofDouble x).scale := by
  show (x.mantissa : ℚ) * 2 ^ x.scale = (4 * x.mantissa : Nat) * 2 ^ (x.scale - 2)
  rw [zpow_sub₀ two_ne_zero]
  push_cast
  ring

/-- The number nearest to a power of ten is not below it, and is written as it. -/
def Marks (tie : Tie) (k : ℤ) : Prop :=
  ∀ negative : Bool, (ofDecimal negative 1 k).shortest tie = ⟨1, k⟩
    ∧ 1 * (ofDouble (ofDecimal negative 1 k)).spacing k
      ≤ (ofDouble (ofDecimal negative 1 k)).value * (ofDouble (ofDecimal negative 1 k)).weight k

instance (tie : Tie) (k : ℤ) : Decidable (Marks tie k) := by
  unfold Marks
  infer_instance

/-- **The number and its shortest decimal are on the same side of a power of ten.** -/
theorem pow_le_shortest_iff {x : Double} (hx : x.isFinite = true) (hzero : x.isZero = false)
    {tie : Tie} {k : ℤ} (hk : Marks tie k) :
    (10 : ℚ) ^ k ≤ (x.shortest tie).digits * 10 ^ (x.shortest tie).power
      ↔ (10 : ℚ) ^ k ≤ x.magnitude := by
  have hone : ((1 : Nat) : ℚ) * 10 ^ k = 10 ^ k := by rw [Nat.cast_one, one_mul]
  have hdecimal := contains_shortest hzero tie
  rw [contains_iff_encloses] at hdecimal
  have hvalue : (ofDouble x).Encloses x.magnitude := by
    rw [magnitude_eq_value]
    exact encloses_value (lower_lt_ofDouble hzero) (Nat.lt_add_of_pos_right (by decide))
  by_cases hin : (ofDouble x).Encloses ((1 : Nat) * 10 ^ k)
  · -- The power rounds to the number, so the number is the one nearest to it.
    have hround := ofDecimal_of_contains hx ((contains_iff_encloses _ _ _).mpr hin)
    obtain ⟨hshortest, hle⟩ := hk x.negative
    rw [hround, mul_spacing_le_iff, ← magnitude_eq_value, hone] at hle
    rw [hround] at hshortest
    rw [hshortest, hone]
    exact iff_of_true le_rfl hle
  · -- Otherwise it lies between neither of the two and the other.
    rw [hone] at hin
    constructor
    · intro h
      by_contra hlt
      exact hin (hvalue.between hdecimal (not_le.mp hlt).le h)
    · intro h
      by_contra hlt
      exact hin (hdecimal.between hvalue (not_le.mp hlt).le h)

theorem magnitude_eq_zero_iff (x : Double) : x.magnitude = 0 ↔ x.isZero = true := by
  constructor
  · intro h
    by_contra hzero
    rw [Bool.not_eq_true] at hzero
    have hpos : (0 : ℚ) < x.mantissa := mod_cast mantissa_pos hzero
    have hscaled : 0 < x.magnitude := mul_pos hpos (by positivity)
    rw [h] at hscaled
    exact lt_irrefl _ hscaled
  · intro h
    rw [magnitude, mantissa_of_isZero h, Nat.cast_zero, zero_mul]

/-- **Where a style changes to exponents**, said of the number and not of its decimal. -/
theorem hasExponent_text_iff_magnitude {x : Double} (hx : x.isFinite = true)
    {style : NumberStyle} {low high : ℤ} (hlow : low < 1) (hhigh : 1 ≤ high)
    (hstyle : ∀ point, style.positional point = true ↔ low < point ∧ point ≤ high)
    (hmarkslow : Marks style.tie low) (hmarkshigh : Marks style.tie high) :
    Text.HasExponent (x.text style)
      ↔ (10 : ℚ) ^ high ≤ x.magnitude ∨ x.magnitude ≠ 0 ∧ x.magnitude < 10 ^ low := by
  rw [hasExponent_text_iff hx, ← Bool.not_eq_true, hstyle]
  cases hzero : x.isZero with
  | true =>
    have hpoint : (x.shortest style.tie).point = 1 := by
      rw [shortest_of_isZero hzero]
      rfl
    have hpos : (0 : ℚ) < 10 ^ high := by positivity
    rw [hpoint, (magnitude_eq_zero_iff x).mpr hzero]
    refine iff_of_false (fun h => h ⟨hlow, hhigh⟩) ?_
    rintro (h | h)
    · exact absurd h (not_le.mpr hpos)
    · exact h.1 rfl
  | false =>
    have hne : x.magnitude ≠ 0 := fun h => by
      rw [magnitude_eq_zero_iff, hzero] at h
      cases h
    have hdigits := shortest_digits_pos hzero style.tie
    have hbelow : x.magnitude < 10 ^ low ↔ ¬ low < (x.shortest style.tie).point := by
      rw [← pow_le_iff_lt_point hdigits, pow_le_shortest_iff hx hzero hmarkslow, not_le]
    have habove : (10 : ℚ) ^ high ≤ x.magnitude ↔ high < (x.shortest style.tie).point := by
      rw [← pow_le_iff_lt_point hdigits, pow_le_shortest_iff hx hzero hmarkshigh]
    rw [hbelow, habove]
    simp only [hne, ne_eq, not_false_eq_true, true_and]
    omega

end Double

/-! ## The three texts -/

namespace Variable

open Double

/-- There is an exponent from `1e16` on and below `1e-4`, but not for zero. -/
theorem hasExponent_debugStyle_iff {x : Double} (hx : x.isFinite = true) :
    Text.HasExponent (x.text debugStyle)
      ↔ 10 ^ 16 ≤ x.magnitude ∨ x.magnitude ≠ 0 ∧ x.magnitude < 1 / 10 ^ 4 := by
  have hstyle : ∀ point, debugStyle.positional point = true ↔ (-4 : ℤ) < point ∧ point ≤ 16 :=
    fun point => decide_eq_true_iff.trans (by omega)
  rw [hasExponent_text_iff_magnitude hx (by decide) (by decide) hstyle (by decide +kernel)
    (by decide +kernel)]
  norm_num

/-- There is an exponent from `1e16` on and below `1e-5`, but not for zero. -/
theorem hasExponent_numberStyle_iff {x : Double} (hx : x.isFinite = true) :
    Text.HasExponent (x.text Json.numberStyle)
      ↔ 10 ^ 16 ≤ x.magnitude ∨ x.magnitude ≠ 0 ∧ x.magnitude < 1 / 10 ^ 5 := by
  have hstyle : ∀ point, Json.numberStyle.positional point = true
      ↔ (-5 : ℤ) < point ∧ point ≤ 16 :=
    fun point => decide_eq_true_iff.trans (by omega)
  rw [hasExponent_text_iff_magnitude hx (by decide) (by decide) hstyle (by decide +kernel)
    (by decide +kernel)]
  norm_num

theorem not_hasExponent_displayStyle {x : Double} (hx : x.isFinite = true) :
    ¬ Text.HasExponent (x.text displayStyle) := by
  rw [hasExponent_text_iff hx]
  exact Bool.noConfusion

theorem display_number (x : Double) :
    (number x).display.toList = x.text displayStyle :=
  String.toList_ofList

theorem debug_number (x : Double) :
    (number x).debug.toList = "Number(".toList ++ x.text debugStyle ++ ")".toList :=
  String.toList_ofList

theorem toJson_number {x : Double} (hx : x.isFinite = true) : (number x).toJson.toList
    = "\x7b\"type\":\"number\",\"value\":".toList ++ x.text Json.numberStyle
      ++ "\x7d".toList := by
  have htype : Json.entry Json.Field.type.key (Json.stringChars (Json.kindWord .number))
      = "\"type\":\"number\"".toList := by decide
  have hvalue : Json.stringChars Json.Field.value.key = "\"value\"".toList := by decide
  have hnumber : Json.numberChars x = x.text Json.numberStyle := if_pos hx
  unfold toJson Json.variableChars Json.typed Json.map
  rw [String.toList_ofList, htype, hnumber]
  unfold Json.entry Text.compact Text.compact
  rw [hvalue]
  simp

/-- **Number texts are exact and shortest, in all three renderings.** A finite number is shown to a
reader, for debugging and in JSON as a decimal numeral that rounds to it, with a minus if and only
if its sign bit is set, and with as few digits as there can be; exponents begin at fixed powers of
ten, and without one a text for debugging or in JSON has a decimal point. Different numbers have
different texts. -/
theorem number_texts {x : Double} (hx : x.isFinite = true) :
    (x.IsExactText (number x).display.toList ∧ ¬ Text.HasExponent (number x).display.toList)
    ∧ (∃ shown, (number x).debug.toList = "Number(".toList ++ shown ++ ")".toList
      ∧ x.IsExactText shown
      ∧ (Text.HasExponent shown
        ↔ 10 ^ 16 ≤ x.magnitude ∨ x.magnitude ≠ 0 ∧ x.magnitude < 1 / 10 ^ 4)
      ∧ (¬ Text.HasExponent shown → '.' ∈ shown))
    ∧ (∃ shown, (number x).toJson.toList
        = "\x7b\"type\":\"number\",\"value\":".toList ++ shown ++ "\x7d".toList
      ∧ x.IsExactText shown
      ∧ (Text.HasExponent shown
        ↔ x.magnitude ≠ 0 ∧ ¬ (1 / 10 ^ 5 ≤ x.magnitude ∧ x.magnitude < 10 ^ 16))
      ∧ (¬ Text.HasExponent shown → '.' ∈ shown))
    ∧ ∀ y : Double, y.isFinite = true → y ≠ x →
      (number y).display ≠ (number x).display ∧ (number y).debug ≠ (number x).debug
        ∧ (number y).toJson ≠ (number x).toJson := by
  refine ⟨?_, ⟨_, debug_number x, isExactText_text hx _, hasExponent_debugStyle_iff hx,
    point_mem_text hx rfl⟩, ⟨_, toJson_number hx, isExactText_text hx _, ?_,
    point_mem_text hx rfl⟩, fun y hy hne => ?_⟩
  · rw [display_number]
    exact ⟨isExactText_text hx _, not_hasExponent_displayStyle hx⟩
  · rw [hasExponent_numberStyle_iff hx, not_and_or, not_le, not_lt]
    have hlarge : (10 : ℚ) ^ 16 ≤ x.magnitude → x.magnitude ≠ 0 := by
      intro h hzero
      rw [hzero] at h
      norm_num at h
    tauto
  · refine ⟨fun h => hne ?_, fun h => hne ?_, fun h => hne ?_⟩
    · have htext := congrArg String.toList h
      rw [display_number, display_number] at htext
      exact text_injective hy hx htext
    · have htext := congrArg String.toList h
      rw [debug_number, debug_number] at htext
      exact text_injective hy hx (List.append_cancel_left (List.append_cancel_right htext))
    · have htext := congrArg String.toList h
      rw [toJson_number hx, toJson_number hy] at htext
      exact text_injective hy hx (List.append_cancel_left (List.append_cancel_right htext))

/-- The least number there is has one digit, which stands for a span from half to one and a half
of it. -/
theorem number_texts_of_least : (Double.ofRank false 1).isFinite = true
    ∧ (number (Double.ofRank false 1)).debug = "Number(5e-324)"
    ∧ (Double.ofRank false 1).IsExactText (number (Double.ofRank false 1)).display.toList :=
  ⟨by decide +kernel, by decide +kernel, (number_texts (by decide +kernel)).1.1⟩

end Variable

end ScopedVars
