import ScopedVars.Double.Text
import ScopedVars.Proofs.Double.Shortest
import ScopedVars.Proofs.Json.NumberText

/-!
# `Proofs/Double/Text` — every style writes a numeral of the number

The styles of number texts differ in where they put the decimal point and in what an exponent looks
like. The layouts that they choose from are taken one by one first, as layouts of digits, whatever
the style (`Text.DigitsOf.numberText_before` and those after it).

What the styles have in common is said once for all of them: the text of a finite number is a
decimal numeral, by the grammar of `Json.NumberText`, and its numeral is the shortest decimal of the
number but for zeros behind its digits (`numberText_text`). Since a text is a text of one numeral
only (`NumberText.unique`), two finite numbers with one text are one number (`text_injective`).
-/

set_option autoImplicit false

namespace ScopedVars

open Json (Numeral NumberText ExponentText PlacesText signChars)
open Text (AllDigits DigitsOf)

/-! ## Layouts of digits -/

namespace Text.DigitsOf

variable {n : Nat} {ds : List Char}

/-- Zeros behind the digits multiply. Zero itself has no room for them. -/
theorem fill (h : DigitsOf n ds) {k : Nat} (hk : n = 0 → k = 0) :
    DigitsOf (10 ^ k * n) (ds ++ List.replicate k '0') where
  digits := h.digits.append (allDigits_replicate k)
  ne_nil := List.append_ne_nil_of_left_ne_nil h.ne_nil _
  lead := h.lead.append_replicate h.ne_nil fun hzero => by
    have hvalue := h.value
    rw [hzero] at hvalue
    exact hk hvalue.symm
  value := by rw [Nat.ofDigitChars_append, Nat.ofDigitChars_replicate_zero, h.value]

/-- `0.000ds`: zeros before the digits add nothing to their value. -/
theorem numberText_before (h : DigitsOf n ds) (negative : Bool) (k : Nat) :
    NumberText ⟨negative, n, -(k + ds.length : Nat), false⟩
      (signChars negative ++ '0' :: '.' :: (List.replicate k '0' ++ ds)) := by
  have hvalue : Nat.ofDigitChars 10
      (List.replicate 1 '0' ++ (List.replicate k '0' ++ ds)) 0 = n := by
    rw [Nat.ofDigitChars_append, Nat.ofDigitChars_append, Nat.ofDigitChars_replicate_zero,
      Nat.ofDigitChars_replicate_zero, Nat.mul_zero, h.value]
  have hlength : (List.replicate k '0' ++ ds).length = k + ds.length := by
    rw [List.length_append, List.length_replicate]
  rw [← hlength, ← hvalue]
  exact .pointed (allDigits_replicate 1) (by decide) (fun _ => rfl)
    ((allDigits_replicate k).append h.digits)
    (List.append_ne_nil_of_right_ne_nil _ h.ne_nil)

/-- `ds.0`: the place behind the point makes the digits ten times as much. -/
theorem numberText_marked (h : DigitsOf n ds) (negative : Bool) :
    NumberText ⟨negative, 10 * n, -1, false⟩ (signChars negative ++ (ds ++ ['.', '0'])) := by
  have hvalue : Nat.ofDigitChars 10 (ds ++ List.replicate 1 '0') 0 = 10 * n := by
    rw [Nat.ofDigitChars_append, Nat.ofDigitChars_replicate_zero, Nat.pow_one, h.value]
  rw [← hvalue]
  exact .pointed h.digits h.ne_nil h.lead (allDigits_replicate 1) (by decide)

/-- `ds` alone. -/
theorem numberText_whole (h : DigitsOf n ds) (negative : Bool) :
    NumberText ⟨negative, n, 0, true⟩ (signChars negative ++ ds) := by
  rw [← h.value]
  exact .whole h.digits h.ne_nil h.lead

/-- `d.ds`: digits that are taken apart at the point keep their value. -/
theorem numberText_places (h : DigitsOf n ds) (negative : Bool) {k : Nat} (hk : 0 < k)
    (hlt : k < ds.length) :
    NumberText ⟨negative, n, -(ds.length - k : Nat), false⟩
      (signChars negative ++ (ds.take k ++ '.' :: ds.drop k)) := by
  have hvalue : Nat.ofDigitChars 10 (ds.take k ++ ds.drop k) 0 = n := by
    rw [List.take_append_drop, h.value]
  rw [← List.length_drop, ← hvalue]
  exact .pointed (h.digits.take k) (List.ne_nil_of_length_pos (by rw [List.length_take]; omega))
    (h.lead.take hk) (h.digits.drop k)
    (List.ne_nil_of_length_pos (by rw [List.length_drop]; omega))

/-- `d.dse5`, or `de5` of a single digit. -/
theorem numberText_scientific (h : DigitsOf n ds) (negative : Bool) {e : Int}
    {exponent : List Char} (hexponent : ExponentText e exponent) :
    NumberText ⟨negative, n, e - (ds.length - 1 : Nat), false⟩
      (signChars negative ++ (ds.take 1
        ++ ((if ds.length ≤ 1 then [] else '.' :: ds.drop 1) ++ exponent))) := by
  have hvalue : Nat.ofDigitChars 10 (ds.take 1 ++ ds.drop 1) 0 = n := by
    rw [List.take_append_drop, h.value]
  have hplaces : PlacesText (ds.drop 1) (if ds.length ≤ 1 then [] else '.' :: ds.drop 1) := by
    by_cases hone : ds.length ≤ 1
    · rw [if_pos hone, List.drop_of_length_le hone]
      exact .none
    · rw [if_neg hone]
      exact .some (h.digits.drop 1) (List.ne_nil_of_length_pos (by rw [List.length_drop]; omega))
  have hlength := h.length_pos
  rw [← List.length_drop, ← hvalue]
  exact .scientific (h.digits.take 1)
    (List.ne_nil_of_length_pos (by rw [List.length_take]; omega)) (h.lead.take (by decide))
    hplaces hexponent

end Text.DigitsOf

/-! ## Styles -/

namespace NumberStyle

/-- How many zeros stand behind the digits of a decimal: those that fill up a whole number, and the
one behind its point. -/
def zeros (style : NumberStyle) (d : Decimal) : Nat :=
  if style.positional ((Nat.toDigits 10 d.digits).length + d.power) ∧ 0 ≤ d.power then
    d.power.toNat + if style.marksWhole then 1 else 0
  else 0

/-- The numeral that a decimal is written as. -/
def numeral (style : NumberStyle) (negative : Bool) (d : Decimal) : Numeral where
  negative
  digits := d.digits * Nat.pow 10 (style.zeros d)
  power := d.power - style.zeros d
  whole := style.positional ((Nat.toDigits 10 d.digits).length + d.power)
    && decide (0 ≤ d.power) && !style.marksWhole

/-- A number with places or an exponent is written as its decimal. -/
theorem numeral_of_no_zeros {style : NumberStyle} (negative : Bool) {d : Decimal}
    (h : ¬ (style.positional ((Nat.toDigits 10 d.digits).length + d.power) = true
      ∧ 0 ≤ d.power)) : style.numeral negative d = ⟨negative, d.digits, d.power, false⟩ := by
  have hzeros : style.zeros d = 0 := if_neg h
  have hwhole : (style.positional ((Nat.toDigits 10 d.digits).length + d.power)
      && decide (0 ≤ d.power)) = false := by
    rw [← Bool.not_eq_true, Bool.and_eq_true, decide_eq_true_iff]
    exact h
  unfold numeral
  rw [hzeros, hwhole]
  simp

/-- A whole number is written with the zeros behind its digits, and one more behind the point. -/
theorem numeral_of_whole {style : NumberStyle} (negative : Bool) {d : Decimal} {k : Nat}
    (hpositional : style.positional ((Nat.toDigits 10 d.digits).length + d.power) = true)
    (hpower : d.power = k) : style.numeral negative d
      = if style.marksWhole then ⟨negative, 10 * (10 ^ k * d.digits), -1, false⟩
        else ⟨negative, 10 ^ k * d.digits, 0, true⟩ := by
  have hzeros : style.zeros d = k + if style.marksWhole then 1 else 0 := by
    unfold zeros
    rw [if_pos ⟨hpositional, by omega⟩, hpower, Int.toNat_natCast]
  unfold numeral
  rw [hzeros, hpositional, hpower, decide_eq_true (Int.natCast_nonneg k), Nat.pow_eq]
  cases style.marksWhole with
  | true =>
    rw [if_pos rfl, if_pos rfl, Numeral.mk.injEq]
    exact ⟨rfl, by ring, by omega, rfl⟩
  | false =>
    rw [if_neg Bool.false_ne_true, if_neg Bool.false_ne_true, Numeral.mk.injEq]
    exact ⟨rfl, Nat.mul_comm _ _, by omega, rfl⟩

/-- Without an exponent the point stands before the digits, behind them or among them. -/
theorem numberText_positionalText (style : NumberStyle) (negative : Bool) {d : Decimal}
    {ds : List Char} {point : Int} (hds : Nat.toDigits 10 d.digits = ds)
    (hpoint : ds.length + d.power = point) (hpositional : style.positional point = true)
    (hd : d.digits = 0 → d.power = 0) :
    NumberText (style.numeral negative d)
      (signChars negative ++ style.positionalText ds point) := by
  have hdigits : DigitsOf d.digits ds := hds ▸ Text.digitsOf_toDigits d.digits
  have hlength := hdigits.length_pos
  unfold positionalText
  by_cases hbefore : point ≤ 0
  · have hpower : d.power = -((-point).toNat + ds.length : Nat) := by omega
    rw [if_pos hbefore, numeral_of_no_zeros negative fun h => by omega, hpower]
    exact hdigits.numberText_before negative _
  · by_cases hbehind : ds.length ≤ point.toNat
    · have hpower : d.power = (point.toNat - ds.length : Nat) := by omega
      have hfilled := hdigits.fill (k := point.toNat - ds.length) fun hzero => by
        have hzero := hd hzero
        omega
      rw [if_neg hbefore, if_pos hbehind,
        numeral_of_whole negative (by rw [hds, hpoint]; exact hpositional) hpower]
      cases style.marksWhole with
      | true => exact hfilled.numberText_marked negative
      | false =>
        rw [if_neg Bool.false_ne_true, if_neg Bool.false_ne_true, List.append_nil]
        exact hfilled.numberText_whole negative
    · have hpower : d.power = -(ds.length - point.toNat : Nat) := by omega
      rw [if_neg hbefore, if_neg hbehind, numeral_of_no_zeros negative fun h => by omega, hpower]
      exact hdigits.numberText_places negative (by omega) (by omega)

/-- The sign of an exponent is a matter of style only where there is a choice. -/
theorem exponentText_toDigits (style : NumberStyle) (e : Int) :
    ExponentText e ('e' :: ((if e < 0 then ['-'] else if style.signsExponent then ['+'] else [])
      ++ Nat.toDigits 10 e.natAbs)) := by
  have hdigits := Text.digitsOf_toDigits e.natAbs
  by_cases hsign : e < 0
  · have hexponent : e = -(Nat.ofDigitChars 10 (Nat.toDigits 10 e.natAbs) 0 : Int) := by
      rw [hdigits.value]
      omega
    rw [if_pos hsign]
    nth_rewrite 1 [hexponent]
    exact .minus (Or.inl rfl) hdigits.digits hdigits.ne_nil
  · have hexponent : e = (Nat.ofDigitChars 10 (Nat.toDigits 10 e.natAbs) 0 : Int) := by
      rw [hdigits.value]
      omega
    rw [if_neg hsign]
    nth_rewrite 1 [hexponent]
    cases style.signsExponent with
    | true => exact .plus (Or.inl rfl) hdigits.digits hdigits.ne_nil
    | false => exact .unsigned (Or.inl rfl) hdigits.digits hdigits.ne_nil

/-- With an exponent the point stands behind the first digit, if that is not the only one. -/
theorem numberText_exponentText (style : NumberStyle) (negative : Bool) {d : Decimal}
    {ds : List Char} {point : Int} (hds : Nat.toDigits 10 d.digits = ds)
    (hpoint : ds.length + d.power = point) (hpositional : ¬ style.positional point = true) :
    NumberText (style.numeral negative d) (signChars negative ++ style.exponentText ds point) := by
  have hdigits : DigitsOf d.digits ds := hds ▸ Text.digitsOf_toDigits d.digits
  have hlength := hdigits.length_pos
  have hpower : d.power = (point - 1) - (ds.length - 1 : Nat) := by omega
  rw [numeral_of_no_zeros negative fun h => hpositional (by rw [← hpoint, ← hds]; exact h.1),
    hpower]
  unfold exponentText
  rw [List.append_assoc]
  exact hdigits.numberText_scientific negative (exponentText_toDigits style (point - 1))

/-- **Every style writes a decimal as a numeral of the same value.** -/
theorem numberText_decimalText (style : NumberStyle) (negative : Bool) {d : Decimal}
    (hd : d.digits = 0 → d.power = 0) :
    NumberText (style.numeral negative d) (signChars negative ++ style.decimalText d) := by
  unfold decimalText
  by_cases h : style.positional ((Nat.toDigits 10 d.digits).length + d.power) = true
  · simp only [if_pos h]
    exact style.numberText_positionalText negative rfl rfl h hd
  · simp only [if_neg h]
    exact style.numberText_exponentText negative rfl rfl h

/-! ## Exponents and points -/

theorem positionalText_chars {style : NumberStyle} {ds : List Char} (hds : AllDigits ds)
    {point : Int} {c : Char} (hc : c ∈ style.positionalText ds point) :
    c.isDigit = true ∨ c = '.' := by
  have hzero := Text.allDigits_replicate
  unfold positionalText at hc
  split at hc
  · rcases List.mem_cons.mp hc with rfl | hc
    · exact .inl rfl
    · rcases List.mem_cons.mp hc with rfl | hc
      · exact .inr rfl
      · exact .inl ((hzero _).append hds c hc)
  · split at hc
    · rcases List.mem_append.mp hc with hc | hc
      · exact .inl (hds.append (hzero _) c hc)
      · split at hc
        · rcases List.mem_cons.mp hc with rfl | hc
          · exact .inr rfl
          · exact .inl (hzero 1 c hc)
        · cases hc
    · rcases List.mem_append.mp hc with hc | hc
      · exact .inl (hds.take _ c hc)
      · rcases List.mem_cons.mp hc with rfl | hc
        · exact .inr rfl
        · exact .inl (hds.drop _ c hc)

/-- A style that marks whole numbers leaves no text of digits without a point. -/
theorem point_mem_positionalText {style : NumberStyle} (hmarks : style.marksWhole = true)
    (ds : List Char) (point : Int) : '.' ∈ style.positionalText ds point := by
  unfold positionalText
  rw [hmarks, if_pos rfl]
  split
  · simp
  · split <;> simp

end NumberStyle

/-- The place of the decimal point, counted from the first digit. -/
def Decimal.point (d : Decimal) : Int :=
  (Nat.toDigits 10 d.digits).length + d.power

/-- The text has the mark of an exponent. -/
def Text.HasExponent (cs : List Char) : Prop :=
  'e' ∈ cs ∨ 'E' ∈ cs

theorem NumberStyle.decimalText_eq (style : NumberStyle) (d : Decimal) :
    style.decimalText d = if style.positional d.point = true
      then style.positionalText (Nat.toDigits 10 d.digits) d.point
      else style.exponentText (Nat.toDigits 10 d.digits) d.point := rfl

/-- **The style decides by the place of the point alone** whether a decimal has an exponent. -/
theorem NumberStyle.hasExponent_decimalText_iff (style : NumberStyle) (d : Decimal) :
    Text.HasExponent (style.decimalText d) ↔ style.positional d.point = false := by
  rw [decimalText_eq]
  cases h : style.positional d.point with
  | true =>
    rw [if_pos rfl]
    refine iff_of_false ?_ (by decide)
    rintro (he | he)
    · rcases positionalText_chars (Text.allDigits_toDigits _) he with hc | hc <;> cases hc
    · rcases positionalText_chars (Text.allDigits_toDigits _) he with hc | hc <;> cases hc
  | false =>
    rw [if_neg Bool.false_ne_true]
    refine iff_of_true (.inl ?_) rfl
    unfold exponentText
    exact List.mem_append_right _ List.mem_cons_self

/-! ## Numerals of a text -/

namespace Json

theorem NumberText.head?_eq_minus_iff {n : Numeral} {cs : List Char} (h : NumberText n cs) :
    cs.head? = some '-' ↔ n.negative = true := by
  have hsigned : ∀ {negative : Bool} {ds more : List Char}, AllDigits ds → ds ≠ [] →
      ((signChars negative ++ (ds ++ more)).head? = some '-' ↔ negative = true) := by
    intro negative ds more hds hne
    cases negative with
    | true => exact iff_of_true rfl rfl
    | false =>
      refine iff_of_false ?_ (by decide)
      cases ds with
      | nil => exact absurd rfl hne
      | cons d ds =>
        intro hhead
        have hdigit := hds d List.mem_cons_self
        cases hhead
        cases hdigit
  cases h with
  | whole hds hne =>
    rw [← List.append_nil (_ ++ _), List.append_assoc]
    exact hsigned hds hne
  | pointed hds hne => exact hsigned hds hne
  | scientific hds hne => exact hsigned hds hne

/-- All characters are such as may stand in a number. -/
def InNumber (cs : List Char) : Prop :=
  ∀ c ∈ cs, continuesNumber c = true

theorem InNumber.append {cs ds : List Char} (hc : InNumber cs) (hd : InNumber ds) :
    InNumber (cs ++ ds) :=
  List.forall_mem_append.mpr ⟨hc, hd⟩

theorem InNumber.cons {c : Char} {cs : List Char} (hc : continuesNumber c = true)
    (h : InNumber cs) : InNumber (c :: cs) :=
  List.forall_mem_cons.mpr ⟨hc, h⟩

theorem inNumber_of_allDigits {cs : List Char} (h : AllDigits cs) : InNumber cs := by
  intro c hc
  unfold continuesNumber
  rw [h c hc]
  rfl

theorem inNumber_signChars (negative : Bool) : InNumber (signChars negative) := by
  cases negative with
  | true => exact .cons rfl (List.forall_mem_nil _)
  | false => exact List.forall_mem_nil _

theorem PlacesText.inNumber {fs cs : List Char} (h : PlacesText fs cs) : InNumber cs := by
  cases h with
  | none => exact List.forall_mem_nil _
  | some hfs => exact .cons rfl (inNumber_of_allDigits hfs)

theorem ExponentText.inNumber {e : Int} {cs : List Char} (h : ExponentText e cs) :
    InNumber cs := by
  have hmark : ∀ {mark : Char}, mark = 'e' ∨ mark = 'E' → continuesNumber mark = true := by
    rintro mark (rfl | rfl) <;> rfl
  cases h with
  | unsigned h hes => exact .cons (hmark h) (inNumber_of_allDigits hes)
  | plus h hes => exact .cons (hmark h) (.cons rfl (inNumber_of_allDigits hes))
  | minus h hes => exact .cons (hmark h) (.cons rfl (inNumber_of_allDigits hes))

theorem NumberText.inNumber {n : Numeral} {cs : List Char} (h : NumberText n cs) :
    InNumber cs := by
  cases h with
  | whole hds => exact (inNumber_signChars _).append (inNumber_of_allDigits hds)
  | pointed hds hne hzero hfs =>
    exact (inNumber_signChars _).append
      ((inNumber_of_allDigits hds).append (.cons rfl (inNumber_of_allDigits hfs)))
  | scientific hds hne hzero hplaces hexponent =>
    exact (inNumber_signChars _).append
      ((inNumber_of_allDigits hds).append (hplaces.inNumber.append hexponent.inNumber))

/-- A text is a text of one numeral at most. -/
theorem NumberText.unique {n m : Numeral} {cs : List Char} (hn : NumberText n cs)
    (hm : NumberText m cs) : n = m := by
  have htokens := hn.spells.tokens_eq.symm.trans hm.spells.tokens_eq
  cases htokens
  rfl

end Json

namespace Double

/-- The numeral that a number is written as. -/
def numeral (style : NumberStyle) (x : Double) : Numeral :=
  style.numeral x.negative (x.shortest style.tie)

theorem isNaN_of_isFinite {x : Double} (hx : x.isFinite = true) : x.isNaN = false := by
  have hexp : (x.exponent.val == 2047) = false := by simpa [isFinite] using hx
  unfold isNaN
  rw [hexp, Bool.false_and]

theorem text_of_isFinite {x : Double} (hx : x.isFinite = true) (style : NumberStyle) :
    x.text style = signChars x.negative ++ style.decimalText (x.shortest style.tie) := by
  unfold text
  rw [isNaN_of_isFinite hx, if_neg Bool.false_ne_true, if_pos hx]
  rfl

/-- **A finite number is written as its numeral.** -/
theorem numberText_text {x : Double} (hx : x.isFinite = true) (style : NumberStyle) :
    NumberText (x.numeral style) (x.text style) := by
  rw [text_of_isFinite hx]
  refine style.numberText_decimalText x.negative fun hdigits => ?_
  cases hz : x.isZero with
  | true => rw [shortest_of_isZero hz]
  | false => exact absurd hdigits (shortest_digits_pos hz _).ne'

/-- **The numeral of a number reads back to it**, bit for bit. -/
theorem ofDecimal_numeral {x : Double} (hx : x.isFinite = true) (style : NumberStyle) :
    ofDecimal (x.numeral style).negative (x.numeral style).digits (x.numeral style).power = x := by
  unfold numeral NumberStyle.numeral
  simp only [Nat.pow_eq]
  rw [ofDecimal_mul_pow, ofDecimal_shortest hx]

/-- **Finite numbers that look alike are one number**, in every style. -/
theorem text_injective {x y : Double} (hx : x.isFinite = true) (hy : y.isFinite = true)
    {style : NumberStyle} (h : x.text style = y.text style) : x = y := by
  have hnumeral : x.numeral style = y.numeral style :=
    (numberText_text hx style).unique (h ▸ numberText_text hy style)
  rw [← ofDecimal_numeral hx style, hnumeral, ofDecimal_numeral hy]

theorem hasExponent_text_iff {x : Double} (hx : x.isFinite = true) (style : NumberStyle) :
    Text.HasExponent (x.text style) ↔ style.positional (x.shortest style.tie).point = false := by
  rw [← style.hasExponent_decimalText_iff, text_of_isFinite hx]
  have hsign : ∀ {c : Char}, c ≠ '-' → c ∉ signChars x.negative := by
    intro c hc
    cases x.negative with
    | true => simpa [signChars] using hc
    | false => exact List.not_mem_nil
  unfold Text.HasExponent
  simp only [List.mem_append, hsign (by decide : 'e' ≠ '-'), hsign (by decide : 'E' ≠ '-'),
    false_or]

/-- Without an exponent there is a point, if whole numbers are marked. -/
theorem point_mem_text {x : Double} (hx : x.isFinite = true) {style : NumberStyle}
    (hmarks : style.marksWhole = true) (h : ¬ Text.HasExponent (x.text style)) :
    '.' ∈ x.text style := by
  rw [hasExponent_text_iff hx, Bool.not_eq_false] at h
  rw [text_of_isFinite hx]
  refine List.mem_append_right _ ?_
  rw [NumberStyle.decimalText_eq, if_pos h]
  exact NumberStyle.point_mem_positionalText hmarks _ _

end Double

end ScopedVars
