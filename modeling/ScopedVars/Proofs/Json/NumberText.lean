import ScopedVars.Proofs.Json.Spelling
import ScopedVars.Proofs.Text.Digits

/-!
# `Proofs/Json/NumberText` — the texts of a number

JSON has many texts for one number: an exponent or none, with or without a sign, zeros at the end.
`NumberText` is that grammar, and the numeral beside each text is what the text says. The scanner
finds just this numeral (`NumberText.spells`).

A text has three parts, and the scanner takes them one by one: the *whole part*, which every text
has and which may not begin with a zero unless it is one; the *places* behind the point; and the
*exponent*. There is one lemma for each part.
-/

set_option autoImplicit false

namespace ScopedVars

namespace Json

open Text (AllDigits NoLeadingZero)

/-! ## The grammar -/

/-- The sign of a number. There is no plus. -/
def signChars (negative : Bool) : List Char :=
  if negative then ['-'] else []

/-- The digits behind the point, and the text of them with the point. -/
inductive PlacesText : List Char → List Char → Prop where
  | none : PlacesText [] []
  | some {fs : List Char} (hfs : AllDigits fs) (hne : fs ≠ []) : PlacesText fs ('.' :: fs)

/-- An exponent, and the text of it with its mark. -/
inductive ExponentText : Int → List Char → Prop where
  | unsigned {mark : Char} {es : List Char} (hmark : mark = 'e' ∨ mark = 'E') (hes : AllDigits es)
      (hne : es ≠ []) : ExponentText (Nat.ofDigitChars 10 es 0) (mark :: es)
  | plus {mark : Char} {es : List Char} (hmark : mark = 'e' ∨ mark = 'E') (hes : AllDigits es)
      (hne : es ≠ []) : ExponentText (Nat.ofDigitChars 10 es 0) (mark :: '+' :: es)
  | minus {mark : Char} {es : List Char} (hmark : mark = 'e' ∨ mark = 'E') (hes : AllDigits es)
      (hne : es ≠ []) : ExponentText (-Nat.ofDigitChars 10 es 0) (mark :: '-' :: es)

/-- A numeral, and a text of it. -/
inductive NumberText : Numeral → List Char → Prop where
  | whole {negative : Bool} {ds : List Char} (hds : AllDigits ds) (hne : ds ≠ [])
      (hzero : NoLeadingZero ds) :
      NumberText ⟨negative, Nat.ofDigitChars 10 ds 0, 0, true⟩ (signChars negative ++ ds)
  | pointed {negative : Bool} {ds fs : List Char} (hds : AllDigits ds) (hne : ds ≠ [])
      (hzero : NoLeadingZero ds) (hfs : AllDigits fs) (hfne : fs ≠ []) :
      NumberText ⟨negative, Nat.ofDigitChars 10 (ds ++ fs) 0, -fs.length, false⟩
        (signChars negative ++ (ds ++ '.' :: fs))
  | scientific {negative : Bool} {ds fs places exponent : List Char} {e : Int}
      (hds : AllDigits ds) (hne : ds ≠ []) (hzero : NoLeadingZero ds)
      (hplaces : PlacesText fs places) (hexponent : ExponentText e exponent) :
      NumberText ⟨negative, Nat.ofDigitChars 10 (ds ++ fs) 0, e - fs.length, false⟩
        (signChars negative ++ (ds ++ (places ++ exponent)))

/-! ## Character by character -/

theorem Scanner.tokens_number_push {n m : NumberScan} {c : Char} (h : n.push? c = some m)
    (rest : List Char) :
    (Scanner.number n).tokens (c :: rest) = (Scanner.number m).tokens rest := by
  rw [Scanner.tokens_cons]
  simp only [Scanner.step, h, List.nil_append]

theorem push?_of_not_continuesNumber {c : Char} (hc : continuesNumber c = false)
    (n : NumberScan) : n.push? c = none := by
  simp only [continuesNumber, Bool.or_eq_false_iff, beq_eq_false_iff_ne, ne_eq] at hc
  obtain ⟨⟨⟨⟨⟨hdigit, hplus⟩, hminus⟩, hpoint⟩, he⟩, hE⟩ := hc
  have hzero : c ≠ '0' := by
    rintro rfl
    cases hdigit
  unfold NumberScan.push?
  cases n.part <;> simp [hdigit, hplus, hminus, hpoint, he, hE, hzero]

/-- A delimited rest ends a number that may end. -/
theorem Scanner.tokens_number_end {n : NumberScan} (hn : n.complete = true) {rest : List Char}
    (hrest : Delimited rest) :
    (Scanner.number n).tokens rest = .number n.numeral :: Scanner.between.tokens rest := by
  cases rest with
  | nil =>
    simp only [Scanner.tokens, Scanner.finish, hn, if_true]
  | cons c rest =>
    have hc : continuesNumber c = false := hrest c rfl
    have hdigit : c.isDigit = false := by
      simp only [continuesNumber, Bool.or_eq_false_iff] at hc
      exact hc.1.1.1.1.1
    have hends : n.endsBefore c = true := by
      simp only [NumberScan.endsBefore, hn, hdigit, Bool.and_false, Bool.not_false, Bool.and_true]
    rw [Scanner.tokens_cons, Scanner.tokens_cons]
    simp only [Scanner.step, push?_of_not_continuesNumber hc, hends, if_true, List.cons_append]

/-! ## The three parts -/

theorem Scanner.tokens_whole (negative : Bool) : ∀ {ds : List Char}, AllDigits ds →
    ∀ (m : Nat) (rest : List Char),
      (Scanner.number ⟨.whole, negative, m, 0, false, 0⟩).tokens (ds ++ rest)
        = (Scanner.number ⟨.whole, negative, Nat.ofDigitChars 10 ds m, 0, false, 0⟩).tokens rest
  | [], _, m, rest => by rw [Nat.ofDigitChars_nil, List.nil_append]
  | d :: ds, h, m, rest => by
    obtain ⟨hd, hds⟩ := List.forall_mem_cons.mp h
    have hpush : NumberScan.push? ⟨.whole, negative, m, 0, false, 0⟩ d
        = some ⟨.whole, negative, 10 * m + digitValue d, 0, false, 0⟩ := by
      simp only [NumberScan.push?, hd, if_true]
      rfl
    rw [List.cons_append, tokens_number_push hpush, tokens_whole negative hds,
      Nat.ofDigitChars_cons]
    rfl

/-- The first digit, with the sign before it. -/
theorem Scanner.tokens_first (negative : Bool) {d : Char} (hd : d.isDigit = true)
    (rest : List Char) :
    Scanner.between.tokens (signChars negative ++ d :: rest)
      = (Scanner.number ⟨if d = '0' then .zero else .whole, negative, digitValue d, 0, false,
          0⟩).tokens rest := by
  have hminus : d ≠ '-' := by
    rintro rfl
    cases hd
  have hblank : isBlank d = false := by
    simp only [isBlank, Bool.or_eq_false_iff, beq_eq_false_iff_ne, ne_eq]
    refine ⟨⟨⟨?_, ?_⟩, ?_⟩, ?_⟩ <;> (rintro rfl; cases hd)
  cases negative with
  | false =>
    have hstep : Scanner.between.step d = ([], .number (.first d)) := by
      simp only [Scanner.step, Scanner.start, hblank, hd, or_true, if_true, Bool.false_eq_true,
        if_false]
    have hfirst : NumberScan.first d
        = ⟨if d = '0' then .zero else .whole, false, digitValue d, 0, false, 0⟩ := by
      simp only [NumberScan.first, hminus, decide_false, if_false]
    show Scanner.between.tokens (d :: rest) = _
    rw [Scanner.tokens_cons, hstep, hfirst]
    rfl
  | true =>
    have hpush : NumberScan.push? ⟨.sign, true, 0, 0, false, 0⟩ d
        = some ⟨if d = '0' then .zero else .whole, true, digitValue d, 0, false, 0⟩ := by
      have hvalue : 10 * 0 + digitValue d = digitValue d := Nat.zero_add _
      simp only [NumberScan.push?, NumberScan.pushDigit, hd, hvalue, if_true]
      split <;> rfl
    exact tokens_number_push hpush rest

/-- The whole part, with its sign. Only a zero alone is taken for a zero. -/
theorem Scanner.tokens_wholePart (negative : Bool) {ds : List Char} (hds : AllDigits ds)
    (hne : ds ≠ []) (hzero : NoLeadingZero ds) :
    ∃ part, (part = .zero ∨ part = .whole) ∧ ∀ rest,
      Scanner.between.tokens (signChars negative ++ (ds ++ rest))
        = (Scanner.number ⟨part, negative, Nat.ofDigitChars 10 ds 0, 0, false, 0⟩).tokens rest := by
  cases ds with
  | nil => exact absurd rfl hne
  | cons d ds =>
    obtain ⟨hd, hrest⟩ := List.forall_mem_cons.mp hds
    by_cases hd0 : d = '0'
    · subst hd0
      cases hzero rfl
      refine ⟨.zero, Or.inl rfl, fun rest => ?_⟩
      rw [List.cons_append, tokens_first negative hd]
      rfl
    · have hvalue : Nat.ofDigitChars 10 (d :: ds) 0 = Nat.ofDigitChars 10 ds (digitValue d) := by
        rw [Nat.ofDigitChars_cons, Nat.mul_zero, Nat.zero_add]
        rfl
      refine ⟨.whole, Or.inr rfl, fun rest => ?_⟩
      rw [List.cons_append, tokens_first negative hd, if_neg hd0, tokens_whole negative hrest,
        hvalue]

theorem push?_point {part : NumberPart} (hpart : part = .zero ∨ part = .whole) (negative : Bool)
    (m : Nat) : NumberScan.push? ⟨part, negative, m, 0, false, 0⟩ '.'
      = some ⟨.point, negative, m, 0, false, 0⟩ := by
  rcases hpart with rfl | rfl <;> rfl

/-- The places behind the point. The count of places is the count of digits. -/
theorem Scanner.tokens_places (negative : Bool) : ∀ {ds : List Char}, AllDigits ds →
    ∀ (m places : Nat) (rest : List Char),
      (Scanner.number ⟨.fraction, negative, m, places, false, 0⟩).tokens (ds ++ rest)
        = (Scanner.number ⟨.fraction, negative, Nat.ofDigitChars 10 ds m, places + ds.length, false,
            0⟩).tokens rest
  | [], _, m, places, rest => by rw [Nat.ofDigitChars_nil, List.nil_append]; rfl
  | d :: ds, h, m, places, rest => by
    obtain ⟨hd, hds⟩ := List.forall_mem_cons.mp h
    have hpush : NumberScan.push? ⟨.fraction, negative, m, places, false, 0⟩ d
        = some ⟨.fraction, negative, 10 * m + digitValue d, places + 1, false, 0⟩ := by
      simp only [NumberScan.push?, hd, if_true]
      rfl
    rw [List.cons_append, tokens_number_push hpush, tokens_places negative hds,
      Nat.ofDigitChars_cons, List.length_cons, Nat.add_right_comm, Nat.add_assoc]
    rfl

/-- The point is followed by one digit at least. -/
theorem Scanner.tokens_point (negative : Bool) {ds : List Char} (hds : AllDigits ds)
    (hne : ds ≠ []) (m : Nat) (rest : List Char) :
    (Scanner.number ⟨.point, negative, m, 0, false, 0⟩).tokens (ds ++ rest)
      = (Scanner.number ⟨.fraction, negative, Nat.ofDigitChars 10 ds m, ds.length, false,
          0⟩).tokens rest := by
  cases ds with
  | nil => exact absurd rfl hne
  | cons d ds =>
    obtain ⟨hd, hrest⟩ := List.forall_mem_cons.mp hds
    have hpush : NumberScan.push? ⟨.point, negative, m, 0, false, 0⟩ d
        = some ⟨.fraction, negative, 10 * m + digitValue d, 1, false, 0⟩ := by
      simp only [NumberScan.push?, hd, if_true]
      rfl
    rw [List.cons_append, tokens_number_push hpush, tokens_places negative hrest,
      Nat.ofDigitChars_cons, List.length_cons, Nat.add_comm 1]
    rfl

theorem Scanner.tokens_exponentDigits (negative exponentNegative : Bool) (m places : Nat) :
    ∀ {ds : List Char}, AllDigits ds → ∀ (e : Nat) (rest : List Char),
      (Scanner.number ⟨.exponent, negative, m, places, exponentNegative, e⟩).tokens (ds ++ rest)
        = (Scanner.number ⟨.exponent, negative, m, places, exponentNegative,
            Nat.ofDigitChars 10 ds e⟩).tokens rest
  | [], _, e, rest => by rw [Nat.ofDigitChars_nil, List.nil_append]
  | d :: ds, h, e, rest => by
    obtain ⟨hd, hds⟩ := List.forall_mem_cons.mp h
    have hpush : NumberScan.push? ⟨.exponent, negative, m, places, exponentNegative, e⟩ d
        = some ⟨.exponent, negative, m, places, exponentNegative, 10 * e + digitValue d⟩ := by
      simp only [NumberScan.push?, hd, if_true]
      rfl
    rw [List.cons_append, tokens_number_push hpush,
      tokens_exponentDigits negative exponentNegative m places hds, Nat.ofDigitChars_cons]
    rfl

/-- The exponent with its mark, behind a part that may be the last one. -/
theorem Scanner.tokens_exponent (negative : Bool) (m places : Nat) {part : NumberPart}
    (hpart : part = .zero ∨ part = .whole ∨ part = .fraction) {e : Int} {cs : List Char}
    (h : ExponentText e cs) {rest : List Char} (hrest : Delimited rest) :
    (Scanner.number ⟨part, negative, m, places, false, 0⟩).tokens (cs ++ rest)
      = .number ⟨negative, m, e - places, false⟩ :: Scanner.between.tokens rest := by
  have hmarked : ∀ {mark : Char}, mark = 'e' ∨ mark = 'E' →
      NumberScan.push? ⟨part, negative, m, places, false, 0⟩ mark
        = some ⟨.mark, negative, m, places, false, 0⟩ := by
    intro mark hmark
    rcases hmark with rfl | rfl <;> rcases hpart with rfl | rfl | rfl <;> rfl
  -- From here on it is the digits, and the sign has been noted.
  have hdigits : ∀ (exponentNegative : Bool) {before : NumberPart}
      (_ : before = .mark ∨ before = .markSign) {es : List Char}, AllDigits es → es ≠ [] →
      (Scanner.number ⟨before, negative, m, places, exponentNegative, 0⟩).tokens (es ++ rest)
        = .number ⟨negative, m, (if exponentNegative then -(Nat.ofDigitChars 10 es 0 : Int)
            else Nat.ofDigitChars 10 es 0) - places, false⟩ :: Scanner.between.tokens rest := by
    intro exponentNegative before hbefore es hes hne
    cases es with
    | nil => exact absurd rfl hne
    | cons d ds =>
      obtain ⟨hd, hds⟩ := List.forall_mem_cons.mp hes
      have hplus : d ≠ '+' := by
        rintro rfl
        cases hd
      have hminus : d ≠ '-' := by
        rintro rfl
        cases hd
      have hpush : NumberScan.push? ⟨before, negative, m, places, exponentNegative, 0⟩ d
          = some ⟨.exponent, negative, m, places, exponentNegative, 10 * 0 + digitValue d⟩ := by
        rcases hbefore with rfl | rfl <;>
          simp only [NumberScan.push?, hd, hplus, hminus, if_true, if_false] <;> rfl
      rw [List.cons_append, tokens_number_push hpush,
        tokens_exponentDigits negative exponentNegative m places hds,
        tokens_number_end rfl hrest, Nat.ofDigitChars_cons]
      rfl
  cases h with
  | unsigned hmark hes hne =>
    rw [List.cons_append, tokens_number_push (hmarked hmark)]
    exact hdigits false (Or.inl rfl) hes hne
  | plus hmark hes hne =>
    rw [List.cons_append, List.cons_append, tokens_number_push (hmarked hmark)]
    rw [tokens_number_push rfl]
    exact hdigits false (Or.inr rfl) hes hne
  | minus hmark hes hne =>
    rw [List.cons_append, List.cons_append, tokens_number_push (hmarked hmark)]
    rw [tokens_number_push rfl]
    exact hdigits true (Or.inr rfl) hes hne

/-! ## The whole -/

/-- **A text of a number is one token, the numeral of the text.** -/
theorem NumberText.spells {n : Numeral} {cs : List Char} (h : NumberText n cs) :
    Spells cs [.number n] := by
  intro rest hrest
  cases h with
  | @whole negative ds hds hne hzero =>
    obtain ⟨part, hpart, htokens⟩ := Scanner.tokens_wholePart negative hds hne hzero
    rw [List.append_assoc, htokens]
    rcases hpart with rfl | rfl <;> exact Scanner.tokens_number_end rfl hrest
  | @pointed negative ds fs hds hne hzero hfs hfne =>
    obtain ⟨part, hpart, htokens⟩ := Scanner.tokens_wholePart negative hds hne hzero
    rw [List.append_assoc, List.append_assoc, htokens, List.cons_append,
      Scanner.tokens_number_push (push?_point hpart negative _),
      Scanner.tokens_point negative hfs hfne, Scanner.tokens_number_end rfl hrest,
      Nat.ofDigitChars_append]
    simp only [NumberScan.numeral, Bool.false_eq_true, if_false, Int.natCast_zero, Int.zero_sub]
    rfl
  | @scientific negative ds fs places exponent e hds hne hzero hplaces hexponent =>
    obtain ⟨part, hpart, htokens⟩ := Scanner.tokens_wholePart negative hds hne hzero
    rw [List.append_assoc, List.append_assoc, htokens, List.append_assoc]
    cases hplaces with
    | none =>
      rw [List.append_nil, List.nil_append]
      refine Scanner.tokens_exponent negative _ 0 ?_ hexponent hrest
      rcases hpart with hpart | hpart
      · exact Or.inl hpart
      · exact Or.inr (Or.inl hpart)
    | some hfs hfne =>
      rw [List.cons_append, Scanner.tokens_number_push (push?_point hpart negative _),
        Scanner.tokens_point negative hfs hfne, ← Nat.ofDigitChars_append]
      exact Scanner.tokens_exponent negative _ _ (Or.inr (Or.inr rfl)) hexponent hrest

end Json

end ScopedVars
