import Mathlib.Data.List.Basic

/-!
# `Proofs/Text/Digits` — digit strings

A number text is made of the decimal digits of naturals, cut somewhere and filled up with zeros.
What a reader of such a text needs to know is kept by cutting and filling up: that all characters
are digits (`AllDigits`), and that there is no zero in front which is not all there is
(`NoLeadingZero`). With the number they show, both are what makes a digit string the digits of a
natural (`DigitsOf`).
-/

set_option autoImplicit false

namespace ScopedVars

namespace Text

def AllDigits (cs : List Char) : Prop :=
  ∀ c ∈ cs, c.isDigit = true

theorem allDigits_toDigits (n : Nat) : AllDigits (Nat.toDigits 10 n) := fun _ hc =>
  Nat.isDigit_of_mem_toDigits (by decide) (by decide) hc

theorem allDigits_replicate (n : Nat) : AllDigits (List.replicate n '0') := by
  intro c hc
  rw [List.eq_of_mem_replicate hc]
  rfl

theorem AllDigits.append {cs ds : List Char} (hc : AllDigits cs) (hd : AllDigits ds) :
    AllDigits (cs ++ ds) := by
  intro c h
  rcases List.mem_append.mp h with h | h
  · exact hc c h
  · exact hd c h

theorem AllDigits.take {cs : List Char} (h : AllDigits cs) (n : Nat) : AllDigits (cs.take n) :=
  fun c hc => h c (List.mem_of_mem_take hc)

theorem AllDigits.drop {cs : List Char} (h : AllDigits cs) (n : Nat) : AllDigits (cs.drop n) :=
  fun c hc => h c (List.mem_of_mem_drop hc)

def NoLeadingZero (cs : List Char) : Prop :=
  cs.head? = some '0' → cs = ['0']

theorem head?_toDigits (n : Nat) (hn : 0 < n) : (Nat.toDigits 10 n).head? ≠ some '0' := by
  induction n using Nat.base_induction 10 (by decide) with
  | single m hm =>
    rw [Nat.toDigits_of_lt_base hm]
    intro h
    have hzero : m.digitChar.toNat = '0'.toNat := congrArg Char.toNat (Option.some.inj h)
    rw [Nat.toNat_digitChar_of_lt_ten hm] at hzero
    have hval : '0'.toNat = 48 := rfl
    omega
  | digit m k hk hm ih =>
    rw [← Nat.toDigits_append_toDigits (by decide) hm hk,
      List.head?_append_of_ne_nil _ Nat.toDigits_ne_nil]
    exact ih hm

theorem noLeadingZero_toDigits (n : Nat) : NoLeadingZero (Nat.toDigits 10 n) := by
  intro h
  rcases Nat.eq_zero_or_pos n with rfl | hn
  · exact Nat.toDigits_zero 10
  · exact absurd h (head?_toDigits n hn)

theorem NoLeadingZero.take {cs : List Char} (h : NoLeadingZero cs) {n : Nat} (hn : 0 < n) :
    NoLeadingZero (cs.take n) := by
  intro hzero
  rw [List.head?_take, if_neg (by omega)] at hzero
  rw [h hzero, List.take_of_length_le hn]

/-- Zeros may follow anything but a zero. -/
theorem NoLeadingZero.append_replicate {cs : List Char} (h : NoLeadingZero cs) (hne : cs ≠ [])
    {n : Nat} (hn : cs = ['0'] → n = 0) : NoLeadingZero (cs ++ List.replicate n '0') := by
  intro hzero
  rw [List.head?_append_of_ne_nil _ hne] at hzero
  rw [hn (h hzero), List.replicate_zero, List.append_nil, h hzero]

/-- The digits of a natural, as it is written. -/
structure DigitsOf (n : Nat) (ds : List Char) : Prop where
  digits : AllDigits ds
  ne_nil : ds ≠ []
  lead : NoLeadingZero ds
  value : Nat.ofDigitChars 10 ds 0 = n

theorem digitsOf_toDigits (n : Nat) : DigitsOf n (Nat.toDigits 10 n) where
  digits := allDigits_toDigits n
  ne_nil := Nat.toDigits_ne_nil
  lead := noLeadingZero_toDigits n
  value := Nat.ofDigitChars_ten_toDigits

theorem DigitsOf.length_pos {n : Nat} {ds : List Char} (h : DigitsOf n ds) : 0 < ds.length :=
  List.length_pos_iff.mpr h.ne_nil

end Text

end ScopedVars
