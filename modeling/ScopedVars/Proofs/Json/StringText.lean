import Mathlib.Data.List.Forall2
import ScopedVars.Json.Write
import ScopedVars.Proofs.Json.Spelling

/-!
# `Proofs/Json/StringText` — the texts of a string

Every character of a string has several texts: itself, unless it is one of the few that may not
stand for themselves; a short escape, if it has one; the number of its UTF-16 unit; or two such
numbers, if it takes two. `CharText` is that grammar, and a `StringText` is any mixture of them in
quotes. The writer has one of them for each character (`charText_escape`).

Within a string of whole characters the scanner has nothing on its mind but the characters so far
(`Scanner.within`). A text of one character takes it from there to there, however long it is, and
that is all there is to show (`Scanner.tokens_charText`).
-/

set_option autoImplicit false

namespace ScopedVars

namespace Json

/-! ## The grammar -/

/-- An escape of a UTF-16 unit by its number. -/
inductive UnitText : Nat → List Char → Prop where
  | mk {a b c d : Char} {i j k l : Nat} (ha : StringScan.hexValue? a = some i)
      (hb : StringScan.hexValue? b = some j) (hc : StringScan.hexValue? c = some k)
      (hd : StringScan.hexValue? d = some l) :
      UnitText (16 * (16 * (16 * i + j) + k) + l) ['\\', 'u', a, b, c, d]

/-- A character, and a text of it within a string. -/
inductive CharText : Char → List Char → Prop where
  | plain {c : Char} (hquote : c ≠ '"') (hslash : c ≠ '\\') (hlow : ¬ c < ' ') : CharText c [c]
  | short {c letter : Char} (h : StringScan.unescape? letter = some c) :
      CharText c ['\\', letter]
  | unit {c : Char} {cs : List Char} (h : UnitText c.toNat cs) : CharText c cs
  /-- Beyond the first 65536 characters it takes two units. -/
  | pair {c : Char} {high low : Nat} {cs ds : List Char} (hhigh : UnitText high cs)
      (hlow : UnitText low ds) (hfirst : 0xD800 ≤ high ∧ high < 0xDC00)
      (hsecond : 0xDC00 ≤ low ∧ low < 0xE000)
      (hc : c.toNat = 0x10000 + (high - 0xD800) * 0x400 + (low - 0xDC00)) : CharText c (cs ++ ds)

/-- A string, and a text of it with its quotes. -/
def StringText (s : String) (cs : List Char) : Prop :=
  ∃ pieces, List.Forall₂ CharText s.toList pieces ∧ cs = '"' :: (pieces.flatten ++ ['"'])

/-! ## The scanner within a string -/

/-- Within a string, with these characters behind it, the last one first. -/
def Scanner.within (text : List Char) : Scanner :=
  .string ⟨.text, text, none, false⟩

theorem utf8Size_of_hexValue? {c : Char} {n : Nat} (h : StringScan.hexValue? c = some n) :
    c.utf8Size = 1 := by
  have hsmall : c.val ≤ 0x7f := by
    unfold StringScan.hexValue? at h
    split at h
    next hdigit => exact UInt32.le_trans hdigit.2 (by decide)
    next =>
      split at h
      next hlower => exact UInt32.le_trans hlower.2 (by decide)
      next =>
        split at h
        next hupper => exact UInt32.le_trans hupper.2 (by decide)
        next => cases h
  exact if_pos hsmall

/-- **The escape of a unit** is taken whole, also by a scanner that has half a pair in hand. -/
theorem Scanner.tokens_unitText {n : Nat} {cs : List Char} (h : UnitText n cs)
    (text : List Char) (half : Option Nat) (rest : List Char) :
    (Scanner.string ⟨.text, text, half, false⟩).tokens (cs ++ rest)
      = (Scanner.string (StringScan.pushUnit ⟨.text, text, half, false⟩ n)).tokens rest := by
  obtain ⟨ha, hb, hc, hd⟩ := h
  have hpush : ∀ {x : Char} {i : Nat}, StringScan.hexValue? x = some i →
      ∀ (count bytes value : Nat), bytes + 1 < 4 → ∀ rest : List Char,
        (Scanner.string ⟨.unicode count bytes (some value), text, half, false⟩).tokens (x :: rest)
          = (Scanner.string ⟨.unicode (count + 1) (bytes + 1) (some (16 * value + i)), text, half,
              false⟩).tokens rest := by
    intro x i hx count bytes value hbytes rest
    rw [Scanner.tokens_cons]
    simp only [Scanner.step, Scanner.stepString, StringScan.pushHex, hx, utf8Size_of_hexValue? hx,
      Option.bind_some, Option.map_some, if_pos hbytes, List.nil_append]
  show (Scanner.string ⟨.unicode 0 0 (some 0), text, half, false⟩).tokens
    (_ :: _ :: _ :: _ :: rest) = _
  rw [hpush ha 0 0 0 (by decide), hpush hb 1 1 _ (by decide), hpush hc 2 2 _ (by decide),
    Nat.mul_zero, Nat.zero_add]
  -- The fourth digit completes the unit.
  rw [Scanner.tokens_cons]
  have hfull : ¬ 3 + 1 < 4 := by decide
  simp only [Scanner.step, Scanner.stepString, StringScan.pushHex, hd, utf8Size_of_hexValue? hd,
    Option.bind_some, Option.map_some, if_neg hfull, List.nil_append]
  rfl

/-- A character is no half of a pair. -/
theorem pushUnit_toNat (c : Char) (text : List Char) :
    StringScan.pushUnit ⟨.text, text, none, false⟩ c.toNat = ⟨.text, c :: text, none, false⟩ := by
  have hvalid : c.toNat < 0xD800 ∨ 0xDFFF < c.toNat := by
    rcases c.valid with h | h
    · exact Or.inl h
    · exact Or.inr h.1
  have hsecond : ¬ (0xDC00 ≤ c.toNat ∧ c.toNat < 0xE000) := by omega
  have hfirst : ¬ (0xD800 ≤ c.toNat ∧ c.toNat < 0xDC00) := by omega
  simp only [StringScan.pushUnit, if_neg hsecond, if_neg hfirst, Char.ofNat_toNat]

/-- **A text of a character is read as the character.** -/
theorem Scanner.tokens_charText {c : Char} {cs : List Char} (h : CharText c cs)
    (text rest : List Char) :
    (within text).tokens (cs ++ rest) = (within (c :: text)).tokens rest := by
  cases h with
  | plain hquote hslash hlow =>
    have hstep : (within text).step c = ([], within (c :: text)) := by
      simp only [within, Scanner.step, Scanner.stepString, if_neg hquote, if_neg hslash,
        if_neg hlow]
      rfl
    rw [List.cons_append, Scanner.tokens_cons, hstep]
    rfl
  | @short letter hletter =>
    have hu : letter ≠ 'u' := by
      rintro rfl
      cases hletter
    show (Scanner.string ⟨.escape, text, none, false⟩).tokens (letter :: rest) = _
    rw [Scanner.tokens_cons]
    simp only [Scanner.step, Scanner.stepString, if_neg hu, hletter]
    rfl
  | unit hunit =>
    unfold within
    rw [tokens_unitText hunit, pushUnit_toNat]
  | @pair high low cs ds hhigh hlow hfirst hsecond hc =>
    -- The first unit is kept as half a pair, and the second one makes the character of the two.
    have hnotSecond : ¬ (0xDC00 ≤ high ∧ high < 0xE000) := by omega
    have hhalf : StringScan.pushUnit ⟨.text, text, none, false⟩ high
        = ⟨.text, text, some high, false⟩ := by
      simp only [StringScan.pushUnit, if_neg hnotSecond, if_pos hfirst]
    have hwhole : StringScan.pushUnit ⟨.text, text, some high, false⟩ low
        = ⟨.text, c :: text, none, false⟩ := by
      simp only [StringScan.pushUnit, if_pos hsecond, ← hc, Char.ofNat_toNat]
    unfold within
    rw [List.append_assoc, tokens_unitText hhigh, hhalf, tokens_unitText hlow, hwhole]

theorem Scanner.tokens_charTexts {cs : List Char} {pieces : List (List Char)}
    (h : List.Forall₂ CharText cs pieces) (text rest : List Char) :
    (within text).tokens (pieces.flatten ++ rest) = (within (cs.reverse ++ text)).tokens rest := by
  induction h generalizing text with
  | nil => rfl
  | @cons c piece cs pieces hc hcs ih =>
    rw [List.flatten_cons, List.append_assoc, tokens_charText hc, ih, List.reverse_cons,
      List.append_assoc]
    rfl

/-- **A text of a string is one token, the string.** -/
theorem StringText.spells {s : String} {cs : List Char} (h : StringText s cs) :
    Spells cs [.string (some s)] := by
  obtain ⟨pieces, hpieces, rfl⟩ := h
  intro rest _
  have hclose : (Scanner.within (s.toList.reverse ++ [])).tokens ('"' :: rest)
      = .string (some s) :: Scanner.between.tokens rest := by
    rw [Scanner.tokens_cons]
    show [Token.string (some (String.ofList (s.toList.reverse ++ []).reverse))] ++ _ = _
    rw [List.append_nil, List.reverse_reverse, String.ofList_toList]
    rfl
  show (Scanner.within []).tokens ((pieces.flatten ++ ['"']) ++ rest) = _
  rw [List.append_assoc, Scanner.tokens_charTexts hpieces]
  exact hclose

/-! ## What is written -/

theorem hexValue?_digitChar : ∀ n < 16, StringScan.hexValue? (Nat.digitChar n) = some n := by
  decide

/-- Every character is written as one of its texts. -/
theorem charText_escape (c : Char) : CharText c (escape c) := by
  unfold escape
  split
  case h_8 hquote hslash _ _ _ _ _ =>
    -- Only the control characters without a letter of their own are left for the long escape.
    by_cases hlow : c < ' '
    · have hnat : c.toNat < 32 := hlow
      have hvalue : 16 * (16 * (16 * 0 + 0) + c.toNat / 16) + c.toNat % 16 = c.toNat := by omega
      rw [if_pos hlow]
      refine .unit ?_
      nth_rewrite 1 [← hvalue]
      exact .mk rfl rfl (hexValue?_digitChar _ (by omega)) (hexValue?_digitChar _ (by omega))
    · rw [if_neg hlow]
      exact .plain hquote hslash hlow
  all_goals exact .short rfl

theorem stringText_stringChars (s : String) : StringText s (stringChars s) := by
  refine ⟨s.toList.map escape, ?_, ?_⟩
  · rw [List.forall₂_map_right_iff, List.forall₂_same]
    exact fun c _ => charText_escape c
  · unfold stringChars
    rw [List.flatMap_def]

end Json

end ScopedVars
