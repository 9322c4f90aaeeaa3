import ScopedVars.Proofs.Json.NumberText
import ScopedVars.Proofs.Json.StringText
import ScopedVars.Proofs.Json.Tree

/-!
# `Proofs/Json/Grammar` — the texts of a tree

One tree has many texts: blanks go between any two tokens, a string has as many spellings as its
characters have, and so have numbers. `PaddedText t text` says that `text` is one of those of `t`,
by the rules of JSON and with no word on how it is read.

Whichever it is, the scanner finds the tokens of `t` in it and the assembler the document
(`PaddedText.contents`). This is the only thing a reader needs to know of its text.
-/

set_option autoImplicit false

namespace ScopedVars

namespace Json

/-! ## The grammar -/

inductive KeyText : String → List Char → Prop where
  | mk {key : String} {before cs behind : List Char} (hbefore : Blanks before)
      (h : StringText key cs) (hbehind : Blanks behind) : KeyText key (before ++ (cs ++ behind))

mutual

/-- A tree, and a text of it. -/
inductive TreeText : Tree → List Char → Prop where
  | null : TreeText .null "null".toList
  | boolean (b : Bool) : TreeText (.boolean b) (Text.bool b)
  | number {n : Numeral} {cs : List Char} (h : NumberText n cs) : TreeText (.number n) cs
  | string {s : String} {cs : List Char} (h : StringText s cs) : TreeText (.string s) cs
  | array {items : List Tree} {cs : List Char} (h : ItemsText items cs) :
      TreeText (.array items) ('[' :: (cs ++ [']']))
  | object {members : List (String × Tree)} {cs : List Char} (h : MembersText members cs) :
      TreeText (.object members) ('\x7b' :: (cs ++ ['\x7d']))

inductive PaddedText : Tree → List Char → Prop where
  | mk {t : Tree} {before cs behind : List Char} (hbefore : Blanks before) (h : TreeText t cs)
      (hbehind : Blanks behind) : PaddedText t (before ++ (cs ++ behind))

inductive ItemsText : List Tree → List Char → Prop where
  | none {blanks : List Char} (h : Blanks blanks) : ItemsText [] blanks
  | last {t : Tree} {cs : List Char} (h : PaddedText t cs) : ItemsText [t] cs
  | more {t u : Tree} {rest : List Tree} {cs ds : List Char} (h : PaddedText t cs)
      (hrest : ItemsText (u :: rest) ds) : ItemsText (t :: u :: rest) (cs ++ ',' :: ds)

inductive MembersText : List (String × Tree) → List Char → Prop where
  | none {blanks : List Char} (h : Blanks blanks) : MembersText [] blanks
  | last {key : String} {t : Tree} {ks cs : List Char} (hkey : KeyText key ks)
      (h : PaddedText t cs) : MembersText [(key, t)] (ks ++ ':' :: cs)
  | more {key : String} {t : Tree} {next : String × Tree} {rest : List (String × Tree)}
      {ks cs ds : List Char} (hkey : KeyText key ks) (h : PaddedText t cs)
      (hrest : MembersText (next :: rest) ds) :
      MembersText ((key, t) :: next :: rest) (ks ++ ':' :: (cs ++ ',' :: ds))

end

/-! ## A text spells its tree -/

theorem KeyText.spells {key : String} {cs : List Char} (h : KeyText key cs) :
    Spells cs [.string (some key)] := by
  obtain ⟨hbefore, htext, hbehind⟩ := h
  exact htext.spells.padded hbefore hbehind

mutual

theorem TreeText.spells : ∀ {t : Tree} {cs : List Char}, TreeText t cs → Spells cs t.tokens
  | _, _, .null => spells_null
  | _, _, .boolean b => spells_bool b
  | _, _, .number h => h.spells
  | _, _, .string h => h.spells
  | _, _, .array h =>
    (h.spells.append_punctuation rfl spells_nil).cons_punctuation rfl
  | _, _, .object h =>
    (h.spells.append_punctuation rfl spells_nil).cons_punctuation rfl

theorem PaddedText.spells : ∀ {t : Tree} {cs : List Char}, PaddedText t cs → Spells cs t.tokens
  | _, _, .mk hbefore h hbehind => h.spells.padded hbefore hbehind

theorem ItemsText.spells : ∀ {items : List Tree} {cs : List Char}, ItemsText items cs →
    Spells cs (separated (itemTokens items))
  | _, _, .none h => spells_blanks h
  | _, _, .last h => h.spells
  | _, _, .more h hrest => h.spells.append_punctuation rfl hrest.spells

theorem MembersText.spells : ∀ {members : List (String × Tree)} {cs : List Char},
    MembersText members cs → Spells cs (separated (memberTokens members))
  | _, _, .none h => spells_blanks h
  | _, _, .last hkey h => hkey.spells.append_punctuation rfl h.spells
  | _, _, .more hkey h hrest =>
    hkey.spells.append_punctuation rfl (h.spells.append_punctuation rfl hrest.spells)

end

/-- **A text of a tree holds the document of the tree**, and nothing behind it. -/
theorem PaddedText.contents {t : Tree} {cs : List Char} (h : PaddedText t cs) :
    Contents.ofChars cs = ⟨t.document, false⟩ :=
  Contents.ofChars_of_tokens h.spells.tokens_eq

/-! ## Texts without blanks -/

theorem KeyText.ofStringText {key : String} {cs : List Char} (h : StringText key cs) :
    KeyText key cs := by
  have hpadded := KeyText.mk blanks_nil h blanks_nil
  rwa [List.nil_append, List.append_nil] at hpadded

theorem TreeText.padded {t : Tree} {cs : List Char} (h : TreeText t cs) : PaddedText t cs := by
  have hpadded := PaddedText.mk blanks_nil h blanks_nil
  rwa [List.nil_append, List.append_nil] at hpadded

end Json

end ScopedVars
