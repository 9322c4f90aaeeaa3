import ScopedVars.Proofs.Json.Spelling

/-!
# `Proofs/Json/Tree` — JSON values that are whole

A document may break off in any place. A `Tree` may not: it is a value of JSON and nothing else, so
what is said of all trees needs no word on faults. A tree has its tokens, and it has its document;
`push_tokens` is the fact that holds the two together, for the assembler builds the one out of the
other wherever the value stands. With it a text that spells the tokens of a tree, and is not read
yet, is replaced by the tree once and for all (`Contents.ofChars_of_spells`).
-/

set_option autoImplicit false

namespace ScopedVars

namespace Json

/-- A value of JSON. The members of an object stand in their order, and a name may come again. -/
inductive Tree where
  | null
  | boolean (b : Bool)
  | number (n : Numeral)
  | string (s : String)
  | array (items : List Tree)
  | object (members : List (String × Tree))

/-! ## Tokens and document -/

mutual

/-- The tokens that spell a tree. -/
def Tree.tokens : Tree → List Token
  | .null => [.null]
  | .boolean b => [.boolean b]
  | .number n => [.number n]
  | .string s => [.string (some s)]
  | .array items => .arrayOpen :: (separated (itemTokens items) ++ [.arrayClose])
  | .object members => .objectOpen :: (separated (memberTokens members) ++ [.objectClose])

def itemTokens : List Tree → List (List Token)
  | [] => []
  | t :: rest => t.tokens :: itemTokens rest

def memberTokens : List (String × Tree) → List (List Token)
  | [] => []
  | (key, t) :: rest => (.string (some key) :: .colon :: t.tokens) :: memberTokens rest

end

mutual

/-- The document of a tree, in which every list and map is closed. -/
def Tree.document : Tree → Document
  | .null => .leaf .null
  | .boolean b => .leaf (.boolean b)
  | .number n => .leaf (.number n)
  | .string s => .leaf (.string (some s))
  | .array items => .array (itemDocuments items) .closed
  | .object members => .object (memberDocuments members) .closed

def itemDocuments : List Tree → List Document
  | [] => []
  | t :: rest => t.document :: itemDocuments rest

def memberDocuments : List (String × Tree) → List (Token × Document)
  | [] => []
  | (key, t) :: rest => (.string (some key), t.document) :: memberDocuments rest

end

/-! ## The assembler at work on a tree -/

/-- A tree begins with a token that ends no list, so where the end of a list is also possible the
assembler takes it for a first item. -/
theorem push_firstItem (t : Tree) (outer : List Frame) (more : List Token) :
    (t.tokens ++ more).foldl Assembler.push (.firstItem outer)
      = (t.tokens ++ more).foldl Assembler.push (.value (.item [] :: outer)) := by
  cases t <;> rw [Tree.tokens] <;> rfl

mutual

/-- **The tokens of a tree are assembled to its document**, whatever has begun around it. -/
theorem push_tokens : ∀ (t : Tree) (outer : List Frame),
    t.tokens.foldl Assembler.push (.value outer) = .after t.document outer
  | .null, _ => by rw [Tree.tokens, Tree.document]; rfl
  | .boolean _, _ => by rw [Tree.tokens, Tree.document]; rfl
  | .number _, _ => by rw [Tree.tokens, Tree.document]; rfl
  | .string _, _ => by rw [Tree.tokens, Tree.document]; rfl
  | .array [], _ => by rw [Tree.tokens, Tree.document]; rfl
  | .array (t :: rest), outer => by
    have hfirst : ∃ more, separated (itemTokens (t :: rest)) ++ [Token.arrayClose]
        = t.tokens ++ more := by
      cases rest with
      | nil => exact ⟨_, rfl⟩
      | cons u rest => exact ⟨_, List.append_assoc _ _ _⟩
    obtain ⟨more, hmore⟩ := hfirst
    rw [Tree.tokens, Tree.document, List.foldl_cons]
    show List.foldl Assembler.push (.firstItem outer) _ = _
    rw [hmore, push_firstItem, ← hmore]
    exact push_items (t :: rest) [] outer (List.cons_ne_nil t rest)
  | .object [], _ => by rw [Tree.tokens, Tree.document]; rfl
  | .object ((key, t) :: rest), outer => by
    have hfirst : (separated (memberTokens ((key, t) :: rest)) ++ [Token.objectClose]).foldl
          Assembler.push (.firstKey outer)
        = (separated (memberTokens ((key, t) :: rest)) ++ [Token.objectClose]).foldl
          Assembler.push (.nextKey [] outer) := by
      cases rest <;> rfl
    rw [Tree.tokens, Tree.document, List.foldl_cons]
    show List.foldl Assembler.push (.firstKey outer) _ = _
    rw [hfirst]
    exact push_members ((key, t) :: rest) [] outer (List.cons_ne_nil _ rest)

theorem push_items : ∀ (items : List Tree) (before : List Document) (outer : List Frame),
    items ≠ [] →
      (separated (itemTokens items) ++ [Token.arrayClose]).foldl Assembler.push
          (.value (.item before :: outer))
        = .after (.array (before.reverse ++ itemDocuments items) .closed) outer
  | [], _, _, hne => absurd rfl hne
  | [t], before, outer, _ => by
    show (t.tokens ++ [Token.arrayClose]).foldl Assembler.push _ = _
    rw [List.foldl_append, push_tokens t, itemDocuments, itemDocuments]
    show Assembler.after (.array (t.document :: before).reverse .closed) outer = _
    rw [List.reverse_cons]
  | t :: u :: rest, before, outer, _ => by
    show ((t.tokens ++ Token.comma :: separated (itemTokens (u :: rest)))
      ++ [Token.arrayClose]).foldl Assembler.push _ = _
    rw [List.append_assoc, List.foldl_append, push_tokens t, itemDocuments]
    show (separated (itemTokens (u :: rest)) ++ [Token.arrayClose]).foldl Assembler.push
      (.value (.item (t.document :: before) :: outer)) = _
    rw [push_items (u :: rest) _ _ (List.cons_ne_nil u rest), List.reverse_cons,
      List.append_assoc]
    rfl

theorem push_members : ∀ (members : List (String × Tree)) (before : List (Token × Document))
    (outer : List Frame), members ≠ [] →
      (separated (memberTokens members) ++ [Token.objectClose]).foldl Assembler.push
          (.nextKey before outer)
        = .after (.object (before.reverse ++ memberDocuments members) .closed) outer
  | [], _, _, hne => absurd rfl hne
  | [(key, t)], before, outer, _ => by
    show (t.tokens ++ [Token.objectClose]).foldl Assembler.push
      (.value (.member before (.string (some key)) :: outer)) = _
    rw [List.foldl_append, push_tokens t, memberDocuments, memberDocuments]
    show Assembler.after (.object ((.string (some key), t.document) :: before).reverse .closed)
      outer = _
    rw [List.reverse_cons]
  | (key, t) :: next :: rest, before, outer, _ => by
    show ((t.tokens ++ Token.comma :: separated (memberTokens (next :: rest)))
      ++ [Token.objectClose]).foldl Assembler.push
        (.value (.member before (.string (some key)) :: outer)) = _
    rw [List.append_assoc, List.foldl_append, push_tokens t, memberDocuments]
    show (separated (memberTokens (next :: rest)) ++ [Token.objectClose]).foldl Assembler.push
      (.nextKey ((.string (some key), t.document) :: before) outer) = _
    rw [push_members (next :: rest) _ _ (List.cons_ne_nil next rest), List.reverse_cons,
      List.append_assoc]
    rfl

end

/-- **A text that spells a tree holds the document of the tree**, and nothing behind it. -/
theorem Contents.ofChars_of_tokens {text : List Char} {t : Tree}
    (h : Scanner.between.tokens text = t.tokens ++ [.flaw .ended]) :
    Contents.ofChars text = ⟨t.document, false⟩ := by
  rw [Contents.ofChars_eq, h, List.foldl_append, push_tokens]
  rfl

end Json

end ScopedVars
