import ScopedVars.Proofs.Json.Grammar
import ScopedVars.Proofs.Json.WrittenNumber

/-!
# `Proofs/Json/Written` — the tree that is written for a value

The writer makes characters, and no tree. Here is the tree that its characters are a text of: one
equation for each thing that is written, and one lemma beside it. From here on nothing is said of
escapes, digits, commas and colons any more.

The tree of a number that is not finite is null, as its text is.
-/

set_option autoImplicit false

namespace ScopedVars

namespace Json

/-! ## The trees -/

def numberTree (x : Double) : Tree :=
  if x.isFinite then .number (Numeral.written x) else .null

def typedTree (kind : Kind) (value : Tree) : Tree :=
  .object [(Field.type.key, .string (kindWord kind)), (Field.value.key, value)]

mutual

/-- The tree of a variable. -/
def variableTree : Variable → Tree
  | .number x => typedTree .number (numberTree x)
  | .string s => typedTree .string (.string s)
  | .boolean b => typedTree .boolean (.boolean b)
  | .record children => typedTree .record (.object (childTrees children))
  | .array elements => typedTree .array (.array (elementTrees elements))

def childTrees : List (String × Variable) → List (String × Tree)
  | [] => []
  | (name, v) :: rest => (name, variableTree v) :: childTrees rest

def elementTrees : List Variable → List Tree
  | [] => []
  | v :: rest => variableTree v :: elementTrees rest

end

def containerTree (c : Container) : Tree :=
  .object (childTrees c.entries)

def layoutTree (l : Layout) : Tree :=
  .object [(Field.name.key, .string l.name), (Field.vars.key, containerTree l.locals)]

def projectTree (p : Project) : Tree :=
  .object [(Field.name.key, .string p.name), (Field.vars.key, containerTree p.globals),
    (Field.layouts.key, .array (p.layouts.map layoutTree))]

/-! ## What is written is a text of its tree -/

theorem treeText_number (x : Double) : TreeText (numberTree x) (numberChars x) := by
  unfold numberTree
  by_cases hx : x.isFinite = true
  · rw [if_pos hx]
    exact .number (numberText_numberChars hx)
  · unfold numberChars
    rw [if_neg hx, if_neg hx]
    exact .null

theorem treeText_string (s : String) : TreeText (.string s) (stringChars s) :=
  .string (stringText_stringChars s)

theorem membersText_last (key : String) {value : List Char} {t : Tree} (h : TreeText t value) :
    MembersText [(key, t)] (entry key value) :=
  .last (.ofStringText (stringText_stringChars key)) h.padded

theorem membersText_more (key : String) {value more : List Char} {t : Tree}
    {next : String × Tree} {rest : List (String × Tree)} (h : TreeText t value)
    (hrest : MembersText (next :: rest) more) :
    MembersText ((key, t) :: next :: rest) (entry key value ++ ',' :: more) := by
  unfold entry
  rw [List.append_assoc, List.cons_append]
  exact .more (.ofStringText (stringText_stringChars key)) h.padded hrest

theorem treeText_typed (kind : Kind) {value : List Char} {t : Tree} (h : TreeText t value) :
    TreeText (typedTree kind t) (typed kind value) :=
  .object (membersText_more _ (treeText_string _) (membersText_last _ h))

mutual

theorem treeText_variable : ∀ v : Variable, TreeText (variableTree v) (variableChars v)
  | .number x => by
    rw [variableChars, variableTree]
    exact treeText_typed .number (treeText_number x)
  | .string s => by
    rw [variableChars, variableTree]
    exact treeText_typed .string (treeText_string s)
  | .boolean b => by
    rw [variableChars, variableTree]
    exact treeText_typed .boolean (.boolean b)
  | .record children => by
    rw [variableChars, variableTree]
    exact treeText_typed .record (.object (membersText_children children))
  | .array elements => by
    rw [variableChars, variableTree]
    exact treeText_typed .array (.array (itemsText_elements elements))

theorem membersText_children : ∀ children : List (String × Variable),
    MembersText (childTrees children) (Text.compact (childEntries children))
  | [] => by
    rw [childEntries, childTrees]
    exact .none blanks_nil
  | [(name, v)] => by
    rw [childEntries, childEntries, childTrees, childTrees]
    exact membersText_last name (treeText_variable v)
  | (name, v) :: next :: rest => by
    have hrest := membersText_children (next :: rest)
    rw [childEntries, childTrees]
    rw [childEntries, childTrees] at hrest
    exact membersText_more name (treeText_variable v) hrest

theorem itemsText_elements : ∀ elements : List Variable,
    ItemsText (elementTrees elements) (Text.compact (elementItems elements))
  | [] => by
    rw [elementItems, elementTrees]
    exact .none blanks_nil
  | [v] => by
    rw [elementItems, elementItems, elementTrees, elementTrees]
    exact .last (treeText_variable v).padded
  | v :: w :: rest => by
    have hrest := itemsText_elements (w :: rest)
    rw [elementItems, elementTrees]
    rw [elementItems, elementTrees] at hrest
    exact .more (treeText_variable v).padded hrest

end

theorem treeText_container (c : Container) : TreeText (containerTree c) (containerChars c) :=
  .object (membersText_children c.entries)

theorem treeText_layout (l : Layout) : TreeText (layoutTree l) (layoutChars l) :=
  .object (membersText_more _ (treeText_string l.name)
    (membersText_last _ (treeText_container l.locals)))

theorem itemsText_layouts : ∀ ls : List Layout,
    ItemsText (ls.map layoutTree) (Text.compact (ls.map layoutChars))
  | [] => .none blanks_nil
  | [l] => .last (treeText_layout l).padded
  | l :: m :: rest => .more (treeText_layout l).padded (itemsText_layouts (m :: rest))

theorem treeText_project (p : Project) : TreeText (projectTree p) (projectChars p) :=
  .object (membersText_more _ (treeText_string p.name)
    (membersText_more _ (treeText_container p.globals)
      (membersText_last _ (.array (itemsText_layouts p.layouts)))))

end Json

end ScopedVars
