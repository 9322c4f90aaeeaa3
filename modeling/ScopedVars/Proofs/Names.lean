import ScopedVars.Bindings.Lemmas
import ScopedVars.Project
import ScopedVars.Proofs.Container.Timeline

/-!
# `Proofs/Names` — one name, one variable, at every depth

Containers and records are lists here, and a list may hold a name twice. None that a program makes
does: every way to make or edit one goes through the operations of `Bindings`. `NamesUnique` says so
of everything inside a value, however deep, and is what a statement about *all* values of a program
has to assume.

The second half is the reason why it may: edits keep it.
-/

set_option autoImplicit false

namespace ScopedVars

mutual

/-- No record in the variable has two children of one name. -/
def Variable.NamesUnique : Variable → Prop
  | .number _ | .string _ | .boolean _ => True
  | .record children => Bindings.Unique children ∧ childrenNamesUnique children
  | .array elements => elementsNamesUnique elements

def childrenNamesUnique : List (String × Variable) → Prop
  | [] => True
  | (_, v) :: rest => v.NamesUnique ∧ childrenNamesUnique rest

def elementsNamesUnique : List Variable → Prop
  | [] => True
  | v :: rest => v.NamesUnique ∧ elementsNamesUnique rest

end

mutual

/-- What holds of a record when it holds of its children, and of an array when it holds of its
elements, holds of every variable. -/
theorem Variable.induction {P : Variable → Prop} (number : ∀ x, P (.number x))
    (string : ∀ s, P (.string s)) (boolean : ∀ b, P (.boolean b))
    (record : ∀ children, (∀ m ∈ children, P m.2) → P (.record children))
    (array : ∀ elements, (∀ v ∈ elements, P v) → P (.array elements)) : ∀ v, P v
  | .number x => number x
  | .string s => string s
  | .boolean b => boolean b
  | .record children =>
    record children (inductionChildren number string boolean record array children)
  | .array elements =>
    array elements (inductionElements number string boolean record array elements)

theorem Variable.inductionChildren {P : Variable → Prop} (number : ∀ x, P (.number x))
    (string : ∀ s, P (.string s)) (boolean : ∀ b, P (.boolean b))
    (record : ∀ children, (∀ m ∈ children, P m.2) → P (.record children))
    (array : ∀ elements, (∀ v ∈ elements, P v) → P (.array elements)) :
    ∀ children : List (String × Variable), ∀ m ∈ children, P m.2
  | [] => List.forall_mem_nil _
  | (_, v) :: rest =>
    List.forall_mem_cons.mpr ⟨induction number string boolean record array v,
      inductionChildren number string boolean record array rest⟩

theorem Variable.inductionElements {P : Variable → Prop} (number : ∀ x, P (.number x))
    (string : ∀ s, P (.string s)) (boolean : ∀ b, P (.boolean b))
    (record : ∀ children, (∀ m ∈ children, P m.2) → P (.record children))
    (array : ∀ elements, (∀ v ∈ elements, P v) → P (.array elements)) :
    ∀ elements : List Variable, ∀ v ∈ elements, P v
  | [] => List.forall_mem_nil _
  | v :: rest =>
    List.forall_mem_cons.mpr ⟨induction number string boolean record array v,
      inductionElements number string boolean record array rest⟩

end

theorem childrenNamesUnique_iff : ∀ {children : List (String × Variable)},
    childrenNamesUnique children ↔ ∀ m ∈ children, m.2.NamesUnique
  | [] => by
    rw [childrenNamesUnique]
    exact (iff_true_intro (List.forall_mem_nil _)).symm
  | (_, v) :: rest => by
    rw [childrenNamesUnique, @childrenNamesUnique_iff rest, List.forall_mem_cons]

theorem elementsNamesUnique_iff : ∀ {elements : List Variable},
    elementsNamesUnique elements ↔ ∀ v ∈ elements, v.NamesUnique
  | [] => by
    rw [elementsNamesUnique]
    exact (iff_true_intro (List.forall_mem_nil _)).symm
  | v :: rest => by
    rw [elementsNamesUnique, @elementsNamesUnique_iff rest, List.forall_mem_cons]

def Container.NamesUnique (c : Container) : Prop :=
  Bindings.Unique c.entries ∧ childrenNamesUnique c.entries

def Layout.NamesUnique (l : Layout) : Prop :=
  l.locals.NamesUnique

/-- The same of the global variables and of those of every layout. Layouts themselves may share a
name. -/
def Project.NamesUnique (p : Project) : Prop :=
  p.globals.NamesUnique ∧ ∀ l ∈ p.layouts, l.NamesUnique

/-! ## Making values -/

theorem childrenNamesUnique_ofList {pairs : List (String × Variable)}
    (h : ∀ m ∈ pairs, m.2.NamesUnique) : childrenNamesUnique (Bindings.ofList pairs) :=
  childrenNamesUnique_iff.mpr fun m hm => h m (Bindings.mem_ofList hm)

theorem Variable.namesUnique_ofChildren {children : List (String × Variable)}
    (h : ∀ m ∈ children, m.2.NamesUnique) : (Variable.ofChildren children).NamesUnique := by
  unfold Variable.ofChildren
  rw [Variable.NamesUnique]
  exact ⟨Bindings.unique_ofList children, childrenNamesUnique_ofList h⟩

theorem Variable.namesUnique_array {elements : List Variable} (h : ∀ v ∈ elements, v.NamesUnique) :
    (Variable.array elements).NamesUnique := by
  rw [Variable.NamesUnique]
  exact elementsNamesUnique_iff.mpr h

theorem Container.namesUnique_ofList {pairs : List (String × Variable)}
    (h : ∀ m ∈ pairs, m.2.NamesUnique) : (Container.ofList pairs).NamesUnique :=
  ⟨Bindings.unique_ofList pairs, childrenNamesUnique_ofList h⟩

/-! ## Edits keep it -/

theorem childrenNamesUnique_insert {children : List (String × Variable)} {v : Variable}
    (h : childrenNamesUnique children) (hv : v.NamesUnique) (name : String) :
    childrenNamesUnique (Bindings.insert children name v) := by
  refine childrenNamesUnique_iff.mpr fun m hm => ?_
  rcases Bindings.mem_insert hm with rfl | hm
  · exact hv
  · exact childrenNamesUnique_iff.mp h m hm

theorem childrenNamesUnique_erase {children : List (String × Variable)}
    (h : childrenNamesUnique children) (name : String) :
    childrenNamesUnique (Bindings.erase children name) :=
  childrenNamesUnique_iff.mpr fun m hm => childrenNamesUnique_iff.mp h m (Bindings.mem_erase hm)

theorem childrenNamesUnique_rename : ∀ {children : List (String × Variable)},
    childrenNamesUnique children → ∀ old new : String,
      childrenNamesUnique (Bindings.rename children old new)
  | [], _, _, _ => trivial
  | (n, _) :: rest, ⟨hw, hrest⟩, old, new => by
    unfold Bindings.rename
    by_cases hn : n = old
    · rw [if_pos hn]
      exact ⟨hw, hrest⟩
    · rw [if_neg hn]
      exact ⟨hw, childrenNamesUnique_rename hrest old new⟩

namespace Container

theorem namesUnique_empty : empty.NamesUnique :=
  ⟨List.nodup_nil, trivial⟩

theorem NamesUnique.adding {c : Container} (h : c.NamesUnique) (name : String) {v : Variable}
    (hv : v.NamesUnique) : (c.adding name v).NamesUnique :=
  ⟨Bindings.unique_insert h.1 name v, childrenNamesUnique_insert h.2 hv name⟩

theorem NamesUnique.set {c : Container} (h : c.NamesUnique) (name : String) {v : Variable}
    (hv : v.NamesUnique) : (c.set name v).2.NamesUnique := by
  unfold Container.set
  by_cases hname : c.has name = true
  · rw [if_pos hname]
    exact h.adding name hv
  · rw [if_neg hname]
    exact h

theorem NamesUnique.remove {c : Container} (h : c.NamesUnique) (name : String) :
    (c.remove name).2.NamesUnique :=
  ⟨Bindings.unique_erase h.1 name, childrenNamesUnique_erase h.2 name⟩

theorem NamesUnique.rename {c c' : Container} (h : c.NamesUnique) {old new : String}
    (hc : c.rename old new = .ok c') : c'.NamesUnique := by
  unfold Container.rename at hc
  by_cases hsame : new = old
  · rw [if_pos hsame] at hc
    split at hc
    · cases hc
      exact h
    · cases hc
  · rw [if_neg hsame] at hc
    by_cases hnew : c.has new = true
    · rw [if_pos hnew] at hc
      cases hc
    · rw [if_neg hnew] at hc
      -- The new name is free, or the renamed variable would be the second one of it.
      have hfree : new ∉ Bindings.names c.entries := fun hmem =>
        hnew ((Bindings.has_iff c.entries new).mpr hmem)
      split at hc
      · cases hc
        exact ⟨Bindings.unique_rename h.1 old hfree, childrenNamesUnique_rename h.2 old new⟩
      · cases hc

end Container

/-- The value that an edit brings in has unique names. -/
def Edit.NamesUnique : Edit → Prop
  | insert _ v | adding _ v | set _ v => v.NamesUnique
  | remove _ | rename _ _ | clear => True

namespace Container

theorem NamesUnique.step {c : Container} (h : c.NamesUnique) {e : Edit} (he : e.NamesUnique) :
    (c.step e).2.NamesUnique := by
  cases e with
  | insert name v => exact h.adding name he
  | adding name v => exact h.adding name he
  | set name v => exact h.set name he
  | remove name => exact h.remove name
  | rename old new =>
    cases hc : c.rename old new with
    | ok c' =>
      rw [step_rename_ok hc]
      exact h.rename hc
    | error refusal =>
      rw [step_rename_error hc]
      exact h
  | clear => exact namesUnique_empty

end Container

end ScopedVars
