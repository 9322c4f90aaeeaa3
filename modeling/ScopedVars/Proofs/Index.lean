import ScopedVars.Proofs.Names

/-!
# `Proofs/Index` — names, positions and values say the same

A container answers by name, by position and in order, and so does a record. Each of these answers
is a search of its own through one list, for the *first* entry of a name; that they fit together is
the same as that no name comes twice, and here the one is drawn from the other.

The containers of a program are one thing and the records in its variables another, which may stand
as deep as one likes. `Inside` says what stands in a variable, and `Variable.NamesUnique.indexed` is
the statement for all of it: whatever a path through records and arrays leads to.
-/

set_option autoImplicit false

namespace ScopedVars

/-! ## What fits together -/

/-- The answers of a container fit together. -/
structure Container.Indexed (c : Container) : Prop where
  unique : c.names.Nodup
  /-- A name has a position exactly where it stands among the names. -/
  position : ∀ name i, c.position? name = some i ↔ c.names[i]? = some name
  /-- A name that has a position has the value that stands there. -/
  get : ∀ name i, c.position? name = some i →
    ∃ v, c.toList[i]? = some (name, v) ∧ c.get? name = some v
  missing : ∀ name, c.position? name = none → c.get? name = none
  has : ∀ name, c.has name = true ↔ name ∈ c.names
  size : c.size = c.names.length
  isEmpty : c.isEmpty = true ↔ c.size = 0

/-- The answers of a record with these children fit together. -/
structure Variable.RecordIndexed (children : List (String × Variable)) : Prop where
  unique : (Bindings.names children).Nodup
  position : ∀ name i,
    Bindings.position? children name = some i ↔ (Bindings.names children)[i]? = some name
  child : ∀ name i, Bindings.position? children name = some i →
    ∃ v, children[i]? = some (name, v) ∧ (Variable.record children).child name = some v
  missing : ∀ name, Bindings.position? children name = none →
    (Variable.record children).child name = none
  hasChild : ∀ name, (Variable.record children).hasChild name = true ↔
    name ∈ Bindings.names children
  childrenCount : (Variable.record children).childrenCount = (Bindings.names children).length

namespace Bindings

variable {α : Type} {b : Bindings α}

theorem exists_get?_of_position? (h : Unique b) {name : String} {i : Nat}
    (hi : position? b name = some i) : ∃ v, b[i]? = some (name, v) ∧ get? b name = some v := by
  obtain ⟨v, hv⟩ := getElem?_of_position? hi
  exact ⟨v, hv, (get?_eq_some_iff h).mpr (List.mem_of_getElem? hv)⟩

theorem get?_eq_none_of_position? {name : String} (h : position? b name = none) :
    get? b name = none := by
  rw [← Option.isNone_iff_eq_none, ← Option.isSome_eq_false_iff, ← isSome_position?, h]
  rfl

end Bindings

theorem Container.indexed {c : Container} (h : Bindings.Unique c.entries) : c.Indexed where
  unique := h
  position _ _ := Bindings.position?_eq_some_iff h
  get _ _ := Bindings.exists_get?_of_position? h
  missing _ := Bindings.get?_eq_none_of_position?
  has := Bindings.has_iff c.entries
  size := (List.length_map _).symm
  isEmpty := List.isEmpty_iff.trans List.length_eq_zero_iff.symm

theorem Variable.recordIndexed {children : List (String × Variable)}
    (h : Bindings.Unique children) : RecordIndexed children where
  unique := h
  position _ _ := Bindings.position?_eq_some_iff h
  child _ _ := Bindings.exists_get?_of_position? h
  missing _ := Bindings.get?_eq_none_of_position?
  hasChild := Bindings.has_iff children
  childrenCount := (List.length_map _).symm

/-! ## What stands in a variable -/

namespace Variable

/-- The first variable is the second or stands in it, at any depth. -/
inductive Inside (w : Variable) : Variable → Prop where
  | self : Inside w w
  | child {children : List (String × Variable)} {m : String × Variable} (hm : m ∈ children)
      (h : Inside w m.2) : Inside w (.record children)
  | element {elements : List Variable} {v : Variable} (hv : v ∈ elements) (h : Inside w v) :
      Inside w (.array elements)

theorem NamesUnique.inside {v w : Variable} (hv : v.NamesUnique) (h : Inside w v) :
    w.NamesUnique := by
  induction h with
  | self => exact hv
  | child hm _ ih =>
    rw [NamesUnique] at hv
    exact ih (childrenNamesUnique_iff.mp hv.2 _ hm)
  | element hv' _ ih =>
    rw [NamesUnique] at hv
    exact ih (elementsNamesUnique_iff.mp hv _ hv')

/-- **Every record in the variable is indexed**, at any depth. -/
theorem NamesUnique.indexed {v : Variable} (hv : v.NamesUnique)
    {children : List (String × Variable)} (h : Inside (.record children) v) :
    RecordIndexed children := by
  have hrecord := hv.inside h
  rw [NamesUnique] at hrecord
  exact recordIndexed hrecord.1

end Variable

end ScopedVars
