import ScopedVars.Bindings.Lemmas
import ScopedVars.Container

/-!
# `Container/Lemmas` — what a container says of a name

A container answers in three ways whether it has a name: yes or no, with a value or none, and with
its list of names. These are the bridges between them, and what the edits of one name do to the
value of any other.
-/

set_option autoImplicit false

namespace ScopedVars

namespace Container

variable {c : Container} {name : String}

theorem has_iff (c : Container) (name : String) : c.has name = true ↔ name ∈ c.names :=
  Bindings.has_iff c.entries name

theorem exists_get? (h : c.has name = true) : ∃ v, c.get? name = some v :=
  Option.isSome_iff_exists.mp h

theorem has_eq_false_iff : c.has name = false ↔ c.get? name = none := by
  unfold has get? Bindings.has
  exact Option.isSome_eq_false_iff.trans Option.isNone_iff_eq_none

theorem has_eq_false_iff_not_mem : c.has name = false ↔ name ∉ c.names := by
  rw [← has_iff, Bool.not_eq_true]

theorem exists_entry (h : c.has name = true) :
    ∃ i v, c.position? name = some i ∧ c.get? name = some v := by
  obtain ⟨v, hv⟩ := exists_get? h
  have hi : (Bindings.position? c.entries name).isSome = true := by
    rw [Bindings.isSome_position?]
    exact h
  obtain ⟨i, hi⟩ := Option.isSome_iff_exists.mp hi
  exact ⟨i, v, hi, hv⟩

theorem get?_adding (c : Container) (name : String) (v : Variable) (other : String) :
    (c.adding name v).get? other = if name = other then some v else c.get? other :=
  Bindings.get?_insert c.entries name v other

theorem get?_remove (hc : c.names.Nodup) (name other : String) :
    (c.remove name).2.get? other = if name = other then none else c.get? other :=
  Bindings.get?_erase hc name other

end Container

end ScopedVars
