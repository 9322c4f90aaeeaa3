import ScopedVars.Variable

/-!
# `Variable/DecEq` — sameness of variables is decidable

Two variables are the same (`=`) when they are written the same way: bit for bit, and children in
the same order. That is a finer question than whether they are equal (`Variable.equal`), and it has
an answer for NaNs too.
-/

set_option autoImplicit false

namespace ScopedVars

namespace Variable

mutual

/-- Whether two variables are the same. -/
def same : Variable → Variable → Bool
  | number x, number y => x == y
  | string s, string t => s == t
  | boolean a, boolean b => a == b
  | record c, record d => sameChildren c d
  | array e, array f => sameElements e f
  | _, _ => false

/-- Whether two lists of children are the same. -/
def sameChildren : List (String × Variable) → List (String × Variable) → Bool
  | [], [] => true
  | (m, v) :: vs, (n, w) :: ws => m == n && same v w && sameChildren vs ws
  | _, _ => false

/-- Whether two lists of elements are the same. -/
def sameElements : List Variable → List Variable → Bool
  | [], [] => true
  | v :: vs, w :: ws => same v w && sameElements vs ws
  | _, _ => false

end

mutual

theorem same_iff : ∀ v w : Variable, same v w = true ↔ v = w
  | number x, w => by cases w <;> simp [same]
  | string s, w => by cases w <;> simp [same]
  | boolean b, w => by cases w <;> simp [same]
  | record c, w => by cases w <;> simp [same, sameChildren_iff]
  | array e, w => by cases w <;> simp [same, sameElements_iff]

theorem sameChildren_iff :
    ∀ c d : List (String × Variable), sameChildren c d = true ↔ c = d
  | [], d => by cases d <;> simp [sameChildren]
  | (m, v) :: vs, d => by
    cases d with
    | nil => simp [sameChildren]
    | cons head ws =>
      obtain ⟨n, w⟩ := head
      simp [sameChildren, same_iff v w, sameChildren_iff vs ws]

theorem sameElements_iff : ∀ e f : List Variable, sameElements e f = true ↔ e = f
  | [], f => by cases f <;> simp [sameElements]
  | v :: vs, f => by
    cases f with
    | nil => simp [sameElements]
    | cons w ws => simp [sameElements, same_iff v w, sameElements_iff vs ws]

end

instance : DecidableEq Variable := fun v w =>
  decidable_of_iff (same v w = true) (same_iff v w)

end Variable

end ScopedVars
