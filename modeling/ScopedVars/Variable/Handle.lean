import ScopedVars.Variable

/-!
# `Variable/Handle` — what a lenient lookup hands out

A lookup that must not fail answers a name it cannot find with one shared *bad* variable, which
reads as the number 0. A stored variable may hold 0 too, so the two are told apart by what they are
and not by what they hold: a handle is the bad variable itself, or a variable that stands somewhere.
-/

set_option autoImplicit false

namespace ScopedVars

/-- The bad variable, or any other. -/
inductive Handle where
  | bad
  | stored (v : Variable)

namespace Handle

/-- What the handle shows: the bad variable holds the number 0. -/
def shown : Handle → Variable
  | bad => .number .zero
  | stored v => v

/-- Whether this is the bad variable itself. No equal variable is. -/
def isBad : Handle → Bool
  | bad => true
  | stored _ => false

/-- A copy holds the same and is a variable of its own, never the bad one. -/
def copy (h : Handle) : Handle :=
  stored h.shown

/-- The variable at the end of a path. Only the empty path stays where it is: a child is a variable
of its own. -/
def walk? (h : Handle) : List Step → Option Handle
  | [] => some h
  | path@(_ :: _) => (h.shown.walk? path).map stored

end Handle

end ScopedVars
