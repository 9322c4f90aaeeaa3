/-!
# `Refusal` — why a strict lookup or an edit failed

Lenient operations never fail. The strict ones fail for one of three reasons, each about one name.
-/

set_option autoImplicit false

namespace ScopedVars

inductive Refusal where
  /-- No visible container defines the variable. -/
  | variableNotFound (name : String)
  /-- The container has a variable of this name already. -/
  | nameTaken (name : String)
  /-- The project has no layout of this name. -/
  | unknownLayout (name : String)
deriving DecidableEq

/-- The text for a reader. -/
def Refusal.message : Refusal → String
  | variableNotFound name => "variable '" ++ name ++ "' not found"
  | nameTaken name => "a variable named '" ++ name ++ "' already exists"
  | unknownLayout name => "unknown layout '" ++ name ++ "'"

end ScopedVars
