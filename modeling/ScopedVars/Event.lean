import ScopedVars.Text.Pieces

/-!
# `Event` — what a scope chain reports about itself

Chains report how they were built and how names resolved. An operation that may report answers a
`Logged` value: its answer, and the events it caused in order. Reports never change an answer.
-/

set_option autoImplicit false

namespace ScopedVars

/-- How much an event matters. -/
inductive Level where
  | warn
  | debug
  | trace
deriving DecidableEq

def Level.label : Level → String
  | warn => "WARN"
  | debug => "DEBUG"
  | trace => "TRACE"

inductive Event where
  /-- A chain was asked for with a layout that the project does not own. -/
  | foreignLayout (layout project : String)
  /-- A chain was built. -/
  | builtChain (project layout : String) (containers : Nat)
  /-- A name was found in the container at this depth, 0 being the most local. -/
  | resolved (name : String) (depth : Nat)
  /-- A name was found in no container, and the bad variable stands in for it. -/
  | unresolved (name : String) (containers : Nat)
deriving DecidableEq

namespace Event

def level : Event → Level
  | foreignLayout .. => .debug
  | builtChain .. => .debug
  | resolved .. => .trace
  | unresolved .. => .warn

def message : Event → String
  | foreignLayout layout project =>
    "[SCOPE] layout '" ++ layout ++ "' is not part of project '" ++ project ++ "'"
  | builtChain project layout containers =>
    "[SCOPE] built chain for project '" ++ project ++ "' / layout '" ++ layout ++ "' ("
      ++ String.ofList (Text.count containers) ++ " containers)"
  | resolved name depth =>
    "[SCOPE] resolved '" ++ name ++ "' at depth " ++ String.ofList (Text.count depth)
  | unresolved name containers =>
    "[SCOPE] '" ++ name ++ "' not found in any of " ++ String.ofList (Text.count containers)
      ++ " containers, using bad variable"

/-- The event as one line of a log. -/
def line (e : Event) : String :=
  e.level.label ++ " " ++ e.message

end Event

/-- An answer and the events that finding it caused. -/
structure Logged (α : Type) where
  answer : α
  events : List Event

/-- Another answer after the same events. -/
def Logged.map {α β : Type} (f : α → β) (l : Logged α) : Logged β :=
  ⟨f l.answer, l.events⟩

end ScopedVars
