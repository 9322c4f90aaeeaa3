import ScopedVars.Refusal
import ScopedVars.Variable
import ScopedVars.Variable.Debug
import ScopedVars.Variable.DecEq

/-!
# `Container` — one level of scope

A container holds the variables of a project or of a layout, in the order in which they were
declared. Its edits answer what they replaced or removed, so that they can be undone.

Which container a variable comes from is a question about places (`Place`), not about contents: two
containers that hold the same are still two.
-/

set_option autoImplicit false

namespace ScopedVars

/-- Variables by name, in declaration order. -/
structure Container where
  entries : List (String × Variable)
deriving DecidableEq

namespace Container

/-! ## Making containers -/

def empty : Container :=
  ⟨[]⟩

instance : Inhabited Container :=
  ⟨empty⟩

/-- The container of a list of named variables; of two with one name, the first place and the last
value. -/
def ofList (pairs : List (String × Variable)) : Container :=
  ⟨Bindings.ofList pairs⟩

/-! ## Looking things up -/

/-- Names and variables, in declaration order. -/
def toList (c : Container) : List (String × Variable) :=
  c.entries

def names (c : Container) : List String :=
  Bindings.names c.entries

def get? (c : Container) (name : String) : Option Variable :=
  Bindings.get? c.entries name

def has (c : Container) (name : String) : Bool :=
  Bindings.has c.entries name

def position? (c : Container) (name : String) : Option Nat :=
  Bindings.position? c.entries name

def size (c : Container) : Nat :=
  c.entries.length

def isEmpty (c : Container) : Bool :=
  c.entries.isEmpty

/-! ## Edits -/

/-- The container with one more variable, or with a new value for a name it has. -/
def adding (c : Container) (name : String) (v : Variable) : Container :=
  ⟨Bindings.insert c.entries name v⟩

/-- Gives a name a value and answers its former value. A name that was there keeps its place. -/
def insert (c : Container) (name : String) (v : Variable) : Option Variable × Container :=
  (c.get? name, c.adding name v)

/-- Gives a name that is there a new value and answers it; does nothing for any other name. -/
def set (c : Container) (name : String) (v : Variable) : Option Variable × Container :=
  if c.has name then (some v, c.adding name v) else (none, c)

/-- Drops a name and answers its value. The others keep their order. -/
def remove (c : Container) (name : String) : Option Variable × Container :=
  (c.get? name, ⟨Bindings.erase c.entries name⟩)

/-- Gives a variable another name, in its place. A name renamed to itself only has to be there;
otherwise the new name must be free, and that is looked at first. -/
def rename (c : Container) (old new : String) : Except Refusal Container :=
  if new = old then
    if c.has old then .ok c else .error (.variableNotFound old)
  else if c.has new then .error (.nameTaken new)
  else if c.has old then .ok ⟨Bindings.rename c.entries old new⟩
  else .error (.variableNotFound old)

/-- Drops everything. -/
def clear (_ : Container) : Container :=
  empty

/-! ## Debugging text -/

/-- The characters of `Container.debug`. -/
def debugChars (c : Container) : List Char :=
  "VariablesContainer \x7b variables: \x7b".toList
    ++ Text.spaced (Variable.debugChildren c.entries) ++ "\x7d \x7d".toList

/-- The text that shows all of a container. -/
def debug (c : Container) : String :=
  String.ofList c.debugChars

end Container

end ScopedVars
