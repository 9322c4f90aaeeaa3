import ScopedVars.Event
import ScopedVars.Place
import ScopedVars.Variable.Handle

/-!
# `Chain` — resolving a name through nested scopes

A chain is a list of containers, the most local first, and a name means the variable of the first
container that defines it. All lookups are one search; they differ in what they make of a name that
nothing defines, and the search reports a hit to the log whichever of them asked.

Chains are built for a layout of a project (the layout's variables, then the project's), or empty.
A chain keeps the place of each container, so it can say which containers are part of it.
-/

set_option autoImplicit false

namespace ScopedVars

/-- Containers in lookup order. -/
structure Chain where
  scopes : List (Placed ContainerPlace Container)

namespace Chain

/-! ## Building chains -/

/-- The chain in which nothing is visible. -/
def empty : Chain :=
  ⟨[]⟩

def size (c : Chain) : Nat :=
  c.scopes.length

def isEmpty (c : Chain) : Bool :=
  c.scopes.isEmpty

/-- The chain of a layout and a project. The layout is expected to be one of the project's; one that
is not is reported, and used all the same. -/
def forLayout (p : Placed String Project) (l : Placed LayoutPlace Layout) : Logged Chain :=
  let chain : Chain := ⟨[l.locals, p.globals]⟩
  let foreign :=
    if p.contains l.place then [] else [.foreignLayout l.object.name p.object.name]
  ⟨chain, foreign ++ [.builtChain p.object.name l.object.name chain.size]⟩

/-- The chain of a project and the first of its layouts that has this name. -/
def forLayoutNamed (p : Placed String Project) (name : String) :
    Except Refusal (Logged Chain) :=
  match p.layoutNamed? name with
  | some l => .ok (forLayout p l)
  | none => .error (.unknownLayout name)

/-! ## Resolution -/

/-- Where a name was found: how deep in the chain, in which container, and what it means there. -/
structure Hit where
  depth : Nat
  scope : Placed ContainerPlace Container
  value : Variable

/-- The first of the scopes that defines a name; `depth` is the depth of the first of them. -/
def search (name : String) : Nat → List (Placed ContainerPlace Container) → Option Hit
  | _, [] => none
  | depth, scope :: rest =>
    match scope.object.get? name with
    | some v => some ⟨depth, scope, v⟩
    | none => search name (depth + 1) rest

/-- The first container that defines a name, with the variable. A hit is reported. -/
def findWithScope (c : Chain) (name : String) : Logged (Option Hit) :=
  match search name 0 c.scopes with
  | some hit => ⟨some hit, [.resolved name hit.depth]⟩
  | none => ⟨none, []⟩

/-- The variable that a name means. -/
def find (c : Chain) (name : String) : Logged (Option Variable) :=
  (c.findWithScope name).map (·.map (·.value))

/-- The variable that a name means; it is an error if there is none. -/
def lookup (c : Chain) (name : String) : Logged (Except Refusal Variable) :=
  (c.find name).map fun
    | some v => .ok v
    | none => .error (.variableNotFound name)

/-- The variable that a name means. For a name that nothing defines this is the bad variable, and
the log says so. -/
def get (c : Chain) (name : String) : Logged Handle :=
  let found := c.find name
  match found.answer with
  | some v => ⟨.stored v, found.events⟩
  | none => ⟨.bad, found.events ++ [.unresolved name c.size]⟩

/-- Whether some container defines a name. -/
def has (c : Chain) (name : String) : Bool :=
  c.scopes.any (·.object.has name)

/-! ## The scopes themselves -/

/-- Whether the container at this place is part of the chain. -/
def hasContainer (c : Chain) (place : ContainerPlace) : Bool :=
  c.scopes.any (·.place == place)

def containers (c : Chain) : List Container :=
  c.scopes.map (·.object)

/-- Every name that means something in the chain, once each, the names of the most local scope
first. -/
def visibleNames (c : Chain) : List String :=
  (c.scopes.flatMap (·.object.names)).eraseDups

/-! ## Debugging text -/

/-- The characters of `Chain.debug`. -/
def debugChars (c : Chain) : List Char :=
  "ScopeChain \x7b containers: [".toList
    ++ Text.spaced (c.containers.map Container.debugChars) ++ "] \x7d".toList

/-- The text that shows all of a chain. -/
def debug (c : Chain) : String :=
  String.ofList c.debugChars

end Chain

end ScopedVars
