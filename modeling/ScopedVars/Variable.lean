import ScopedVars.Bindings
import ScopedVars.Double

/-!
# `Variable` — values that a game keeps by name

A variable holds a number, a string, a boolean, a record of named children or an array of elements,
nested as deep as one likes. Children keep their declaration order, but it is no part of what a
record *is*: two records are equal when they have the same children by name.

Texts call a record a structure.
-/

set_option autoImplicit false

namespace ScopedVars

/-- A variable. -/
inductive Variable where
  | number (value : Double)
  | string (value : String)
  | boolean (value : Bool)
  | record (children : List (String × Variable))
  | array (elements : List Variable)

/-- What a variable holds. -/
inductive Kind where
  | number
  | string
  | boolean
  | record
  | array
deriving DecidableEq

/-- All kinds, in their order. -/
def Kind.all : List Kind :=
  [.number, .string, .boolean, .record, .array]

namespace Variable

/-- The record that a list of named children makes; of children with one name, the first place
and the last value. -/
def ofChildren (children : List (String × Variable)) : Variable :=
  .record (Bindings.ofList children)

/-- A new variable is the number 0. -/
instance : Inhabited Variable :=
  ⟨.number .zero⟩

/-! ## Reading a variable -/

def kind : Variable → Kind
  | number _ => .number
  | string _ => .string
  | boolean _ => .boolean
  | record _ => .record
  | array _ => .array

def asNumber : Variable → Option Double
  | number x => some x
  | _ => none

def asString : Variable → Option String
  | string s => some s
  | _ => none

def asBool : Variable → Option Bool
  | boolean b => some b
  | _ => none

/-- The child of a record; nothing else has children by name. -/
def child (v : Variable) (name : String) : Option Variable :=
  match v with
  | record children => Bindings.get? children name
  | _ => none

def hasChild (v : Variable) (name : String) : Bool :=
  (v.child name).isSome

/-- The element of an array; nothing else has elements. -/
def at? (v : Variable) (index : Nat) : Option Variable :=
  match v with
  | array elements => elements[index]?
  | _ => none

/-- How many children or elements a variable has: none, if it is no record or array. -/
def childrenCount : Variable → Nat
  | record children => children.length
  | array elements => elements.length
  | _ => 0

end Variable

/-! ## Paths -/

/-- One step down: to a child of a record, or to an element of an array. -/
inductive Step where
  | child (name : String)
  | element (index : Nat)
deriving DecidableEq

namespace Variable

def step? (v : Variable) : Step → Option Variable
  | .child name => v.child name
  | .element index => v.at? index

/-- The variable at the end of a path, if every step leads somewhere. -/
def walk? (v : Variable) : List Step → Option Variable
  | [] => some v
  | s :: path => (v.step? s).bind (·.walk? path)

/-! ## Equality -/

mutual

/-- Whether two variables hold the same: the same kind and, with numbers equal as numbers are, the
same content. Records are equal when they have equally many children and every child of the one
equals the child of the same name of the other. A variable that holds a NaN somewhere does not equal
itself. -/
def equal : Variable → Variable → Bool
  | number x, number y => x.equal y
  | string s, string t => s == t
  | boolean a, boolean b => a == b
  | record c, record d => c.length == d.length && childrenEqual c d
  | array e, array f => elementsEqual e f
  | _, _ => false

/-- Whether each child equals the child of the same name in `others`. -/
def childrenEqual : List (String × Variable) → List (String × Variable) → Bool
  | [], _ => true
  | (name, v) :: rest, others =>
    (match Bindings.get? others name with
      | some w => v.equal w
      | none => false) && childrenEqual rest others

/-- Whether the elements are equal one by one. -/
def elementsEqual : List Variable → List Variable → Bool
  | [], [] => true
  | v :: vs, w :: ws => v.equal w && elementsEqual vs ws
  | _, _ => false

end

end Variable

end ScopedVars
