import ScopedVars.Project

/-!
# `Place` — where layouts and containers stand

Two containers with the same variables are still two scopes, so the questions "is this layout one of
the project's?" and "is this container part of the chain?" are about *which* object is meant. An
object is known by the place where it stands, and two references mean one object exactly when they
lead to one place. What stands there, and what it is called, has no say in it.
-/

set_option autoImplicit false

namespace ScopedVars

/-- The place of a layout: a slot of its own, or a position in the list of a project. -/
inductive LayoutPlace where
  | loose (slot : String)
  | inProject (project : String) (index : Nat)
deriving DecidableEq

/-- The place of a container: a slot of its own, or inside the layout or project that owns it. -/
inductive ContainerPlace where
  | loose (slot : String)
  | ofLayout (layout : LayoutPlace)
  | ofProject (project : String)
deriving DecidableEq

/-- An object and the place where it stands. -/
structure Placed (π α : Type) where
  place : π
  object : α

namespace Placed

/-- The place of a layout's own variables, and the variables. -/
def locals (l : Placed LayoutPlace Layout) : Placed ContainerPlace Container :=
  ⟨.ofLayout l.place, l.object.locals⟩

/-- The place of a project's global variables, and the variables. A project is known by its slot. -/
def globals (p : Placed String Project) : Placed ContainerPlace Container :=
  ⟨.ofProject p.place, p.object.globals⟩

/-- The layout at a position of a project's list. -/
def layoutAt? (p : Placed String Project) (index : Nat) : Option (Placed LayoutPlace Layout) :=
  p.object.layouts[index]?.map (⟨.inProject p.place index, ·⟩)

/-- The first layout of a name in a project's list. -/
def layoutNamed? (p : Placed String Project) (name : String) :
    Option (Placed LayoutPlace Layout) :=
  (p.object.layoutIndex? name).bind p.layoutAt?

/-- Whether one of the project's layouts stands at this place. -/
def contains (p : Placed String Project) (place : LayoutPlace) : Bool :=
  (List.range p.object.layouts.length).any fun i => place == .inProject p.place i

end Placed

end ScopedVars
