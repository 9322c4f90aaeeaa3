import ScopedVars.Place

/-!
# `Workspace` — projects, layouts and containers in named slots

A workspace holds what is being edited: projects, layouts that no project owns, and containers that
neither owns, each kind in named slots of its own. A *reference* says how to get to an object, by
slot, by name or by position; following it gives the object and its place, or nothing.

Edits happen at places. An edit of one object leaves every other place as it was, and putting an
object into a slot that is taken replaces what was there.
-/

set_option autoImplicit false

namespace ScopedVars

/-- A way to get to a layout. -/
inductive LayoutRef where
  | loose (slot : String)
  | named (project name : String)
  | indexed (project : String) (index : Nat)
deriving DecidableEq

/-- A way to get to a container. -/
inductive ContainerRef where
  | loose (slot : String)
  | ofLayout (layout : LayoutRef)
  | ofProject (project : String)
deriving DecidableEq

/-- Objects in named slots. -/
structure Workspace where
  projects : List (String × Project)
  layouts : List (String × Layout)
  containers : List (String × Container)

namespace Workspace

def empty : Workspace :=
  ⟨[], [], []⟩

/-! ## Filling slots -/

def putProject (w : Workspace) (slot : String) (p : Project) : Workspace :=
  { w with projects := Bindings.insert w.projects slot p }

def putLayout (w : Workspace) (slot : String) (l : Layout) : Workspace :=
  { w with layouts := Bindings.insert w.layouts slot l }

def putContainer (w : Workspace) (slot : String) (c : Container) : Workspace :=
  { w with containers := Bindings.insert w.containers slot c }

/-! ## Following references -/

def project? (w : Workspace) (slot : String) : Option (Placed String Project) :=
  (Bindings.get? w.projects slot).map (⟨slot, ·⟩)

def layout? (w : Workspace) : LayoutRef → Option (Placed LayoutPlace Layout)
  | .loose slot => (Bindings.get? w.layouts slot).map (⟨.loose slot, ·⟩)
  | .named project name => (w.project? project).bind (·.layoutNamed? name)
  | .indexed project index => (w.project? project).bind (·.layoutAt? index)

def container? (w : Workspace) : ContainerRef → Option (Placed ContainerPlace Container)
  | .loose slot => (Bindings.get? w.containers slot).map (⟨.loose slot, ·⟩)
  | .ofLayout ref => (w.layout? ref).map (·.locals)
  | .ofProject slot => (w.project? slot).map (·.globals)

/-! ## Editing in place -/

/-- Puts a layout where another one stands. -/
def setLayout (w : Workspace) (place : LayoutPlace) (l : Layout) : Workspace :=
  match place with
  | .loose slot => w.putLayout slot l
  | .inProject slot index =>
    match Bindings.get? w.projects slot with
    | some p => w.putProject slot { p with layouts := p.layouts.set index l }
    | none => w

/-- Gives an object in the workspace other variables. -/
def setContainer (w : Workspace) (place : ContainerPlace) (c : Container) : Workspace :=
  match place with
  | .loose slot => w.putContainer slot c
  | .ofProject slot =>
    match Bindings.get? w.projects slot with
    | some p => w.putProject slot { p with globals := c }
    | none => w
  | .ofLayout (.loose slot) =>
    match Bindings.get? w.layouts slot with
    | some l => w.putLayout slot { l with locals := c }
    | none => w
  | .ofLayout (.inProject slot index) =>
    match Bindings.get? w.projects slot with
    | some p =>
      w.putProject slot { p with layouts := p.layouts.modify index ({ · with locals := c }) }
    | none => w

/-- Edits the container that a reference leads to. -/
def editContainer {α : Type} (w : Workspace) (ref : ContainerRef)
    (edit : Container → α × Container) : Option (α × Workspace) :=
  (w.container? ref).map fun target =>
    let (answer, c) := edit target.object
    (answer, w.setContainer target.place c)

/-- Gives the layout that a reference leads to another name. A project may then hold two layouts of
one name. -/
def renameLayout (w : Workspace) (ref : LayoutRef) (name : String) : Option Workspace :=
  (w.layout? ref).map fun target => w.setLayout target.place { target.object with name }

/-! ## Copies -/

/-- Puts a copy of a container into a slot. -/
def copyContainer (w : Workspace) (ref : ContainerRef) (slot : String) :
    Option (Container × Workspace) :=
  (w.container? ref).map fun c => (c.object, w.putContainer slot c.object)

/-- Puts a copy of a layout into a slot. -/
def copyLayout (w : Workspace) (ref : LayoutRef) (slot : String) : Option (Layout × Workspace) :=
  (w.layout? ref).map fun l => (l.object, w.putLayout slot l.object)

/-- Puts a copy of a project into a slot. -/
def copyProject (w : Workspace) (project slot : String) : Option (Project × Workspace) :=
  (w.project? project).map fun p => (p.object, w.putProject slot p.object)

/-! ## Layouts that come and go -/

/-- A workspace in which a layout that left its place is kept in a slot, if one is named. -/
def keep (w : Workspace) (slot : Option String) (l : Option Layout) : Workspace :=
  match slot, l with
  | some slot, some l => w.putLayout slot l
  | _, _ => w

/-- Moves a loose layout into a project; its slot becomes free. Answers the layout it replaced,
which goes to the slot `keepIn` if one is named, and the project. -/
def insertLayout (w : Workspace) (project source : String) (keepIn : Option String) :
    Option ((Option Layout × Project) × Workspace) := do
  let p ← Bindings.get? w.projects project
  let l ← Bindings.get? w.layouts source
  let (old, p) := p.insertLayout l
  let w := { w with layouts := Bindings.erase w.layouts source }
  return ((old, p), (w.putProject project p).keep keepIn old)

/-- Takes the first layout of a name out of a project. Answers that layout, which goes to the slot
`keepIn` if one is named, and the project. -/
def removeLayout (w : Workspace) (project name : String) (keepIn : Option String) :
    Option ((Option Layout × Project) × Workspace) := do
  let p ← Bindings.get? w.projects project
  let (old, p) := p.removeLayout name
  return ((old, p), (w.putProject project p).keep keepIn old)

end Workspace

end ScopedVars
