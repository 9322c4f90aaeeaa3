import ScopedVars.Container

/-!
# `Project` — a game: global variables and layouts

A layout is one scene of a game, with variables of its own. A project owns a list of layouts, which
it finds by name. Nothing keeps two layouts from having the same name (a layout can be renamed where
it stands), so every operation by name means the first one.
-/

set_option autoImplicit false

namespace ScopedVars

/-- A scene and its variables. -/
structure Layout where
  name : String
  locals : Container
deriving DecidableEq, Inhabited

/-- Global variables and layouts. -/
structure Project where
  name : String
  globals : Container
  layouts : List Layout
deriving DecidableEq, Inhabited

namespace Layout

/-- A layout without variables. -/
def named (name : String) : Layout :=
  ⟨name, .empty⟩

/-- The characters of `Layout.debug`. -/
def debugChars (l : Layout) : List Char :=
  "Layout \x7b name: ".toList ++ Text.quoted l.name ++ ", variables: ".toList
    ++ l.locals.debugChars ++ " \x7d".toList

/-- The text that shows all of a layout. -/
def debug (l : Layout) : String :=
  String.ofList l.debugChars

end Layout

namespace Project

/-- A project without variables and layouts. -/
def named (name : String) : Project :=
  ⟨name, .empty, []⟩

/-! ## Layouts by name -/

/-- The place of the first layout of a name. -/
def layoutIndex? (p : Project) (name : String) : Option Nat :=
  p.layouts.findIdx? (·.name == name)

/-- The first layout of a name. -/
def layout? (p : Project) (name : String) : Option Layout :=
  p.layouts.find? (·.name == name)

def hasLayout (p : Project) (name : String) : Bool :=
  (p.layout? name).isSome

def layoutNames (p : Project) : List String :=
  p.layouts.map (·.name)

/-- Puts a layout in the place of the first one of its name, and answers that one; at the end if
there is none. -/
def insertLayout (p : Project) (l : Layout) : Option Layout × Project :=
  match p.layoutIndex? l.name with
  | some i => (p.layouts[i]?, { p with layouts := p.layouts.set i l })
  | none => (none, { p with layouts := p.layouts ++ [l] })

/-- Takes out the first layout of a name and answers it. The others keep their order. -/
def removeLayout (p : Project) (name : String) : Option Layout × Project :=
  match p.layoutIndex? name with
  | some i => (p.layouts[i]?, { p with layouts := p.layouts.eraseIdx i })
  | none => (none, p)

/-! ## Debugging text -/

/-- The characters of `Project.debug`. -/
def debugChars (p : Project) : List Char :=
  "Project \x7b name: ".toList ++ Text.quoted p.name ++ ", variables: ".toList
    ++ p.globals.debugChars ++ ", layouts: [".toList
    ++ Text.spaced (p.layouts.map Layout.debugChars) ++ "] \x7d".toList

/-- The text that shows all of a project. -/
def debug (p : Project) : String :=
  String.ofList p.debugChars

end Project

end ScopedVars
