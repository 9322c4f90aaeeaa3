import ScopedVars.Json.Read.Variable
import ScopedVars.Project

/-!
# `Json/Read/Project` — containers, layouts and projects out of documents

A layout or project is a map of its fields, in any order and with unknown keys among them, or the
list of its fields. Each field comes once, and none may be missing.
-/

set_option autoImplicit false

namespace ScopedVars

namespace Json

/-- A container. It is a map of variables and nothing else. -/
def readContainer (room : Nat) : Document → Except ReadError Container
  | .object members ending =>
    nested room fun room => return ⟨← readChildren .streamed room [] members ending⟩
  | d => .error (wrong d.found .map)

/-- A layout as the list of its fields. -/
def readLayoutItems (room : Nat) (items : List Document) (ending : Ending) :
    Except ReadError Layout :=
  match items with
  | [] => atEnd ending (.error (.data (.tooShort 0 .layout)))
  | [name] => do
    let _ ← readString name
    atEnd ending (.error (.data (.tooShort 1 .layout)))
  | name :: locals :: rest => do
    let name ← readString name
    let locals ← readContainer room locals
    atListEnd rest ending ⟨name, locals⟩

/-- A layout as a map, with the fields that have come so far. -/
def readLayoutFields (room : Nat) (name? : Option String) (locals? : Option Container) :
    List (Token × Document) → Ending → Except ReadError Layout
  | [], ending =>
    atEnd ending <|
      match name?, locals? with
      | none, _ => .error (.data (.missing .name))
      | some _, none => .error (.data (.missing .vars))
      | some name, some locals => .ok ⟨name, locals⟩
  | (key, d) :: rest, ending => do
    let field ← keyOf key
    if field = Field.name.key then
      match name? with
      | some _ => .error (.data (.repeated .name))
      | none => do
        let name ← readString d
        readLayoutFields room (some name) locals? rest ending
    else if field = Field.vars.key then
      match locals? with
      | some _ => .error (.data (.repeated .vars))
      | none => do
        let locals ← readContainer room d
        readLayoutFields room name? (some locals) rest ending
    else do
      skip d
      readLayoutFields room name? locals? rest ending

/-- A layout. -/
def readLayout (room : Nat) : Document → Except ReadError Layout
  | .leaf token => .error (wrong token.found .layout)
  | .array items ending => nested room fun room => readLayoutItems room items ending
  | .object members ending =>
    nested room fun room => readLayoutFields room none none members ending

/-- Layouts one after the other. -/
def readLayoutList (room : Nat) : List Document → Ending → Except ReadError (List Layout)
  | [], ending => atEnd ending (.ok [])
  | d :: rest, ending => do
    let l ← readLayout room d
    let ls ← readLayoutList room rest ending
    return l :: ls

/-- The layouts of a project. -/
def readLayouts (room : Nat) : Document → Except ReadError (List Layout)
  | .array items ending => nested room fun room => readLayoutList room items ending
  | d => .error (wrong d.found .sequence)

/-- A project as the list of its fields. -/
def readProjectItems (room : Nat) (items : List Document) (ending : Ending) :
    Except ReadError Project :=
  match items with
  | [] => atEnd ending (.error (.data (.tooShort 0 .project)))
  | [name] => do
    let _ ← readString name
    atEnd ending (.error (.data (.tooShort 1 .project)))
  | [name, globals] => do
    let _ ← readString name
    let _ ← readContainer room globals
    atEnd ending (.error (.data (.tooShort 2 .project)))
  | name :: globals :: layouts :: rest => do
    let name ← readString name
    let globals ← readContainer room globals
    let layouts ← readLayouts room layouts
    atListEnd rest ending ⟨name, globals, layouts⟩

/-- A project as a map, with the fields that have come so far. -/
def readProjectFields (room : Nat) (name? : Option String) (globals? : Option Container)
    (layouts? : Option (List Layout)) :
    List (Token × Document) → Ending → Except ReadError Project
  | [], ending =>
    atEnd ending <|
      match name?, globals?, layouts? with
      | none, _, _ => .error (.data (.missing .name))
      | some _, none, _ => .error (.data (.missing .vars))
      | some _, some _, none => .error (.data (.missing .layouts))
      | some name, some globals, some layouts => .ok ⟨name, globals, layouts⟩
  | (key, d) :: rest, ending => do
    let field ← keyOf key
    if field = Field.name.key then
      match name? with
      | some _ => .error (.data (.repeated .name))
      | none => do
        let name ← readString d
        readProjectFields room (some name) globals? layouts? rest ending
    else if field = Field.vars.key then
      match globals? with
      | some _ => .error (.data (.repeated .vars))
      | none => do
        let globals ← readContainer room d
        readProjectFields room name? (some globals) layouts? rest ending
    else if field = Field.layouts.key then
      match layouts? with
      | some _ => .error (.data (.repeated .layouts))
      | none => do
        let layouts ← readLayouts room d
        readProjectFields room name? globals? (some layouts) rest ending
    else do
      skip d
      readProjectFields room name? globals? layouts? rest ending

/-- A project. -/
def readProject (room : Nat) : Document → Except ReadError Project
  | .leaf token => .error (wrong token.found .project)
  | .array items ending => nested room fun room => readProjectItems room items ending
  | .object members ending =>
    nested room fun room => readProjectFields room none none none members ending

end Json

end ScopedVars
