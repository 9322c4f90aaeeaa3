import ScopedVars.Json.Assembler
import ScopedVars.Json.Read.Project

/-!
# `Json/Read` — variables, containers, layouts and projects out of texts

A text is read whole: the document it makes is read from the outside in, and nothing but blanks may
follow. The first fault in the order of the text is the answer, be it one of JSON or of what is
read.
-/

set_option autoImplicit false

namespace ScopedVars

namespace Json

/-- What a reader makes of a text: nothing but blanks may follow the value. -/
def readText {α : Type} (read : Nat → Document → Except ReadError α) (text : List Char) :
    Except ReadError α := do
  let contents := Contents.ofChars text
  let result ← read nestingLimit contents.value
  if contents.trailing then .error Fault.malformed else .ok result

end Json

/-- The variable that a JSON text spells. -/
def Variable.ofJson (text : String) : Except Json.ReadError Variable :=
  Json.readText (Json.readVariable .streamed) text.toList

/-- The container that a JSON text spells. -/
def Container.ofJson (text : String) : Except Json.ReadError Container :=
  Json.readText Json.readContainer text.toList

/-- The layout that a JSON text spells. -/
def Layout.ofJson (text : String) : Except Json.ReadError Layout :=
  Json.readText Json.readLayout text.toList

/-- The project that a JSON text spells. -/
def Project.ofJson (text : String) : Except Json.ReadError Project :=
  Json.readText Json.readProject text.toList

end ScopedVars
