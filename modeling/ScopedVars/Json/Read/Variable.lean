import ScopedVars.Json.Read.Basic

/-!
# `Json/Read/Variable` — variables out of documents

A variable is a map of its `type` and `value`, in either order and with unknown keys among them, or
the list of the two.

The value of a variable can be read only when its type is known. A value that comes after its type
is *streamed*: read where it stands. One that comes before is *held*: all of it is looked through
first, as JSON, and it is read when the type has come. Three things differ within a held value,
which is known to its end and has no faults as JSON: a list of type and value may give the number of
the kind in place of its word; a kind that is spelled as a map may map to an empty map as well as to
null; and a list that is too long is reported with its length.
-/

set_option autoImplicit false

namespace ScopedVars

namespace Json

/-- How far the map of a variable has been read. -/
inductive Progress where
  | nothing
  | kind (kind : Kind)
  /-- The value has come before the type; this reads it for a kind. -/
  | held (read : Kind → Except ReadError Variable)
  | whole (v : Variable)

mutual

/-- A variable. -/
def readVariable (mode : Mode) (room : Nat) : Document → Except ReadError Variable
  | .leaf token => .error (wrong token.found .variable)
  | .array items ending => nested room fun room => readPair mode room items ending
  | .object members ending => nested room fun room => readFields mode room .nothing members ending

/-- A variable as the list of its type and value. -/
def readPair (mode : Mode) (room : Nat) : List Document → Ending → Except ReadError Variable
  | [], ending => atEnd ending (.error (.data (.tooShort 0 .variable)))
  | [first], ending => do
    let _ ← readFirstKind mode first
    atEnd ending (.error (.data (.tooShort 1 .variable)))
  | first :: second :: rest, ending => do
    let kind ← readFirstKind mode first
    let v ← readPayload mode room kind second
    match mode, rest with
    | .held, _ :: _ => .error (.data (.tooLong (rest.length + 2)))
    | _, _ => atListEnd rest ending v

/-- A variable as a map. Each of its two fields comes once, in either order; the second one
completes the variable, and what comes after it is only looked at for a third. -/
def readFields (mode : Mode) (room : Nat) :
    Progress → List (Token × Document) → Ending → Except ReadError Variable
  | progress, [], ending =>
    atEnd ending <|
      match progress with
      | .nothing | .held _ => .error (.data (.missing .type))
      | .kind _ => .error (.data (.missing .value))
      | .whole v => .ok v
  | progress, (key, d) :: rest, ending => do
    let name ← keyOf key
    if name = Field.type.key then
      match progress with
      | .nothing => do
        let kind ← readKind mode room d
        readFields mode room (.kind kind) rest ending
      | .held read => do
        let kind ← readKind mode room d
        let v ← read kind
        readFields mode room (.whole v) rest ending
      | .kind _ | .whole _ => .error (.data (.repeated .type))
    else if name = Field.value.key then
      match progress with
      | .nothing => do
        lookThrough room d
        readFields mode room (.held fun kind => readPayload .held room kind d) rest ending
      | .kind kind => do
        let v ← readPayload mode room kind d
        readFields mode room (.whole v) rest ending
      | .held _ | .whole _ => .error (.data (.repeated .value))
    else do
      skip d
      readFields mode room progress rest ending

/-- The value of a variable whose kind is known. -/
def readPayload (mode : Mode) (room : Nat) (kind : Kind) :
    Document → Except ReadError Variable
  | .leaf token =>
    match kind with
    | .number => return .number (← readNumber (.leaf token))
    | .string => return .string (← readString (.leaf token))
    | .boolean => return .boolean (← readBool (.leaf token))
    | .record => .error (wrong token.found .map)
    | .array => .error (wrong token.found .sequence)
  | .array items ending =>
    match kind with
    | .array =>
      nested room fun room => return .array (← readElements mode room items ending)
    | .number => .error (.data (.wrongType .sequence .number))
    | .string => .error (.data (.wrongType .sequence .string))
    | .boolean => .error (.data (.wrongType .sequence .boolean))
    | .record => .error (.data (.wrongType .sequence .map))
  | .object members ending =>
    match kind with
    | .record =>
      nested room fun room => return .record (← readChildren mode room [] members ending)
    | .number => .error (.data (.wrongType .map .number))
    | .string => .error (.data (.wrongType .map .string))
    | .boolean => .error (.data (.wrongType .map .boolean))
    | .array => .error (.data (.wrongType .map .sequence))

/-- The elements of an array. -/
def readElements (mode : Mode) (room : Nat) :
    List Document → Ending → Except ReadError (List Variable)
  | [], ending => atEnd ending (.ok [])
  | d :: rest, ending => do
    let v ← readVariable mode room d
    let vs ← readElements mode room rest ending
    return v :: vs

/-- Variables by name, added to those there are: of two with one name, the first place and the last
value. -/
def readChildren (mode : Mode) (room : Nat) :
    List (String × Variable) → List (Token × Document) → Ending →
      Except ReadError (List (String × Variable))
  | children, [], ending => atEnd ending (.ok children)
  | children, (key, d) :: rest, ending => do
    let name ← keyOf key
    let v ← readVariable mode room d
    readChildren mode room (Bindings.insert children name v) rest ending

end

end Json

end ScopedVars
