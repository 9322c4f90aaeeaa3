import ScopedVars.Json.Document

/-!
# `Json/Read/Basic` — leaves, keys and kinds

A reader goes through a document in the order of the text and stops at the first fault. This module
has the readers that do not nest, and the look through a value that is held back until its type is
known.

Brackets may be nested up to a limit in what is read, counted by the room that is left. The bracket
is looked at before the room: a list where a number should be is the wrong type at any depth.
-/

set_option autoImplicit false

namespace ScopedVars

namespace Json

/-- How a value is being read. -/
inductive Mode where
  | streamed
  | held
deriving DecidableEq

/-! ## Faults and leaves -/

instance : Coe Fault ReadError :=
  ⟨.text⟩

/-- The error of something else than what was wanted. What is no value is at fault itself. -/
def wrong (found : Except Fault Found) (wanted : Wanted) : ReadError :=
  match found with
  | .ok found => .data (.wrongType found wanted)
  | .error fault => fault

/-- Goes on if there is room for one more bracket. -/
def nested {α : Type} (room : Nat) (inside : Nat → Except ReadError α) : Except ReadError α :=
  match room with
  | 0 => .error Fault.malformed
  | room + 1 => inside room

/-- The end of a list or map that has been read to its last entry. -/
def atEnd {α : Type} (ending : Ending) (result : Except ReadError α) : Except ReadError α :=
  match ending with
  | .closed => result
  | .cut fault => .error fault

/-- The end of a list, after all its fields, in the text: nothing may follow. -/
def atListEnd {α : Type} (rest : List Document) (ending : Ending) (result : α) :
    Except ReadError α :=
  match rest with
  | [] => atEnd ending (.ok result)
  | _ :: _ => .error Fault.malformed

/-- The key that a token spells. -/
def keyOf : Token → Except ReadError String
  | .string (some s) => .ok s
  | .string none => .error Fault.malformed
  | .flaw f => .error f.peeking
  | _ => .error Fault.malformed

def readNumber : Document → Except ReadError Double
  | .leaf (.number n) =>
    match n.toDouble? with
    | some x => .ok x
    | none => .error Fault.malformed
  | d => .error (wrong d.found .number)

def readString : Document → Except ReadError String
  | .leaf (.string (some s)) => .ok s
  | d => .error (wrong d.found .string)

def readBool : Document → Except ReadError Bool
  | .leaf (.boolean b) => .ok b
  | d => .error (wrong d.found .boolean)

/-- Passes over the value of an unknown key. -/
def skip (d : Document) : Except ReadError Unit :=
  match d.skipFault? with
  | none => .ok ()
  | some fault => .error fault

/-! ## Looking through a value that is held -/

mutual

/-- The faults that a value has as JSON, the first one first: numbers too large, halves of surrogate
pairs and too deep nesting among them. -/
def lookThrough (room : Nat) : Document → Except ReadError Unit
  | .leaf token =>
    match token.found with
    | .ok _ => .ok ()
    | .error fault => .error fault
  | .array items ending => nested room fun room => lookThroughItems room items ending
  | .object members ending => nested room fun room => lookThroughMembers room members ending

def lookThroughItems (room : Nat) : List Document → Ending → Except ReadError Unit
  | [], ending => atEnd ending (.ok ())
  | d :: rest, ending => do
    lookThrough room d
    lookThroughItems room rest ending

def lookThroughMembers (room : Nat) :
    List (Token × Document) → Ending → Except ReadError Unit
  | [], ending => atEnd ending (.ok ())
  | (key, d) :: rest, ending => do
    let _ ← keyOf key
    lookThrough room d
    lookThroughMembers room rest ending

end

/-! ## The kind of a variable -/

/-- The kind that a word stands for. -/
def kindOf (word : String) : Except ReadError Kind :=
  match kindOfWord? word with
  | some kind => .ok kind
  | none => .error (.data (.unknownKind word))

/-- A kind as the key of a map: its word. -/
def readKindKey (key : Token) : Except ReadError Kind :=
  match keyOf key with
  | .ok word => kindOf word
  | .error e => .error e

/-- A kind as the first element of a list: its word. In a held list its number will do. -/
def readFirstKind (mode : Mode) : Document → Except ReadError Kind
  | .leaf (.number n) =>
    match mode, n.integer? with
    | .held, some (.ofNat i) =>
      match Kind.all[i]? with
      | some kind => .ok kind
      | none => .error (.data (.unknownKindNumber i))
    | _, _ => .error (wrong (Token.number n).found .kindWord)
  | .leaf (.string (some word)) => kindOf word
  | d => .error (wrong d.found .kindWord)

/-- The null that goes with a kind which is spelled as a map. -/
def readNull : Document → Except ReadError Unit
  | .leaf .null => .ok ()
  | d => .error (wrong d.found .null)

/-- The kind under the key `type`, in the text: its word, or a map from the word to null. A value of
another type is not even looked at, nor a key that is no string. -/
def readStreamedKind (room : Nat) : Document → Except ReadError Kind
  | .leaf (.string (some word)) => kindOf word
  | .leaf (.flaw f) => .error f.peeking
  | .leaf _ | .array .. => .error Fault.malformed
  | .object members ending =>
    nested room fun _ =>
      match members with
      | [] => .error Fault.malformed
      | (key, d) :: rest => do
        let kind ← readKindKey key
        readNull d
        match rest with
        | [] => atEnd ending (.ok kind)
        | _ :: _ => .error Fault.malformed

/-- The kind under the key `type`, in a held map: its word, or a map from the word to nothing
much. -/
def readHeldKind : Document → Except ReadError Kind
  | .leaf (.string (some word)) => kindOf word
  | .object [(key, d)] _ => do
    let kind ← readKindKey key
    match d with
    | .object [] _ => .ok kind
    | d => do
      readNull d
      .ok kind
  | .object _ _ => .error (.data .severalKinds)
  | d => .error (wrong d.found .kindOrMap)

/-- The kind under the key `type`. -/
def readKind (mode : Mode) (room : Nat) (d : Document) : Except ReadError Kind :=
  match mode with
  | .streamed => readStreamedKind room d
  | .held => readHeldKind d

end Json

end ScopedVars
