import ScopedVars.Json.Format
import ScopedVars.Text.Pieces
import ScopedVars.Text.Quoted

/-!
# `Json/ReadError` — why a text was not read

Reading stops at the first fault in the text. There are two sorts: the text is no JSON at that place
(a `Fault`), or it is, but not what should stand there (a `Mismatch`). Only the second sort comes
with a message.
-/

set_option autoImplicit false

namespace ScopedVars

namespace Json

/-- Why a text is no JSON at some place: the text ends too early, or something else is wrong. -/
inductive Fault where
  | ended
  | malformed
deriving DecidableEq

/-- What was found, in the words of a message. -/
inductive Found where
  | null
  | boolean (b : Bool)
  | integer (i : Int)
  | floating (x : Double)
  | string (s : String)
  | sequence
  | map
deriving DecidableEq

/-- What should have been there. -/
inductive Wanted where
  | number
  | string
  | boolean
  | sequence
  | map
  | variable
  | layout
  | project
  /-- The word for a kind of variable, where no other spelling of a kind is possible. -/
  | kindWord
  /-- The word for a kind of variable, or a map from that word to null. -/
  | kindOrMap
  | null
deriving DecidableEq

/-- How JSON of the right grammar can be the wrong thing. -/
inductive Mismatch where
  | wrongType (found : Found) (wanted : Wanted)
  /-- A list that ends before all fields of the wanted thing are there. -/
  | tooShort (length : Nat) (wanted : Wanted)
  /-- A list that goes on after the two elements of a variable. -/
  | tooLong (length : Nat)
  | unknownKind (word : String)
  /-- A number that stands for no kind: there are five. -/
  | unknownKindNumber (n : Nat)
  /-- A map that should name one kind, and has no entry or several. -/
  | severalKinds
  | repeated (field : Field)
  | missing (field : Field)
deriving DecidableEq

/-- Why a text was not read. -/
inductive ReadError where
  | text (fault : Fault)
  | data (mismatch : Mismatch)
deriving DecidableEq

/-! ## Messages -/

/-- Something in backquotes. -/
def backquoted (cs : List Char) : List Char :=
  '\x60' :: (cs ++ ['\x60'])

/-- An integer in decimal. -/
def integerChars (i : Int) : List Char :=
  (if i < 0 then ['-'] else []) ++ Text.count i.natAbs

def Found.message : Found → List Char
  | null => "null".toList
  | boolean b => "boolean ".toList ++ backquoted (Text.bool b)
  | integer i => "integer ".toList ++ backquoted (integerChars i)
  | floating x => "floating point ".toList ++ backquoted (x.text numberStyle)
  | string s => "string ".toList ++ Text.quoted s
  | sequence => "sequence".toList
  | map => "map".toList

def Wanted.message : Wanted → List Char
  | number => "f64".toList
  | string => "a string".toList
  | boolean => "a boolean".toList
  | sequence => "a sequence".toList
  | map => "a map".toList
  | .variable => "adjacently tagged enum Variable".toList
  | layout => "struct Layout".toList
  | project => "struct Project".toList
  | kindWord => "variant identifier".toList
  | kindOrMap => "string or map".toList
  | null => "unit".toList

/-- What a list that is too short was wanted for. -/
def Wanted.listMessage : Wanted → List Char
  | layout => "struct Layout with 2 elements".toList
  | project => "struct Project with 3 elements".toList
  | wanted => wanted.message

/-- The five words, each in backquotes. -/
def kindList : List Char :=
  Text.spaced (Kind.all.map fun kind => backquoted (kindWord kind).toList)

def Mismatch.chars : Mismatch → List Char
  | wrongType found wanted =>
    "invalid type: ".toList ++ found.message ++ ", expected ".toList ++ wanted.message
  | tooShort length wanted =>
    "invalid length ".toList ++ Text.count length ++ ", expected ".toList ++ wanted.listMessage
  | tooLong length =>
    "invalid length ".toList ++ Text.count length ++ ", expected 2 elements in sequence".toList
  | unknownKind word =>
    "unknown variant ".toList ++ backquoted word.toList ++ ", expected one of ".toList ++ kindList
  | unknownKindNumber n =>
    "invalid value: ".toList ++ (Found.integer n).message
      ++ ", expected variant index 0 <= i < 5".toList
  | severalKinds => "invalid value: map, expected map with a single key".toList
  | repeated field => "duplicate field ".toList ++ backquoted field.key.toList
  | missing field => "missing field ".toList ++ backquoted field.key.toList

/-- The text for a reader. -/
def Mismatch.message (m : Mismatch) : String :=
  String.ofList m.chars

end Json

end ScopedVars
