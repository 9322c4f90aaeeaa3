import ScopedVars.Json.Token

/-!
# `Json/Document` — the tree of a JSON text, whole or not

Every text has a document: the tree of its values as far as they go. Where the text breaks off or
goes wrong, the document says so in the place where that happens, and the values around it are
*cut*. So a reader that goes through the document in order meets what it would have met in the text,
and the first fault it comes to is the first one of the text.

Three things make this work:

* a leaf is the token that stands where a value should, also one that is no value;
* a key is the token that stands where a key should, also one that is no string;
* a list or map knows how it ended, and if it was cut, what a reader that skips it makes of that,
  however deep inside the fault lies.
-/

set_option autoImplicit false

namespace ScopedVars

namespace Json

/-- How a list or map ends: with its bracket, or cut by a fault. -/
inductive Ending where
  | closed
  /-- The fault is the one that skipping the list or map meets. It is the one that reading meets if
  there is none in the entries. -/
  | cut (fault : Fault)
deriving DecidableEq

/-- A value of a text. -/
inductive Document where
  | leaf (token : Token)
  | array (items : List Document) (ending : Ending)
  | object (members : List (Token × Document)) (ending : Ending)

namespace Document

/-- The fault that skipping the value meets. -/
def skipFault? : Document → Option Fault
  | leaf .null | leaf (.boolean _) | leaf (.number _) | leaf (.string _) => none
  | leaf token => some token.skipFault
  | array _ .closed | object _ .closed => none
  | array _ (.cut fault) | object _ (.cut fault) => some fault

/-- What a message calls the value. -/
def found : Document → Except Fault Found
  | leaf token => token.found
  | array .. => .ok .sequence
  | object .. => .ok .map

end Document

end Json

end ScopedVars
