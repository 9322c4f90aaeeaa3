import ScopedVars.Json.Document
import ScopedVars.Json.Scanner

/-!
# `Json/Assembler` — from tokens to documents

The assembler is a machine, as the scanner is. What it is in the middle of is a stack of lists and
maps that have begun, the innermost first, so the depth of a text costs it nothing. Side by side the
two machines take a text character by character, and what they have made of it does not depend on
what follows.
-/

set_option autoImplicit false

namespace ScopedVars

namespace Json

/-- A list or map that has begun and waits for a value. Its earlier entries stand in reverse. -/
inductive Frame where
  | item (before : List Document)
  | member (before : List (Token × Document)) (key : Token)

namespace Frame

/-- The list or map, when its value is there and nothing follows it. -/
def close (value : Document) (ending : Ending) : Frame → Document
  | item before => .array (value :: before).reverse ending
  | member before key => .object ((key, value) :: before).reverse ending

end Frame

/-- What the assembler waits for. -/
inductive Assembler where
  /-- A value. -/
  | value (outer : List Frame)
  /-- A value or the end of a list, after its opening bracket. -/
  | firstItem (outer : List Frame)
  /-- A key or the end of a map, after its opening bracket. -/
  | firstKey (outer : List Frame)
  /-- A key, after a comma. -/
  | nextKey (before : List (Token × Document)) (outer : List Frame)
  /-- The colon after a key. -/
  | colon (before : List (Token × Document)) (key : Token) (outer : List Frame)
  /-- What follows a value. -/
  | after (value : Document) (outer : List Frame)
  /-- Nothing: the text has ended after its one value. -/
  | whole (value : Document)
  /-- Nothing: the text goes on after its one value. -/
  | trailing (value : Document)
  /-- Nothing: there was a fault. -/
  | cut (value : Document)

namespace Assembler

/-- The document of a text with a fault: everything around the place of the fault is cut. -/
def cutAt (fault : Fault) (value : Document) (outer : List Frame) : Assembler :=
  cut (outer.foldl (fun value frame => frame.close value (.cut fault)) value)

/-- A token where a value should be. -/
def pushValue (outer : List Frame) (token : Token) : Assembler :=
  match token with
  | .null | .boolean _ | .number _ | .string _ => after (.leaf token) outer
  | .arrayOpen => firstItem outer
  | .objectOpen => firstKey outer
  | _ => cutAt token.skipFault (.leaf token) outer

/-- A token where a key should be. One that is no string is kept with a value that is none. -/
def pushKey (before : List (Token × Document)) (outer : List Frame) (token : Token) : Assembler :=
  match token with
  | .string _ => colon before token outer
  | _ => cutAt token.skipKeyFault (.leaf (.flaw .stray)) (.member before token :: outer)

/-- A token where a colon should be. Any other leaves the key without a value. -/
def pushColon (before : List (Token × Document)) (key : Token) (outer : List Frame)
    (token : Token) : Assembler :=
  match token with
  | .colon => value (.member before key :: outer)
  | .flaw .ended => cutAt .ended (.leaf token) (.member before key :: outer)
  | _ => cutAt .malformed (.leaf (.flaw .stray)) (.member before key :: outer)

/-- A token after a value. -/
def pushAfter (v : Document) (outer : List Frame) (token : Token) : Assembler :=
  match outer, token with
  | [], .flaw .ended => whole v
  | [], _ => trailing v
  | .item before :: outer, .comma => value (.item (v :: before) :: outer)
  | .member before key :: outer, .comma => nextKey ((key, v) :: before) outer
  | frame@(.item _) :: outer, .arrayClose => after (frame.close v .closed) outer
  | frame@(.member _ _) :: outer, .objectClose => after (frame.close v .closed) outer
  | outer, token => cutAt token.punctuationFault v outer

/-- One more token. -/
def push : Assembler → Token → Assembler
  | value outer, token => pushValue outer token
  | firstItem outer, .arrayClose => after (.array [] .closed) outer
  | firstItem outer, token => pushValue (.item [] :: outer) token
  | firstKey outer, .objectClose => after (.object [] .closed) outer
  | firstKey outer, token => pushKey [] outer token
  | nextKey before outer, token => pushKey before outer token
  | colon before key outer, token => pushColon before key outer token
  | after v outer, token => pushAfter v outer token
  | done, _ => done

end Assembler

/-! ## The document of a text -/

/-- The two machines side by side. -/
structure Reading where
  scanner : Scanner
  assembler : Assembler

namespace Reading

/-- Before the first character. -/
def start : Reading :=
  ⟨.between, .value []⟩

/-- One more character. -/
def step (r : Reading) (c : Char) : Reading :=
  let (tokens, scanner) := r.scanner.step c
  ⟨scanner, tokens.foldl Assembler.push r.assembler⟩

/-- The end of the text. -/
def finish (r : Reading) : Assembler :=
  r.scanner.finish.foldl Assembler.push r.assembler

end Reading

/-- What a text holds: one value, and whether anything but blanks follows it. -/
structure Contents where
  value : Document
  trailing : Bool

/-- The contents in the end. The end of the text is a token to the assembler, after which it waits
for nothing more; so the last case does not arise. -/
def Assembler.contents : Assembler → Contents
  | whole v => ⟨v, false⟩
  | trailing v => ⟨v, true⟩
  | cut v => ⟨v, false⟩
  | _ => ⟨.leaf (.flaw .ended), false⟩

/-- The contents of a text. -/
def Contents.ofChars (text : List Char) : Contents :=
  (text.foldl Reading.step .start).finish.contents

end Json

end ScopedVars
