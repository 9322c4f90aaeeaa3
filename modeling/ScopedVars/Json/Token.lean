import ScopedVars.Json.Numeral
import ScopedVars.Json.ReadError

/-!
# `Json/Token` — the lexical elements of a JSON text

A text is a sequence of tokens, and the last one always says how it ended. A text that breaks off,
or goes on with something that is no token, ends in a `Flaw`.

What a flaw amounts to depends on who meets it. A reader that wants the value looks closer than one
that only skips it: it cannot use half a surrogate pair, and it knows that a number which breaks off
could have gone on. So a flaw keeps what each of them makes of it.
-/

set_option autoImplicit false

namespace ScopedVars

namespace Json

/-- Something that is no whole token. -/
inductive Flaw where
  /-- The end of the text, between two tokens. -/
  | ended
  /-- A character with which no token begins. -/
  | stray
  /-- Part of `null`, `true` or `false`. -/
  | word (fault : Fault)
  /-- Part of a number. -/
  | numeral (fault : Fault)
  /-- A string without its closing quote. The faults of reading and of skipping it differ where half
  a surrogate pair stands before the place that breaks off. -/
  | string (reading skipping : Fault)
deriving DecidableEq

inductive Token where
  | null
  | boolean (b : Bool)
  | number (n : Numeral)
  /-- A string; `none` if an escape in it is half a surrogate pair and no other half is beside
  it. -/
  | string (s : Option String)
  | arrayOpen
  | arrayClose
  | objectOpen
  | objectClose
  | comma
  | colon
  | flaw (f : Flaw)
deriving DecidableEq

/-! ## What a flaw amounts to -/

namespace Flaw

/-- To a reader that wants the value. -/
def reading : Flaw → Fault
  | ended => .ended
  | stray => .malformed
  | word fault => fault
  | numeral fault => fault
  | string reading _ => reading

/-- To a reader that skips the value. A number that breaks off is malformed to it. -/
def skipping : Flaw → Fault
  | ended => .ended
  | stray => .malformed
  | word fault => fault
  | numeral _ => .malformed
  | string _ skipping => skipping

/-- To a reader that looks for a string or an object, and takes one look at the first character. -/
def peeking : Flaw → Fault
  | ended => .ended
  | string reading _ => reading
  | _ => .malformed

/-- Where only a string can stand, to a reader that skips it. -/
def skippingKey : Flaw → Fault
  | ended => .ended
  | string _ skipping => skipping
  | _ => .malformed

end Flaw

namespace Token

/-- The fault of a token that stands where a value is to be skipped and begins none. -/
def skipFault : Token → Fault
  | flaw f => f.skipping
  | _ => .malformed

/-- The fault of a token that stands where a key is to be skipped and is none. -/
def skipKeyFault : Token → Fault
  | flaw f => f.skippingKey
  | _ => .malformed

/-- The fault of a token that stands where punctuation should. -/
def punctuationFault : Token → Fault
  | flaw .ended => .ended
  | _ => .malformed

/-- What a message calls the value that begins with this token; the token's own fault if none
does. -/
def found : Token → Except Fault Found
  | null => .ok .null
  | boolean b => .ok (.boolean b)
  | number n =>
    match n.integer?, n.toDouble? with
    | some i, _ => .ok (.integer i)
    | none, some x => .ok (.floating x)
    | none, none => .error .malformed
  | string (some s) => .ok (.string s)
  | string none => .error .malformed
  | arrayOpen => .ok .sequence
  | objectOpen => .ok .map
  | flaw f => .error f.reading
  | _ => .error .malformed

end Token

end Json

end ScopedVars
