import ScopedVars.Json.Scanner.Number
import ScopedVars.Json.Scanner.Quoted

/-!
# `Json/Scanner` — from characters to tokens

The scanner is a machine: it takes one character at a time and gives the tokens that are finished by
it. It never looks ahead, so what it has given for a text it gives for every longer text as well. A
number is the one token that only the next character finishes.
-/

set_option autoImplicit false

namespace ScopedVars

namespace Json

/-- Whether a character may stand between two tokens. -/
def isBlank (c : Char) : Bool :=
  c == ' ' || c == '\n' || c == '\t' || c == '\r'

/-- What the scanner is in the middle of. -/
inductive Scanner where
  | between
  /-- Within a word, of which these letters are still to come. -/
  | word (letter : Char) (rest : List Char) (token : Token)
  | number (n : NumberScan)
  | string (s : StringScan)
  /-- After a flaw. -/
  | halted

namespace Scanner

/-- A character between two tokens. -/
def start (c : Char) : List Token × Scanner :=
  if isBlank c then ([], between)
  else if c = '-' ∨ c.isDigit then ([], number (.first c))
  else
    match c with
    | '"' => ([], string .start)
    | '[' => ([.arrayOpen], between)
    | ']' => ([.arrayClose], between)
    | '{' => ([.objectOpen], between)
    | '}' => ([.objectClose], between)
    | ',' => ([.comma], between)
    | ':' => ([.colon], between)
    | 'n' => ([], word 'u' ['l', 'l'] .null)
    | 't' => ([], word 'r' ['u', 'e'] (.boolean true))
    | 'f' => ([], word 'a' ['l', 's', 'e'] (.boolean false))
    | _ => ([.flaw .stray], halted)

/-- A character within a string. -/
def stepString (s : StringScan) (c : Char) : List Token × Scanner :=
  let broken := ([.flaw (s.flaw .malformed)], halted)
  match s.part with
  | .text =>
    if c = '"' then ([.string s.contents], between)
    else if c = '\\' then ([], string { s with part := .escape })
    else if c < ' ' then broken
    else ([], string (s.push c))
  | .escape =>
    if c = 'u' then ([], string { s with part := .unicode 0 0 (some 0) })
    else
      match StringScan.unescape? c with
      | some plain => ([], string (s.push plain))
      | none => broken
  | .unicode count bytes value =>
    match s.pushHex count bytes value c with
    | .ok s => ([], string s)
    | .error flaw => ([.flaw flaw], halted)

/-- The tokens that one more character finishes, and what the scanner is in the middle of then. -/
def step : Scanner → Char → List Token × Scanner
  | between, c => start c
  | word letter rest token, c =>
    if c = letter then
      match rest with
      | [] => ([token], between)
      | next :: rest => ([], word next rest token)
    else ([.flaw (.word .malformed)], halted)
  | number n, c =>
    match n.push? c with
    | some n => ([], number n)
    | none =>
      if n.endsBefore c then
        let (tokens, scanner) := start c
        (.number n.numeral :: tokens, scanner)
      else ([.flaw (.numeral .malformed)], halted)
  | string s, c => stepString s c
  | halted, _ => ([], halted)

/-- The tokens that the end of the text finishes. -/
def finish : Scanner → List Token
  | between => [.flaw .ended]
  | word .. => [.flaw (.word .ended)]
  | number n =>
    if n.complete then [.number n.numeral, .flaw .ended] else [.flaw (.numeral .ended)]
  | string s => [.flaw (s.flaw .ended)]
  | halted => []

end Scanner

end Json

end ScopedVars
