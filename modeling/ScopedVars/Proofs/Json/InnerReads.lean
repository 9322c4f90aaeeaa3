import Mathlib.Logic.Relation
import ScopedVars.Json.Read
import ScopedVars.Proofs.Json.Roles

/-!
# `Proofs/Json/InnerReads` — reading one value, and within it another

What is said of reading an object is said of a `ReadCall`: this value, read as this, with this much
room. A call `ComesTo` another one if it begins it: all that stands before the inner value in its
list or map has been read, and nothing was wrong with it.

The first error is the answer, so if the inner call fails then so does the outer one, and with the
same error (`ReadCall.ComesTo.fails`); from call to call that reaches the whole text.
-/

set_option autoImplicit false

namespace ScopedVars

namespace Json

/-- A value that is read while the text goes by. -/
inductive ReadCall where
  | variable (room : Nat) (d : Document)
  /-- The value of a variable of a known kind. -/
  | payload (room : Nat) (kind : Kind) (d : Document)
  | container (room : Nat) (d : Document)
  | layout (room : Nat) (d : Document)
  | layouts (room : Nat) (d : Document)
  | project (room : Nat) (d : Document)

namespace ReadCall

/-- The answer is this error. -/
def FailsWith (e : ReadError) : ReadCall → Prop
  | .variable room d => readVariable .streamed room d = .error e
  | .payload room kind d => readPayload .streamed room kind d = .error e
  | .container room d => readContainer room d = .error e
  | .layout room d => readLayout room d = .error e
  | .layouts room d => readLayouts room d = .error e
  | .project room d => readProject room d = .error e

/-- The first call begins the second one. -/
inductive ComesTo : ReadCall → ReadCall → Prop where
  | pair {room : Nat} {first d : Document} {kind : Kind}
      (hfirst : readFirstKind .streamed first = .ok kind) (rest : List Document) (ending : Ending) :
      ComesTo (.variable (room + 1) (.array (first :: d :: rest) ending)) (.payload room kind d)
  | value {room : Nat} {before : List (Token × Document)} {kind : Kind} {d : Document}
      (hbefore : before.foldlM (keyed (fieldStep .streamed room)) .nothing = .ok (.kind kind))
      (behind : List (Token × Document)) (ending : Ending) :
      ComesTo (.variable (room + 1)
        (.object (before ++ (.string (some Field.value.key), d) :: behind) ending))
        (.payload room kind d)
  | element {room : Nat} {before : List Document} {vs : List Variable} {d : Document}
      (hbefore : before.mapM (readVariable .streamed room) = .ok vs) (behind : List Document)
      (ending : Ending) :
      ComesTo (.payload (room + 1) .array (.array (before ++ d :: behind) ending))
        (.variable room d)
  | child {room : Nat} {before : List (Token × Document)} {children : List (String × Variable)}
      {d : Document}
      (hbefore : before.foldlM (keyed (childStep .streamed room)) [] = .ok children)
      (name : String) (behind : List (Token × Document)) (ending : Ending) :
      ComesTo (.payload (room + 1) .record
        (.object (before ++ (.string (some name), d) :: behind) ending)) (.variable room d)
  | entry {room : Nat} {before : List (Token × Document)} {children : List (String × Variable)}
      {d : Document}
      (hbefore : before.foldlM (keyed (childStep .streamed room)) [] = .ok children)
      (name : String) (behind : List (Token × Document)) (ending : Ending) :
      ComesTo (.container (room + 1)
        (.object (before ++ (.string (some name), d) :: behind) ending)) (.variable room d)
  | layoutItem {room : Nat} {first d : Document} {name : String}
      (hfirst : readString first = .ok name) (rest : List Document) (ending : Ending) :
      ComesTo (.layout (room + 1) (.array (first :: d :: rest) ending)) (.container room d)
  | layoutVars {room : Nat} {before : List (Token × Document)} {name? : Option String}
      {d : Document}
      (hbefore : before.foldlM (keyed (LayoutFields.step room)) ⟨none, none⟩ = .ok ⟨name?, none⟩)
      (behind : List (Token × Document)) (ending : Ending) :
      ComesTo (.layout (room + 1)
        (.object (before ++ (.string (some Field.vars.key), d) :: behind) ending))
        (.container room d)
  | layout {room : Nat} {before : List Document} {ls : List Layout} {d : Document}
      (hbefore : before.mapM (readLayout room) = .ok ls) (behind : List Document)
      (ending : Ending) :
      ComesTo (.layouts (room + 1) (.array (before ++ d :: behind) ending)) (.layout room d)
  | projectItem {room : Nat} {first d : Document} {name : String}
      (hfirst : readString first = .ok name) (rest : List Document) (ending : Ending) :
      ComesTo (.project (room + 1) (.array (first :: d :: rest) ending)) (.container room d)
  | projectVars {room : Nat} {before : List (Token × Document)} {name? : Option String}
      {layouts? : Option (List Layout)} {d : Document}
      (hbefore : before.foldlM (keyed (ProjectFields.step room)) ⟨none, none, none⟩
        = .ok ⟨name?, none, layouts?⟩)
      (behind : List (Token × Document)) (ending : Ending) :
      ComesTo (.project (room + 1)
        (.object (before ++ (.string (some Field.vars.key), d) :: behind) ending))
        (.container room d)
  | layoutsItem {room : Nat} {first second d : Document} {name : String} {globals : Container}
      (hfirst : readString first = .ok name) (hsecond : readContainer room second = .ok globals)
      (rest : List Document) (ending : Ending) :
      ComesTo (.project (room + 1) (.array (first :: second :: d :: rest) ending))
        (.layouts room d)
  | projectLayouts {room : Nat} {before : List (Token × Document)} {name? : Option String}
      {globals? : Option Container} {d : Document}
      (hbefore : before.foldlM (keyed (ProjectFields.step room)) ⟨none, none, none⟩
        = .ok ⟨name?, globals?, none⟩)
      (behind : List (Token × Document)) (ending : Ending) :
      ComesTo (.project (room + 1)
        (.object (before ++ (.string (some Field.layouts.key), d) :: behind) ending))
        (.layouts room d)

end ReadCall

/-! ## The first error is the answer -/

section Entries

variable {α β : Type} {e : ReadError}

theorem bind_fails {x : Except ReadError α} (h : x = .error e) (f : α → Except ReadError β) :
    (x >>= f) = .error e := by
  rw [h]
  rfl

theorem takeItem_fails {short : ReadError} {read : Document → Except ReadError β}
    {next : β → List Document → Ending → Except ReadError α} {d : Document}
    {rest : List Document} {ending : Ending} (h : read d = .error e) :
    takeItem short read next (d :: rest) ending = .error e :=
  bind_fails h _

theorem takeItem_goesOn {short : ReadError} {read : Document → Except ReadError β}
    {next : β → List Document → Ending → Except ReadError α} {d : Document}
    {rest : List Document} {ending : Ending} {b : β} (h : read d = .ok b) :
    takeItem short read next (d :: rest) ending = next b rest ending := by
  show (read d >>= fun b => next b rest ending) = _
  rw [h]
  rfl

theorem mapM_fails {read : Document → Except ReadError α} {before behind : List Document}
    {d : Document} {as : List α} (hbefore : before.mapM read = .ok as) (h : read d = .error e) :
    (before ++ d :: behind).mapM read = .error e := by
  rw [List.mapM_append, hbefore, List.mapM_cons, h]
  rfl

theorem foldlM_keyed_fails {step : α → String → Document → Except ReadError α} {s s' : α}
    {before behind : List (Token × Document)} {key : String} {d : Document}
    (hbefore : before.foldlM (keyed step) s = .ok s') (h : step s' key d = .error e) :
    (before ++ (.string (some key), d) :: behind).foldlM (keyed step) s = .error e := by
  have hkeyed : keyed step s' (.string (some key), d) = .error e := h
  rw [List.foldlM_append, hbefore]
  show ((.string (some key), d) :: behind).foldlM (keyed step) s' = .error e
  rw [List.foldlM_cons, hkeyed]
  rfl

/-- The children of a variable and those of a container are read by one loop. -/
theorem readChildren_fails {room : Nat} {before behind : List (Token × Document)}
    {children : List (String × Variable)} {name : String} {d : Document} {ending : Ending}
    (hbefore : before.foldlM (keyed (childStep .streamed room)) [] = .ok children)
    (h : readVariable .streamed room d = .error e) :
    readChildren .streamed room [] (before ++ (.string (some name), d) :: behind) ending
      = .error e := by
  have hstep : childStep .streamed room children name d = .error e := bind_fails h _
  rw [readChildren_eq]
  exact bind_fails (foldlM_keyed_fails hbefore hstep) _

theorem readProjectFields_fails {room : Nat} {before behind : List (Token × Document)}
    {fields : ProjectFields} {key : String} {d : Document} {ending : Ending}
    (hbefore : before.foldlM (keyed (ProjectFields.step room)) ⟨none, none, none⟩ = .ok fields)
    (h : ProjectFields.step room fields key d = .error e) :
    readProjectFields room none none none (before ++ (.string (some key), d) :: behind) ending
      = .error e := by
  rw [readProjectFields_eq room ending _ ⟨none, none, none⟩]
  exact bind_fails (foldlM_keyed_fails hbefore h) _

end Entries

namespace ReadCall

variable {call inner : ReadCall} {e : ReadError}

/-- **An error of the inner call is the answer of the outer one.** -/
theorem ComesTo.fails (h : call.ComesTo inner) (he : inner.FailsWith e) : call.FailsWith e := by
  cases h with
  | @pair room first d kind hfirst rest ending =>
    show readPair .streamed room (first :: d :: rest) ending = .error e
    rw [readPair_eq, takeItem_goesOn hfirst]
    exact takeItem_fails he
  | @value room before kind d hbefore behind ending =>
    have hstep : fieldStep .streamed room (.kind kind) Field.value.key d = .error e :=
      bind_fails he _
    show readFields .streamed room .nothing _ ending = .error e
    rw [readFields_eq]
    exact bind_fails (foldlM_keyed_fails hbefore hstep) _
  | @element room before vs d hbefore behind ending =>
    have hitems : readElements .streamed room (before ++ d :: behind) ending = .error e := by
      rw [readElements_eq]
      exact bind_fails (mapM_fails hbefore he) _
    exact bind_fails hitems _
  | @child room before children d hbefore name behind ending =>
    exact bind_fails (readChildren_fails hbefore he) _
  | @entry room before children d hbefore name behind ending =>
    exact bind_fails (readChildren_fails hbefore he) _
  | @layoutItem room first d name hfirst rest ending =>
    show readLayoutItems room (first :: d :: rest) ending = .error e
    rw [readLayoutItems_eq, takeItem_goesOn hfirst]
    exact takeItem_fails he
  | @layoutVars room before name? d hbefore behind ending =>
    have hstep : LayoutFields.step room ⟨name?, none⟩ Field.vars.key d = .error e :=
      bind_fails he _
    show readLayoutFields room none none _ ending = .error e
    rw [readLayoutFields_eq room ending _ ⟨none, none⟩]
    exact bind_fails (foldlM_keyed_fails hbefore hstep) _
  | @layout room before ls d hbefore behind ending =>
    show readLayoutList room (before ++ d :: behind) ending = .error e
    rw [readLayoutList_eq]
    exact bind_fails (mapM_fails hbefore he) _
  | @projectItem room first d name hfirst rest ending =>
    show readProjectItems room (first :: d :: rest) ending = .error e
    rw [readProjectItems_eq, takeItem_goesOn hfirst]
    exact takeItem_fails he
  | @projectVars room before name? layouts? d hbefore behind ending =>
    have hstep : ProjectFields.step room ⟨name?, none, layouts?⟩ Field.vars.key d = .error e :=
      bind_fails he _
    exact readProjectFields_fails hbefore hstep
  | @layoutsItem room first second d name globals hfirst hsecond rest ending =>
    show readProjectItems room (first :: second :: d :: rest) ending = .error e
    rw [readProjectItems_eq, takeItem_goesOn hfirst, takeItem_goesOn hsecond]
    exact takeItem_fails he
  | @projectLayouts room before name? globals? d hbefore behind ending =>
    have hstep : ProjectFields.step room ⟨name?, globals?, none⟩ Field.layouts.key d
        = .error e := bind_fails he _
    exact readProjectFields_fails hbefore hstep

/-- A text that is read comes to these calls, the first of which is the text itself. -/
theorem fails_of_comesTo (h : Relation.ReflTransGen ComesTo call inner)
    (he : inner.FailsWith e) : call.FailsWith e := by
  induction h with
  | refl => exact he
  | tail _ hcomes ih => exact ih (hcomes.fails he)

end ReadCall

theorem readText_fails {α : Type} {read : Nat → Document → Except ReadError α} {text : List Char}
    {e : ReadError} (h : read nestingLimit (Contents.ofChars text).value = .error e) :
    readText read text = .error e :=
  bind_fails h _

end Json

end ScopedVars
