import ScopedVars.Json.Assembler
import ScopedVars.Proofs.Json.Entries
import ScopedVars.Proofs.Json.Tree

/-!
# `Proofs/Json/Roles` — what the values of a text are read as

Where a value stands decides what it is read as: the value under the key `variables` of a layout is
a container, its entries are variables. A `Role` is what a value is read as while the text goes by,
and `Leads` says how a role comes about from the one around it. The decision is made when the value
begins, so all there is to decide by is a `Frame`: what stands before the value in its list or map.

Not every value has a role. What stands under an unknown key has none; nor has the value of a
variable if its type has not come yet, for it is read only after it is over.

Of a document with a role the reader knows no more than its answer. So a part of it may be replaced
by anything that gives the same answers in the role of the part (`Leads.same_array`,
`Leads.same_object`).
-/

set_option autoImplicit false

namespace ScopedVars

namespace Json

/-- What a value is read as. -/
inductive Role where
  | variable
  /-- The value of a variable whose type is known. -/
  | payload
  | container
  | layout
  | layouts
  | project
deriving DecidableEq

namespace Role

/-- The keys that mean something in the map of a role that has fields. -/
def fields? : Role → Option (List Field)
  | .variable => some [.type, .value]
  | .layout => some [.name, .vars]
  | .project => some [.name, .vars, .layouts]
  | .payload | .container | .layouts => none

/-- The key means nothing in a map with this role. -/
def Ignores (role : Role) (key : String) : Prop :=
  ∃ fields, role.fields? = some fields ∧ ∀ f ∈ fields, key ≠ f.key

end Role

/-- In a list or map with a role, what comes next has a role of its own. -/
inductive Leads : Role → Frame → Role → Prop where
  | pair (kind : Document) : Leads .variable (.item [kind]) .payload
  | value {before : List (Token × Document)}
      (htype : ∃ m ∈ before, m.1 = .string (some Field.type.key)) :
      Leads .variable (.member before (.string (some Field.value.key))) .payload
  | element (before : List Document) : Leads .payload (.item before) .variable
  | child (before : List (Token × Document)) (name : String) :
      Leads .payload (.member before (.string (some name))) .variable
  | entry (before : List (Token × Document)) (name : String) :
      Leads .container (.member before (.string (some name))) .variable
  | layoutItem (name : Document) : Leads .layout (.item [name]) .container
  | layoutVars (before : List (Token × Document)) :
      Leads .layout (.member before (.string (some Field.vars.key))) .container
  | layout (before : List Document) : Leads .layouts (.item before) .layout
  | projectItem (name : Document) : Leads .project (.item [name]) .container
  | projectVars (before : List (Token × Document)) :
      Leads .project (.member before (.string (some Field.vars.key))) .container
  | layoutsItem (globals name : Document) : Leads .project (.item [globals, name]) .layouts
  | projectLayouts (before : List (Token × Document)) :
      Leads .project (.member before (.string (some Field.layouts.key))) .layouts

/-- Within these lists and maps, the innermost first, what comes next has this role; the outermost
value has the first one. -/
inductive Reached (outermost : Role) : List Frame → Role → Prop where
  | outermost : Reached outermost [] outermost
  | inside {frame : Frame} {outer : List Frame} {role inner : Role}
      (h : Reached outermost outer role) (hleads : Leads role frame inner) :
      Reached outermost (frame :: outer) inner

/-- Two documents give the same answer in a role, whatever room there is. -/
def Role.Same : Role → Document → Document → Prop
  | .variable, d, d' => ∀ room, readVariable .streamed room d' = readVariable .streamed room d
  | .payload, d, d' =>
    ∀ room kind, readPayload .streamed room kind d' = readPayload .streamed room kind d
  | .container, d, d' => ∀ room, readContainer room d' = readContainer room d
  | .layout, d, d' => ∀ room, readLayout room d' = readLayout room d
  | .layouts, d, d' => ∀ room, readLayouts room d' = readLayouts room d
  | .project, d, d' => ∀ room, readProject room d' = readProject room d

/-! ## One entry in another's place -/

section Replacing

variable {α β : Type} {f : β → α → Except ReadError β} {a a' : α}

theorem foldlM_replace {before behind : List α} {b : β}
    (h : ∀ b', before.foldlM f b = .ok b' → f b' a' = f b' a) :
    (before ++ a' :: behind).foldlM f b = (before ++ a :: behind).foldlM f b := by
  rw [List.foldlM_append, List.foldlM_append]
  cases hbefore : before.foldlM f b with
  | error e => rfl
  | ok b' =>
    show (a' :: behind).foldlM f b' = (a :: behind).foldlM f b'
    rw [List.foldlM_cons, List.foldlM_cons, h b' hbefore]

/-- An entry that changes nothing may be there or not. -/
theorem foldlM_insert (h : ∀ b, f b a = .ok b) (before behind : List α) (b : β) :
    (before ++ a :: behind).foldlM f b = (before ++ behind).foldlM f b := by
  rw [List.foldlM_append, List.foldlM_append]
  cases before.foldlM f b with
  | error e => rfl
  | ok b' =>
    show (a :: behind).foldlM f b' = behind.foldlM f b'
    rw [List.foldlM_cons, h b']
    rfl

theorem mapM_replace {g : α → Except ReadError β} (h : g a' = g a) (before behind : List α) :
    (before ++ a' :: behind).mapM g = (before ++ a :: behind).mapM g := by
  rw [List.mapM_append, List.mapM_append, List.mapM_cons, List.mapM_cons, h]

end Replacing

/-! ## Where parts are replaced -/

section Parts

variable {role inner : Role} {d d' : Document}

theorem nested_congr {α : Type} {inside inside' : Nat → Except ReadError α}
    (h : ∀ room, inside room = inside' room) (room : Nat) :
    nested room inside = nested room inside' := by
  rw [funext h]

section Items

variable {α β : Type} {short : ReadError} {read : Document → Except ReadError β}
  {next : β → List Document → Ending → Except ReadError α} {behind : List Document}
  {ending : Ending}

theorem takeItem_replace (h : read d' = read d) :
    takeItem short read next (d' :: behind) ending
      = takeItem short read next (d :: behind) ending := by
  show (read d' >>= fun b => next b behind ending) = (read d >>= fun b => next b behind ending)
  rw [h]

theorem takeItem_replace_next {items items' : List Document}
    (h : ∀ b, next b items' ending = next b items ending) (first : Document) :
    takeItem short read next (first :: items') ending
      = takeItem short read next (first :: items) ending := by
  show (read first >>= fun b => next b items' ending)
    = (read first >>= fun b => next b items ending)
  rw [funext h]

end Items

/-- **A part of a list may be replaced** by one with the same answers in its role. -/
theorem Leads.same_array {before : List Document} (h : Leads role (.item before) inner)
    (hsame : inner.Same d d') (behind : List Document) (ending : Ending) :
    role.Same (.array (before.reverse ++ d :: behind) ending)
      (.array (before.reverse ++ d' :: behind) ending) := by
  cases h with
  | pair kind =>
    refine nested_congr fun room => ?_
    rw [readPair_eq, readPair_eq]
    exact takeItem_replace_next (fun k => takeItem_replace (hsame room k)) kind
  | element =>
    intro room kind
    cases kind with
    | array =>
      refine nested_congr (fun room => ?_) room
      rw [readElements_eq, readElements_eq, mapM_replace (hsame room)]
    | number | string | boolean | record => rfl
  | layoutItem name =>
    refine nested_congr fun room => ?_
    rw [readLayoutItems_eq, readLayoutItems_eq]
    exact takeItem_replace_next (fun _ => takeItem_replace (hsame room)) name
  | layout =>
    refine nested_congr fun room => ?_
    rw [readLayoutList_eq, readLayoutList_eq, mapM_replace (hsame room)]
  | projectItem name =>
    refine nested_congr fun room => ?_
    rw [readProjectItems_eq, readProjectItems_eq]
    exact takeItem_replace_next (fun _ => takeItem_replace (hsame room)) name
  | layoutsItem globals name =>
    refine nested_congr fun room => ?_
    rw [readProjectItems_eq, readProjectItems_eq]
    exact takeItem_replace_next
      (fun _ => takeItem_replace_next (fun _ => takeItem_replace (hsame room)) globals) name

theorem readVariable_object (mode : Mode) (room : Nat) (members : List (Token × Document))
    (ending : Ending) : readVariable mode room (.object members ending)
      = nested room fun room => members.foldlM (keyed (fieldStep mode room)) .nothing >>= fun p =>
        atEnd ending p.result :=
  nested_congr (fun room => readFields_eq mode room ending members .nothing) room

theorem readLayout_object (room : Nat) (members : List (Token × Document)) (ending : Ending) :
    readLayout room (.object members ending)
      = nested room fun room => members.foldlM (keyed (LayoutFields.step room)) ⟨none, none⟩
        >>= fun f => atEnd ending f.result :=
  nested_congr (fun room => readLayoutFields_eq room ending members ⟨none, none⟩) room

theorem readProject_object (room : Nat) (members : List (Token × Document)) (ending : Ending) :
    readProject room (.object members ending)
      = nested room fun room => members.foldlM (keyed (ProjectFields.step room)) ⟨none, none, none⟩
        >>= fun f => atEnd ending f.result :=
  nested_congr (fun room => readProjectFields_eq room ending members ⟨none, none, none⟩) room

section Replace

variable {before behind : List (Token × Document)} {ending : Ending} {room : Nat}

theorem readChildren_replace {name : String}
    (h : readVariable .streamed room d' = readVariable .streamed room d) :
    readChildren .streamed room [] (before ++ (.string (some name), d') :: behind) ending
      = readChildren .streamed room [] (before ++ (.string (some name), d) :: behind) ending := by
  rw [readChildren_eq, readChildren_eq, foldlM_replace fun children _ => ?_]
  unfold keyed childStep
  rw [h]

theorem readProject_replace {key : String} (h : ∀ room fields,
      ProjectFields.step room fields key d' = ProjectFields.step room fields key d) :
    readProject room (.object (before ++ (.string (some key), d') :: behind) ending)
      = readProject room (.object (before ++ (.string (some key), d) :: behind) ending) := by
  rw [readProject_object, readProject_object]
  refine nested_congr (fun room => ?_) room
  rw [foldlM_replace fun fields _ => ?_]
  exact h room fields

end Replace

/-- No step leads back to the beginning, and one with the type leads away from it. -/
theorem fieldStep_ne_nothing {mode : Mode} {room : Nat} {p p' : Progress} {name : String}
    {d : Document} (h : fieldStep mode room p name d = .ok p')
    (hp : p ≠ .nothing ∨ name = Field.type.key) : p' ≠ .nothing := by
  rintro rfl
  unfold fieldStep at h
  split at h
  · cases p with
    | nothing =>
      obtain ⟨kind, -, h⟩ := bind_eq_ok.mp h
      cases h
    | held read =>
      obtain ⟨kind, -, h⟩ := bind_eq_ok.mp h
      obtain ⟨v, -, h⟩ := bind_eq_ok.mp h
      cases h
    | kind _ | whole _ => cases h
  · split at h
    · cases p with
      | nothing =>
        obtain ⟨_, -, h⟩ := bind_eq_ok.mp h
        cases h
      | kind kind =>
        obtain ⟨v, -, h⟩ := bind_eq_ok.mp h
        cases h
      | held _ | whole _ => cases h
    · next htype _ =>
      obtain ⟨_, -, h⟩ := bind_eq_ok.mp h
      cases h
      exact hp.elim (fun hne => hne rfl) htype

/-- Once the type has come, the progress shows it. -/
theorem ne_nothing_of_type {mode : Mode} {room : Nat} {before : List (Token × Document)}
    (htype : ∃ m ∈ before, m.1 = .string (some Field.type.key)) {p : Progress}
    (h : before.reverse.foldlM (keyed (fieldStep mode room)) .nothing = .ok p) : p ≠ .nothing := by
  obtain ⟨⟨key, d⟩, hmem, rfl⟩ := htype
  obtain ⟨front, back, hsplit⟩ := List.append_of_mem (List.mem_reverse.mpr hmem)
  rw [hsplit, List.foldlM_append] at h
  obtain ⟨p₁, -, h⟩ := bind_eq_ok.mp h
  rw [List.foldlM_cons] at h
  obtain ⟨p₂, hstep, h⟩ := bind_eq_ok.mp h
  replace hstep : fieldStep mode room p₁ Field.type.key d = .ok p₂ := hstep
  exact @foldlM_keyed_keeps _ _ (· ≠ .nothing) back
    (fun _ _ _ _ _ hp hstep => fieldStep_ne_nothing hstep (.inl hp)) _ _
    (fieldStep_ne_nothing hstep (.inr rfl)) h

/-- A value that is not held is read as its role says, or not at all. -/
theorem fieldStep_value_congr {room : Nat} {p : Progress} (hp : p ≠ .nothing)
    (h : Role.payload.Same d d') :
    fieldStep .streamed room p Field.value.key d'
      = fieldStep .streamed room p Field.value.key d := by
  cases p with
  | nothing => exact absurd rfl hp
  | kind kind =>
    show (readPayload .streamed room kind d' >>= _) = (readPayload .streamed room kind d >>= _)
    rw [h room kind]
  | held _ | whole _ => rfl

/-- **A part of a map may be replaced** by one with the same answers in its role. -/
theorem Leads.same_object {before : List (Token × Document)} {key : Token}
    (h : Leads role (.member before key) inner) (hsame : inner.Same d d')
    (behind : List (Token × Document)) (ending : Ending) :
    role.Same (.object (before.reverse ++ (key, d) :: behind) ending)
      (.object (before.reverse ++ (key, d') :: behind) ending) := by
  cases h with
  | value htype =>
    intro room
    rw [readVariable_object, readVariable_object]
    refine nested_congr (fun room => ?_) room
    rw [foldlM_replace fun p hp => ?_]
    exact fieldStep_value_congr (ne_nothing_of_type htype hp) hsame
  | child before name =>
    intro room kind
    cases kind with
    | record =>
      refine nested_congr (fun room => ?_) room
      rw [readChildren_replace (hsame room)]
    | number | string | boolean | array => rfl
  | entry before name =>
    refine nested_congr fun room => ?_
    rw [readChildren_replace (hsame room)]
  | layoutVars =>
    intro room
    rw [readLayout_object, readLayout_object]
    refine nested_congr (fun room => ?_) room
    rw [foldlM_replace fun fields _ => ?_]
    show LayoutFields.step room fields Field.vars.key d'
      = LayoutFields.step room fields Field.vars.key d
    unfold LayoutFields.step
    rw [hsame room]
    rfl
  | projectVars =>
    intro room
    refine readProject_replace fun room fields => ?_
    unfold ProjectFields.step
    rw [hsame room]
    rfl
  | projectLayouts =>
    intro room
    refine readProject_replace fun room fields => ?_
    unfold ProjectFields.step
    rw [hsame room]
    rfl

/-- **A member that means nothing may be put in anywhere**, whatever its value is. -/
theorem Role.same_insert {key : String} (h : role.Ignores key) (u : Tree)
    (before behind : List (Token × Document)) (ending : Ending) :
    role.Same (.object (before ++ behind) ending)
      (.object (before ++ (.string (some key), u.document) :: behind) ending) := by
  obtain ⟨fields, hfields, hkey⟩ := h
  cases role with
  | payload | container | layouts => cases hfields
  | «variable» =>
    cases hfields
    intro room
    rw [readVariable_object, readVariable_object]
    refine nested_congr (fun room => ?_) room
    rw [foldlM_insert fun p => ?_]
    show fieldStep .streamed room p key u.document = .ok p
    unfold fieldStep
    rw [if_neg (hkey .type (by simp)), if_neg (hkey .value (by simp)), skip_document]
    rfl
  | layout =>
    cases hfields
    intro room
    rw [readLayout_object, readLayout_object]
    refine nested_congr (fun room => ?_) room
    rw [foldlM_insert fun fields => ?_]
    show LayoutFields.step room fields key u.document = .ok fields
    unfold LayoutFields.step
    rw [if_neg (hkey .name (by simp)), if_neg (hkey .vars (by simp)), skip_document]
    rfl
  | project =>
    cases hfields
    intro room
    rw [readProject_object, readProject_object]
    refine nested_congr (fun room => ?_) room
    rw [foldlM_insert fun fields => ?_]
    show ProjectFields.step room fields key u.document = .ok fields
    unfold ProjectFields.step
    rw [if_neg (hkey .name (by simp)), if_neg (hkey .vars (by simp)),
      if_neg (hkey .layouts (by simp)), skip_document]
    rfl

end Parts

end Json

end ScopedVars
