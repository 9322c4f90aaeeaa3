import ScopedVars.Json.Read.Project
import ScopedVars.Proofs.Json.AcceptedVariables

/-!
# `Proofs/Json/Entries` — readers that go from entry to entry

Every list and every map is read in one way: entry by entry, with something carried along, and at
the end it matters whether the bracket has come (`atEnd`). The readers say so by recursion, each for
itself. Here each of them is the fold of its step, so that what holds of a fold is proved once:

* a list is the readings of its items, one after the other (`readElements_eq` and its like);
* a map is a run of steps, and a step always begins with the key (`keyed`). What every step keeps
  holds in the end (`foldlM_keyed_keeps`);
* a record is a map whose step is one `Takes` for each of its fields (`LayoutFields.step_eq_ok` and
  `ProjectFields.step_eq_ok`).

Of the whole document the same is said by `Document.induction`, in which a list is known by its
items and a map by the values of its members.
-/

set_option autoImplicit false

namespace ScopedVars

namespace Json

/-! ## Documents -/

mutual

/-- What holds of a list when it holds of its items, and of a map when it holds of the values of its
members, holds of every document. -/
theorem Document.induction {P : Document → Prop} (leaf : ∀ token, P (.leaf token))
    (array : ∀ items ending, (∀ d ∈ items, P d) → P (.array items ending))
    (object : ∀ members ending, (∀ m ∈ members, P m.2) → P (.object members ending)) :
    ∀ d, P d
  | .leaf token => leaf token
  | .array items ending => array items ending (inductionItems leaf array object items)
  | .object members ending =>
    object members ending (inductionMembers leaf array object members)

theorem Document.inductionItems {P : Document → Prop} (leaf : ∀ token, P (.leaf token))
    (array : ∀ items ending, (∀ d ∈ items, P d) → P (.array items ending))
    (object : ∀ members ending, (∀ m ∈ members, P m.2) → P (.object members ending)) :
    ∀ items : List Document, ∀ d ∈ items, P d
  | [] => List.forall_mem_nil P
  | d :: rest =>
    List.forall_mem_cons.mpr
      ⟨induction leaf array object d, inductionItems leaf array object rest⟩

theorem Document.inductionMembers {P : Document → Prop} (leaf : ∀ token, P (.leaf token))
    (array : ∀ items ending, (∀ d ∈ items, P d) → P (.array items ending))
    (object : ∀ members ending, (∀ m ∈ members, P m.2) → P (.object members ending)) :
    ∀ members : List (Token × Document), ∀ m ∈ members, P m.2
  | [] => List.forall_mem_nil _
  | (_, d) :: rest =>
    List.forall_mem_cons.mpr
      ⟨induction leaf array object d, inductionMembers leaf array object rest⟩

end

/-! ## Brackets -/

theorem nested_eq_ok {α : Type} {room : Nat} {inside : Nat → Except ReadError α} {a : α} :
    nested room inside = .ok a ↔ ∃ inner, room = inner + 1 ∧ inside inner = .ok a := by
  cases room with
  | zero =>
    constructor
    · intro h
      cases h
    · rintro ⟨_, h, -⟩
      cases h
  | succ inner =>
    constructor
    · exact fun h => ⟨inner, rfl, h⟩
    · rintro ⟨_, h, ha⟩
      cases h
      exact ha

theorem atEnd_eq_ok {α : Type} {ending : Ending} {result : Except ReadError α} {a : α} :
    atEnd ending result = .ok a ↔ ending = .closed ∧ result = .ok a := by
  cases ending with
  | closed => exact ⟨fun h => ⟨rfl, h⟩, And.right⟩
  | cut fault =>
    constructor
    · intro h
      cases h
    · rintro ⟨h, -⟩
      cases h

theorem atListEnd_eq_ok {α : Type} {rest : List Document} {ending : Ending} {result a : α} :
    atListEnd rest ending result = .ok a ↔ rest = [] ∧ ending = .closed ∧ result = a := by
  cases rest with
  | nil =>
    refine atEnd_eq_ok.trans ?_
    constructor
    · rintro ⟨h, ha⟩
      cases ha
      exact ⟨rfl, h, rfl⟩
    · rintro ⟨-, h, rfl⟩
      exact ⟨h, rfl⟩
  | cons d rest =>
    constructor
    · intro h
      cases h
    · rintro ⟨h, -⟩
      cases h

/-! ## Going through a map -/

section Members

variable {σ : Type}

/-- One member of a map: its key, and then what is to be done under it. -/
def keyed (step : σ → String → Document → Except ReadError σ) (s : σ)
    (m : Token × Document) : Except ReadError σ := do
  let name ← keyOf m.1
  step s name m.2

variable {step : σ → String → Document → Except ReadError σ}

theorem foldlM_keyed_keeps {Holds : σ → Prop} : ∀ {members : List (Token × Document)}
    (_ : ∀ m ∈ members, ∀ s s' name, Holds s → step s name m.2 = .ok s' → Holds s') {s s' : σ},
    Holds s → members.foldlM (keyed step) s = .ok s' → Holds s'
  | [], _, s, s', hs, h => by
    cases h
    exact hs
  | m :: rest, hstep, s, s', hs, h => by
    obtain ⟨hm, hrest⟩ := List.forall_mem_cons.mp hstep
    rw [List.foldlM_cons] at h
    obtain ⟨s₁, hfirst, h⟩ := bind_eq_ok.mp h
    obtain ⟨name, -, hfirst⟩ := bind_eq_ok.mp hfirst
    exact foldlM_keyed_keeps hrest (hm s s₁ name hs hfirst) h

end Members

/-! ## The entries of a list -/

theorem readElements_eq (mode : Mode) (room : Nat) (ending : Ending) : ∀ items : List Document,
    readElements mode room items ending
      = (items.mapM (readVariable mode room) >>= fun vs => atEnd ending (.ok vs))
  | [] => rfl
  | d :: rest => by
    rw [List.mapM_cons]
    show (readVariable mode room d >>= fun v => readElements mode room rest ending >>= fun vs =>
      Except.ok (v :: vs)) = _
    rw [readElements_eq mode room ending rest]
    cases readVariable mode room d with
    | error e => rfl
    | ok v =>
      cases hvs : rest.mapM (readVariable mode room) with
      | error e => rfl
      | ok vs => cases ending <;> rfl

theorem readLayoutList_eq (room : Nat) (ending : Ending) : ∀ items : List Document,
    readLayoutList room items ending
      = (items.mapM (readLayout room) >>= fun ls => atEnd ending (.ok ls))
  | [] => rfl
  | d :: rest => by
    rw [readLayoutList, readLayoutList_eq room ending rest, List.mapM_cons]
    cases readLayout room d with
    | error e => rfl
    | ok l =>
      cases rest.mapM (readLayout room) with
      | error e => rfl
      | ok ls => cases ending <;> rfl

theorem lookThroughItems_eq (room : Nat) (ending : Ending) : ∀ items : List Document,
    lookThroughItems room items ending
      = (items.mapM (lookThrough room) >>= fun _ => atEnd ending (.ok ()))
  | [] => rfl
  | d :: rest => by
    rw [lookThroughItems, lookThroughItems_eq room ending rest, List.mapM_cons]
    cases lookThrough room d with
    | error e => rfl
    | ok _ => cases rest.mapM (lookThrough room) <;> rfl

/-! ## Fields in a list

A variable, a layout or a project that is spelled as a list has its fields in their order. Each of
them is there, or the list is too short. -/

section Fields

variable {α β : Type}

/-- Reads the next item and goes on with what comes of it. -/
def takeItem (short : ReadError) (read : Document → Except ReadError β)
    (next : β → List Document → Ending → Except ReadError α) :
    List Document → Ending → Except ReadError α
  | [], ending => atEnd ending (.error short)
  | d :: rest, ending => do
    let b ← read d
    next b rest ending

theorem takeItem_eq_ok {short : ReadError} {read : Document → Except ReadError β}
    {next : β → List Document → Ending → Except ReadError α} {items : List Document}
    {ending : Ending} {a : α} (h : takeItem short read next items ending = .ok a) :
    ∃ d rest b, items = d :: rest ∧ read d = .ok b ∧ next b rest ending = .ok a := by
  cases items with
  | nil => cases (atEnd_eq_ok.mp h).2
  | cons d rest =>
    obtain ⟨b, hb, hnext⟩ := bind_eq_ok.mp h
    exact ⟨d, rest, b, rfl, hb, hnext⟩

end Fields

/-- The end of the list of a variable: where it goes on, a held list knows how long it is. -/
def atPairEnd (mode : Mode) (v : Variable) (rest : List Document) (ending : Ending) :
    Except ReadError Variable :=
  match mode, rest with
  | .held, _ :: _ => .error (.data (.tooLong (rest.length + 2)))
  | _, _ => atListEnd rest ending v

theorem readPair_eq (mode : Mode) (room : Nat) (items : List Document) (ending : Ending) :
    readPair mode room items ending
      = takeItem (.data (.tooShort 0 .variable)) (readFirstKind mode)
          (fun kind => takeItem (.data (.tooShort 1 .variable)) (readPayload mode room kind)
            (atPairEnd mode)) items ending := by
  match items with
  | [] =>
    rw [readPair]
    rfl
  | [first] =>
    rw [readPair]
    rfl
  | first :: second :: rest =>
    rw [readPair]
    rfl

theorem readLayoutItems_eq (room : Nat) (items : List Document) (ending : Ending) :
    readLayoutItems room items ending
      = takeItem (.data (.tooShort 0 .layout)) readString
          (fun name => takeItem (.data (.tooShort 1 .layout)) (readContainer room)
            fun locals rest ending => atListEnd rest ending ⟨name, locals⟩) items ending := by
  match items with
  | [] | [_] | _ :: _ :: _ => rfl

theorem readProjectItems_eq (room : Nat) (items : List Document) (ending : Ending) :
    readProjectItems room items ending
      = takeItem (.data (.tooShort 0 .project)) readString
          (fun name => takeItem (.data (.tooShort 1 .project)) (readContainer room)
            fun globals => takeItem (.data (.tooShort 2 .project)) (readLayouts room)
              fun layouts rest ending => atListEnd rest ending ⟨name, globals, layouts⟩)
          items ending := by
  match items with
  | [] | [_] | [_, _] | _ :: _ :: _ :: _ => rfl

/-! ## The entries of a map -/

/-- What comes under a name in the map of a variable. -/
def fieldStep (mode : Mode) (room : Nat) (progress : Progress) (name : String) (d : Document) :
    Except ReadError Progress :=
  if name = Field.type.key then
    match progress with
    | .nothing => return .kind (← readKind mode room d)
    | .held read => return .whole (← read (← readKind mode room d))
    | .kind _ | .whole _ => .error (.data (.repeated .type))
  else if name = Field.value.key then
    match progress with
    | .nothing => do
      lookThrough room d
      return .held fun kind => readPayload .held room kind d
    | .kind kind => return .whole (← readPayload mode room kind d)
    | .held _ | .whole _ => .error (.data (.repeated .value))
  else do
    skip d
    return progress

/-- The variable that the map of a variable comes to. -/
def Progress.result : Progress → Except ReadError Variable
  | nothing | held _ => .error (.data (.missing .type))
  | kind _ => .error (.data (.missing .value))
  | whole v => .ok v

theorem readFields_eq (mode : Mode) (room : Nat) (ending : Ending) :
    ∀ (members : List (Token × Document)) (progress : Progress),
      readFields mode room progress members ending
        = (members.foldlM (keyed (fieldStep mode room)) progress >>= fun p => atEnd ending p.result)
  | [], progress => by cases progress <;> rfl
  | (key, d) :: rest, progress => by
    have hrest := readFields_eq mode room ending rest
    rw [List.foldlM_cons, bind_assoc]
    simp only [← hrest]
    conv_lhs => unfold readFields
    unfold keyed fieldStep
    cases keyOf key with
    | error e => rfl
    | ok name =>
      show (if name = Field.type.key then _ else if name = Field.value.key then _ else _)
        = ((if name = Field.type.key then _ else if name = Field.value.key then _ else _) >>= _)
      split
      · cases progress with
        | nothing => cases readKind mode room d <;> rfl
        | held read =>
          cases readKind mode room d with
          | error e => rfl
          | ok kind =>
            show (read kind >>= fun v => readFields mode room (.whole v) rest ending)
              = ((read kind >>= fun v => .ok (.whole v)) >>= fun p =>
                readFields mode room p rest ending)
            cases read kind <;> rfl
        | kind _ | whole _ => rfl
      · split
        · cases progress with
          | nothing => cases lookThrough room d <;> rfl
          | kind kind =>
            show (readPayload mode room kind d >>= fun v =>
                readFields mode room (.whole v) rest ending)
              = ((readPayload mode room kind d >>= fun v => .ok (.whole v)) >>= fun p =>
                readFields mode room p rest ending)
            cases readPayload mode room kind d <;> rfl
          | held _ | whole _ => rfl
        · cases skip d <;> rfl

/-- One more named variable. -/
def childStep (mode : Mode) (room : Nat) (children : List (String × Variable)) (name : String)
    (d : Document) : Except ReadError (List (String × Variable)) := do
  let v ← readVariable mode room d
  return Bindings.insert children name v

theorem readChildren_eq (mode : Mode) (room : Nat) (ending : Ending) :
    ∀ (members : List (Token × Document)) (children : List (String × Variable)),
      readChildren mode room children members ending
        = (members.foldlM (keyed (childStep mode room)) children
          >>= fun cs => atEnd ending (.ok cs))
  | [], _ => rfl
  | (key, d) :: rest, children => by
    have hrest := readChildren_eq mode room ending rest
    rw [List.foldlM_cons, bind_assoc]
    simp only [← hrest]
    conv_lhs => unfold readChildren
    unfold keyed childStep
    cases keyOf key with
    | error e => rfl
    | ok name => cases readVariable mode room d <;> rfl

/-- The names in a held map do not matter. -/
def lookStep (room : Nat) (_ : Unit) (_ : String) (d : Document) : Except ReadError Unit :=
  lookThrough room d

theorem lookThroughMembers_eq (room : Nat) (ending : Ending) :
    ∀ members : List (Token × Document),
      lookThroughMembers room members ending
        = (members.foldlM (keyed (lookStep room)) () >>= fun _ => atEnd ending (.ok ()))
  | [] => rfl
  | (key, d) :: rest => by
    have hrest := lookThroughMembers_eq room ending rest
    rw [List.foldlM_cons, bind_assoc]
    simp only [← hrest]
    conv_lhs => unfold lookThroughMembers
    unfold keyed lookStep
    cases keyOf key with
    | error e => rfl
    | ok name => cases lookThrough room d <;> rfl

/-! ## Records

A layout and a project are read field by field. Under a field's own key a member goes into the
place of the field, which has to be empty; under any other key it leaves the place alone. `Takes`
says this of one field, and a step is a `Takes` for each field of the record. -/

/-- What a member does to a field. Under the field's own key it is read, if nothing has come yet;
under any other key it leaves the field as it is. -/
inductive Takes {α : Type} (read : Document → Except ReadError α) (field key : String)
    (d : Document) : Option α → Option α → Prop where
  | comes {a : α} (hkey : key = field) (h : read d = .ok a) : Takes read field key d none (some a)
  | stays (hkey : key ≠ field) (given : Option α) : Takes read field key d given given

section Takes

variable {α σ : Type} {read : Document → Except ReadError α} {field key : String} {d : Document}
  {given given' : Option α}

theorem takes_self : Takes read key key d given given' ↔
    given = none ∧ ∃ a, read d = .ok a ∧ some a = given' := by
  constructor
  · intro h
    cases h with
    | comes _ h => exact ⟨rfl, _, h, rfl⟩
    | stays hkey => exact absurd rfl hkey
  · rintro ⟨rfl, a, h, rfl⟩
    exact .comes rfl h

theorem takes_of_ne (hkey : key ≠ field) : Takes read field key d given given' ↔
    given = given' := by
  constructor
  · intro h
    cases h with
    | comes h => exact absurd h hkey
    | stays => rfl
  · rintro rfl
    exact .stays hkey given

theorem map_eq_ok {x : Except ReadError α} {put : α → σ} {s : σ} :
    put <$> x = .ok s ↔ ∃ a, x = .ok a ∧ put a = s := by
  cases x with
  | error e => simp
  | ok a => simp

end Takes

/-- The fields of a layout that have come so far. -/
structure LayoutFields where
  name? : Option String
  locals? : Option Container

namespace LayoutFields

/-- What comes under a name in the map of a layout. -/
def step (room : Nat) (fields : LayoutFields) (name : String) (d : Document) :
    Except ReadError LayoutFields :=
  if name = Field.name.key then
    match fields.name? with
    | some _ => .error (.data (.repeated .name))
    | none => return { fields with name? := some (← readString d) }
  else if name = Field.vars.key then
    match fields.locals? with
    | some _ => .error (.data (.repeated .vars))
    | none => return { fields with locals? := some (← readContainer room d) }
  else do
    skip d
    return fields

/-- The layout that the map of a layout comes to. -/
def result : LayoutFields → Except ReadError Layout
  | ⟨none, _⟩ => .error (.data (.missing .name))
  | ⟨some _, none⟩ => .error (.data (.missing .vars))
  | ⟨some name, some locals⟩ => .ok ⟨name, locals⟩

end LayoutFields

/-- What one member does to both fields of a layout, if it can be passed over where it is none. -/
theorem LayoutFields.step_eq_ok {s s' : LayoutFields} {room : Nat} {key : String} {d : Document}
    (hskip : (∀ f ∈ [Field.name, Field.vars], key ≠ f.key) → skip d = .ok ()) :
    LayoutFields.step room s key d = .ok s' ↔
      Takes readString Field.name.key key d s.name? s'.name?
        ∧ Takes (readContainer room) Field.vars.key key d s.locals? s'.locals? := by
  obtain ⟨name?, locals?⟩ := s
  obtain ⟨name', locals'⟩ := s'
  by_cases hname : key = Field.name.key
  · subst hname
    rw [takes_self, takes_of_ne (by decide)]
    cases name? with
    | some _ => simp [LayoutFields.step]
    | none => simp [LayoutFields.step, map_eq_ok, ← and_assoc]
  · by_cases hlocals : key = Field.vars.key
    · subst hlocals
      rw [takes_self, takes_of_ne hname]
      cases locals? with
      | some _ => simp [LayoutFields.step, hname]
      | none => simp [LayoutFields.step, hname, map_eq_ok, and_left_comm]
    · rw [takes_of_ne hname, takes_of_ne hlocals]
      simp [LayoutFields.step, hname, hlocals, hskip (by simp [hname, hlocals])]

theorem readLayoutFields_eq (room : Nat) (ending : Ending) :
    ∀ (members : List (Token × Document)) (fields : LayoutFields),
      readLayoutFields room fields.name? fields.locals? members ending
        = (members.foldlM (keyed (LayoutFields.step room)) fields
          >>= fun f => atEnd ending f.result)
  | [], ⟨name?, locals?⟩ => by cases name? <;> cases locals? <;> rfl
  | (key, d) :: rest, ⟨name?, locals?⟩ => by
    have hrest := readLayoutFields_eq room ending rest
    rw [List.foldlM_cons, bind_assoc]
    simp only [← hrest]
    conv_lhs => unfold readLayoutFields
    unfold keyed LayoutFields.step
    cases keyOf key with
    | error e => rfl
    | ok field =>
      show (if field = Field.name.key then _ else if field = Field.vars.key then _ else _)
        = ((if field = Field.name.key then _ else if field = Field.vars.key then _ else _) >>= _)
      split
      · cases name? with
        | some _ => rfl
        | none => cases readString d <;> rfl
      · split
        · cases locals? with
          | some _ => rfl
          | none => cases readContainer room d <;> rfl
        · cases skip d <;> rfl

/-- The fields of a project that have come so far. -/
structure ProjectFields where
  name? : Option String
  globals? : Option Container
  layouts? : Option (List Layout)

namespace ProjectFields

/-- What comes under a name in the map of a project. -/
def step (room : Nat) (fields : ProjectFields) (name : String) (d : Document) :
    Except ReadError ProjectFields :=
  if name = Field.name.key then
    match fields.name? with
    | some _ => .error (.data (.repeated .name))
    | none => return { fields with name? := some (← readString d) }
  else if name = Field.vars.key then
    match fields.globals? with
    | some _ => .error (.data (.repeated .vars))
    | none => return { fields with globals? := some (← readContainer room d) }
  else if name = Field.layouts.key then
    match fields.layouts? with
    | some _ => .error (.data (.repeated .layouts))
    | none => return { fields with layouts? := some (← readLayouts room d) }
  else do
    skip d
    return fields

/-- The project that the map of a project comes to. -/
def result : ProjectFields → Except ReadError Project
  | ⟨none, _, _⟩ => .error (.data (.missing .name))
  | ⟨some _, none, _⟩ => .error (.data (.missing .vars))
  | ⟨some _, some _, none⟩ => .error (.data (.missing .layouts))
  | ⟨some name, some globals, some layouts⟩ => .ok ⟨name, globals, layouts⟩

end ProjectFields

/-- What one member does to the three fields of a project, likewise. -/
theorem ProjectFields.step_eq_ok {s s' : ProjectFields} {room : Nat} {key : String} {d : Document}
    (hskip : (∀ f ∈ [Field.name, Field.vars, Field.layouts], key ≠ f.key) → skip d = .ok ()) :
    ProjectFields.step room s key d = .ok s' ↔
      Takes readString Field.name.key key d s.name? s'.name?
        ∧ Takes (readContainer room) Field.vars.key key d s.globals? s'.globals?
        ∧ Takes (readLayouts room) Field.layouts.key key d s.layouts? s'.layouts? := by
  obtain ⟨name?, globals?, layouts?⟩ := s
  obtain ⟨name', globals', layouts'⟩ := s'
  by_cases hname : key = Field.name.key
  · subst hname
    rw [takes_self, takes_of_ne (by decide), takes_of_ne (by decide)]
    cases name? with
    | some _ => simp [ProjectFields.step]
    | none => simp [ProjectFields.step, map_eq_ok, ← and_assoc]
  · by_cases hglobals : key = Field.vars.key
    · subst hglobals
      rw [takes_self, takes_of_ne hname, takes_of_ne (by decide)]
      cases globals? with
      | some _ => simp [ProjectFields.step, hname]
      | none =>
        show (readContainer room d >>= fun c =>
          Except.ok (ProjectFields.mk name? (some c) layouts?)) = .ok _ ↔ _
        rw [bind_eq_ok]
        constructor
        · rintro ⟨c, hc, h⟩
          cases h
          exact ⟨rfl, ⟨rfl, c, hc, rfl⟩, rfl⟩
        · rintro ⟨rfl, ⟨-, c, hc, rfl⟩, rfl⟩
          exact ⟨c, hc, rfl⟩
    · by_cases hlayouts : key = Field.layouts.key
      · subst hlayouts
        rw [takes_self, takes_of_ne hname, takes_of_ne hglobals]
        cases layouts? with
        | some _ => simp [ProjectFields.step, hname, hglobals]
        | none => simp [ProjectFields.step, hname, hglobals, map_eq_ok, and_left_comm]
      · rw [takes_of_ne hname, takes_of_ne hglobals, takes_of_ne hlayouts]
        have hrest := hskip (by simp [hname, hglobals, hlayouts])
        simp [ProjectFields.step, hname, hglobals, hlayouts, hrest]

theorem readProjectFields_eq (room : Nat) (ending : Ending) :
    ∀ (members : List (Token × Document)) (fields : ProjectFields),
      readProjectFields room fields.name? fields.globals? fields.layouts? members ending
        = (members.foldlM (keyed (ProjectFields.step room)) fields
          >>= fun f => atEnd ending f.result)
  | [], ⟨name?, globals?, layouts?⟩ => by
    cases name? <;> cases globals? <;> cases layouts? <;> rfl
  | (key, d) :: rest, ⟨name?, globals?, layouts?⟩ => by
    have hrest := readProjectFields_eq room ending rest
    rw [List.foldlM_cons, bind_assoc]
    simp only [← hrest]
    conv_lhs => unfold readProjectFields
    unfold keyed ProjectFields.step
    cases keyOf key with
    | error e => rfl
    | ok field =>
      show (if field = Field.name.key then _ else if field = Field.vars.key then _
          else if field = Field.layouts.key then _ else _)
        = ((if field = Field.name.key then _ else if field = Field.vars.key then _
          else if field = Field.layouts.key then _ else _) >>= _)
      split
      · cases name? with
        | some _ => rfl
        | none => cases readString d <;> rfl
      · split
        · cases globals? with
          | some _ => rfl
          | none => cases readContainer room d <;> rfl
        · split
          · cases layouts? with
            | some _ => rfl
            | none => cases readLayouts room d <;> rfl
          · cases skip d <;> rfl

end Json

end ScopedVars
