import ScopedVars.Proofs.Json.FieldMachines

/-!
# `Proofs/Json/FieldReports` — the fields of variables, layouts and projects

Layouts and projects are read by one sort of machine: it has a slot for each field, and a slot is
empty until its field comes. A variable is read by another sort, for its value may come before its
type and is then held back unread. Both tell their fields, so both report them in the same way
(`repeated_and_missing_fields_reported`).
-/

set_option autoImplicit false

namespace ScopedVars

namespace Json

/-! ## Layouts -/

section Layouts

variable {room : Nat}

/-- What comes first under the keys of a layout can be read. -/
structure ReadableLayout (room : Nat) (members : List (String × Document)) : Prop where
  name : ReadableUnder readString Field.name.key members
  locals : ReadableUnder (readContainer room) Field.vars.key members
  rest : RestSkipped [.name, .vars] members

/-- The layout of which these are the members. -/
structure GivesLayout (room : Nat) (members : List (String × Document)) (l : Layout) : Prop where
  name : GivenUnder readString Field.name.key members l.name
  locals : GivenUnder (readContainer room) Field.vars.key members l.locals

structure TellsLayout (room : Nat) (members : List (String × Document)) (s : LayoutFields) :
    Prop where
  name : Slot readString Field.name.key members s.name?
  locals : Slot (readContainer room) Field.vars.key members s.locals?

theorem TellsLayout.next {before : List (String × Document)} {s : LayoutFields} {key : String}
    {d : Document} (h : TellsLayout room before s)
    (hreadable : ReadableLayout room (before ++ [(key, d)]))
    (hfresh : ∀ f ∈ [Field.name, Field.vars], key = f.key → before.lookup key = none) :
    ∃ s', LayoutFields.step room s key d = .ok s'
      ∧ TellsLayout room (before ++ [(key, d)]) s' := by
  obtain ⟨name?, hnamed, hname⟩ := h.name.next hreadable.name (hfresh .name (by simp))
  obtain ⟨locals?, hlocated, hlocals⟩ := h.locals.next hreadable.locals (hfresh .vars (by simp))
  have hstep := @LayoutFields.step_eq_ok s ⟨name?, locals?⟩ room key d hreadable.rest.last
  exact ⟨_, hstep.mpr ⟨hnamed, hlocated⟩, hname, hlocals⟩

theorem TellsLayout.again {before : List (String × Document)} {s : LayoutFields} {f : Field}
    (d : Document) (h : TellsLayout room before s) (hf : f ∈ [Field.name, Field.vars])
    (hcome : (before.lookup f.key).isSome) :
    LayoutFields.step room s f.key d = .error (.data (.repeated f)) := by
  simp only [List.mem_cons, List.not_mem_nil, or_false] at hf
  rcases hf with rfl | rfl
  · obtain ⟨name, hslot⟩ := h.name.eq_some hcome
    simp [LayoutFields.step, hslot]
  · obtain ⟨locals, hslot⟩ := h.locals.eq_some hcome
    have hne : Field.vars.key ≠ Field.name.key := by decide
    simp [LayoutFields.step, hslot, hne]

/-- What the machine has in the end. -/
theorem TellsLayout.result {members : List (String × Document)} {s : LayoutFields}
    (h : TellsLayout room members s) :
    (∀ f, missing? [.name, .vars] members = some f → s.result = .error (.data (.missing f)))
      ∧ (missing? [.name, .vars] members = none → ∃ l, GivesLayout room members l
        ∧ s.result = .ok l) := by
  obtain ⟨name?, locals?⟩ := s
  rcases h.name.cases with ⟨hname, hslot⟩ | ⟨dn, name, hname, hslot, hreadName⟩
  · cases hslot
    simp [missing?, hname, LayoutFields.result]
  · cases hslot
    rcases h.locals.cases with ⟨hlocals, hslot⟩ | ⟨dl, locals, hlocals, hslot, hreadLocals⟩
    · cases hslot
      simp [missing?, hname, hlocals, LayoutFields.result]
    · cases hslot
      have hgives : GivesLayout room members ⟨name, locals⟩ :=
        ⟨⟨dn, hname, hreadName⟩, ⟨dl, hlocals, hreadLocals⟩⟩
      simp only [missing?, hname, hlocals, LayoutFields.result, List.find?_cons, List.find?_nil,
        Option.isNone_some, reduceCtorEq, false_implies, implies_true, true_and]
      exact fun _ => ⟨_, hgives, rfl⟩

theorem tellsFields_layout (room : Nat) :
    TellsFields [.name, .vars] (ReadableLayout room) (GivesLayout room) (TellsLayout room)
      ⟨none, none⟩ (LayoutFields.step room) LayoutFields.result where
  left h := ⟨h.name.left, h.locals.left, h.rest.left⟩
  initial := ⟨.none, .none⟩
  next := TellsLayout.next
  again := TellsLayout.again
  missing h := h.result.1 _
  complete h := h.result.2

end Layouts

/-! ## Projects -/

section Projects

variable {room : Nat}

/-- What comes first under the keys of a project can be read. -/
structure ReadableProject (room : Nat) (members : List (String × Document)) : Prop where
  name : ReadableUnder readString Field.name.key members
  globals : ReadableUnder (readContainer room) Field.vars.key members
  layouts : ReadableUnder (readLayouts room) Field.layouts.key members
  rest : RestSkipped [.name, .vars, .layouts] members

/-- The project of which these are the members. -/
structure GivesProject (room : Nat) (members : List (String × Document)) (p : Project) : Prop where
  name : GivenUnder readString Field.name.key members p.name
  globals : GivenUnder (readContainer room) Field.vars.key members p.globals
  layouts : GivenUnder (readLayouts room) Field.layouts.key members p.layouts

structure TellsProject (room : Nat) (members : List (String × Document)) (s : ProjectFields) :
    Prop where
  name : Slot readString Field.name.key members s.name?
  globals : Slot (readContainer room) Field.vars.key members s.globals?
  layouts : Slot (readLayouts room) Field.layouts.key members s.layouts?

theorem TellsProject.next {before : List (String × Document)} {s : ProjectFields} {key : String}
    {d : Document} (h : TellsProject room before s)
    (hreadable : ReadableProject room (before ++ [(key, d)]))
    (hfresh : ∀ f ∈ [Field.name, Field.vars, Field.layouts], key = f.key →
      before.lookup key = none) :
    ∃ s', ProjectFields.step room s key d = .ok s'
      ∧ TellsProject room (before ++ [(key, d)]) s' := by
  obtain ⟨name?, hnamed, hname⟩ := h.name.next hreadable.name (hfresh .name (by simp))
  obtain ⟨globals?, hshared, hglobals⟩ := h.globals.next hreadable.globals (hfresh .vars (by simp))
  obtain ⟨layouts?, hlisted, hlayouts⟩ :=
    h.layouts.next hreadable.layouts (hfresh .layouts (by simp))
  have hstep :=
    @ProjectFields.step_eq_ok s ⟨name?, globals?, layouts?⟩ room key d hreadable.rest.last
  exact ⟨_, hstep.mpr ⟨hnamed, hshared, hlisted⟩, hname, hglobals, hlayouts⟩

theorem TellsProject.again {before : List (String × Document)} {s : ProjectFields} {f : Field}
    (d : Document) (h : TellsProject room before s)
    (hf : f ∈ [Field.name, Field.vars, Field.layouts]) (hcome : (before.lookup f.key).isSome) :
    ProjectFields.step room s f.key d = .error (.data (.repeated f)) := by
  simp only [List.mem_cons, List.not_mem_nil, or_false] at hf
  rcases hf with rfl | rfl | rfl
  · obtain ⟨name, hslot⟩ := h.name.eq_some hcome
    simp [ProjectFields.step, hslot]
  · obtain ⟨globals, hslot⟩ := h.globals.eq_some hcome
    have hname : Field.vars.key ≠ Field.name.key := by decide
    simp [ProjectFields.step, hslot, hname]
  · obtain ⟨layouts, hslot⟩ := h.layouts.eq_some hcome
    have hname : Field.layouts.key ≠ Field.name.key := by decide
    have hglobals : Field.layouts.key ≠ Field.vars.key := by decide
    simp [ProjectFields.step, hslot, hname, hglobals]

theorem TellsProject.result {members : List (String × Document)} {s : ProjectFields}
    (h : TellsProject room members s) :
    (∀ f, missing? [.name, .vars, .layouts] members = some f →
        s.result = .error (.data (.missing f)))
      ∧ (missing? [.name, .vars, .layouts] members = none →
        ∃ p, GivesProject room members p ∧ s.result = .ok p) := by
  obtain ⟨name?, globals?, layouts?⟩ := s
  rcases h.name.cases with ⟨hname, hslot⟩ | ⟨dn, name, hname, hslot, hreadName⟩
  · cases hslot
    simp [missing?, hname, ProjectFields.result]
  · cases hslot
    rcases h.globals.cases with ⟨hglobals, hslot⟩ | ⟨dg, globals, hglobals, hslot, hreadGlobals⟩
    · cases hslot
      simp [missing?, hname, hglobals, ProjectFields.result]
    · cases hslot
      rcases h.layouts.cases with ⟨hlayouts, hslot⟩ | ⟨dl, layouts, hlayouts, hslot, hreadLayouts⟩
      · cases hslot
        simp [missing?, hname, hglobals, hlayouts, ProjectFields.result]
      · cases hslot
        have hgives : GivesProject room members ⟨name, globals, layouts⟩ :=
          ⟨⟨dn, hname, hreadName⟩, ⟨dg, hglobals, hreadGlobals⟩, ⟨dl, hlayouts, hreadLayouts⟩⟩
        simp only [missing?, hname, hglobals, hlayouts, ProjectFields.result, List.find?_cons,
          List.find?_nil, Option.isNone_some, reduceCtorEq, false_implies, implies_true, true_and]
        exact fun _ => ⟨_, hgives, rfl⟩

theorem tellsFields_project (room : Nat) :
    TellsFields [.name, .vars, .layouts] (ReadableProject room) (GivesProject room)
      (TellsProject room) ⟨none, none, none⟩ (ProjectFields.step room) ProjectFields.result where
  left h := ⟨h.name.left, h.globals.left, h.layouts.left, h.rest.left⟩
  initial := ⟨.none, .none, .none⟩
  next := TellsProject.next
  again := TellsProject.again
  missing h := h.result.1 _
  complete h := h.result.2

end Projects

/-! ## Variables -/

section Variables

variable {room : Nat}

/-- How the value of a variable is read: it is held if it comes before the type. -/
def valueMode : List (String × Document) → Mode
  | [] => .streamed
  | (key, _) :: rest =>
    if key = Field.type.key then .streamed
    else if key = Field.value.key then .held
    else valueMode rest

/-- What comes first under the keys of a variable can be read. A value that comes before its type
must also be JSON throughout. -/
structure ReadableVariable (room : Nat) (members : List (String × Document)) : Prop where
  type : ReadableUnder (readKind .streamed room) Field.type.key members
  held : ∀ d, members.lookup Field.value.key = some d → valueMode members = .held →
    lookThrough room d = .ok ()
  value : ∀ kind, GivenUnder (readKind .streamed room) Field.type.key members kind →
    ReadableUnder (readPayload (valueMode members) room kind) Field.value.key members
  rest : RestSkipped [.type, .value] members

/-- The variable of which these are the members. -/
def GivesVariable (room : Nat) (members : List (String × Document)) (v : Variable) : Prop :=
  ∃ kind, GivenUnder (readKind .streamed room) Field.type.key members kind
    ∧ GivenUnder (readPayload (valueMode members) room kind) Field.value.key members v

inductive TellsVariable (room : Nat) (members : List (String × Document)) : Progress → Prop where
  | nothing (htype : members.lookup Field.type.key = none)
      (hvalue : members.lookup Field.value.key = none) : TellsVariable room members .nothing
  | kind {kind : Kind} (hmode : valueMode members = .streamed)
      (htype : GivenUnder (readKind .streamed room) Field.type.key members kind)
      (hvalue : members.lookup Field.value.key = none) : TellsVariable room members (.kind kind)
  | held {d : Document} (hmode : valueMode members = .held)
      (htype : members.lookup Field.type.key = none)
      (hvalue : members.lookup Field.value.key = some d) :
      TellsVariable room members (.held fun kind => readPayload .held room kind d)
  | whole {v : Variable} (h : GivesVariable room members v) : TellsVariable room members (.whole v)

/-- One of the two has come. -/
def TypeOrValue (members : List (String × Document)) : Prop :=
  (members.lookup Field.type.key).isSome ∨ (members.lookup Field.value.key).isSome

/-- Once one of the two has come the mode is settled. -/
theorem valueMode_append {before : List (String × Document)} (h : TypeOrValue before)
    (behind : List (String × Document)) : valueMode (before ++ behind) = valueMode before := by
  induction before with
  | nil => rcases h with h | h <;> cases h
  | cons m rest ih =>
    obtain ⟨key, d⟩ := m
    rw [List.cons_append, valueMode, valueMode]
    split
    · rfl
    · next htype =>
      split
      · rfl
      · next hvalue =>
        refine ih ?_
        simpa [TypeOrValue, List.lookup_cons, beq_false_of_ne (Ne.symm htype),
          beq_false_of_ne (Ne.symm hvalue)] using h

/-- Before that it is settled by the next one. -/
theorem valueMode_concat {before : List (String × Document)}
    (htype : before.lookup Field.type.key = none) (hvalue : before.lookup Field.value.key = none)
    (m : String × Document) : valueMode (before ++ [m]) = valueMode [m] := by
  induction before with
  | nil => rfl
  | cons first rest ih =>
    obtain ⟨key, d⟩ := first
    have hkeytype : Field.type.key ≠ key := by
      rintro rfl
      rw [List.lookup_cons_self] at htype
      cases htype
    have hkeyvalue : Field.value.key ≠ key := by
      rintro rfl
      rw [List.lookup_cons_self] at hvalue
      cases hvalue
    rw [List.cons_append, valueMode, if_neg (Ne.symm hkeytype), if_neg (Ne.symm hkeyvalue)]
    refine ih ?_ ?_
    · simpa [List.lookup_cons, beq_false_of_ne hkeytype] using htype
    · simpa [List.lookup_cons, beq_false_of_ne hkeyvalue] using hvalue

theorem ReadableVariable.left {before behind : List (String × Document)}
    (h : ReadableVariable room (before ++ behind)) : ReadableVariable room before where
  type := h.type.left
  held := by
    intro d hd hmode
    refine h.held d (lookup_append_of_some hd) ?_
    rw [valueMode_append (.inr (by simp [hd])), hmode]
  value := by
    intro kind htype
    have hread := h.value kind (htype.append behind)
    rw [valueMode_append (.inl htype.isSome)] at hread
    exact hread.left
  rest := h.rest.left

section Next

variable {before : List (String × Document)} {s : Progress} {key : String} {d : Document}

theorem GivesVariable.typeOrValue {v : Variable} (h : GivesVariable room before v) :
    TypeOrValue before := by
  obtain ⟨kind, htype, -⟩ := h
  exact .inl htype.isSome

theorem GivesVariable.append {v : Variable} (h : GivesVariable room before v)
    (behind : List (String × Document)) : GivesVariable room (before ++ behind) v := by
  have hmode := valueMode_append h.typeOrValue behind
  obtain ⟨kind, htype, hvalue⟩ := h
  refine ⟨kind, htype.append behind, ?_⟩
  rw [hmode]
  exact hvalue.append behind

theorem TellsVariable.next_type (h : TellsVariable room before s)
    (hreadable : ReadableVariable room (before ++ [(Field.type.key, d)]))
    (hnone : before.lookup Field.type.key = none) :
    ∃ s', fieldStep .streamed room s Field.type.key d = .ok s'
      ∧ TellsVariable room (before ++ [(Field.type.key, d)]) s' := by
  have hcome := @lookup_concat_self before _ d hnone
  have hne : Field.value.key ≠ Field.type.key := by decide
  obtain ⟨kind, hkind⟩ := hreadable.type d hcome
  have htype : GivenUnder (readKind .streamed room) Field.type.key
      (before ++ [(Field.type.key, d)]) kind := ⟨d, hcome, hkind⟩
  cases h with
  | nothing _ hvalue =>
    refine ⟨.kind kind, ?_, .kind ?_ htype ?_⟩
    · simp [fieldStep, hkind]
    · rw [valueMode_concat hnone hvalue]
      rfl
    · rw [lookup_concat_ne hne]
      exact hvalue
  | @held value hmode _ hvalue =>
    -- The value has come already, and only now is it read.
    have hheld : valueMode (before ++ [(Field.type.key, d)]) = .held := by
      rw [valueMode_append (.inr (by simp [hvalue])), hmode]
    have hlater := @lookup_append_of_some before [(Field.type.key, d)] _ _ hvalue
    obtain ⟨v, hv⟩ := hreadable.value kind htype value hlater
    rw [hheld] at hv
    refine ⟨.whole v, ?_, .whole ⟨kind, htype, value, hlater, ?_⟩⟩
    · show (readKind .streamed room d >>= fun kind => readPayload .held room kind value >>= fun v =>
        Except.ok (Progress.whole v)) = .ok (.whole v)
      rw [hkind]
      show (readPayload .held room kind value >>= fun v => Except.ok (Progress.whole v)) = _
      rw [hv]
      rfl
    · rw [hheld]
      exact hv
  | kind _ htype _ =>
    have hsome := htype.isSome
    rw [hnone] at hsome
    cases hsome
  | whole hgives =>
    obtain ⟨_, htype, -⟩ := hgives
    have hsome := htype.isSome
    rw [hnone] at hsome
    cases hsome

theorem TellsVariable.next_value (h : TellsVariable room before s)
    (hreadable : ReadableVariable room (before ++ [(Field.value.key, d)]))
    (hnone : before.lookup Field.value.key = none) :
    ∃ s', fieldStep .streamed room s Field.value.key d = .ok s'
      ∧ TellsVariable room (before ++ [(Field.value.key, d)]) s' := by
  have hcome := @lookup_concat_self before _ d hnone
  have hne : Field.value.key ≠ Field.type.key := by decide
  cases h with
  | nothing htype _ =>
    -- Of a value that comes first no more is asked than to be JSON.
    have hheld : valueMode (before ++ [(Field.value.key, d)]) = .held := by
      rw [valueMode_concat htype hnone]
      rfl
    refine ⟨_, ?_, .held hheld ?_ hcome⟩
    · simp [fieldStep, hne, hreadable.held d hcome hheld]
    · rw [lookup_concat_ne (Ne.symm hne)]
      exact htype
  | @kind kind hmode htype _ =>
    have hstreamed : valueMode (before ++ [(Field.value.key, d)]) = .streamed := by
      rw [valueMode_append (.inl htype.isSome), hmode]
    have hlater := htype.append [(Field.value.key, d)]
    obtain ⟨v, hv⟩ := hreadable.value kind hlater d hcome
    rw [hstreamed] at hv
    refine ⟨.whole v, ?_, .whole ⟨kind, hlater, d, hcome, ?_⟩⟩
    · simp [fieldStep, hne, hv]
    · rw [hstreamed]
      exact hv
  | held _ _ hvalue => cases hnone.symm.trans hvalue
  | whole hgives =>
    obtain ⟨_, -, hvalue⟩ := hgives
    have hsome := hvalue.isSome
    rw [hnone] at hsome
    cases hsome

/-- What is under another key changes nothing. -/
theorem TellsVariable.keep (h : TellsVariable room before s) (htype : Field.type.key ≠ key)
    (hvalue : Field.value.key ≠ key) : TellsVariable room (before ++ [(key, d)]) s := by
  have hlookuptype := @lookup_concat_ne before _ d _ htype
  have hlookupvalue := @lookup_concat_ne before _ d _ hvalue
  cases h with
  | nothing htype hvalue => exact .nothing (hlookuptype.trans htype) (hlookupvalue.trans hvalue)
  | kind hmode htype hvalue =>
    have hmode := (valueMode_append (.inl htype.isSome) [(key, d)]).trans hmode
    exact .kind hmode (htype.append _) (hlookupvalue.trans hvalue)
  | held hmode htype hvalue =>
    have hmode := (valueMode_append (.inr (by simp [hvalue])) [(key, d)]).trans hmode
    exact .held hmode (hlookuptype.trans htype) (hlookupvalue.trans hvalue)
  | whole hgives => exact .whole (hgives.append _)

theorem TellsVariable.next (h : TellsVariable room before s)
    (hreadable : ReadableVariable room (before ++ [(key, d)]))
    (hfresh : ∀ f ∈ [Field.type, Field.value], key = f.key → before.lookup key = none) :
    ∃ s', fieldStep .streamed room s key d = .ok s'
      ∧ TellsVariable room (before ++ [(key, d)]) s' := by
  by_cases htype : key = Field.type.key
  · subst htype
    exact h.next_type hreadable (hfresh .type (by simp) rfl)
  · by_cases hvalue : key = Field.value.key
    · subst hvalue
      exact h.next_value hreadable (hfresh .value (by simp) rfl)
    · have hskip := hreadable.rest.last (by simp [htype, hvalue])
      refine ⟨s, ?_, h.keep (Ne.symm htype) (Ne.symm hvalue)⟩
      simp [fieldStep, htype, hvalue, hskip]

theorem TellsVariable.again {f : Field} (d : Document) (h : TellsVariable room before s)
    (hf : f ∈ [Field.type, Field.value]) (hcome : (before.lookup f.key).isSome) :
    fieldStep .streamed room s f.key d = .error (.data (.repeated f)) := by
  have hne : Field.value.key ≠ Field.type.key := by decide
  simp only [List.mem_cons, List.not_mem_nil, or_false] at hf
  rcases hf with rfl | rfl
  · cases h with
    | nothing htype _ | held _ htype _ =>
      rw [htype] at hcome
      cases hcome
    | kind _ _ _ | whole _ => simp [fieldStep]
  · cases h with
    | nothing _ hvalue | kind _ _ hvalue =>
      rw [hvalue] at hcome
      cases hcome
    | held _ _ _ | whole _ => simp [fieldStep, hne]

end Next

theorem TellsVariable.result {members : List (String × Document)} {s : Progress}
    (h : TellsVariable room members s) :
    (∀ f, missing? [.type, .value] members = some f → s.result = .error (.data (.missing f)))
      ∧ (missing? [.type, .value] members = none →
        ∃ v, GivesVariable room members v ∧ s.result = .ok v) := by
  cases h with
  | nothing htype _ | held _ htype _ => simp [missing?, htype, Progress.result]
  | kind _ htype hvalue =>
    obtain ⟨d, hd, -⟩ := htype
    simp [missing?, hd, hvalue, Progress.result]
  | @whole v hgives =>
    obtain ⟨kind, htype, hvalue⟩ := id hgives
    obtain ⟨dt, hdt, -⟩ := htype
    obtain ⟨d, hd, -⟩ := hvalue
    simp only [missing?, hdt, hd, Progress.result, List.find?_cons, List.find?_nil,
      Option.isNone_some, reduceCtorEq, false_implies, implies_true, true_and]
    exact fun _ => ⟨v, hgives, rfl⟩

theorem tellsFields_variable (room : Nat) :
    TellsFields [.type, .value] (ReadableVariable room) (GivesVariable room)
      (TellsVariable room) .nothing (fieldStep .streamed room) Progress.result where
  left := ReadableVariable.left
  initial := .nothing rfl rfl
  next := TellsVariable.next
  again := TellsVariable.again
  missing h := h.result.1 _
  complete h := h.result.2

end Variables

/-! ## The three readers -/

theorem reportsFields_variable (room : Nat) :
    ReportsFields [.type, .value] (ReadableVariable room) (GivesVariable room)
      fun members ending =>
        readVariable .streamed (room + 1) (.object (members.map spelled) ending) := by
  have hreports := (tellsFields_variable room).reports
  simp only [← readFields_eq] at hreports
  exact hreports

theorem reportsFields_layout (room : Nat) :
    ReportsFields [.name, .vars] (ReadableLayout room) (GivesLayout room)
      fun members ending => readLayout (room + 1) (.object (members.map spelled) ending) := by
  have hreports := (tellsFields_layout room).reports
  simp only [← readLayoutFields_eq] at hreports
  exact hreports

theorem reportsFields_project (room : Nat) :
    ReportsFields [.name, .vars, .layouts] (ReadableProject room) (GivesProject room)
      fun members ending => readProject (room + 1) (.object (members.map spelled) ending) := by
  have hreports := (tellsFields_project room).reports
  simp only [← readProjectFields_eq] at hreports
  exact hreports

/-- **Fields that come again and fields that do not come are reported exactly**, in every map that
is read as a variable, a layout or a project while the text goes by; and what is reported there is
the answer to the text, whatever the text is read as. -/
theorem repeated_and_missing_fields_reported :
    (∀ room, ReportsFields [.type, .value] (ReadableVariable room) (GivesVariable room)
      fun members ending =>
        readVariable .streamed (room + 1) (.object (members.map spelled) ending))
    ∧ (∀ room, ReportsFields [.name, .vars] (ReadableLayout room) (GivesLayout room)
      fun members ending => readLayout (room + 1) (.object (members.map spelled) ending))
    ∧ (∀ room, ReportsFields [.name, .vars, .layouts] (ReadableProject room) (GivesProject room)
      fun members ending => readProject (room + 1) (.object (members.map spelled) ending))
    ∧ ∀ (text : String) (call : ReadCall) (e : ReadError), call.FailsWith e →
      (Relation.ReflTransGen ReadCall.ComesTo
          (.variable nestingLimit (Contents.ofChars text.toList).value) call →
        Variable.ofJson text = .error e)
      ∧ (Relation.ReflTransGen ReadCall.ComesTo
          (.container nestingLimit (Contents.ofChars text.toList).value) call →
        Container.ofJson text = .error e)
      ∧ (Relation.ReflTransGen ReadCall.ComesTo
          (.layout nestingLimit (Contents.ofChars text.toList).value) call →
        Layout.ofJson text = .error e)
      ∧ (Relation.ReflTransGen ReadCall.ComesTo
          (.project nestingLimit (Contents.ofChars text.toList).value) call →
        Project.ofJson text = .error e) := by
  refine ⟨reportsFields_variable, reportsFields_layout, reportsFields_project, ?_⟩
  intro text call e he
  refine ⟨fun h => ?_, fun h => ?_, fun h => ?_, fun h => ?_⟩
  · exact readText_fails (ReadCall.fails_of_comesTo h he)
  · exact readText_fails (ReadCall.fails_of_comesTo h he)
  · exact readText_fails (ReadCall.fails_of_comesTo h he)
  · exact readText_fails (ReadCall.fails_of_comesTo h he)

/-- A value that is held is not missed, and its type is. -/
example : Variable.ofJson "\x7b\"value\":true\x7d" = .error (.data (.missing .type))
    ∧ Variable.ofJson "\x7b\"value\":true,\"value\"" = .error (.data (.repeated .value)) := by
  decide +kernel

/-- A project with a layout that has a second name. What follows the key is no JSON. -/
def secondNameText : String :=
  "\x7b\"layouts\":[\x7b\"name\":\"l\",\"name\"@"

/-- The layout, as far as it goes. -/
def secondNameMembers : List (String × Document) :=
  [(Field.name.key, .leaf (.string (some "l"))), (Field.name.key, .leaf (.flaw .stray))]

theorem comesTo_secondName :
    Relation.ReflTransGen ReadCall.ComesTo
      (.project nestingLimit (Contents.ofChars secondNameText.toList).value)
      (.layout 125 (.object (secondNameMembers.map spelled) (.cut .malformed))) := by
  have hlayouts := @ReadCall.ComesTo.projectLayouts 126 [] none none
    (.array [.object (secondNameMembers.map spelled) (.cut .malformed)] (.cut .malformed)) rfl []
    (.cut .malformed)
  have hlayout := @ReadCall.ComesTo.layout 125 [] []
    (.object (secondNameMembers.map spelled) (.cut .malformed)) rfl [] (.cut .malformed)
  exact (Relation.ReflTransGen.single hlayouts).tail hlayout

theorem readableLayout_name (room : Nat) (name : String) :
    ReadableLayout room [(Field.name.key, .leaf (.string (some name)))] where
  name := by
    intro d hd
    cases hd
    exact ⟨name, rfl⟩
  locals := by
    intro d hd
    cases hd
  rest := by
    intro m hm hkey
    cases List.mem_singleton.mp hm
    exact absurd rfl (hkey .name (by simp))

/-- A value that comes before its type. -/
theorem readableVariable_valueFirst (room : Nat) (b : Bool) :
    ReadableVariable room [(Field.value.key, .leaf (.boolean b)),
      (Field.type.key, .leaf (.string (some "boolean")))] where
  type := by
    intro d hd
    cases hd
    exact ⟨.boolean, rfl⟩
  held := by
    intro d hd _
    cases hd
    rfl
  value := by
    intro kind hkind d hd
    obtain ⟨dt, hdt, hkind⟩ := hkind
    cases hdt
    cases hkind
    cases hd
    exact ⟨.boolean b, rfl⟩
  rest := by
    intro m hm hkey
    simp only [List.mem_cons, List.not_mem_nil, or_false] at hm
    rcases hm with rfl | rfl
    · exact absurd rfl (hkey .value (by simp))
    · exact absurd rfl (hkey .type (by simp))

theorem secondName_reported :
    Once [.name, .vars] [(Field.name.key, .leaf (.string (some "l")))]
      ∧ ReadableLayout 124 [(Field.name.key, .leaf (.string (some "l")))]
      ∧ Project.ofJson secondNameText = .error (.data (.repeated .name))
      ∧ readLayout 125 (.object [(.string (some "name"), .leaf (.string (some "l")))] .closed)
        = .error (.data (.missing .vars))
      ∧ ∃ v, readVariable .streamed 1 (.object [(.string (some "value"), .leaf (.boolean true)),
          (.string (some "type"), .leaf (.string (some "boolean")))] .closed) = .ok v := by
  have honce : Once [.name, .vars] [(Field.name.key, .leaf (.string (some "l")))] := by
    unfold Once
    decide
  have hreadable := readableLayout_name 124 "l"
  have hlayout : ReadCall.FailsWith (.data (.repeated .name))
      (.layout 125 (.object (secondNameMembers.map spelled) (.cut .malformed))) :=
    (repeated_and_missing_fields_reported.2.1 124).repeated _ .name (.leaf (.flaw .stray)) []
      (.cut .malformed) (by simp) honce hreadable rfl
  have htext := repeated_and_missing_fields_reported.2.2.2 secondNameText _ _ hlayout
  have hmissing := (repeated_and_missing_fields_reported.2.1 124).missing _ .vars honce hreadable
    rfl
  have honceVariable : Once [.type, .value] [(Field.value.key, .leaf (.boolean true)),
      (Field.type.key, .leaf (.string (some "boolean")))] := by
    unfold Once
    decide
  obtain ⟨v, -, hcomplete⟩ := (repeated_and_missing_fields_reported.1 0).complete _ honceVariable
    (readableVariable_valueFirst 0 true) rfl
  exact ⟨honce, hreadable, htext.2.2.2 comesTo_secondName, hmissing, v, hcomplete⟩

end Json

end ScopedVars
