import Mathlib.Data.List.Induction
import Mathlib.Data.Option.Defs
import ScopedVars.Proofs.Json.InnerReads

/-!
# `Proofs/Json/FieldMachines` — fields that come again, and fields that do not come

A map of fields is read by a machine that goes from member to member. Each field is to come once.
What is reported otherwise is settled by the keys alone, provided that what comes first under each
key can be read: a key that comes again is reported where it does, whatever follows it; a field that
has not come is reported at the end, and of several the one that is declared first.

> `ReportsFields fields Readable Gives read`: reading a map of these fields reports so, and where
> there is nothing to report it gives what `Gives` says.

There are several machines, and they remember different things. What they have in common is that
what they remember tells what has come first under each key. A machine of which this is said
(`TellsFields`) reports its fields (`TellsFields.reports`).
-/

set_option autoImplicit false

namespace ScopedVars

namespace Json

/-! ## The members of a map -/

/-- A member with a key that is a string. -/
def spelled (m : String × Document) : Token × Document :=
  (.string (some m.1), m.2)

/-- No field comes twice. -/
def Once (fields : List Field) (members : List (String × Document)) : Prop :=
  ∀ f ∈ fields, (members.map Prod.fst).count f.key ≤ 1

/-- The first of the fields that does not come. -/
def missing? (fields : List Field) (members : List (String × Document)) : Option Field :=
  fields.find? fun f => (members.lookup f.key).isNone

/-- What stands under a key that means nothing can be passed over, as every whole value can
(`skip_document`). -/
def RestSkipped (fields : List Field) (members : List (String × Document)) : Prop :=
  ∀ m ∈ members, (∀ f ∈ fields, m.1 ≠ f.key) → skip m.2 = .ok ()

section Lookup

variable {members before behind : List (String × Document)} {key : String} {d : Document}

theorem lookup_eq_none : members.lookup key = none ↔ key ∉ members.map Prod.fst := by
  simp only [List.lookup_eq_none_iff, bne_iff_ne, List.mem_map, not_exists, not_and]
  exact forall₂_congr fun m _ => ne_comm

theorem lookup_concat_self (h : before.lookup key = none) :
    (before ++ [(key, d)]).lookup key = some d := by
  rw [List.lookup_append, h, List.lookup_cons_self]
  rfl

theorem lookup_concat_ne {other : String} (h : key ≠ other) :
    (before ++ [(other, d)]).lookup key = before.lookup key := by
  simp [List.lookup_append, List.lookup_cons, beq_false_of_ne h]

/-- What comes first stays first. -/
theorem lookup_append_of_some (h : before.lookup key = some d) :
    (before ++ behind).lookup key = some d := by
  rw [List.lookup_append, h]
  rfl

end Lookup

section Once

variable {fields : List Field} {before behind members : List (String × Document)}

theorem Once.left (h : Once fields (before ++ behind)) : Once fields before := by
  intro f hf
  have hcount := h f hf
  rw [List.map_append, List.count_append] at hcount
  omega

/-- The last member is the first one of its field. -/
theorem Once.fresh {f : Field} {d : Document} (h : Once fields (before ++ [(f.key, d)]))
    (hf : f ∈ fields) : before.lookup f.key = none := by
  have hcount := h f hf
  rw [List.map_append, List.count_append] at hcount
  simp only [List.map_cons, List.map_nil, List.count_singleton_self] at hcount
  rw [lookup_eq_none, ← List.count_eq_zero]
  omega

theorem once_concat {m : String × Document} (h : Once fields before)
    (hfresh : ∀ f ∈ fields, m.1 = f.key → before.lookup f.key = none) :
    Once fields (before ++ [m]) := by
  intro f hf
  rw [List.map_append, List.count_append]
  by_cases hkey : m.1 = f.key
  · have hnone := List.count_eq_zero.mpr (lookup_eq_none.mp (hfresh f hf hkey))
    simp [hnone, hkey]
  · simpa [hkey] using h f hf

/-- Either no field comes twice, or one of them is the first to do so. -/
theorem once_or_split (fields : List Field) (members : List (String × Document)) :
    Once fields members
      ∨ ∃ before f d behind, members = before ++ (f.key, d) :: behind ∧ f ∈ fields
        ∧ Once fields before ∧ (before.lookup f.key).isSome := by
  -- By the last member: a repetition in front of it stays the first one.
  induction members using List.reverseRecOn with
  | nil =>
    left
    intro f _
    simp
  | append_singleton before m ih =>
    rcases ih with honce | ⟨start, f, d, behind, rfl, hf, honce, hcome⟩
    · by_cases hfresh : ∀ f ∈ fields, m.1 = f.key → before.lookup f.key = none
      · left
        exact once_concat honce hfresh
      · right
        push Not at hfresh
        obtain ⟨f, hf, hkey, hcome⟩ := hfresh
        refine ⟨before, f, m.2, [], ?_, hf, honce, Option.isSome_iff_ne_none.mpr hcome⟩
        rw [← hkey]
    · right
      exact ⟨start, f, d, behind ++ [m], by simp, hf, honce, hcome⟩

end Once

/-! ## Machines that go from member to member -/

/-- **Reading a map of fields reports them.** -/
structure ReportsFields {α : Type} (fields : List Field)
    (Readable : List (String × Document) → Prop) (Gives : List (String × Document) → α → Prop)
    (read : List (String × Document) → Ending → Except ReadError α) : Prop where
  /-- A field that has come is reported where it comes again, and nothing behind its key matters. -/
  repeated : ∀ (before : List (String × Document)) (f : Field) (d : Document)
    (behind : List (String × Document)) (ending : Ending), f ∈ fields → Once fields before →
      Readable before → (before.lookup f.key).isSome →
        read (before ++ (f.key, d) :: behind) ending = .error (.data (.repeated f))
  missing : ∀ (members : List (String × Document)) (f : Field), Once fields members →
    Readable members → missing? fields members = some f →
      read members .closed = .error (.data (.missing f))
  complete : ∀ members : List (String × Document), Once fields members → Readable members →
    missing? fields members = none → ∃ a, Gives members a ∧ read members .closed = .ok a
  /-- There is no fourth case. -/
  split : ∀ members : List (String × Document), Readable members → Once fields members
    ∨ ∃ before f d behind, members = before ++ (f.key, d) :: behind ∧ f ∈ fields
      ∧ Once fields before ∧ Readable before ∧ (before.lookup f.key).isSome

/-- What a machine remembers tells what has come first under each key of a field. -/
structure TellsFields {σ α : Type} (fields : List Field)
    (Readable : List (String × Document) → Prop) (Gives : List (String × Document) → α → Prop)
    (Tells : List (String × Document) → σ → Prop) (start : σ)
    (step : σ → String → Document → Except ReadError σ) (result : σ → Except ReadError α) :
    Prop where
  left : ∀ {before behind : List (String × Document)}, Readable (before ++ behind) →
    Readable before
  initial : Tells [] start
  /-- A field that comes first, or what is none. -/
  next : ∀ {before : List (String × Document)} {s : σ} {key : String} {d : Document},
    Tells before s → Readable (before ++ [(key, d)]) →
      (∀ f ∈ fields, key = f.key → before.lookup key = none) →
        ∃ s', step s key d = .ok s' ∧ Tells (before ++ [(key, d)]) s'
  again : ∀ {before : List (String × Document)} {s : σ} {f : Field} (d : Document),
    Tells before s → f ∈ fields → (before.lookup f.key).isSome →
      step s f.key d = .error (.data (.repeated f))
  missing : ∀ {members : List (String × Document)} {s : σ} {f : Field}, Tells members s →
    missing? fields members = some f → result s = .error (.data (.missing f))
  complete : ∀ {members : List (String × Document)} {s : σ}, Tells members s →
    missing? fields members = none → ∃ a, Gives members a ∧ result s = .ok a

section Machine

variable {σ α : Type} {fields : List Field} {Readable : List (String × Document) → Prop}
  {Gives : List (String × Document) → α → Prop} {Tells : List (String × Document) → σ → Prop}
  {start : σ} {step : σ → String → Document → Except ReadError σ}
  {result : σ → Except ReadError α}

/-- A machine whose members are all right goes on to the last one. -/
theorem TellsFields.run (h : TellsFields fields Readable Gives Tells start step result)
    (members : List (String × Document)) (honce : Once fields members)
    (hreadable : Readable members) :
    ∃ s, (members.map spelled).foldlM (keyed step) start = .ok s ∧ Tells members s := by
  induction members using List.reverseRecOn with
  | nil => exact ⟨start, rfl, h.initial⟩
  | append_singleton before m ih =>
    obtain ⟨s, hrun, htells⟩ := ih honce.left (h.left hreadable)
    obtain ⟨key, d⟩ := m
    have hfresh : ∀ f ∈ fields, key = f.key → before.lookup key = none := by
      rintro f hf rfl
      exact honce.fresh hf
    obtain ⟨s', hstep, htells⟩ := h.next htells hreadable hfresh
    refine ⟨s', ?_, htells⟩
    rw [List.map_append, List.foldlM_append, hrun]
    show [spelled (key, d)].foldlM (keyed step) s = .ok s'
    rw [List.foldlM_cons]
    show (step s key d >>= fun s => Except.ok s) = .ok s'
    rw [hstep]
    rfl

theorem TellsFields.reports (h : TellsFields fields Readable Gives Tells start step result) :
    ReportsFields fields Readable Gives fun members ending =>
      (members.map spelled).foldlM (keyed step) start >>= fun s => atEnd ending (result s) where
  repeated := by
    intro before f d behind ending hf honce hreadable hcome
    obtain ⟨s, hrun, htells⟩ := h.run before honce hreadable
    rw [List.map_append, List.map_cons]
    exact bind_fails (foldlM_keyed_fails hrun (h.again d htells hf hcome)) _
  missing := by
    intro members f honce hreadable hmissing
    obtain ⟨s, hrun, htells⟩ := h.run members honce hreadable
    rw [hrun]
    exact h.missing htells hmissing
  complete := by
    intro members honce hreadable hcomplete
    obtain ⟨s, hrun, htells⟩ := h.run members honce hreadable
    obtain ⟨a, hgives, hresult⟩ := h.complete htells hcomplete
    refine ⟨a, hgives, ?_⟩
    rw [hrun]
    exact hresult
  split := by
    intro members hreadable
    rcases once_or_split fields members with honce | ⟨before, f, d, behind, rfl, hf, honce, hcome⟩
    · exact .inl honce
    · exact .inr ⟨before, f, d, behind, rfl, hf, honce, h.left hreadable, hcome⟩

end Machine

/-! ## What stands under a key -/

section Slots

variable {α : Type}

/-- What comes first under the key can be read. -/
def ReadableUnder (read : Document → Except ReadError α) (key : String)
    (members : List (String × Document)) : Prop :=
  ∀ d, members.lookup key = some d → ∃ a, read d = .ok a

/-- What comes first under the key is read as this. -/
def GivenUnder (read : Document → Except ReadError α) (key : String)
    (members : List (String × Document)) (a : α) : Prop :=
  ∃ d, members.lookup key = some d ∧ read d = .ok a

/-- What has come under the key so far has been read. -/
def Slot (read : Document → Except ReadError α) (key : String)
    (members : List (String × Document)) (slot : Option α) : Prop :=
  Option.Rel (fun d a => read d = .ok a) (members.lookup key) slot

variable {read : Document → Except ReadError α} {key other : String}
  {members before behind : List (String × Document)} {d : Document} {slot : Option α}

theorem ReadableUnder.left (h : ReadableUnder read key (before ++ behind)) :
    ReadableUnder read key before := by
  intro d hd
  exact h d (lookup_append_of_some hd)

theorem GivenUnder.append {a : α} (h : GivenUnder read key before a)
    (behind : List (String × Document)) : GivenUnder read key (before ++ behind) a := by
  obtain ⟨d, hd, hread⟩ := h
  exact ⟨d, lookup_append_of_some hd, hread⟩

theorem GivenUnder.isSome {a : α} (h : GivenUnder read key members a) :
    (members.lookup key).isSome := by
  obtain ⟨d, hd, -⟩ := h
  rw [hd]
  rfl

theorem RestSkipped.left {fields : List Field} (h : RestSkipped fields (before ++ behind)) :
    RestSkipped fields before := by
  intro m hm
  exact h m (List.mem_append_left behind hm)

theorem RestSkipped.last {fields : List Field} (h : RestSkipped fields (before ++ [(key, d)]))
    (hkey : ∀ f ∈ fields, key ≠ f.key) : skip d = .ok () :=
  h (key, d) (by simp) hkey

/-- A slot is empty, or its member has come. -/
theorem Slot.cases (h : Slot read key members slot) :
    members.lookup key = none ∧ slot = none
      ∨ ∃ d a, members.lookup key = some d ∧ slot = some a ∧ read d = .ok a := by
  unfold Slot at h
  generalize members.lookup key = d? at h
  cases h with
  | none => exact .inl ⟨rfl, rfl⟩
  | some h => exact .inr ⟨_, _, rfl, rfl, h⟩

theorem Slot.eq_none (h : Slot read key members slot) (hnone : members.lookup key = none) :
    slot = none := by
  rcases h.cases with ⟨-, hslot⟩ | ⟨d, a, hlookup, -, -⟩
  · exact hslot
  · cases hnone.symm.trans hlookup

theorem Slot.eq_some (h : Slot read key members slot) (hcome : (members.lookup key).isSome) :
    ∃ a, slot = some a := by
  rcases h.cases with ⟨hlookup, -⟩ | ⟨d, a, -, hslot, -⟩
  · rw [hlookup] at hcome
    cases hcome
  · exact ⟨a, hslot⟩

theorem Slot.keep (h : Slot read key before slot) (hne : key ≠ other) :
    Slot read key (before ++ [(other, d)]) slot := by
  unfold Slot
  rw [lookup_concat_ne hne]
  exact h

theorem Slot.fill (hnone : before.lookup key = none) {a : α} (hread : read d = .ok a) :
    Slot read key (before ++ [(key, d)]) (some a) := by
  unfold Slot
  rw [lookup_concat_self hnone]
  exact .some hread

/-- Where a field comes once at most, a member that can be read is taken into its slot. -/
theorem Slot.next (h : Slot read key before slot)
    (hreadable : ReadableUnder read key (before ++ [(other, d)]))
    (hfresh : other = key → before.lookup other = none) :
    ∃ slot', Takes read key other d slot slot' ∧ Slot read key (before ++ [(other, d)]) slot' := by
  by_cases hkey : other = key
  · subst hkey
    have hnone := hfresh rfl
    obtain ⟨a, hread⟩ := hreadable d (lookup_concat_self hnone)
    rw [h.eq_none hnone]
    exact ⟨some a, .comes rfl hread, .fill hnone hread⟩
  · exact ⟨slot, .stays hkey slot, h.keep (Ne.symm hkey)⟩

end Slots

end Json

end ScopedVars
