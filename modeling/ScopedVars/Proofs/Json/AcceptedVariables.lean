import ScopedVars.Json.Read.Variable
import ScopedVars.Proofs.Json.Denotes

/-!
# `Proofs/Json/AcceptedVariables` — which trees are read as variables

A reader goes through a map from its beginning and stops at the first fault. The relation it is
measured by (`Proofs/Json/Denotes`) knows no beginning. What joins them is one lemma for each state
the reader can be in, that says what the *rest* of the map has to hold (`readFields_nothing_iff` and
its like): an induction over the members, in which nothing is said yet of what the fields denote.

After that the induction is on the room. Two brackets lie between a variable and the variables in
it, one of the variable and one of its payload, so the statement for a variable and the one for a
payload take turns (`variable_payload_iff`).
-/

set_option autoImplicit false

namespace ScopedVars

namespace Json

/-! ## Success, step by step -/

theorem bind_eq_ok {α β : Type} {x : Except ReadError α} {f : α → Except ReadError β} {b : β} :
    (x >>= f) = .ok b ↔ ∃ a, x = .ok a ∧ f a = .ok b := by
  cases x with
  | error e =>
    constructor
    · intro h
      cases h
    · rintro ⟨a, h, -⟩
      cases h
  | ok a =>
    constructor
    · exact fun h => ⟨a, rfl, h⟩
    · rintro ⟨a', h, hb⟩
      cases h
      exact hb

theorem skip_document (t : Tree) : skip t.document = .ok () := by
  cases t <;> rw [Tree.document] <;> rfl

theorem kindOf_eq_ok {word : String} {kind : Kind} :
    kindOf word = .ok kind ↔ kindOfWord? word = some kind := by
  unfold kindOf
  constructor
  · intro h
    split at h
    next k hk =>
      cases h
      exact hk
    next => cases h
  · intro h
    rw [h]

mutual

/-- A tree within the limits has no fault as JSON, so looking through it finds none. -/
theorem lookThrough_document : ∀ (t : Tree) {room : Nat}, t.Within room →
    lookThrough room t.document = .ok ()
  | .null, _, _ => by rw [Tree.document, lookThrough]; rfl
  | .boolean _, _, _ => by rw [Tree.document, lookThrough]; rfl
  | .string _, _, _ => by rw [Tree.document, lookThrough]; rfl
  | .number n, _, h => by
    obtain ⟨x, hx⟩ := Option.isSome_iff_exists.mp h.2
    have hfound : ∃ f, (Token.number n).found = .ok f := by
      simp only [Token.found, hx]
      cases n.integer? with
      | none => exact ⟨_, rfl⟩
      | some i => exact ⟨_, rfl⟩
    obtain ⟨f, hf⟩ := hfound
    rw [Tree.document, lookThrough, hf]
  | .array items, _, h => by
    obtain ⟨room, rfl, hitems⟩ := h.items
    rw [Tree.document, lookThrough]
    exact lookThroughItems_documents items hitems
  | .object members, _, h => by
    obtain ⟨room, rfl, hmembers⟩ := h.members
    rw [Tree.document, lookThrough]
    exact lookThroughMembers_documents members hmembers

theorem lookThroughItems_documents : ∀ (items : List Tree) {room : Nat},
    (∀ t ∈ items, t.Within room) →
      lookThroughItems room (itemDocuments items) .closed = .ok ()
  | [], _, _ => by rw [itemDocuments, lookThroughItems]; rfl
  | t :: rest, _, h => by
    obtain ⟨ht, hrest⟩ := List.forall_mem_cons.mp h
    rw [itemDocuments, lookThroughItems, lookThrough_document t ht]
    exact lookThroughItems_documents rest hrest

theorem lookThroughMembers_documents : ∀ (members : List (String × Tree)) {room : Nat},
    (∀ m ∈ members, m.2.Within room) →
      lookThroughMembers room (memberDocuments members) .closed = .ok ()
  | [], _, _ => by rw [memberDocuments, lookThroughMembers]; rfl
  | (key, t) :: rest, _, h => by
    obtain ⟨ht, hrest⟩ := List.forall_mem_cons.mp h
    rw [memberDocuments, lookThroughMembers, lookThrough_document t ht]
    exact lookThroughMembers_documents rest hrest

end

/-! ## Kinds -/

theorem readNull_iff {t : Tree} : readNull t.document = .ok () ↔ t = .null := by
  cases t with
  | null => exact ⟨fun _ => rfl, fun _ => by rw [Tree.document]; rfl⟩
  | boolean _ | number _ | string _ | array _ | object _ =>
    rw [Tree.document]
    constructor
    · intro h
      cases h
    · intro h
      cases h

/-- In the text: the word of the kind, or a map of that word alone, to null. -/
theorem readStreamedKind_iff {room : Nat} {t : Tree} {kind : Kind} (hwithin : t.Within room) :
    readStreamedKind room t.document = .ok kind ↔ SpelledKind .field .streamed t kind := by
  constructor
  · intro h
    cases t with
    | null | boolean _ | number _ | array _ =>
      rw [Tree.document] at h
      cases h
    | string word =>
      rw [Tree.document] at h
      exact .word (kindOf_eq_ok.mp h)
    | object members =>
      obtain ⟨inner, rfl, -⟩ := hwithin.members
      rw [Tree.document] at h
      match members with
      | [] => cases h
      | (word, t) :: rest =>
        obtain ⟨k, hk, h⟩ := bind_eq_ok.mp h
        obtain ⟨_, hnull, h⟩ := bind_eq_ok.mp h
        cases readNull_iff.mp hnull
        match rest with
        | [] =>
          cases h
          exact .map (kindOf_eq_ok.mp hk)
        | _ :: _ => cases h
  · intro h
    cases h with
    | word h =>
      rw [Tree.document]
      exact kindOf_eq_ok.mpr h
    | map h =>
      obtain ⟨inner, rfl, -⟩ := hwithin.members
      exact bind_eq_ok.mpr ⟨kind, kindOf_eq_ok.mpr h, bind_eq_ok.mpr ⟨(), rfl, rfl⟩⟩

/-- In what is held: the map may be to an empty map as well. -/
theorem readHeldKind_iff {t : Tree} {kind : Kind} :
    readHeldKind t.document = .ok kind ↔ SpelledKind .field .held t kind := by
  constructor
  · intro h
    cases t with
    | null | boolean _ | number _ | array _ =>
      rw [Tree.document] at h
      cases h
    | string word =>
      rw [Tree.document] at h
      exact .word (kindOf_eq_ok.mp h)
    | object members =>
      rw [Tree.document] at h
      match members with
      | [] => cases h
      | _ :: _ :: _ => cases h
      | [(word, t)] =>
        obtain ⟨k, hk, h⟩ := bind_eq_ok.mp h
        have hword := kindOf_eq_ok.mp hk
        cases t with
        | object members =>
          match members with
          | [] =>
            cases h
            exact .emptyMap hword
          | _ :: _ => cases h
        | null =>
          cases h
          exact .map hword
        | boolean _ | number _ | string _ | array _ => cases h
  · intro h
    cases h with
    | word h =>
      rw [Tree.document]
      exact kindOf_eq_ok.mpr h
    | map h => exact bind_eq_ok.mpr ⟨kind, kindOf_eq_ok.mpr h, rfl⟩
    | emptyMap h => exact bind_eq_ok.mpr ⟨kind, kindOf_eq_ok.mpr h, rfl⟩

theorem readKind_iff {mode : Mode} {room : Nat} {t : Tree} {kind : Kind} (h : t.Within room) :
    readKind mode room t.document = .ok kind ↔ SpelledKind .field mode t kind := by
  cases mode with
  | streamed => exact readStreamedKind_iff h
  | held => exact readHeldKind_iff

theorem readFirstKind_iff {mode : Mode} {t : Tree} {kind : Kind} :
    readFirstKind mode t.document = .ok kind ↔ SpelledKind .head mode t kind := by
  constructor
  · intro h
    cases t with
    | null | boolean _ | array _ | object _ =>
      rw [Tree.document] at h
      cases h
    | string word =>
      rw [Tree.document] at h
      exact .word (kindOf_eq_ok.mp h)
    | number n =>
      rw [Tree.document] at h
      simp only [readFirstKind] at h
      split at h
      next i hn =>
        split at h
        next k hk =>
          cases h
          exact .index hn hk
        next => cases h
      next => cases h
  · intro h
    cases h with
    | word h =>
      rw [Tree.document]
      exact kindOf_eq_ok.mpr h
    | index hn hi =>
      rw [Tree.document]
      simp only [readFirstKind, hn, hi]

/-! ## The fields of a variable

One lemma for each way in which the reader can go on, and then one for each state that says what is
still to come. -/

section Fields

variable {mode : Mode} {room : Nat}

theorem readFields_other {progress : Progress} {key : String} {t : Tree}
    {rest : List (String × Tree)} (htype : key ≠ Field.type.key) (hvalue : key ≠ Field.value.key) :
    readFields mode room progress (memberDocuments ((key, t) :: rest)) .closed
      = readFields mode room progress (memberDocuments rest) .closed := by
  show (if key = Field.type.key then _ else if key = Field.value.key then _ else _) = _
  rw [if_neg htype, if_neg hvalue, skip_document]
  rfl

theorem readFields_type (progress : Progress) (t : Tree) (rest : List (String × Tree)) :
    readFields mode room progress (memberDocuments ((Field.type.key, t) :: rest)) .closed
      = match progress with
        | .nothing => do
          let kind ← readKind mode room t.document
          readFields mode room (.kind kind) (memberDocuments rest) .closed
        | .held read => do
          let kind ← readKind mode room t.document
          let v ← read kind
          readFields mode room (.whole v) (memberDocuments rest) .closed
        | .kind _ | .whole _ => .error (.data (.repeated .type)) := by
  cases progress <;> rfl

theorem readFields_value (progress : Progress) (t : Tree) (rest : List (String × Tree)) :
    readFields mode room progress (memberDocuments ((Field.value.key, t) :: rest)) .closed
      = match progress with
        | .nothing => do
          lookThrough room t.document
          readFields mode room (.held fun kind => readPayload .held room kind t.document)
            (memberDocuments rest) .closed
        | .kind kind => do
          let v ← readPayload mode room kind t.document
          readFields mode room (.whole v) (memberDocuments rest) .closed
        | .held _ | .whole _ => .error (.data (.repeated .value)) := by
  cases progress <;> rfl

/-- The map of a variable, from its end: before what is there comes the type, or the value, or
something that does not matter. -/
@[elab_as_elim]
theorem fieldsInduction {P : List (String × Tree) → Prop} (nil : P [])
    (type : ∀ t rest, P rest → P ((Field.type.key, t) :: rest))
    (value : ∀ t rest, P rest → P ((Field.value.key, t) :: rest))
    (other : ∀ key t rest, key ≠ Field.type.key → key ≠ Field.value.key → P rest →
      P ((key, t) :: rest)) (members : List (String × Tree)) : P members := by
  induction members with
  | nil => exact nil
  | cons head rest ih =>
    obtain ⟨key, t⟩ := head
    by_cases htype : key = Field.type.key
    · subst htype
      exact type t rest ih
    · by_cases hvalue : key = Field.value.key
      · subst hvalue
        exact value t rest ih
      · exact other key t rest htype hvalue ih

/-- A whole variable must not see another field of its own. -/
theorem readFields_whole_iff {v w : Variable} {members : List (String × Tree)} :
    readFields mode room (.whole v) (memberDocuments members) .closed = .ok w ↔
      valuesOf Field.type.key members = [] ∧ valuesOf Field.value.key members = [] ∧ v = w := by
  induction members using fieldsInduction with
  | nil =>
    rw [memberDocuments, readFields]
    constructor
    · intro h
      cases h
      exact ⟨rfl, rfl, rfl⟩
    · rintro ⟨-, -, rfl⟩
      rfl
  | type t rest _ =>
    rw [readFields_type, valuesOf_cons_self]
    exact ⟨fun h => (by cases h), fun h => by cases h.1⟩
  | value t rest _ =>
    rw [readFields_value, valuesOf_cons_self Field.value.key]
    exact ⟨fun h => (by cases h), fun h => by cases h.2.1⟩
  | other key t rest htype hvalue ih =>
    rw [readFields_other htype hvalue, valuesOf_cons_of_ne htype, valuesOf_cons_of_ne hvalue]
    exact ih

theorem readFields_kind_iff {kind : Kind} {w : Variable} {members : List (String × Tree)} :
    readFields mode room (.kind kind) (memberDocuments members) .closed = .ok w ↔
      valuesOf Field.type.key members = [] ∧ ∃ payload,
        valuesOf Field.value.key members = [payload]
          ∧ readPayload mode room kind payload.document = .ok w := by
  induction members using fieldsInduction with
  | nil =>
    rw [memberDocuments, readFields]
    exact ⟨fun h => (by cases h), fun ⟨_, _, h, _⟩ => by cases h⟩
  | type t rest _ =>
    rw [readFields_type, valuesOf_cons_self]
    exact ⟨fun h => (by cases h), fun h => by cases h.1⟩
  | value t rest _ =>
    rw [readFields_value, valuesOf_cons_self Field.value.key,
      valuesOf_cons_of_ne (by decide : Field.value.key ≠ Field.type.key)]
    constructor
    · intro h
      obtain ⟨v, hv, h⟩ := bind_eq_ok.mp h
      obtain ⟨hnotype, hnovalue, rfl⟩ := readFields_whole_iff.mp h
      exact ⟨hnotype, t, by rw [hnovalue], hv⟩
    · rintro ⟨hnotype, payload, hpayload, h⟩
      obtain ⟨rfl, hnovalue⟩ := List.cons.inj hpayload
      exact bind_eq_ok.mpr ⟨w, h, readFields_whole_iff.mpr ⟨hnotype, hnovalue, rfl⟩⟩
  | other key t rest htype hvalue ih =>
    rw [readFields_other htype hvalue, valuesOf_cons_of_ne htype, valuesOf_cons_of_ne hvalue]
    exact ih

theorem readFields_held_iff {read : Kind → Except ReadError Variable} {w : Variable}
    {members : List (String × Tree)} :
    readFields mode room (.held read) (memberDocuments members) .closed = .ok w ↔
      valuesOf Field.value.key members = [] ∧ ∃ kindTree kind,
        valuesOf Field.type.key members = [kindTree]
          ∧ readKind mode room kindTree.document = .ok kind ∧ read kind = .ok w := by
  induction members using fieldsInduction with
  | nil =>
    rw [memberDocuments, readFields]
    exact ⟨fun h => (by cases h), fun ⟨_, _, _, h, _⟩ => by cases h⟩
  | type t rest _ =>
    rw [readFields_type, valuesOf_cons_self Field.type.key,
      valuesOf_cons_of_ne (by decide : Field.type.key ≠ Field.value.key)]
    constructor
    · intro h
      obtain ⟨kind, hkind, h⟩ := bind_eq_ok.mp h
      obtain ⟨v, hv, h⟩ := bind_eq_ok.mp h
      obtain ⟨hnotype, hnovalue, rfl⟩ := readFields_whole_iff.mp h
      exact ⟨hnovalue, t, kind, by rw [hnotype], hkind, hv⟩
    · rintro ⟨hnovalue, kindTree, kind, htree, hkind, h⟩
      obtain ⟨rfl, hnotype⟩ := List.cons.inj htree
      exact bind_eq_ok.mpr ⟨kind, hkind, bind_eq_ok.mpr
        ⟨w, h, readFields_whole_iff.mpr ⟨hnotype, hnovalue, rfl⟩⟩⟩
  | value t rest _ =>
    rw [readFields_value, valuesOf_cons_self Field.value.key]
    exact ⟨fun h => (by cases h), fun h => by cases h.1⟩
  | other key t rest htype hvalue ih =>
    rw [readFields_other htype hvalue, valuesOf_cons_of_ne htype, valuesOf_cons_of_ne hvalue]
    exact ih

/-- **The map of a variable**: type and value once each, in either order. Which of them comes first
decides how the value is read, and nothing else. -/
theorem readFields_nothing_iff {w : Variable} {members : List (String × Tree)}
    (hwithin : ∀ m ∈ members, m.2.Within room) :
    readFields mode room .nothing (memberDocuments members) .closed = .ok w ↔
      ∃ kindTree payload kind, valuesOf Field.type.key members = [kindTree]
        ∧ valuesOf Field.value.key members = [payload]
        ∧ readKind mode room kindTree.document = .ok kind
        ∧ readPayload (payloadMode mode members) room kind payload.document = .ok w := by
  induction members using fieldsInduction with
  | nil =>
    rw [memberDocuments, readFields]
    exact ⟨fun h => (by cases h), fun ⟨_, _, _, h, _⟩ => by cases h⟩
  | type t rest _ =>
    -- The value will be read where it stands, in the mode of the text around.
    rw [readFields_type, valuesOf_cons_self Field.type.key,
      valuesOf_cons_of_ne (by decide : Field.type.key ≠ Field.value.key)]
    show _ ↔ ∃ kindTree payload kind, _ ∧ _ ∧ _ ∧ readPayload mode room kind _ = .ok w
    constructor
    · intro h
      obtain ⟨kind, hkind, h⟩ := bind_eq_ok.mp h
      obtain ⟨hnotype, payload, hpayload, h⟩ := readFields_kind_iff.mp h
      exact ⟨t, payload, kind, by rw [hnotype], hpayload, hkind, h⟩
    · rintro ⟨kindTree, payload, kind, htree, hpayload, hkind, h⟩
      obtain ⟨rfl, hnotype⟩ := List.cons.inj htree
      exact bind_eq_ok.mpr ⟨kind, hkind,
        readFields_kind_iff.mpr ⟨hnotype, payload, hpayload, h⟩⟩
  | value t rest _ =>
    -- The value comes first: it is looked through for faults, and held.
    have ht : t.Within room := hwithin _ List.mem_cons_self
    rw [readFields_value, valuesOf_cons_self Field.value.key,
      valuesOf_cons_of_ne (by decide : Field.value.key ≠ Field.type.key)]
    show _ ↔ ∃ kindTree payload kind, _ ∧ _ ∧ _ ∧ readPayload .held room kind _ = .ok w
    constructor
    · intro h
      obtain ⟨_, -, h⟩ := bind_eq_ok.mp h
      obtain ⟨hnovalue, kindTree, kind, htree, hkind, h⟩ := readFields_held_iff.mp h
      exact ⟨kindTree, t, kind, htree, by rw [hnovalue], hkind, h⟩
    · rintro ⟨kindTree, payload, kind, htree, hpayload, hkind, h⟩
      obtain ⟨rfl, hnovalue⟩ := List.cons.inj hpayload
      exact bind_eq_ok.mpr ⟨(), lookThrough_document t ht,
        readFields_held_iff.mpr ⟨hnovalue, kindTree, kind, htree, hkind, h⟩⟩
  | other key t rest htype hvalue ih =>
    have hmode : payloadMode mode ((key, t) :: rest) = payloadMode mode rest := by
      unfold payloadMode
      rw [valueFirst, if_neg htype, if_neg hvalue]
    rw [readFields_other htype hvalue, valuesOf_cons_of_ne htype, valuesOf_cons_of_ne hvalue,
      hmode]
    exact ih fun m hm => hwithin m (List.mem_cons_of_mem _ hm)

end Fields

/-! ## Variables -/

theorem readElements_iff {mode : Mode} {room : Nat} : ∀ {items : List Tree},
    (∀ t ∈ items, ∀ v,
      readVariable mode room t.document = .ok v ↔ DenotesVariable SpelledKind mode t v) →
    ∀ {elements : List Variable},
      readElements mode room (itemDocuments items) .closed = .ok elements
        ↔ DenotesItems SpelledKind mode items elements
  | [], _, elements => by
    rw [itemDocuments, readElements]
    constructor
    · intro h
      cases h
      exact .nil
    · intro h
      cases h
      rfl
  | t :: rest, hvariable, elements => by
    obtain ⟨ht, hrest⟩ := List.forall_mem_cons.mp hvariable
    rw [itemDocuments, readElements]
    constructor
    · intro h
      obtain ⟨v, hv, h⟩ := bind_eq_ok.mp h
      obtain ⟨vs, hvs, h⟩ := bind_eq_ok.mp h
      cases h
      exact .cons ((ht v).mp hv) ((readElements_iff hrest).mp hvs)
    · intro h
      cases h with
      | @cons _ _ v _ vs hv hvs =>
        exact bind_eq_ok.mpr ⟨v, (ht v).mpr hv,
          bind_eq_ok.mpr ⟨vs, (readElements_iff hrest).mpr hvs, rfl⟩⟩

theorem readChildren_iff {mode : Mode} {room : Nat} : ∀ {members : List (String × Tree)},
    (∀ m ∈ members, ∀ v,
      readVariable mode room m.2.document = .ok v ↔ DenotesVariable SpelledKind mode m.2 v) →
    ∀ {before children : List (String × Variable)},
      readChildren mode room before (memberDocuments members) .closed = .ok children
        ↔ ∃ entries, DenotesMembers SpelledKind mode members entries
          ∧ entries.foldl (fun b e => Bindings.insert b e.1 e.2) before = children
  | [], _, before, children => by
    rw [memberDocuments, readChildren]
    constructor
    · intro h
      cases h
      exact ⟨[], .nil, rfl⟩
    · rintro ⟨entries, h, hfold⟩
      cases h
      exact congrArg Except.ok hfold
  | (name, t) :: rest, hvariable, before, children => by
    obtain ⟨ht, hrest⟩ := List.forall_mem_cons.mp hvariable
    have hnext : readChildren mode room before (memberDocuments ((name, t) :: rest)) .closed
        = (readVariable mode room t.document >>= fun v =>
          readChildren mode room (Bindings.insert before name v) (memberDocuments rest)
            .closed) := rfl
    rw [hnext]
    constructor
    · intro h
      obtain ⟨v, hv, h⟩ := bind_eq_ok.mp h
      obtain ⟨entries, hentries, hfold⟩ := (readChildren_iff hrest).mp h
      exact ⟨(name, v) :: entries, .cons ((ht v).mp hv) hentries, hfold⟩
    · rintro ⟨entries, h, hfold⟩
      cases h with
      | @cons _ _ _ v _ entries hv hentries =>
        exact bind_eq_ok.mpr ⟨v, (ht v).mpr hv,
          (readChildren_iff hrest).mpr ⟨entries, hentries, hfold⟩⟩

/-- The children of a whole map are what its members make. -/
theorem readChildren_nil_iff {mode : Mode} {room : Nat} {members : List (String × Tree)}
    {children : List (String × Variable)}
    (hvariable : ∀ m ∈ members, ∀ v,
      readVariable mode room m.2.document = .ok v ↔ DenotesVariable SpelledKind mode m.2 v) :
    readChildren mode room [] (memberDocuments members) .closed = .ok children
      ↔ ∃ entries, DenotesMembers SpelledKind mode members entries
        ∧ Bindings.ofList entries = children :=
  readChildren_iff hvariable

theorem readNumber_iff {n : Numeral} {x : Double} :
    readNumber (.leaf (.number n)) = .ok x ↔ n.toDouble? = some x := by
  unfold readNumber
  constructor
  · intro h
    dsimp only at h
    split at h
    next y hy =>
      cases h
      exact hy
    next => cases h
  · intro h
    simp only [h]

theorem readPayload_array_iff {mode : Mode} {room : Nat} {kind : Kind} {items : List Tree}
    {v : Variable}
    (hvariable : ∀ t ∈ items, ∀ v,
      readVariable mode room t.document = .ok v ↔ DenotesVariable SpelledKind mode t v) :
    readPayload mode (room + 1) kind (Tree.array items).document = .ok v
      ↔ DenotesPayload SpelledKind mode kind (.array items) v := by
  constructor
  · intro h
    cases kind with
    | array =>
      obtain ⟨elements, hread, hv⟩ := bind_eq_ok.mp h
      cases hv
      exact .array ((readElements_iff hvariable).mp hread)
    | number | string | boolean | record => cases h
  · intro h
    cases h with
    | @array _ _ elements h =>
      exact bind_eq_ok.mpr ⟨elements, (readElements_iff hvariable).mpr h, rfl⟩

theorem readPayload_object_iff {mode : Mode} {room : Nat} {kind : Kind}
    {members : List (String × Tree)} {v : Variable}
    (hvariable : ∀ m ∈ members, ∀ v,
      readVariable mode room m.2.document = .ok v ↔ DenotesVariable SpelledKind mode m.2 v) :
    readPayload mode (room + 1) kind (Tree.object members).document = .ok v
      ↔ DenotesPayload SpelledKind mode kind (.object members) v := by
  constructor
  · intro h
    cases kind with
    | record =>
      obtain ⟨children, hread, hv⟩ := bind_eq_ok.mp h
      cases hv
      obtain ⟨entries, hentries, rfl⟩ := (readChildren_nil_iff hvariable).mp hread
      exact .record hentries
    | number | string | boolean | array => cases h
  · intro h
    cases h with
    | @record _ _ entries h =>
      exact bind_eq_ok.mpr ⟨_, (readChildren_nil_iff hvariable).mpr ⟨entries, h, rfl⟩, rfl⟩

theorem readPayload_iff {mode : Mode} {room : Nat} {kind : Kind} {t : Tree} {v : Variable}
    (hvariable : ∀ inner, room = inner + 1 → ∀ t : Tree, t.Within inner → ∀ v,
      (readVariable mode inner t.document = .ok v ↔ DenotesVariable SpelledKind mode t v))
    (hwithin : t.Within room) :
    readPayload mode room kind t.document = .ok v ↔ DenotesPayload SpelledKind mode kind t v := by
  cases t with
  | null =>
    constructor
    · intro h
      cases kind <;> cases h
    · intro h
      cases h
  | boolean b =>
    constructor
    · intro h
      cases kind <;> cases h
      exact .boolean b
    · intro h
      cases h
      rfl
  | string s =>
    constructor
    · intro h
      cases kind <;> cases h
      exact .string s
    · intro h
      cases h
      rfl
  | number n =>
    constructor
    · intro h
      cases kind with
      | number =>
        obtain ⟨x, hx, h⟩ := bind_eq_ok.mp h
        cases h
        exact .number (readNumber_iff.mp hx)
      | string | boolean | record | array => cases h
    · intro h
      cases h with
      | @number _ _ x h => exact bind_eq_ok.mpr ⟨x, readNumber_iff.mpr h, rfl⟩
  | array items =>
    obtain ⟨inner, rfl, hitems⟩ := hwithin.items
    exact readPayload_array_iff fun t ht => hvariable inner rfl t (hitems t ht)
  | object members =>
    obtain ⟨inner, rfl, hmembers⟩ := hwithin.members
    exact readPayload_object_iff fun m hm => hvariable inner rfl m.2 (hmembers m hm)

/-- A list of two is what the list form of a variable is. -/
theorem readPair_two (mode : Mode) (room : Nat) (first second : Document) :
    readPair mode room [first, second] .closed
      = readFirstKind mode first >>= fun kind => readPayload mode room kind second := by
  rw [readPair]
  cases readFirstKind mode first with
  | error e => rfl
  | ok kind =>
    show (readPayload mode room kind second >>= _) = readPayload mode room kind second
    cases readPayload mode room kind second with
    | error e => rfl
    | ok v => cases mode <;> rfl

theorem readPair_iff {mode : Mode} {room : Nat} {items : List Tree} {v : Variable}
    (hpayload : ∀ kind, ∀ t ∈ items, ∀ v,
      (readPayload mode room kind t.document = .ok v ↔ DenotesPayload SpelledKind mode kind t v)) :
    readPair mode room (itemDocuments items) .closed = .ok v
      ↔ DenotesVariable SpelledKind mode (.array items) v := by
  rcases items with _ | ⟨first, _ | ⟨payload, _ | ⟨third, rest⟩⟩⟩
  · exact ⟨fun h => (by cases h), fun h => by cases h⟩
  · constructor
    · intro h
      obtain ⟨_, -, h⟩ := bind_eq_ok.mp h
      cases h
    · intro h
      cases h
  · have hmem : payload ∈ [first, payload] := List.mem_cons_of_mem _ List.mem_cons_self
    show readPair mode room [first.document, payload.document] .closed = .ok v ↔ _
    rw [readPair_two, bind_eq_ok]
    constructor
    · rintro ⟨kind, hkind, hv⟩
      exact .array (readFirstKind_iff.mp hkind) ((hpayload kind payload hmem v).mp hv)
    · intro h
      cases h with
      | @array _ _ _ kind _ hkind hv =>
        exact ⟨kind, readFirstKind_iff.mpr hkind, (hpayload kind payload hmem v).mpr hv⟩
  · constructor
    · intro h
      obtain ⟨_, -, h⟩ := bind_eq_ok.mp h
      obtain ⟨_, -, h⟩ := bind_eq_ok.mp h
      cases mode <;> cases h
    · intro h
      cases h

theorem readVariable_iff {mode : Mode} {room : Nat} {t : Tree} {v : Variable}
    (hpayload : ∀ inner, room = inner + 1 → ∀ mode kind, ∀ t : Tree, t.Within inner → ∀ v,
      (readPayload mode inner kind t.document = .ok v ↔ DenotesPayload SpelledKind mode kind t v))
    (hwithin : t.Within room) :
    readVariable mode room t.document = .ok v ↔ DenotesVariable SpelledKind mode t v := by
  cases t with
  | null | boolean _ | number _ | string _ =>
    rw [Tree.document, readVariable]
    exact ⟨fun h => (by cases h), fun h => by cases h⟩
  | array items =>
    obtain ⟨inner, rfl, hitems⟩ := hwithin.items
    rw [Tree.document, readVariable]
    exact readPair_iff fun kind t ht => hpayload inner rfl mode kind t (hitems t ht)
  | object members =>
    obtain ⟨inner, rfl, hmembers⟩ := hwithin.members
    rw [Tree.document, readVariable]
    refine (readFields_nothing_iff hmembers).trans ?_
    constructor
    · rintro ⟨kindTree, payload, kind, htype, hvalue, hkind, hv⟩
      have htree := hmembers _ (mem_of_valuesOf_eq_singleton htype)
      have hpay := hmembers _ (mem_of_valuesOf_eq_singleton hvalue)
      exact .object htype hvalue ((readKind_iff htree).mp hkind)
        ((hpayload inner rfl _ kind payload hpay v).mp hv)
    · intro h
      cases h with
      | @object _ _ kindTree payload kind _ htype hvalue hkind hv =>
        have htree := hmembers _ (mem_of_valuesOf_eq_singleton htype)
        have hpay := hmembers _ (mem_of_valuesOf_eq_singleton hvalue)
        exact ⟨kindTree, payload, kind, htype, hvalue, (readKind_iff htree).mpr hkind,
          (hpayload inner rfl _ kind payload hpay v).mpr hv⟩

/-- **Variables and payloads, by induction on the room**: each is read with one bracket less than
the other. -/
theorem variable_payload_iff (room : Nat) :
    (∀ mode, ∀ t : Tree, t.Within room → ∀ v,
      (readVariable mode room t.document = .ok v ↔ DenotesVariable SpelledKind mode t v))
    ∧ (∀ mode kind, ∀ t : Tree, t.Within room → ∀ v,
      (readPayload mode room kind t.document = .ok v
        ↔ DenotesPayload SpelledKind mode kind t v)) := by
  induction room with
  | zero =>
    constructor
    · intro mode t ht v
      -- No bracket can open, so nothing inside is asked about.
      exact readVariable_iff (fun inner h => by cases h) ht
    · intro mode kind t ht v
      exact readPayload_iff (fun inner h => by cases h) ht
  | succ room ih =>
    constructor
    · intro mode t ht v
      refine readVariable_iff (fun inner h => ?_) ht
      cases h
      exact ih.2
    · intro mode kind t ht v
      refine readPayload_iff (fun inner h => ?_) ht
      cases h
      exact ih.1 mode

end Json

end ScopedVars
