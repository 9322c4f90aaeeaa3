import Mathlib.Data.List.Forall2
import ScopedVars.Json.Read.Basic
import ScopedVars.Project
import ScopedVars.Proofs.Json.Tree

/-!
# `Proofs/Json/Denotes` — what a tree stands for

Which trees stand for a variable, a container, a layout or a project, and for which one. Nothing
here is read: the fields of a map are found by their keys, and the other keys are not mentioned, so
where they stand and what is under them does not matter.

One thing depends on the order of keys after all. A value that stands before its type is read by a
reader with other habits, and all that is inside with it: there a kind has spellings beside its
name. So the relation for variables has a `Mode`, which is that of the text around until some value
comes first (`payloadMode`), and how kinds may be spelled is its parameter. Where kinds are named,
as they always are in what is written, mode and order drop out (`DenotesVariable.of_named`).
-/

set_option autoImplicit false

namespace ScopedVars

namespace Json

/-! ## The fields of a map -/

/-- What stands under a key, in the order of the map. -/
def valuesOf (key : String) (members : List (String × Tree)) : List Tree :=
  members.filterMap fun m => if m.1 = key then some m.2 else none

theorem valuesOf_cons_self (key : String) (t : Tree) (rest : List (String × Tree)) :
    valuesOf key ((key, t) :: rest) = t :: valuesOf key rest :=
  List.filterMap_cons_some (if_pos rfl)

theorem valuesOf_cons_of_ne {key other : String} (h : other ≠ key) (t : Tree)
    (rest : List (String × Tree)) : valuesOf key ((other, t) :: rest) = valuesOf key rest :=
  List.filterMap_cons_none (if_neg h)

theorem mem_of_valuesOf_eq_singleton {key : String} {members : List (String × Tree)} {t : Tree}
    (h : valuesOf key members = [t]) : (key, t) ∈ members := by
  have hmem : t ∈ valuesOf key members := h ▸ List.mem_singleton_self t
  unfold valuesOf at hmem
  obtain ⟨⟨other, u⟩, hmember, hvalue⟩ := List.mem_filterMap.mp hmem
  split at hvalue
  next hkey =>
    cases hvalue
    rwa [← hkey]
  next => cases hvalue

/-- Whether the value of a variable stands before its type. -/
def valueFirst : List (String × Tree) → Bool
  | [] => false
  | (key, _) :: rest =>
    if key = Field.type.key then false
    else if key = Field.value.key then true
    else valueFirst rest

/-- How the value of a variable is read: it is held if its type is still to come, and what is held
stays so. -/
def payloadMode (mode : Mode) (members : List (String × Tree)) : Mode :=
  if valueFirst members then .held else mode

/-! ## Kinds -/

/-- Where the type of a variable stands: under its key, or at the head of a list. -/
inductive KindPlace where
  | field
  | head

inductive NamedKind : KindPlace → Mode → Tree → Kind → Prop where
  | word {place : KindPlace} {mode : Mode} {word : String} {kind : Kind}
      (h : kindOfWord? word = some kind) : NamedKind place mode (.string word) kind

/-- The kind by all the spellings that a reader takes. Beside the name there are two: under its key,
a map of the name alone, to null or, in what is held, to the empty map; and at the head of a list,
again in what is held, the number of the kind. -/
inductive SpelledKind : KindPlace → Mode → Tree → Kind → Prop where
  | word {place : KindPlace} {mode : Mode} {word : String} {kind : Kind}
      (h : kindOfWord? word = some kind) : SpelledKind place mode (.string word) kind
  | map {mode : Mode} {word : String} {kind : Kind} (h : kindOfWord? word = some kind) :
      SpelledKind .field mode (.object [(word, .null)]) kind
  | emptyMap {word : String} {kind : Kind} (h : kindOfWord? word = some kind) :
      SpelledKind .field .held (.object [(word, .object [])]) kind
  | index {n : Numeral} {i : Nat} {kind : Kind} (hn : n.integer? = some (.ofNat i))
      (hi : Kind.all[i]? = some kind) : SpelledKind .head .held (.number n) kind

/-! ## Variables

The spelling of kinds is a parameter, for it is the one thing in which the mode matters. -/

/-- How a kind may be spelled, in each place and mode. -/
abbrev KindRule := KindPlace → Mode → Tree → Kind → Prop

mutual

/-- The variable that a tree stands for: a map in which type and value come once each, or the list
of the two. -/
inductive DenotesVariable (rule : KindRule) : Mode → Tree → Variable → Prop where
  | object {mode : Mode} {members : List (String × Tree)} {kindTree payload : Tree} {kind : Kind}
      {v : Variable} (htype : valuesOf Field.type.key members = [kindTree])
      (hvalue : valuesOf Field.value.key members = [payload])
      (hkind : rule .field mode kindTree kind)
      (hpayload : DenotesPayload rule (payloadMode mode members) kind payload v) :
      DenotesVariable rule mode (.object members) v
  | array {mode : Mode} {first payload : Tree} {kind : Kind} {v : Variable}
      (hkind : rule .head mode first kind) (hpayload : DenotesPayload rule mode kind payload v) :
      DenotesVariable rule mode (.array [first, payload]) v

inductive DenotesPayload (rule : KindRule) : Mode → Kind → Tree → Variable → Prop where
  | number {mode : Mode} {n : Numeral} {x : Double} (h : n.toDouble? = some x) :
      DenotesPayload rule mode .number (.number n) (.number x)
  | string {mode : Mode} (s : String) : DenotesPayload rule mode .string (.string s) (.string s)
  | boolean {mode : Mode} (b : Bool) :
      DenotesPayload rule mode .boolean (.boolean b) (.boolean b)
  | record {mode : Mode} {members : List (String × Tree)} {entries : List (String × Variable)}
      (h : DenotesMembers rule mode members entries) :
      DenotesPayload rule mode .record (.object members) (.record (Bindings.ofList entries))
  | array {mode : Mode} {items : List Tree} {elements : List Variable}
      (h : DenotesItems rule mode items elements) :
      DenotesPayload rule mode .array (.array items) (.array elements)

inductive DenotesItems (rule : KindRule) : Mode → List Tree → List Variable → Prop where
  | nil {mode : Mode} : DenotesItems rule mode [] []
  | cons {mode : Mode} {t : Tree} {v : Variable} {items : List Tree} {elements : List Variable}
      (h : DenotesVariable rule mode t v) (hrest : DenotesItems rule mode items elements) :
      DenotesItems rule mode (t :: items) (v :: elements)

/-- The named variables that members stand for, one by one. A name may come again. -/
inductive DenotesMembers (rule : KindRule) :
    Mode → List (String × Tree) → List (String × Variable) → Prop where
  | nil {mode : Mode} : DenotesMembers rule mode [] []
  | cons {mode : Mode} {name : String} {t : Tree} {v : Variable}
      {members : List (String × Tree)} {entries : List (String × Variable)}
      (h : DenotesVariable rule mode t v) (hrest : DenotesMembers rule mode members entries) :
      DenotesMembers rule mode ((name, t) :: members) ((name, v) :: entries)

end

/-! ## Containers, layouts and projects -/

/-- The container that a tree stands for. A name that comes again keeps its first place and has its
last value. -/
inductive DenotesContainer (rule : KindRule) : Tree → Container → Prop where
  | mk {members : List (String × Tree)} {entries : List (String × Variable)}
      (h : DenotesMembers rule .streamed members entries) :
      DenotesContainer rule (.object members) (.ofList entries)

/-- The layout that a tree stands for: a map in which each field comes once, or the list of the
fields. -/
inductive DenotesLayout (rule : KindRule) : Tree → Layout → Prop where
  | object {members : List (String × Tree)} {name : String} {locals : Tree} {c : Container}
      (hname : valuesOf Field.name.key members = [.string name])
      (hlocals : valuesOf Field.vars.key members = [locals])
      (h : DenotesContainer rule locals c) : DenotesLayout rule (.object members) ⟨name, c⟩
  | array {name : String} {locals : Tree} {c : Container} (h : DenotesContainer rule locals c) :
      DenotesLayout rule (.array [.string name, locals]) ⟨name, c⟩

/-- The project that a tree stands for: likewise. -/
inductive DenotesProject (rule : KindRule) : Tree → Project → Prop where
  | object {members : List (String × Tree)} {name : String} {globals : Tree} {c : Container}
      {items : List Tree} {ls : List Layout}
      (hname : valuesOf Field.name.key members = [.string name])
      (hglobals : valuesOf Field.vars.key members = [globals])
      (hlayouts : valuesOf Field.layouts.key members = [.array items])
      (h : DenotesContainer rule globals c)
      (hitems : List.Forall₂ (DenotesLayout rule) items ls) :
      DenotesProject rule (.object members) ⟨name, c, ls⟩
  | array {name : String} {globals : Tree} {c : Container} {items : List Tree} {ls : List Layout}
      (h : DenotesContainer rule globals c)
      (hitems : List.Forall₂ (DenotesLayout rule) items ls) :
      DenotesProject rule (.array [.string name, globals, .array items]) ⟨name, c, ls⟩

/-! ## Named kinds -/

theorem NamedKind.spelled {place : KindPlace} {mode : Mode} {t : Tree} {kind : Kind}
    (h : NamedKind place mode t kind) (other : Mode) : SpelledKind place other t kind := by
  cases h with
  | word h => exact .word h

mutual

/-- **A tree in which every kind is named stands for the same variable in either mode.** -/
theorem DenotesVariable.of_named : ∀ {mode : Mode} {t : Tree} {v : Variable},
    DenotesVariable NamedKind mode t v → ∀ other, DenotesVariable SpelledKind other t v
  | _, _, _, .object htype hvalue hkind hpayload, other =>
    .object htype hvalue (hkind.spelled other) (hpayload.of_named _)
  | _, _, _, .array hkind hpayload, other =>
    .array (hkind.spelled other) (hpayload.of_named other)

theorem DenotesPayload.of_named : ∀ {mode : Mode} {kind : Kind} {t : Tree} {v : Variable},
    DenotesPayload NamedKind mode kind t v → ∀ other, DenotesPayload SpelledKind other kind t v
  | _, _, _, _, .number h, _ => .number h
  | _, _, _, _, .string s, _ => .string s
  | _, _, _, _, .boolean b, _ => .boolean b
  | _, _, _, _, .record h, other => .record (h.of_named other)
  | _, _, _, _, .array h, other => .array (h.of_named other)

theorem DenotesItems.of_named : ∀ {mode : Mode} {items : List Tree} {elements : List Variable},
    DenotesItems NamedKind mode items elements →
      ∀ other, DenotesItems SpelledKind other items elements
  | _, _, _, .nil, _ => .nil
  | _, _, _, .cons h hrest, other => .cons (h.of_named other) (hrest.of_named other)

theorem DenotesMembers.of_named : ∀ {mode : Mode} {members : List (String × Tree)}
    {entries : List (String × Variable)}, DenotesMembers NamedKind mode members entries →
      ∀ other, DenotesMembers SpelledKind other members entries
  | _, _, _, .nil, _ => .nil
  | _, _, _, .cons h hrest, other => .cons (h.of_named other) (hrest.of_named other)

end

/-! ## Trees that a text can be read for

Two limits have nothing to do with what a tree stands for: how many brackets may be open at once,
and how large a number may be. -/

mutual

/-- How many brackets are open at once where there are most. -/
def Tree.nesting : Tree → Nat
  | .null | .boolean _ | .number _ | .string _ => 0
  | .array items => itemsNesting items + 1
  | .object members => membersNesting members + 1

def itemsNesting : List Tree → Nat
  | [] => 0
  | t :: rest => max t.nesting (itemsNesting rest)

def membersNesting : List (String × Tree) → Nat
  | [] => 0
  | (_, t) :: rest => max t.nesting (membersNesting rest)

end

mutual

/-- No number in the tree is too large for a double. -/
def Tree.NumbersFit : Tree → Prop
  | .null | .boolean _ | .string _ => True
  | .number n => n.toDouble?.isSome = true
  | .array items => itemsFit items
  | .object members => membersFit members

def itemsFit : List Tree → Prop
  | [] => True
  | t :: rest => t.NumbersFit ∧ itemsFit rest

def membersFit : List (String × Tree) → Prop
  | [] => True
  | (_, t) :: rest => t.NumbersFit ∧ membersFit rest

end

/-- Both limits are kept, if there is room for this many brackets. -/
def Tree.Within (room : Nat) (t : Tree) : Prop :=
  t.nesting ≤ room ∧ t.NumbersFit

theorem within_of_items {room : Nat} : ∀ {items : List Tree}, itemsNesting items ≤ room →
    itemsFit items → ∀ t ∈ items, t.Within room
  | [], _, _, _, ht => by cases ht
  | u :: rest, hnesting, hfit, t, ht => by
    rw [itemsNesting] at hnesting
    rw [itemsFit] at hfit
    rcases List.mem_cons.mp ht with rfl | ht
    · exact ⟨by omega, hfit.1⟩
    · exact within_of_items (by omega) hfit.2 t ht

theorem within_of_members {room : Nat} : ∀ {members : List (String × Tree)},
    membersNesting members ≤ room → membersFit members → ∀ m ∈ members, m.2.Within room
  | [], _, _, _, hm => by cases hm
  | (_, u) :: rest, hnesting, hfit, m, hm => by
    rw [membersNesting] at hnesting
    rw [membersFit] at hfit
    rcases List.mem_cons.mp hm with rfl | hm
    · exact ⟨Nat.le_trans (Nat.le_max_left _ _) hnesting, hfit.1⟩
    · exact within_of_members (by omega) hfit.2 m hm

/-- A list within a limit leaves one bracket less to its items. -/
theorem Tree.Within.items {room : Nat} {items : List Tree} (h : (Tree.array items).Within room) :
    ∃ inner, room = inner + 1 ∧ ∀ t ∈ items, t.Within inner := by
  obtain ⟨hnesting, hfit⟩ := h
  rw [Tree.nesting] at hnesting
  rw [Tree.NumbersFit] at hfit
  exact ⟨room - 1, by omega, within_of_items (by omega) hfit⟩

theorem Tree.Within.members {room : Nat} {members : List (String × Tree)}
    (h : (Tree.object members).Within room) :
    ∃ inner, room = inner + 1 ∧ ∀ m ∈ members, m.2.Within inner := by
  obtain ⟨hnesting, hfit⟩ := h
  rw [Tree.nesting] at hnesting
  rw [Tree.NumbersFit] at hfit
  exact ⟨room - 1, by omega, within_of_members (by omega) hfit⟩

end Json

end ScopedVars
