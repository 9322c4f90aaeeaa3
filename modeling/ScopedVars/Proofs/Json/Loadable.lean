import ScopedVars.Proofs.Json.Entries
import ScopedVars.Proofs.Json.RoundTrip

/-!
# `Proofs/Json/Loadable` — the values that texts can hold

Not every variable can be read from a text: its numbers have to be finite, each name in a record has
to be there once, and its brackets have to fit into the room of the reader. `Loadable` says so, by
the room, and **a reader with this much room gives nothing else** (`Document.loadable`), from
whatever document and in whichever mode.

What the shape of the text was drops out: lists in place of maps, keys that mean nothing, repeated
names and values before their types take no less room in the text than the maps that would be
written for them.

Values that a text held until their type came are the one place where the readers know something
that is not in the document: a reader for every kind. It, too, gives loadable variables only
(`Progress.Loadable`).
-/

set_option autoImplicit false

namespace ScopedVars

/-! ## Loadable values -/

/-- The variable can be read where there is this much room. Around every variable stands a bracket;
a record or an array has one more of its own. -/
inductive Variable.Loadable : Nat → Variable → Prop where
  | number {room : Nat} {x : Double} (h : x.isFinite = true) : Loadable (room + 1) (.number x)
  | string {room : Nat} (s : String) : Loadable (room + 1) (.string s)
  | boolean {room : Nat} (b : Bool) : Loadable (room + 1) (.boolean b)
  | record {room : Nat} {children : List (String × Variable)} (hunique : Bindings.Unique children)
      (h : ∀ m ∈ children, Loadable room m.2) : Loadable (room + 2) (.record children)
  | array {room : Nat} {elements : List Variable} (h : ∀ v ∈ elements, Loadable room v) :
      Loadable (room + 2) (.array elements)

/-- Named variables that can be read where there is this much room. -/
structure LoadableEntries (room : Nat) (entries : List (String × Variable)) : Prop where
  unique : Bindings.Unique entries
  loadable : ∀ m ∈ entries, m.2.Loadable room

/-- The map of a container is one bracket. -/
inductive Container.Loadable : Nat → Container → Prop where
  | mk {room : Nat} {c : Container} (h : LoadableEntries room c.entries) : Loadable (room + 1) c

inductive Layout.Loadable : Nat → Layout → Prop where
  | mk {room : Nat} {l : Layout} (h : l.locals.Loadable room) : Loadable (room + 1) l

/-- The list of the layouts has a bracket of its own. -/
inductive Project.Loadable : Nat → Project → Prop where
  | mk {room : Nat} {p : Project} (hglobals : p.globals.Loadable (room + 1))
      (hlayouts : ∀ l ∈ p.layouts, l.Loadable room) : Loadable (room + 2) p

namespace LoadableEntries

theorem nil (room : Nat) : LoadableEntries room [] :=
  ⟨List.nodup_nil, List.forall_mem_nil _⟩

theorem insert {room : Nat} {entries : List (String × Variable)} (h : LoadableEntries room entries)
    (name : String) {v : Variable} (hv : v.Loadable room) :
    LoadableEntries room (Bindings.insert entries name v) := by
  refine ⟨Bindings.unique_insert h.unique name v, fun m hm => ?_⟩
  rcases Bindings.mem_insert hm with rfl | hm
  · exact hv
  · exact h.loadable m hm

end LoadableEntries

namespace Json

/-! ## What is read is loadable -/

theorem isFinite_of_toDouble? {n : Numeral} {x : Double} (h : n.toDouble? = some x) :
    x.isFinite = true := by
  unfold Numeral.toDouble? at h
  dsimp only at h
  split at h
  next hfinite =>
    cases h
    exact hfinite
  next => cases h

theorem isFinite_of_readNumber {d : Document} {x : Double} (h : readNumber d = .ok x) :
    x.isFinite = true := by
  unfold readNumber at h
  split at h
  · split at h
    next hx =>
      cases h
      exact isFinite_of_toDouble? hx
    next => cases h
  · cases h

theorem loadable_of_leaf {mode : Mode} {room : Nat} {kind : Kind} {token : Token} {v : Variable}
    (h : readPayload mode room kind (.leaf token) = .ok v) : v.Loadable (room + 1) := by
  cases kind with
  | number =>
    rw [readPayload] at h
    obtain ⟨x, hx, h⟩ := bind_eq_ok.mp h
    cases h
    exact .number (isFinite_of_readNumber hx)
  | string =>
    rw [readPayload] at h
    obtain ⟨s, -, h⟩ := bind_eq_ok.mp h
    cases h
    exact .string s
  | boolean =>
    rw [readPayload] at h
    obtain ⟨b, -, h⟩ := bind_eq_ok.mp h
    cases h
    exact .boolean b
  | record | array =>
    rw [readPayload] at h
    cases h

/-- What there is of a variable, and what comes of it, is loadable. -/
def Progress.Loadable (room : Nat) : Progress → Prop
  | nothing | kind _ => True
  | held read => ∀ kind v, read kind = .ok v → v.Loadable room
  | whole v => v.Loadable room

/-- A document gives loadable variables only, as a variable and as the value of one. -/
structure Document.GivesLoadable (d : Document) : Prop where
  asVariable : ∀ mode room v, readVariable mode room d = .ok v → v.Loadable room
  asPayload : ∀ mode room kind v, readPayload mode room kind d = .ok v → v.Loadable (room + 1)

theorem Progress.Loadable.step {mode : Mode} {room : Nat} {progress progress' : Progress}
    {name : String} {d : Document} (hd : d.GivesLoadable) (h : progress.Loadable (room + 1))
    (hstep : fieldStep mode room progress name d = .ok progress') :
    progress'.Loadable (room + 1) := by
  unfold fieldStep at hstep
  split at hstep
  · cases progress with
    | nothing =>
      obtain ⟨kind, -, hstep⟩ := bind_eq_ok.mp hstep
      cases hstep
      trivial
    | held read =>
      obtain ⟨kind, -, hstep⟩ := bind_eq_ok.mp hstep
      obtain ⟨v, hv, hstep⟩ := bind_eq_ok.mp hstep
      cases hstep
      exact h kind v hv
    | kind _ => cases hstep
    | whole _ => cases hstep
  · split at hstep
    · cases progress with
      | nothing =>
        obtain ⟨_, -, hstep⟩ := bind_eq_ok.mp hstep
        cases hstep
        exact hd.asPayload .held room
      | kind kind =>
        obtain ⟨v, hv, hstep⟩ := bind_eq_ok.mp hstep
        cases hstep
        exact hd.asPayload mode room kind v hv
      | held _ => cases hstep
      | whole _ => cases hstep
    · obtain ⟨_, -, hstep⟩ := bind_eq_ok.mp hstep
      cases hstep
      exact h

theorem loadable_of_readFields {mode : Mode} {room : Nat} {members : List (Token × Document)}
    {ending : Ending} {v : Variable} (hmembers : ∀ m ∈ members, m.2.GivesLoadable)
    (h : readFields mode room .nothing members ending = .ok v) : v.Loadable (room + 1) := by
  rw [readFields_eq] at h
  obtain ⟨progress, hrun, h⟩ := bind_eq_ok.mp h
  have hstart : Progress.nothing.Loadable (room + 1) := trivial
  have hprogress : progress.Loadable (room + 1) :=
    foldlM_keyed_keeps (fun m hm _ _ _ => Progress.Loadable.step (hmembers m hm)) hstart hrun
  cases progress with
  | whole w =>
    cases (atEnd_eq_ok.mp h).2
    exact hprogress
  | nothing => cases (atEnd_eq_ok.mp h).2
  | kind _ => cases (atEnd_eq_ok.mp h).2
  | held _ => cases (atEnd_eq_ok.mp h).2

theorem loadable_of_readPair {mode : Mode} {room : Nat} {items : List Document} {ending : Ending}
    {v : Variable} (hitems : ∀ d ∈ items, d.GivesLoadable)
    (h : readPair mode room items ending = .ok v) : v.Loadable (room + 1) := by
  rw [readPair_eq] at h
  obtain ⟨first, rest, kind, rfl, -, h⟩ := takeItem_eq_ok h
  obtain ⟨second, rest, w, rfl, hw, hend⟩ := takeItem_eq_ok h
  have hwv : w = v := by
    unfold atPairEnd at hend
    split at hend
    · cases hend
    · exact (atListEnd_eq_ok.mp hend).2.2
  rw [← hwv]
  exact (hitems second (by simp)).asPayload mode room kind w hw

theorem loadable_of_readChildren {mode : Mode} {room : Nat} {members : List (Token × Document)}
    {ending : Ending} {children : List (String × Variable)}
    (hmembers : ∀ m ∈ members, m.2.GivesLoadable)
    (h : readChildren mode room [] members ending = .ok children) :
    LoadableEntries room children := by
  rw [readChildren_eq] at h
  obtain ⟨entries, hrun, h⟩ := bind_eq_ok.mp h
  cases (atEnd_eq_ok.mp h).2
  refine foldlM_keyed_keeps (fun m hm before after name hbefore hstep => ?_) (.nil room) hrun
  obtain ⟨v, hv, hstep⟩ := bind_eq_ok.mp hstep
  cases hstep
  exact hbefore.insert name ((hmembers m hm).asVariable mode room v hv)

theorem mapM_forall {α β : Type} {f : α → Except ReadError β} {Holds : β → Prop} :
    ∀ {items : List α} {results : List β}, (∀ a ∈ items, ∀ b, f a = .ok b → Holds b) →
      items.mapM f = .ok results → ∀ b ∈ results, Holds b
  | [], _, _, h => by
    cases h
    exact List.forall_mem_nil _
  | a :: rest, _, hitems, h => by
    obtain ⟨ha, hrest⟩ := List.forall_mem_cons.mp hitems
    rw [List.mapM_cons] at h
    obtain ⟨b, hb, h⟩ := bind_eq_ok.mp h
    obtain ⟨bs, hbs, h⟩ := bind_eq_ok.mp h
    cases h
    exact List.forall_mem_cons.mpr ⟨ha b hb, mapM_forall hrest hbs⟩

theorem loadable_of_readElements {mode : Mode} {room : Nat} {items : List Document}
    {ending : Ending} {elements : List Variable} (hitems : ∀ d ∈ items, d.GivesLoadable)
    (h : readElements mode room items ending = .ok elements) : ∀ v ∈ elements, v.Loadable room := by
  rw [readElements_eq] at h
  obtain ⟨vs, hvs, h⟩ := bind_eq_ok.mp h
  cases (atEnd_eq_ok.mp h).2
  exact mapM_forall (fun d hd => (hitems d hd).asVariable mode room) hvs

/-- **What is read is loadable**, whatever the document and the mode. -/
theorem Document.loadable (d : Document) : d.GivesLoadable := by
  induction d using Document.induction with
  | leaf token =>
    refine ⟨fun mode room v h => ?_, fun mode room kind v h => loadable_of_leaf h⟩
    rw [readVariable] at h
    cases h
  | array items ending hitems =>
    refine ⟨fun mode room v h => ?_, fun mode room kind v h => ?_⟩
    · rw [readVariable] at h
      obtain ⟨inner, rfl, h⟩ := nested_eq_ok.mp h
      exact loadable_of_readPair hitems h
    · cases kind with
      | array =>
        rw [readPayload] at h
        obtain ⟨inner, rfl, h⟩ := nested_eq_ok.mp h
        obtain ⟨elements, helements, h⟩ := bind_eq_ok.mp h
        cases h
        exact .array (loadable_of_readElements hitems helements)
      | number | string | boolean | record =>
        rw [readPayload] at h
        cases h
  | object members ending hmembers =>
    refine ⟨fun mode room v h => ?_, fun mode room kind v h => ?_⟩
    · rw [readVariable] at h
      obtain ⟨inner, rfl, h⟩ := nested_eq_ok.mp h
      exact loadable_of_readFields hmembers h
    · cases kind with
      | record =>
        rw [readPayload] at h
        obtain ⟨inner, rfl, h⟩ := nested_eq_ok.mp h
        obtain ⟨children, hchildren, h⟩ := bind_eq_ok.mp h
        cases h
        have hentries := loadable_of_readChildren hmembers hchildren
        exact .record hentries.unique hentries.loadable
      | number | string | boolean | array =>
        rw [readPayload] at h
        cases h

/-! ## Containers, layouts and projects -/

theorem loadable_of_readContainer {room : Nat} {d : Document} {c : Container}
    (h : readContainer room d = .ok c) : c.Loadable room := by
  cases d with
  | leaf token => cases h
  | array items ending => cases h
  | object members ending =>
    obtain ⟨inner, rfl, hread⟩ := nested_eq_ok.mp h
    obtain ⟨children, hchildren, hc⟩ := bind_eq_ok.mp hread
    cases hc
    exact .mk (loadable_of_readChildren (fun m _ => m.2.loadable) hchildren)

theorem loadable_of_readLayoutItems {room : Nat} {items : List Document} {ending : Ending}
    {l : Layout} (h : readLayoutItems room items ending = .ok l) : l.locals.Loadable room := by
  rw [readLayoutItems_eq] at h
  obtain ⟨_, _, _, -, -, h⟩ := takeItem_eq_ok h
  obtain ⟨_, _, c, -, hc, h⟩ := takeItem_eq_ok h
  obtain ⟨-, -, rfl⟩ := atListEnd_eq_ok.mp h
  exact loadable_of_readContainer hc

/-- The variables of a layout that have come so far. -/
def LayoutFields.Loadable (room : Nat) (fields : LayoutFields) : Prop :=
  ∀ c, fields.locals? = some c → c.Loadable room

theorem LayoutFields.Loadable.step {room : Nat} {fields fields' : LayoutFields} {name : String}
    {d : Document} (h : fields.Loadable room)
    (hstep : LayoutFields.step room fields name d = .ok fields') : fields'.Loadable room := by
  unfold LayoutFields.step at hstep
  split at hstep
  · split at hstep
    · cases hstep
    · obtain ⟨_, -, hstep⟩ := bind_eq_ok.mp hstep
      cases hstep
      exact h
  · split at hstep
    · split at hstep
      · cases hstep
      · obtain ⟨c, hc, hstep⟩ := bind_eq_ok.mp hstep
        cases hstep
        intro c' hc'
        cases hc'
        exact loadable_of_readContainer hc
    · obtain ⟨_, -, hstep⟩ := bind_eq_ok.mp hstep
      cases hstep
      exact h

theorem loadable_of_readLayout {room : Nat} {d : Document} {l : Layout}
    (h : readLayout room d = .ok l) : l.Loadable room := by
  cases d with
  | leaf token => cases h
  | array items ending =>
    obtain ⟨inner, rfl, hread⟩ := nested_eq_ok.mp h
    exact .mk (loadable_of_readLayoutItems hread)
  | object members ending =>
    obtain ⟨inner, rfl, hread⟩ := nested_eq_ok.mp h
    rw [readLayoutFields_eq inner ending members ⟨none, none⟩] at hread
    obtain ⟨fields, hrun, hend⟩ := bind_eq_ok.mp hread
    have hstart : LayoutFields.Loadable inner ⟨none, none⟩ := by
      intro c hc
      cases hc
    have hfields : fields.Loadable inner :=
      foldlM_keyed_keeps (fun _ _ _ _ _ => LayoutFields.Loadable.step) hstart hrun
    match fields with
    | ⟨none, _⟩ => cases (atEnd_eq_ok.mp hend).2
    | ⟨some _, none⟩ => cases (atEnd_eq_ok.mp hend).2
    | ⟨some _, some locals⟩ =>
      cases (atEnd_eq_ok.mp hend).2
      exact .mk (hfields locals rfl)

theorem loadable_of_readLayouts {room : Nat} {d : Document} {ls : List Layout}
    (h : readLayouts room d = .ok ls) :
    ∃ inner, room = inner + 1 ∧ ∀ l ∈ ls, l.Loadable inner := by
  cases d with
  | leaf token => cases h
  | object members ending => cases h
  | array items ending =>
    obtain ⟨inner, rfl, hread⟩ := nested_eq_ok.mp h
    rw [readLayoutList_eq] at hread
    obtain ⟨_, hls, hend⟩ := bind_eq_ok.mp hread
    cases (atEnd_eq_ok.mp hend).2
    exact ⟨inner, rfl, mapM_forall (fun _ _ _ => loadable_of_readLayout) hls⟩

/-- The global variables and layouts of a project that have come so far. -/
structure ProjectFields.Loadable (room : Nat) (fields : ProjectFields) : Prop where
  globals : ∀ c, fields.globals? = some c → c.Loadable room
  layouts : ∀ ls, fields.layouts? = some ls →
    ∃ inner, room = inner + 1 ∧ ∀ l ∈ ls, l.Loadable inner

theorem ProjectFields.Loadable.step {room : Nat} {fields fields' : ProjectFields} {name : String}
    {d : Document} (h : fields.Loadable room)
    (hstep : ProjectFields.step room fields name d = .ok fields') : fields'.Loadable room := by
  unfold ProjectFields.step at hstep
  split at hstep
  · split at hstep
    · cases hstep
    · obtain ⟨_, -, hstep⟩ := bind_eq_ok.mp hstep
      cases hstep
      exact ⟨h.globals, h.layouts⟩
  · split at hstep
    · split at hstep
      · cases hstep
      · obtain ⟨c, hc, hstep⟩ := bind_eq_ok.mp hstep
        cases hstep
        refine ⟨fun c' hc' => ?_, h.layouts⟩
        cases hc'
        exact loadable_of_readContainer hc
    · split at hstep
      · split at hstep
        · cases hstep
        · obtain ⟨ls, hls, hstep⟩ := bind_eq_ok.mp hstep
          cases hstep
          refine ⟨h.globals, fun ls' hls' => ?_⟩
          cases hls'
          exact loadable_of_readLayouts hls
      · obtain ⟨_, -, hstep⟩ := bind_eq_ok.mp hstep
        cases hstep
        exact h

/-- The two parts of a project, read where there is this much room. -/
theorem loadable_of_parts {room : Nat} {name : String} {globals : Container}
    {layouts : List Layout} (hglobals : globals.Loadable room)
    (hlayouts : ∃ inner, room = inner + 1 ∧ ∀ l ∈ layouts, l.Loadable inner) :
    Project.Loadable (room + 1) ⟨name, globals, layouts⟩ := by
  obtain ⟨inner, rfl, hlayouts⟩ := hlayouts
  exact .mk hglobals hlayouts

theorem loadable_of_readProjectItems {room : Nat} {items : List Document} {ending : Ending}
    {p : Project} (h : readProjectItems room items ending = .ok p) : p.Loadable (room + 1) := by
  rw [readProjectItems_eq] at h
  obtain ⟨_, _, _, -, -, h⟩ := takeItem_eq_ok h
  obtain ⟨_, _, c, -, hc, h⟩ := takeItem_eq_ok h
  obtain ⟨_, _, ls, -, hls, h⟩ := takeItem_eq_ok h
  obtain ⟨-, -, rfl⟩ := atListEnd_eq_ok.mp h
  exact loadable_of_parts (loadable_of_readContainer hc) (loadable_of_readLayouts hls)

theorem loadable_of_readProject {room : Nat} {d : Document} {p : Project}
    (h : readProject room d = .ok p) : p.Loadable room := by
  cases d with
  | leaf token => cases h
  | array items ending =>
    obtain ⟨inner, rfl, hread⟩ := nested_eq_ok.mp h
    exact loadable_of_readProjectItems hread
  | object members ending =>
    obtain ⟨inner, rfl, hread⟩ := nested_eq_ok.mp h
    rw [readProjectFields_eq inner ending members ⟨none, none, none⟩] at hread
    obtain ⟨fields, hrun, hend⟩ := bind_eq_ok.mp hread
    have hstart : ProjectFields.Loadable inner ⟨none, none, none⟩ := by
      constructor
      · intro c hc
        cases hc
      · intro ls hls
        cases hls
    have hfields : fields.Loadable inner :=
      foldlM_keyed_keeps (fun _ _ _ _ _ => ProjectFields.Loadable.step) hstart hrun
    match fields with
    | ⟨none, _, _⟩ => cases (atEnd_eq_ok.mp hend).2
    | ⟨some _, none, _⟩ => cases (atEnd_eq_ok.mp hend).2
    | ⟨some _, some _, none⟩ => cases (atEnd_eq_ok.mp hend).2
    | ⟨some _, some globals, some layouts⟩ =>
      cases (atEnd_eq_ok.mp hend).2
      exact loadable_of_parts (hfields.globals globals rfl) (hfields.layouts layouts rfl)

theorem readText_eq_ok {α : Type} {read : Nat → Document → Except ReadError α} {text : List Char}
    {x : α} :
    readText read text = .ok x ↔ read nestingLimit (Contents.ofChars text).value = .ok x
      ∧ (Contents.ofChars text).trailing = false := by
  refine bind_eq_ok.trans ?_
  cases (Contents.ofChars text).trailing with
  | false =>
    constructor
    · rintro ⟨y, hy, h⟩
      cases h
      exact ⟨hy, rfl⟩
    · rintro ⟨hx, -⟩
      exact ⟨x, hx, rfl⟩
  | true =>
    constructor
    · rintro ⟨_, _, h⟩
      cases h
    · rintro ⟨_, h⟩
      cases h

end Json

open Json

/-! ## Whole texts -/

theorem Variable.loadable_of_ofJson {text : String} {v : Variable}
    (h : Variable.ofJson text = .ok v) : v.Loadable nestingLimit :=
  (Document.loadable _).asVariable _ _ _ (readText_eq_ok.mp h).1

theorem Container.loadable_of_ofJson {text : String} {c : Container}
    (h : Container.ofJson text = .ok c) : c.Loadable nestingLimit :=
  loadable_of_readContainer (readText_eq_ok.mp h).1

theorem Layout.loadable_of_ofJson {text : String} {l : Layout} (h : Layout.ofJson text = .ok l) :
    l.Loadable nestingLimit :=
  loadable_of_readLayout (readText_eq_ok.mp h).1

theorem Project.loadable_of_ofJson {text : String} {p : Project}
    (h : Project.ofJson text = .ok p) : p.Loadable nestingLimit :=
  loadable_of_readProject (readText_eq_ok.mp h).1

/-! ## Names -/

theorem Variable.Loadable.namesUnique {room : Nat} {v : Variable} (h : v.Loadable room) :
    v.NamesUnique := by
  induction h with
  | number _ | string _ | boolean _ =>
    rw [Variable.NamesUnique]
    trivial
  | record hunique _ ih =>
    rw [Variable.NamesUnique]
    exact ⟨hunique, childrenNamesUnique_iff.mpr ih⟩
  | array _ ih =>
    rw [Variable.NamesUnique]
    exact elementsNamesUnique_iff.mpr ih

theorem Container.Loadable.namesUnique {room : Nat} {c : Container} (h : c.Loadable room) :
    c.NamesUnique := by
  obtain ⟨hentries⟩ := h
  exact ⟨hentries.unique,
    childrenNamesUnique_iff.mpr fun m hm => (hentries.loadable m hm).namesUnique⟩

theorem Layout.Loadable.namesUnique {room : Nat} {l : Layout} (h : l.Loadable room) :
    l.NamesUnique := by
  obtain ⟨hlocals⟩ := h
  exact hlocals.namesUnique

theorem Project.Loadable.namesUnique {room : Nat} {p : Project} (h : p.Loadable room) :
    p.NamesUnique := by
  obtain ⟨hglobals, hlayouts⟩ := h
  exact ⟨hglobals.namesUnique, fun l hl => (hlayouts l hl).namesUnique⟩

end ScopedVars
