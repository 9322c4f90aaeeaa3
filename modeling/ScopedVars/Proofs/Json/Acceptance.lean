import ScopedVars.Json.Read
import ScopedVars.Proofs.Json.Entries
import ScopedVars.Proofs.Json.Grammar

/-!
# `Proofs/Json/Acceptance` — the reader accepts exactly what denotes

Containers, layouts and projects, and then whole texts. A layout and a project collect their fields
as they come, and `Fills` is what is left to hold at any moment: of a field that has come no other
may follow, and of one that has not there must be exactly one. The order of the fields drops out
with it, and so do the keys that are unknown.

A step of a reader is a `Takes` for each of its fields, and `Fills` goes from one member to the next
by it (`fills_cons_iff`).
-/

set_option autoImplicit false

namespace ScopedVars

namespace Json

/-! ## Containers -/

theorem readContainer_iff {room : Nat} {t : Tree} {c : Container} (hwithin : t.Within room) :
    readContainer room t.document = .ok c ↔ DenotesContainer SpelledKind t c := by
  cases t with
  | null | boolean _ | number _ | string _ | array _ =>
    constructor
    · intro h
      cases h
    · intro h
      cases h
  | object members =>
    obtain ⟨inner, rfl, hmembers⟩ := hwithin.members
    have hvariable : ∀ m ∈ members, ∀ v, readVariable .streamed inner m.2.document = .ok v
        ↔ DenotesVariable SpelledKind .streamed m.2 v :=
      fun m hm => (variable_payload_iff inner).1 .streamed m.2 (hmembers m hm)
    constructor
    · intro h
      obtain ⟨children, hread, hc⟩ := bind_eq_ok.mp h
      cases hc
      obtain ⟨entries, hentries, rfl⟩ := (readChildren_nil_iff hvariable).mp hread
      exact .mk hentries
    · intro h
      cases h with
      | @mk _ entries h =>
        exact bind_eq_ok.mpr ⟨_, (readChildren_nil_iff hvariable).mpr ⟨entries, h, rfl⟩, rfl⟩

/-! ## Fields that come once

Layouts and projects collect their fields as they come. Of a field that has come no other may
follow, and of one that has not there must be exactly one. -/

/-- The field has this value in the end, given what it has by now and what is still to come for
it. -/
def Fills {α : Type} (reads : Tree → α → Prop) (given : Option α) (values : List Tree) (x : α) :
    Prop :=
  match given with
  | some a => values = [] ∧ a = x
  | none => ∃ t, values = [t] ∧ reads t x

theorem fills_nil_iff {α : Type} {reads : Tree → α → Prop} {given : Option α} {x : α} :
    Fills reads given [] x ↔ given = some x := by
  cases given with
  | none =>
    constructor
    · rintro ⟨t, hvalues, -⟩
      cases hvalues
    · intro h
      cases h
  | some a => simp [Fills]

section Takes

variable {α : Type} {read : Document → Except ReadError α} {field key : String} {given : Option α}

/-- **A member is taken, and the rest fills what it leaves.** -/
theorem fills_cons_iff {t : Tree} {rest : List (String × Tree)} {x : α} :
    Fills (fun t a => read t.document = .ok a) given (valuesOf field ((key, t) :: rest)) x ↔
      ∃ given', Takes read field key t.document given given'
        ∧ Fills (fun t a => read t.document = .ok a) given' (valuesOf field rest) x := by
  by_cases hkey : key = field
  · subst hkey
    rw [valuesOf_cons_self]
    cases given with
    | none =>
      constructor
      · rintro ⟨u, hvalues, hx⟩
        obtain ⟨rfl, hrest⟩ := List.cons.inj hvalues
        exact ⟨some x, .comes rfl hx, hrest, rfl⟩
      · rintro ⟨given', htakes, hfills⟩
        obtain ⟨-, a, ha, rfl⟩ := takes_self.mp htakes
        obtain ⟨hrest, rfl⟩ := hfills
        exact ⟨t, by rw [hrest], ha⟩
    | some a =>
      -- Twice is too often: the values are not at their end, and the member finds no empty field.
      constructor
      · rintro ⟨hvalues, -⟩
        cases hvalues
      · rintro ⟨given', htakes, -⟩
        cases (takes_self.mp htakes).1
  · rw [valuesOf_cons_of_ne hkey]
    constructor
    · intro h
      exact ⟨given, .stays hkey given, h⟩
    · rintro ⟨given', htakes, hfills⟩
      cases (takes_of_ne hkey).mp htakes
      exact hfills

end Takes

/-- A reader that goes from member to member gives `a` exactly if what it has collected and what is
left do, when that holds at the end and from one member to the next. -/
theorem foldlM_members_iff {σ α : Type} {step : σ → String → Document → Except ReadError σ}
    {result : σ → Except ReadError α} {a : α} {Left : σ → List (String × Tree) → Prop}
    (hend : ∀ s, result s = .ok a ↔ Left s [])
    (hnext : ∀ s key t rest, Left s ((key, t) :: rest) ↔
      ∃ s', step s key t.document = .ok s' ∧ Left s' rest) :
    ∀ (members : List (String × Tree)) (s : σ),
      ((memberDocuments members).foldlM (keyed step) s >>= fun s => atEnd .closed (result s))
        = .ok a ↔ Left s members := by
  intro members
  induction members with
  | nil => exact hend
  | cons m rest ih =>
    intro s
    obtain ⟨key, t⟩ := m
    rw [memberDocuments, List.foldlM_cons, bind_assoc, bind_eq_ok, hnext]
    exact exists_congr fun s' => and_congr Iff.rfl (ih s')

theorem readString_iff {t : Tree} {s : String} :
    readString t.document = .ok s ↔ t = .string s := by
  constructor
  · intro h
    cases t with
    | string s => cases h; rfl
    | null | boolean _ | number _ | array _ | object _ => cases h
  · rintro rfl
    rfl

/-! ## Layouts -/

section Room

variable {room : Nat}

/-- At the end of the map a field that has not come is missing. -/
theorem LayoutFields.result_eq_ok {s : LayoutFields} {l : Layout} :
    s.result = .ok l ↔ s.name? = some l.name ∧ s.locals? = some l.locals := by
  obtain ⟨name?, locals?⟩ := s
  obtain ⟨name, locals⟩ := l
  cases name? <;> cases locals? <;> simp [LayoutFields.result]

/-- What is left of the map of a layout fills both of its fields. -/
structure LayoutFields.Filled (room : Nat) (l : Layout) (s : LayoutFields)
    (members : List (String × Tree)) : Prop where
  name : Fills (fun t s => readString t.document = .ok s) s.name?
    (valuesOf Field.name.key members) l.name
  locals : Fills (fun t c => readContainer room t.document = .ok c) s.locals?
    (valuesOf Field.vars.key members) l.locals

theorem readLayoutFields_iff {members : List (String × Tree)} {l : Layout} (s : LayoutFields) :
    readLayoutFields room s.name? s.locals? (memberDocuments members) .closed = .ok l
      ↔ s.Filled room l members := by
  rw [readLayoutFields_eq]
  refine foldlM_members_iff (fun s => ?_) (fun s key t rest => ?_) members s
  · rw [LayoutFields.result_eq_ok, ← fills_nil_iff, ← fills_nil_iff]
    exact ⟨fun ⟨hname, hlocals⟩ => ⟨hname, hlocals⟩, fun h => ⟨h.name, h.locals⟩⟩
  · have hstep (s' : LayoutFields) :=
      @LayoutFields.step_eq_ok s s' room key t.document fun _ => skip_document t
    constructor
    · rintro ⟨hname, hlocals⟩
      obtain ⟨name?, hnamed, hname⟩ := fills_cons_iff.mp hname
      obtain ⟨locals?, hlocated, hlocals⟩ := fills_cons_iff.mp hlocals
      exact ⟨⟨name?, locals?⟩, (hstep _).mpr ⟨hnamed, hlocated⟩, hname, hlocals⟩
    · rintro ⟨s', htaken, hname, hlocals⟩
      obtain ⟨hnamed, hlocated⟩ := (hstep s').mp htaken
      exact ⟨fills_cons_iff.mpr ⟨_, hnamed, hname⟩, fills_cons_iff.mpr ⟨_, hlocated, hlocals⟩⟩

theorem readLayoutItems_iff {items : List Tree} {l : Layout}
    (hwithin : ∀ t ∈ items, t.Within room) :
    readLayoutItems room (itemDocuments items) .closed = .ok l
      ↔ DenotesLayout SpelledKind (.array items) l := by
  match items with
  | [] => exact ⟨fun h => (by cases h), fun h => by cases h⟩
  | [_] =>
    constructor
    · intro h
      obtain ⟨_, -, h⟩ := bind_eq_ok.mp h
      cases h
    · intro h
      cases h
  | [name, locals] =>
    have hlocals := hwithin locals (List.mem_cons_of_mem _ List.mem_cons_self)
    constructor
    · intro h
      obtain ⟨s, hs, h⟩ := bind_eq_ok.mp h
      obtain ⟨c, hc, hend⟩ := bind_eq_ok.mp h
      cases readString_iff.mp hs
      cases hend
      exact .array ((readContainer_iff hlocals).mp hc)
    · intro h
      cases h with
      | @array s _ c h =>
        exact bind_eq_ok.mpr ⟨s, rfl, bind_eq_ok.mpr ⟨c, (readContainer_iff hlocals).mpr h, rfl⟩⟩
  | _ :: _ :: _ :: _ =>
    constructor
    · intro h
      obtain ⟨_, -, h⟩ := bind_eq_ok.mp h
      obtain ⟨_, -, h⟩ := bind_eq_ok.mp h
      cases h
    · intro h
      cases h

theorem readLayout_iff {t : Tree} {l : Layout} (hwithin : t.Within room) :
    readLayout room t.document = .ok l ↔ DenotesLayout SpelledKind t l := by
  cases t with
  | null | boolean _ | number _ | string _ =>
    constructor
    · intro h
      cases h
    · intro h
      cases h
  | array items =>
    obtain ⟨inner, rfl, hitems⟩ := hwithin.items
    exact readLayoutItems_iff hitems
  | object members =>
    obtain ⟨inner, rfl, hmembers⟩ := hwithin.members
    refine (readLayoutFields_iff ⟨none, none⟩).trans ?_
    constructor
    · rintro ⟨⟨name, hname, hs⟩, ⟨locals, hlocals, hc⟩⟩
      cases readString_iff.mp hs
      have hin := hmembers _ (mem_of_valuesOf_eq_singleton hlocals)
      exact .object hname hlocals ((readContainer_iff hin).mp hc)
    · intro h
      cases h with
      | @object _ s locals c hname hlocals h =>
        have hin := hmembers _ (mem_of_valuesOf_eq_singleton hlocals)
        exact ⟨⟨_, hname, rfl⟩, ⟨locals, hlocals, (readContainer_iff hin).mpr h⟩⟩

theorem readLayoutList_iff : ∀ {items : List Tree}, (∀ t ∈ items, t.Within room) →
    ∀ {ls : List Layout}, readLayoutList room (itemDocuments items) .closed = .ok ls
      ↔ List.Forall₂ (DenotesLayout SpelledKind) items ls
  | [], _, ls => by
    constructor
    · intro h
      cases h
      exact .nil
    · intro h
      cases h
      rfl
  | t :: rest, hwithin, ls => by
    obtain ⟨ht, hrest⟩ := List.forall_mem_cons.mp hwithin
    constructor
    · intro h
      obtain ⟨l, hl, h⟩ := bind_eq_ok.mp h
      obtain ⟨ls, hls, h⟩ := bind_eq_ok.mp h
      cases h
      exact .cons ((readLayout_iff ht).mp hl) ((readLayoutList_iff hrest).mp hls)
    · intro h
      cases h with
      | @cons _ l _ ls hl hls =>
        exact bind_eq_ok.mpr ⟨l, (readLayout_iff ht).mpr hl,
          bind_eq_ok.mpr ⟨ls, (readLayoutList_iff hrest).mpr hls, rfl⟩⟩

theorem readLayouts_iff {t : Tree} {ls : List Layout} (hwithin : t.Within room) :
    readLayouts room t.document = .ok ls
      ↔ ∃ items, t = .array items ∧ List.Forall₂ (DenotesLayout SpelledKind) items ls := by
  cases t with
  | null | boolean _ | number _ | string _ | object _ =>
    constructor
    · intro h
      cases h
    · rintro ⟨_, h, -⟩
      cases h
  | array items =>
    obtain ⟨inner, rfl, hitems⟩ := hwithin.items
    refine (readLayoutList_iff hitems).trans ?_
    constructor
    · exact fun h => ⟨items, rfl, h⟩
    · rintro ⟨_, h, hls⟩
      cases h
      exact hls

/-! ## Projects -/

theorem ProjectFields.result_eq_ok {s : ProjectFields} {p : Project} :
    s.result = .ok p ↔ s.name? = some p.name ∧ s.globals? = some p.globals
      ∧ s.layouts? = some p.layouts := by
  obtain ⟨name?, globals?, layouts?⟩ := s
  obtain ⟨name, globals, layouts⟩ := p
  cases name? <;> cases globals? <;> cases layouts? <;> simp [ProjectFields.result]

/-- What is left of the map of a project fills its three fields. -/
structure ProjectFields.Filled (room : Nat) (p : Project) (s : ProjectFields)
    (members : List (String × Tree)) : Prop where
  name : Fills (fun t s => readString t.document = .ok s) s.name?
    (valuesOf Field.name.key members) p.name
  globals : Fills (fun t c => readContainer room t.document = .ok c) s.globals?
    (valuesOf Field.vars.key members) p.globals
  layouts : Fills (fun t ls => readLayouts room t.document = .ok ls) s.layouts?
    (valuesOf Field.layouts.key members) p.layouts

theorem readProjectFields_iff {members : List (String × Tree)} {p : Project}
    (s : ProjectFields) :
    readProjectFields room s.name? s.globals? s.layouts? (memberDocuments members) .closed = .ok p
      ↔ s.Filled room p members := by
  rw [readProjectFields_eq]
  refine foldlM_members_iff (fun s => ?_) (fun s key t rest => ?_) members s
  · rw [ProjectFields.result_eq_ok, ← fills_nil_iff, ← fills_nil_iff, ← fills_nil_iff]
    exact ⟨fun ⟨hname, hglobals, hlayouts⟩ => ⟨hname, hglobals, hlayouts⟩,
      fun h => ⟨h.name, h.globals, h.layouts⟩⟩
  · have hstep (s' : ProjectFields) :=
      @ProjectFields.step_eq_ok s s' room key t.document fun _ => skip_document t
    constructor
    · rintro ⟨hname, hglobals, hlayouts⟩
      obtain ⟨name?, hnamed, hname⟩ := fills_cons_iff.mp hname
      obtain ⟨globals?, hshared, hglobals⟩ := fills_cons_iff.mp hglobals
      obtain ⟨layouts?, hlisted, hlayouts⟩ := fills_cons_iff.mp hlayouts
      exact ⟨⟨name?, globals?, layouts?⟩, (hstep _).mpr ⟨hnamed, hshared, hlisted⟩, hname,
        hglobals, hlayouts⟩
    · rintro ⟨s', htaken, hname, hglobals, hlayouts⟩
      obtain ⟨hnamed, hshared, hlisted⟩ := (hstep s').mp htaken
      exact ⟨fills_cons_iff.mpr ⟨_, hnamed, hname⟩, fills_cons_iff.mpr ⟨_, hshared, hglobals⟩,
        fills_cons_iff.mpr ⟨_, hlisted, hlayouts⟩⟩

theorem readProjectItems_iff {items : List Tree} {p : Project}
    (hwithin : ∀ t ∈ items, t.Within room) :
    readProjectItems room (itemDocuments items) .closed = .ok p
      ↔ DenotesProject SpelledKind (.array items) p := by
  match items with
  | [] => exact ⟨fun h => (by cases h), fun h => by cases h⟩
  | [_] =>
    constructor
    · intro h
      obtain ⟨_, -, h⟩ := bind_eq_ok.mp h
      cases h
    · intro h
      cases h
  | [_, _] =>
    constructor
    · intro h
      obtain ⟨_, -, h⟩ := bind_eq_ok.mp h
      obtain ⟨_, -, h⟩ := bind_eq_ok.mp h
      cases h
    · intro h
      cases h
  | [name, globals, layouts] =>
    have hglobals := hwithin globals (List.mem_cons_of_mem _ List.mem_cons_self)
    have hlayouts := hwithin layouts
      (List.mem_cons_of_mem _ (List.mem_cons_of_mem _ List.mem_cons_self))
    constructor
    · intro h
      obtain ⟨s, hs, h⟩ := bind_eq_ok.mp h
      obtain ⟨c, hc, h⟩ := bind_eq_ok.mp h
      obtain ⟨ls, hls, hend⟩ := bind_eq_ok.mp h
      cases readString_iff.mp hs
      obtain ⟨items, rfl, hitems⟩ := (readLayouts_iff hlayouts).mp hls
      cases hend
      exact .array ((readContainer_iff hglobals).mp hc) hitems
    · intro h
      cases h with
      | @array s _ c items ls h hitems =>
        exact bind_eq_ok.mpr ⟨s, rfl, bind_eq_ok.mpr ⟨c, (readContainer_iff hglobals).mpr h,
          bind_eq_ok.mpr ⟨ls, (readLayouts_iff hlayouts).mpr ⟨items, rfl, hitems⟩, rfl⟩⟩⟩
  | _ :: _ :: _ :: _ :: _ =>
    constructor
    · intro h
      obtain ⟨_, -, h⟩ := bind_eq_ok.mp h
      obtain ⟨_, -, h⟩ := bind_eq_ok.mp h
      obtain ⟨_, -, h⟩ := bind_eq_ok.mp h
      cases h
    · intro h
      cases h

theorem readProject_iff {t : Tree} {p : Project} (hwithin : t.Within room) :
    readProject room t.document = .ok p ↔ DenotesProject SpelledKind t p := by
  cases t with
  | null | boolean _ | number _ | string _ =>
    constructor
    · intro h
      cases h
    · intro h
      cases h
  | array items =>
    obtain ⟨inner, rfl, hitems⟩ := hwithin.items
    exact readProjectItems_iff hitems
  | object members =>
    obtain ⟨inner, rfl, hmembers⟩ := hwithin.members
    refine (readProjectFields_iff ⟨none, none, none⟩).trans ?_
    constructor
    · rintro ⟨⟨name, hname, hs⟩, ⟨globals, hglobals, hc⟩, ⟨layouts, hlayouts, hls⟩⟩
      cases readString_iff.mp hs
      have hin := hmembers _ (mem_of_valuesOf_eq_singleton hglobals)
      have hlist := hmembers _ (mem_of_valuesOf_eq_singleton hlayouts)
      obtain ⟨items, rfl, hitems⟩ := (readLayouts_iff hlist).mp hls
      exact .object hname hglobals hlayouts ((readContainer_iff hin).mp hc) hitems
    · intro h
      cases h with
      | @object _ s globals c items ls hname hglobals hlayouts h hitems =>
        have hin := hmembers _ (mem_of_valuesOf_eq_singleton hglobals)
        have hlist := hmembers _ (mem_of_valuesOf_eq_singleton hlayouts)
        exact ⟨⟨_, hname, rfl⟩, ⟨globals, hglobals, (readContainer_iff hin).mpr h⟩,
          ⟨_, hlayouts, (readLayouts_iff hlist).mpr ⟨items, rfl, hitems⟩⟩⟩

end Room

/-! ## Texts -/

/-- Of a text only its tree matters. -/
theorem readText_eq {α : Type} {read : Nat → Document → Except ReadError α} {text : List Char}
    {t : Tree} (h : PaddedText t text) : readText read text = read nestingLimit t.document := by
  unfold readText
  rw [h.contents]
  show (read nestingLimit t.document >>= fun result => Except.ok result) = _
  cases read nestingLimit t.document <;> rfl

/-- **A text is accepted exactly if its tree denotes**, and is read as what its tree denotes. Where
kinds are named the order of the keys does not matter, of none of them: in whichever mode the tree
denotes, the relation asks only which keys there are. -/
theorem accepted_iff_denotes {t : Tree} {text : String} (htext : PaddedText t text.toList)
    (hnesting : t.nesting ≤ 127) (hnumbers : t.NumbersFit) :
    (∀ v, Variable.ofJson text = .ok v ↔ DenotesVariable SpelledKind .streamed t v)
    ∧ (∀ c, Container.ofJson text = .ok c ↔ DenotesContainer SpelledKind t c)
    ∧ (∀ l, Layout.ofJson text = .ok l ↔ DenotesLayout SpelledKind t l)
    ∧ (∀ p, Project.ofJson text = .ok p ↔ DenotesProject SpelledKind t p)
    ∧ ∀ mode v, DenotesVariable NamedKind mode t v → Variable.ofJson text = .ok v := by
  have hwithin : t.Within nestingLimit := ⟨hnesting, hnumbers⟩
  have hvariable : ∀ v,
      Variable.ofJson text = .ok v ↔ DenotesVariable SpelledKind .streamed t v := by
    intro v
    unfold Variable.ofJson
    rw [readText_eq htext]
    exact (variable_payload_iff nestingLimit).1 .streamed t hwithin v
  refine ⟨hvariable, fun c => ?_, fun l => ?_, fun p => ?_,
    fun mode v h => (hvariable v).mpr (h.of_named .streamed)⟩
  · unfold Container.ofJson
    rw [readText_eq htext]
    exact readContainer_iff hwithin
  · unfold Layout.ofJson
    rw [readText_eq htext]
    exact readLayout_iff hwithin
  · unfold Project.ofJson
    rw [readText_eq htext]
    exact readProject_iff hwithin

/-- A list that comes before its type, and in it a pair whose type is a number. -/
def numberedTree : Tree :=
  .object [(Field.value.key, .array [.array [.number ⟨false, 1, 0, true⟩, .string "x"]]),
    (Field.type.key, .string "array")]

/-- One of its texts, with blanks and with an escape in a key. -/
def numberedText : String :=
  "\x7b\"value\":[ [1,\"x\"]],\"t\\u0079pe\" :\"array\"\x7d"

theorem paddedText_numberedText : PaddedText numberedTree numberedText.toList := by
  have hone : NumberText ⟨false, 1, 0, true⟩ ['1'] :=
    @NumberText.whole false ['1'] (List.forall_mem_singleton.mpr rfl) (by decide) nofun
  have hpair := TreeText.array (.more (TreeText.number hone).padded
    (.last (TreeText.string (stringText_stringChars "x")).padded))
  have hblank : Blanks [' '] := List.forall_mem_singleton.mpr rfl
  have hlist := TreeText.array (.last (PaddedText.mk hblank hpair blanks_nil))
  have hletter : CharText 'y' ['\\', 'u', '0', '0', '7', '9'] :=
    .unit (@UnitText.mk '0' '0' '7' '9' 0 0 7 9 rfl rfl rfl rfl)
  have hkey : StringText Field.type.key "\"t\\u0079pe\"".toList :=
    ⟨[['t'], ['\\', 'u', '0', '0', '7', '9'], ['p'], ['e']],
      .cons (.plain (by decide) (by decide) (by decide)) (.cons hletter
        (.cons (.plain (by decide) (by decide) (by decide))
          (.cons (.plain (by decide) (by decide) (by decide)) .nil))), by decide⟩
  exact (TreeText.object (.more (.ofStringText (stringText_stringChars Field.value.key))
    hlist.padded (.last (.mk blanks_nil hkey hblank)
      (TreeText.string (stringText_stringChars "array")).padded))).padded

theorem numbersFit_numberedTree : numberedTree.NumbersFit := by
  have hone : (Numeral.toDouble? ⟨false, 1, 0, true⟩).isSome = true := by decide +kernel
  exact ⟨⟨⟨hone, trivial, trivial⟩, trivial⟩, trivial, trivial⟩

theorem numberedText_read : Variable.ofJson numberedText = .ok (.array [.string "x"]) := by
  have hpair : DenotesVariable SpelledKind .held
      (.array [.number ⟨false, 1, 0, true⟩, .string "x"]) (.string "x") :=
    .array (@SpelledKind.index _ 1 .string rfl rfl) (.string "x")
  have htree : DenotesVariable SpelledKind .streamed numberedTree (.array [.string "x"]) :=
    .object rfl rfl (@SpelledKind.word .field _ "array" .array rfl) (.array (.cons hpair .nil))
  have hiff := accepted_iff_denotes paddedText_numberedText (by decide) numbersFit_numberedTree
  exact (hiff.1 _).mpr htree

theorem numberedText_read_unnamed :
    PaddedText numberedTree numberedText.toList ∧ numberedTree.nesting ≤ 127
      ∧ numberedTree.NumbersFit ∧ Variable.ofJson numberedText = .ok (.array [.string "x"])
      ∧ ∀ v, ¬ DenotesVariable NamedKind .streamed numberedTree v := by
  refine ⟨paddedText_numberedText, by decide, numbersFit_numberedTree, by decide +kernel, ?_⟩
  intro v h
  cases h with
  | object htype hvalue hkind hpayload =>
    cases htype
    cases hvalue
    cases hkind with
    | word hkind =>
      cases hkind
      cases hpayload with
      | array hitems =>
        cases hitems with
        | cons hpair _ =>
          cases hpair with
          | array hnumber _ => cases hnumber

end Json

end ScopedVars
