import ScopedVars.Proofs.Json.Loadable

/-!
# `Proofs/Json/Resaved` — what can be loaded can be saved

A text that was read may be spelled in many ways, and is written in one. So saving what was loaded
gives another text, as a rule, and the question is whether anything is lost on the way: whether the
new text is accepted, whether the value is the same, and whether the text stays as it is from then
on.

All of that is one fact about written texts. There are two offences in a written text, a missing
number and a bracket too deep (`Proofs/Json/Landmarks`), and a loadable value has neither
(`Loadable.harmless`): its numbers are finite, and its room and the brackets around it make up the
limit. As only loadable values are ever read, `exists_text_iff` follows.
-/

set_option autoImplicit false

namespace ScopedVars

namespace Json

/-! ## What is loadable is read back -/

theorem mem_itemLandmarks {nesting : Nat} {mark : Landmark} : ∀ {items : List Tree},
    mark ∈ itemLandmarks nesting items → ∃ t ∈ items, mark ∈ t.landmarks nesting
  | [], h => by
    rw [itemLandmarks] at h
    cases h
  | t :: rest, h => by
    rw [itemLandmarks] at h
    rcases List.mem_append.mp h with h | h
    · exact ⟨t, List.mem_cons_self, h⟩
    · obtain ⟨u, hu, h⟩ := mem_itemLandmarks h
      exact ⟨u, List.mem_cons_of_mem t hu, h⟩

theorem elementTrees_eq (elements : List Variable) :
    elementTrees elements = elements.map variableTree := by
  induction elements with
  | nil =>
    rw [elementTrees]
    rfl
  | cons v rest ih =>
    rw [elementTrees, ih]
    rfl

theorem mem_childLandmarks {nesting : Nat} {mark : Landmark} :
    ∀ {children : List (String × Variable)},
      mark ∈ memberLandmarks nesting (childTrees children) →
        ∃ m ∈ children, mark ∈ (variableTree m.2).landmarks nesting
  | [], h => by
    rw [childTrees, memberLandmarks] at h
    cases h
  | (name, v) :: rest, h => by
    rw [childTrees, memberLandmarks] at h
    rcases List.mem_append.mp h with h | h
    · exact ⟨(name, v), List.mem_cons_self, h⟩
    · obtain ⟨m, hm, h⟩ := mem_childLandmarks h
      exact ⟨m, List.mem_cons_of_mem _ hm, h⟩

/-- Nothing here is an offence. -/
def Harmless (marks : List Landmark) : Prop :=
  ∀ mark ∈ marks, mark.offence? = none

theorem Harmless.opening {nesting : Nat} {marks : List Landmark} (hdepth : nesting ≤ nestingLimit)
    (h : Harmless marks) : Harmless (.opening nesting :: marks) :=
  List.forall_mem_cons.mpr ⟨if_neg (Nat.not_lt.mpr hdepth), h⟩

theorem Harmless.settle_eq {α : Type} {marks : List Landmark} (h : Harmless marks) (x : α) :
    settle marks x = .ok x := by
  unfold settle
  rw [List.findSome?_eq_none_iff.mpr h]

end Json

open Json

namespace Variable.Loadable

theorem harmless {room : Nat} {v : Variable} (h : v.Loadable room) :
    ∀ {nesting : Nat}, room + nesting = nestingLimit →
      Harmless ((variableTree v).landmarks nesting) := by
  induction h with
  | number hx =>
    intro nesting hroom
    rw [variableTree, landmarks_typedTree]
    refine .opening (by omega) ?_
    unfold numberTree
    rw [if_pos hx, Tree.landmarks]
    exact List.forall_mem_cons.mpr ⟨rfl, List.forall_mem_nil _⟩
  | string s =>
    intro nesting hroom
    rw [variableTree, landmarks_typedTree, Tree.landmarks]
    exact .opening (by omega) (List.forall_mem_nil _)
  | boolean b =>
    intro nesting hroom
    rw [variableTree, landmarks_typedTree, Tree.landmarks]
    exact .opening (by omega) (List.forall_mem_nil _)
  | record _ _ ih =>
    intro nesting hroom
    rw [variableTree, landmarks_typedTree, Tree.landmarks]
    refine .opening (by omega) (.opening (by omega) fun mark hmark => ?_)
    obtain ⟨m, hm, hmark⟩ := mem_childLandmarks hmark
    exact ih m hm (by omega) mark hmark
  | array _ ih =>
    intro nesting hroom
    rw [variableTree, landmarks_typedTree, Tree.landmarks]
    refine .opening (by omega) (.opening (by omega) fun mark hmark => ?_)
    rw [elementTrees_eq] at hmark
    obtain ⟨t, ht, hmark⟩ := mem_itemLandmarks hmark
    obtain ⟨v, hv, rfl⟩ := List.mem_map.mp ht
    exact ih v hv (by omega) mark hmark

end Variable.Loadable

theorem Container.Loadable.harmless {room nesting : Nat} {c : Container} (h : c.Loadable room)
    (hroom : room + nesting = nestingLimit) : Harmless ((containerTree c).landmarks nesting) := by
  obtain ⟨hentries⟩ := h
  unfold containerTree
  rw [Tree.landmarks]
  refine .opening (by omega) fun mark hmark => ?_
  obtain ⟨m, hm, hmark⟩ := mem_childLandmarks hmark
  exact (hentries.loadable m hm).harmless (by omega) mark hmark

theorem Layout.Loadable.harmless {room nesting : Nat} {l : Layout} (h : l.Loadable room)
    (hroom : room + nesting = nestingLimit) : Harmless ((layoutTree l).landmarks nesting) := by
  obtain ⟨hlocals⟩ := h
  rw [landmarks_layoutTree]
  exact .opening (by omega) (hlocals.harmless (by omega))

theorem Project.Loadable.harmless {room nesting : Nat} {p : Project} (h : p.Loadable room)
    (hroom : room + nesting = nestingLimit) : Harmless ((projectTree p).landmarks nesting) := by
  obtain ⟨hglobals, hlayouts⟩ := h
  rw [landmarks_projectTree]
  have hlist : Harmless (.opening (nesting + 2)
      :: itemLandmarks (nesting + 2) (p.layouts.map layoutTree)) := by
    refine .opening (by omega) fun mark hmark => ?_
    obtain ⟨t, ht, hmark⟩ := mem_itemLandmarks hmark
    obtain ⟨l, hl, rfl⟩ := List.mem_map.mp ht
    exact (hlayouts l hl).harmless (by omega) mark hmark
  exact .opening (by omega) (List.forall_mem_append.mpr ⟨hglobals.harmless (by omega), hlist⟩)

namespace Json

theorem readText_of_harmless {α : Type} {read : Nat → Document → Except ReadError α}
    {text : List Char} {t : Tree} {x : α} (htext : TreeText t text)
    (hread : read nestingLimit t.document = settle (t.landmarks 0) x)
    (hmarks : Harmless (t.landmarks 0)) : readText read (String.ofList text).toList = .ok x := by
  rw [String.toList_ofList, readText_eq_settle htext.spells hread,
    textLandmarks_of_spells htext.spells, hmarks.settle_eq]

end Json

/-! ## Saving what was loaded -/

/-- What can be read from some text can be read back from its own. -/
theorem Variable.exists_text_iff (v : Variable) :
    (∃ text, Variable.ofJson text = .ok v) ↔ Variable.ofJson v.toJson = .ok v := by
  refine ⟨?_, fun h => ⟨v.toJson, h⟩⟩
  rintro ⟨text, h⟩
  have hv := Variable.loadable_of_ofJson h
  exact readText_of_harmless (treeText_variable v) (readVariable_written v hv.namesUnique rfl)
    (hv.harmless rfl)

theorem Container.exists_text_iff (c : Container) :
    (∃ text, Container.ofJson text = .ok c) ↔ Container.ofJson c.toJson = .ok c := by
  refine ⟨?_, fun h => ⟨c.toJson, h⟩⟩
  rintro ⟨text, h⟩
  have hc := Container.loadable_of_ofJson h
  exact readText_of_harmless (treeText_container c) (readContainer_written hc.namesUnique rfl)
    (hc.harmless rfl)

theorem Layout.exists_text_iff (l : Layout) :
    (∃ text, Layout.ofJson text = .ok l) ↔ Layout.ofJson l.toJson = .ok l := by
  refine ⟨?_, fun h => ⟨l.toJson, h⟩⟩
  rintro ⟨text, h⟩
  have hl := Layout.loadable_of_ofJson h
  exact readText_of_harmless (treeText_layout l) (readLayout_written hl.namesUnique rfl)
    (hl.harmless rfl)

theorem Project.exists_text_iff (p : Project) :
    (∃ text, Project.ofJson text = .ok p) ↔ Project.ofJson p.toJson = .ok p := by
  refine ⟨?_, fun h => ⟨p.toJson, h⟩⟩
  rintro ⟨text, h⟩
  have hp := Project.loadable_of_ofJson h
  exact readText_of_harmless (treeText_project p) (readProject_written hp.namesUnique rfl)
    (hp.harmless rfl)

namespace Json

/-- Saving a value and loading it again loses nothing. -/
structure Resaves {α : Type} (read : String → Except ReadError α) (write : α → String) (x : α) :
    Prop where
  /-- The written text is accepted, and read to the value itself, bit for bit and in its order. -/
  reads : read (write x) = .ok x
  /-- What is read from it is written as the same text again. -/
  settles : ∀ y, read (write x) = .ok y → write y = write x

theorem resaves_of_reads {α : Type} {read : String → Except ReadError α} {write : α → String}
    {x : α} (h : read (write x) = .ok x) : Resaves read write x := by
  refine ⟨h, fun y hy => ?_⟩
  cases h.symm.trans hy
  rfl

/-- **Whatever can be loaded can be saved and loaded again without loss**, however its text was
spelled. -/
theorem loaded_value_resaves :
    (∀ text v, Variable.ofJson text = .ok v → Resaves Variable.ofJson Variable.toJson v)
    ∧ (∀ text c, Container.ofJson text = .ok c → Resaves Container.ofJson Container.toJson c)
    ∧ (∀ text l, Layout.ofJson text = .ok l → Resaves Layout.ofJson Layout.toJson l)
    ∧ (∀ text p, Project.ofJson text = .ok p → Resaves Project.ofJson Project.toJson p) := by
  refine ⟨fun text v h => ?_, fun text c h => ?_, fun text l h => ?_, fun text p h => ?_⟩
  · exact resaves_of_reads ((Variable.exists_text_iff v).mp ⟨text, h⟩)
  · exact resaves_of_reads ((Container.exists_text_iff c).mp ⟨text, h⟩)
  · exact resaves_of_reads ((Layout.exists_text_iff l).mp ⟨text, h⟩)
  · exact resaves_of_reads ((Project.exists_text_iff p).mp ⟨text, h⟩)

/-- A name that comes again with an escape in it, a value before its type, a key that means nothing,
lists in place of maps and a negative zero. -/
def untidyText : String :=
  "\x7b\"a\":[\"number\",1],\"b\":\x7b\"value\":[[\"number\",-0e9]],\"x\":[\x7b\x7d],\"type\":\"array\"\x7d,"
    ++ " \"\\u0061\":[\"string\",\"q\"]\x7d"

theorem untidyText_resaves :
    Container.ofJson untidyText
        = .ok ⟨[("a", .string "q"), ("b", .array [.number (.ofRank true 0)])]⟩
      ∧ Container.ofJson
          (Container.toJson ⟨[("a", .string "q"), ("b", .array [.number (.ofRank true 0)])]⟩)
        = .ok ⟨[("a", .string "q"), ("b", .array [.number (.ofRank true 0)])]⟩ := by
  have hread : Container.ofJson untidyText
      = .ok ⟨[("a", .string "q"), ("b", .array [.number (.ofRank true 0)])]⟩ := by
    decide +kernel
  exact ⟨hread, (loaded_value_resaves.2.1 _ _ hread).reads⟩

end Json

end ScopedVars
