import ScopedVars.Chain
import ScopedVars.Proofs.Json.Landmarks
import ScopedVars.Proofs.Json.Written
import ScopedVars.Proofs.Names

/-!
# `Proofs/Json/RoundTrip` — what is written is read back

The reader of a written text has one answer that can be told from the text alone: its first offence,
or else the value it was written for (`settle`). One lemma for each reader says so, in the shape
of the reader and of the writer, which is the same shape.

The depth of a bracket is the one thing they have to agree on. The reader counts the room that is
left and the text the brackets that are open; the two make up the limit in every place, and that is
the hypothesis all the lemmas share.

`ReadsBack` then is the statement in the words of its reader: when the text is accepted, with which
value, and with which error it is not.
-/

set_option autoImplicit false

namespace ScopedVars

/-! ## The numbers of a value -/

mutual

/-- The numbers in a variable, in the order in which they are written. -/
def Variable.numbers : Variable → List Double
  | .number x => [x]
  | .string _ | .boolean _ => []
  | .record children => childrenNumbers children
  | .array elements => elementsNumbers elements

def childrenNumbers : List (String × Variable) → List Double
  | [] => []
  | (_, v) :: rest => v.numbers ++ childrenNumbers rest

def elementsNumbers : List Variable → List Double
  | [] => []
  | v :: rest => v.numbers ++ elementsNumbers rest

end

def Container.numbers (c : Container) : List Double :=
  childrenNumbers c.entries

def Layout.numbers (l : Layout) : List Double :=
  l.locals.numbers

def Project.numbers (p : Project) : List Double :=
  p.globals.numbers ++ p.layouts.flatMap Layout.numbers

namespace Json

/-! ## Where the brackets of a written text stand -/

theorem landmarks_typedTree (nesting : Nat) (kind : Kind) (t : Tree) :
    (typedTree kind t).landmarks nesting
      = .opening (nesting + 1) :: t.landmarks (nesting + 1) := by
  show Landmark.opening (nesting + 1) :: ([] ++ (t.landmarks (nesting + 1) ++ [])) = _
  rw [List.nil_append, List.append_nil]

theorem landmarks_layoutTree (nesting : Nat) (l : Layout) :
    (layoutTree l).landmarks nesting
      = .opening (nesting + 1) :: (containerTree l.locals).landmarks (nesting + 1) := by
  show Landmark.opening (nesting + 1)
    :: ([] ++ ((containerTree l.locals).landmarks (nesting + 1) ++ [])) = _
  rw [List.nil_append, List.append_nil]

theorem landmarks_projectTree (nesting : Nat) (p : Project) :
    (projectTree p).landmarks nesting
      = .opening (nesting + 1) :: ((containerTree p.globals).landmarks (nesting + 1)
        ++ .opening (nesting + 2) :: itemLandmarks (nesting + 2) (p.layouts.map layoutTree)) := by
  show Landmark.opening (nesting + 1)
    :: ([] ++ ((containerTree p.globals).landmarks (nesting + 1)
      ++ ((Tree.array (p.layouts.map layoutTree)).landmarks (nesting + 1) ++ []))) = _
  rw [List.nil_append, List.append_nil]
  rfl

/-! ## Reading what is written -/

theorem kindOf_kindWord (kind : Kind) : kindOf (kindWord kind) = .ok kind := by
  cases kind <;> rfl

theorem readPayload_number (room nesting : Nat) (x : Double) :
    readPayload .streamed room .number (numberTree x).document
      = settle ((numberTree x).landmarks nesting) (.number x) := by
  unfold numberTree
  by_cases hx : x.isFinite = true
  · rw [if_pos hx, Tree.document, Tree.landmarks, readPayload, readNumber, toDouble?_written hx]
    rfl
  · rw [if_neg hx, Tree.document, Tree.landmarks, readPayload]
    rfl

/-- A variable is as good as the payload under its kind. -/
theorem readVariable_typed {room nesting : Nat} (h : room + nesting = nestingLimit) {kind : Kind}
    {t : Tree} {v : Variable}
    (hpayload : ∀ room, room + (nesting + 1) = nestingLimit →
      readPayload .streamed room kind t.document = settle (t.landmarks (nesting + 1)) v) :
    readVariable .streamed room (typedTree kind t).document
      = settle ((typedTree kind t).landmarks nesting) v := by
  have hdocument : (typedTree kind t).document
      = .object [(.string (some Field.type.key), .leaf (.string (some (kindWord kind)))),
        (.string (some Field.value.key), t.document)] .closed := rfl
  rw [landmarks_typedTree, hdocument, readVariable]
  refine nested_settle h fun room hroom => ?_
  have hsecond : readFields .streamed room (.kind kind)
      [(.string (some Field.value.key), t.document)] .closed
        = (readPayload .streamed room kind t.document >>= fun v => .ok v) := by
    rw [readFields]
    show (readPayload .streamed room kind t.document >>= fun v =>
      readFields .streamed room (.whole v) [] .closed) = _
    simp only [readFields]
    rfl
  rw [readFields]
  show (kindOf (kindWord kind) >>= fun kind => readFields .streamed room (.kind kind)
    [(.string (some Field.value.key), t.document)] .closed) = _
  rw [kindOf_kindWord]
  show readFields .streamed room (.kind kind) _ _ = _
  rw [hsecond, hpayload room hroom]
  exact settle_map _ v id

mutual

/-- **The reader at a written variable**: its value, or its first offence. -/
theorem readVariable_written : ∀ (v : Variable) {room nesting : Nat}, v.NamesUnique →
    room + nesting = nestingLimit →
      readVariable .streamed room (variableTree v).document
        = settle ((variableTree v).landmarks nesting) v
  | .number x, _, nesting, _, h => by
    rw [variableTree]
    exact readVariable_typed h fun room _ => readPayload_number room (nesting + 1) x
  | .string s, _, _, _, h => by
    rw [variableTree]
    refine readVariable_typed h fun room _ => ?_
    rw [Tree.document, readPayload, Tree.landmarks]
    rfl
  | .boolean b, _, _, _, h => by
    rw [variableTree]
    refine readVariable_typed h fun room _ => ?_
    rw [Tree.document, readPayload, Tree.landmarks]
    rfl
  | .record children, _, _, hnames, h => by
    rw [Variable.NamesUnique] at hnames
    rw [variableTree]
    refine readVariable_typed h fun room hroom => ?_
    rw [Tree.document, readPayload, Tree.landmarks]
    refine nested_settle hroom fun room hroom => ?_
    have hunique : Bindings.Unique ([] ++ children) := hnames.1
    rw [readChildren_written children hunique hnames.2 hroom]
    exact settle_map _ children Variable.record
  | .array elements, _, _, hnames, h => by
    rw [Variable.NamesUnique] at hnames
    rw [variableTree]
    refine readVariable_typed h fun room hroom => ?_
    rw [Tree.document, readPayload, Tree.landmarks]
    refine nested_settle hroom fun room hroom => ?_
    rw [readElements_written elements hnames hroom]
    exact settle_map _ elements Variable.array

theorem readElements_written : ∀ (elements : List Variable) {room nesting : Nat},
    elementsNamesUnique elements → room + nesting = nestingLimit →
      readElements .streamed room (itemDocuments (elementTrees elements)) .closed
        = settle (itemLandmarks nesting (elementTrees elements)) elements
  | [], _, _, _, _ => by
    rw [elementTrees, itemDocuments, readElements, itemLandmarks]
    rfl
  | v :: rest, _, _, hnames, h => by
    rw [elementsNamesUnique] at hnames
    rw [elementTrees, itemDocuments, readElements, itemLandmarks,
      readVariable_written v hnames.1 h]
    refine settle_bind ?_
    rw [readElements_written rest hnames.2 h]
    exact settle_map _ rest (v :: ·)

/-- Children come behind those that have been read, each under a name of its own. -/
theorem readChildren_written : ∀ (children : List (String × Variable))
    {before : List (String × Variable)} {room nesting : Nat},
    Bindings.Unique (before ++ children) → childrenNamesUnique children →
    room + nesting = nestingLimit →
      readChildren .streamed room before (memberDocuments (childTrees children)) .closed
        = settle (memberLandmarks nesting (childTrees children)) (before ++ children)
  | [], before, _, _, _, _, _ => by
    rw [childTrees, memberDocuments, readChildren, memberLandmarks, List.append_nil]
    rfl
  | (name, v) :: rest, before, _, _, hunique, hnames, h => by
    rw [childrenNamesUnique] at hnames
    have hsplit : before ++ (name, v) :: rest = (before ++ [(name, v)]) ++ rest := by
      rw [List.append_assoc]
      rfl
    -- The name is new, so that inserting it appends. This is what uniqueness is needed for.
    have hfree : name ∉ Bindings.names before := Bindings.not_mem_of_unique_append hunique
    rw [childTrees, memberDocuments, readChildren, memberLandmarks]
    show (readVariable .streamed _ (variableTree v).document >>= fun w => readChildren .streamed _
      (Bindings.insert before name w) (memberDocuments (childTrees rest)) .closed) = _
    rw [readVariable_written v hnames.1 h]
    refine settle_bind ?_
    rw [Bindings.insert_of_not_mem hfree v, hsplit]
    exact readChildren_written rest (hsplit ▸ hunique) hnames.2 h

end

theorem readContainer_written {c : Container} {room nesting : Nat} (hnames : c.NamesUnique)
    (h : room + nesting = nestingLimit) :
    readContainer room (containerTree c).document
      = settle ((containerTree c).landmarks nesting) c := by
  unfold containerTree
  rw [Tree.document, readContainer, Tree.landmarks]
  refine nested_settle h fun room hroom => ?_
  have hunique : Bindings.Unique ([] ++ c.entries) := hnames.1
  rw [readChildren_written c.entries hunique hnames.2 hroom]
  exact settle_map _ c.entries Container.mk

theorem readLayout_written {l : Layout} {room nesting : Nat} (hnames : l.NamesUnique)
    (h : room + nesting = nestingLimit) :
    readLayout room (layoutTree l).document = settle ((layoutTree l).landmarks nesting) l := by
  have hdocument : (layoutTree l).document
      = .object [(.string (some Field.name.key), .leaf (.string (some l.name))),
        (.string (some Field.vars.key), (containerTree l.locals).document)] .closed := rfl
  rw [landmarks_layoutTree, hdocument, readLayout]
  refine nested_settle h fun room hroom => ?_
  show (readContainer room (containerTree l.locals).document >>= fun c =>
    readLayoutFields room (some l.name) (some c) [] .closed) = _
  rw [readContainer_written hnames hroom]
  exact settle_map _ l.locals (Layout.mk l.name)

theorem readLayoutList_written : ∀ (ls : List Layout) {room nesting : Nat},
    (∀ l ∈ ls, l.NamesUnique) → room + nesting = nestingLimit →
      readLayoutList room (itemDocuments (ls.map layoutTree)) .closed
        = settle (itemLandmarks nesting (ls.map layoutTree)) ls
  | [], _, _, _, _ => by
    rw [List.map_nil, itemDocuments, itemLandmarks]
    rfl
  | l :: rest, _, _, hnames, h => by
    obtain ⟨hl, hrest⟩ := List.forall_mem_cons.mp hnames
    rw [List.map_cons, itemDocuments, readLayoutList, itemLandmarks, readLayout_written hl h]
    refine settle_bind ?_
    rw [readLayoutList_written rest hrest h]
    exact settle_map _ rest (l :: ·)

theorem readProject_written {p : Project} {room nesting : Nat} (hnames : p.NamesUnique)
    (h : room + nesting = nestingLimit) :
    readProject room (projectTree p).document = settle ((projectTree p).landmarks nesting) p := by
  have hdocument : (projectTree p).document
      = .object [(.string (some Field.name.key), .leaf (.string (some p.name))),
        (.string (some Field.vars.key), (containerTree p.globals).document),
        (.string (some Field.layouts.key), (Tree.array (p.layouts.map layoutTree)).document)]
        .closed := rfl
  rw [landmarks_projectTree, hdocument, readProject]
  refine nested_settle h fun room hroom => ?_
  show (readContainer room (containerTree p.globals).document >>= fun c =>
    readLayouts room (Tree.array (p.layouts.map layoutTree)).document >>= fun ls =>
      readProjectFields room (some p.name) (some c) (some ls) [] .closed) = _
  rw [readContainer_written hnames.1 hroom]
  refine settle_bind ?_
  -- The list of layouts opens a bracket of its own; it is the second one.
  rw [Tree.document, readLayouts]
  have hlist : nested room (fun room => readLayoutList room
      (itemDocuments (p.layouts.map layoutTree)) .closed)
        = settle (.opening (nesting + 2)
          :: itemLandmarks (nesting + 2) (p.layouts.map layoutTree)) p.layouts :=
    nested_settle hroom fun room hroom => readLayoutList_written p.layouts hnames.2 hroom
  rw [hlist]
  exact settle_map _ p.layouts (Project.mk p.name p.globals)

/-! ## The numbers of a text -/

theorem filterMap_numberTree (nesting : Nat) (x : Double) :
    ((numberTree x).landmarks nesting).filterMap Landmark.finite? = [x.isFinite] := by
  unfold numberTree
  by_cases hx : x.isFinite = true
  · rw [if_pos hx, Tree.landmarks, hx]
    rfl
  · rw [if_neg hx, Tree.landmarks, Bool.eq_false_iff.mpr hx]
    rfl

theorem filterMap_typedTree (nesting : Nat) (kind : Kind) (t : Tree) :
    ((typedTree kind t).landmarks nesting).filterMap Landmark.finite?
      = (t.landmarks (nesting + 1)).filterMap Landmark.finite? := by
  rw [landmarks_typedTree]
  rfl

mutual

/-- Wherever a number of the variable was, a number or null stands in its tree, and null exactly if
it is not finite. -/
theorem filterMap_variableTree : ∀ (v : Variable) (nesting : Nat),
    ((variableTree v).landmarks nesting).filterMap Landmark.finite?
      = v.numbers.map Double.isFinite
  | .number x, nesting => by
    rw [variableTree, filterMap_typedTree, filterMap_numberTree, Variable.numbers]
    rfl
  | .string _, _ => by
    rw [variableTree, filterMap_typedTree, Tree.landmarks, Variable.numbers]
    rfl
  | .boolean _, _ => by
    rw [variableTree, filterMap_typedTree, Tree.landmarks, Variable.numbers]
    rfl
  | .record children, nesting => by
    rw [variableTree, filterMap_typedTree, Tree.landmarks, Variable.numbers]
    exact filterMap_childTrees children (nesting + 2)
  | .array elements, nesting => by
    rw [variableTree, filterMap_typedTree, Tree.landmarks, Variable.numbers]
    exact filterMap_elementTrees elements (nesting + 2)

theorem filterMap_childTrees : ∀ (children : List (String × Variable)) (nesting : Nat),
    (memberLandmarks nesting (childTrees children)).filterMap Landmark.finite?
      = (childrenNumbers children).map Double.isFinite
  | [], _ => by
    rw [childTrees, memberLandmarks, childrenNumbers]
    rfl
  | (_, v) :: rest, nesting => by
    rw [childTrees, memberLandmarks, childrenNumbers, List.filterMap_append, List.map_append,
      filterMap_variableTree v, filterMap_childTrees rest]

theorem filterMap_elementTrees : ∀ (elements : List Variable) (nesting : Nat),
    (itemLandmarks nesting (elementTrees elements)).filterMap Landmark.finite?
      = (elementsNumbers elements).map Double.isFinite
  | [], _ => by
    rw [elementTrees, itemLandmarks, elementsNumbers]
    rfl
  | v :: rest, nesting => by
    rw [elementTrees, itemLandmarks, elementsNumbers, List.filterMap_append, List.map_append,
      filterMap_variableTree v, filterMap_elementTrees rest]

end

theorem filterMap_containerTree (c : Container) (nesting : Nat) :
    ((containerTree c).landmarks nesting).filterMap Landmark.finite?
      = c.numbers.map Double.isFinite := by
  unfold containerTree Container.numbers
  rw [Tree.landmarks]
  exact filterMap_childTrees c.entries (nesting + 1)

theorem filterMap_layoutTree (l : Layout) (nesting : Nat) :
    ((layoutTree l).landmarks nesting).filterMap Landmark.finite?
      = l.numbers.map Double.isFinite := by
  rw [landmarks_layoutTree]
  exact filterMap_containerTree l.locals (nesting + 1)

theorem filterMap_layoutTrees : ∀ (ls : List Layout) (nesting : Nat),
    (itemLandmarks nesting (ls.map layoutTree)).filterMap Landmark.finite?
      = (ls.flatMap Layout.numbers).map Double.isFinite
  | [], _ => by
    rw [List.map_nil, itemLandmarks]
    rfl
  | l :: rest, nesting => by
    rw [List.map_cons, itemLandmarks, List.flatMap_cons, List.filterMap_append, List.map_append,
      filterMap_layoutTree l, filterMap_layoutTrees rest]

theorem filterMap_projectTree (p : Project) (nesting : Nat) :
    ((projectTree p).landmarks nesting).filterMap Landmark.finite?
      = p.numbers.map Double.isFinite := by
  rw [landmarks_projectTree]
  show ((containerTree p.globals).landmarks (nesting + 1) ++ .opening (nesting + 2)
    :: itemLandmarks (nesting + 2) (p.layouts.map layoutTree)).filterMap Landmark.finite? = _
  unfold Project.numbers
  rw [List.filterMap_append, List.map_append, filterMap_containerTree]
  show _ ++ (itemLandmarks (nesting + 2) (p.layouts.map layoutTree)).filterMap
    Landmark.finite? = _
  rw [filterMap_layoutTrees]

/-! ## The round trip -/

/-- What it means that a text with these numbers in it is read back as the value it was written
for. -/
structure ReadsBack {α : Type} (read : String → Except ReadError α) (text : String) (x : α)
    (numbers : List Double) : Prop where
  /-- The text is read exactly if all its numbers are finite and at most 127 brackets are open at
  once. -/
  accepts : (∃ y, read text = .ok y) ↔
    (∀ n ∈ numbers, n.isFinite = true) ∧ ∀ k, .opening k ∈ textLandmarks text → k < 128
  /-- What is read is the value itself. -/
  exact : ∀ y, read text = .ok y → y = x
  /-- The error is the one of the first offending place. -/
  refuses : ∀ e, read text = .error e → firstOffence? text = some e
  /-- It is malformed JSON, or it has this message. -/
  message : ∀ m, read text = .error (.data m) → m.message = "invalid type: null, expected f64"
  /-- The numbers stand in the text in their order, and null stands for those that are not
  finite. -/
  places : (textLandmarks text).filterMap Landmark.finite? = numbers.map Double.isFinite

/-- There is no offence exactly if no number is missing and no bracket is too deep. -/
theorem findSome?_offence?_eq_none {marks : List Landmark} {numbers : List Double}
    (h : marks.filterMap Landmark.finite? = numbers.map Double.isFinite) :
    marks.findSome? Landmark.offence? = none ↔
      (∀ n ∈ numbers, n.isFinite = true) ∧ ∀ k, .opening k ∈ marks → k < 128 := by
  have hnumber : ∀ b, .number b ∈ marks ↔ ∃ n ∈ numbers, n.isFinite = b := by
    intro b
    have hmem : b ∈ marks.filterMap Landmark.finite? ↔ .number b ∈ marks := by
      rw [List.mem_filterMap]
      constructor
      · rintro ⟨mark, hmark, hfinite⟩
        cases mark with
        | opening nesting => cases hfinite
        | number finite =>
          cases hfinite
          exact hmark
      · intro hmark
        exact ⟨_, hmark, rfl⟩
    rw [← hmem, h, List.mem_map]
  rw [List.findSome?_eq_none_iff]
  constructor
  · intro hnone
    refine ⟨fun n hn => ?_, fun k hk => ?_⟩
    · cases hfinite : n.isFinite with
      | true => rfl
      | false =>
        have hoffence := hnone _ ((hnumber false).mpr ⟨n, hn, hfinite⟩)
        cases hoffence
    · have hoffence := hnone _ hk
      by_contra hdeep
      have hlimit : nestingLimit < k := Nat.not_lt.mp hdeep
      simp only [Landmark.offence?, if_pos hlimit] at hoffence
      cases hoffence
  · rintro ⟨hfinite, hflat⟩ mark hmark
    cases mark with
    | opening k => exact if_neg (Nat.not_lt.mpr (Nat.le_of_lt_succ (hflat k hmark)))
    | number finite =>
      obtain ⟨n, hn, hb⟩ := (hnumber finite).mp hmark
      rw [← hb, hfinite n hn]
      rfl

theorem readsBack_of_settle {α : Type} {read : String → Except ReadError α} {text : String}
    {x : α} {numbers : List Double} (hread : read text = settle (textLandmarks text) x)
    (hplaces : (textLandmarks text).filterMap Landmark.finite? = numbers.map Double.isFinite) :
    ReadsBack read text x numbers := by
  unfold settle at hread
  have hrefuses : ∀ e, read text = .error e → firstOffence? text = some e := by
    intro e he
    unfold firstOffence?
    rw [hread] at he
    split at he
    next e' hfirst =>
      cases he
      exact hfirst
    next => cases he
  refine ⟨?_, ?_, hrefuses, ?_, hplaces⟩
  · rw [← findSome?_offence?_eq_none hplaces]
    cases hfirst : (textLandmarks text).findSome? Landmark.offence? with
    | none =>
      rw [hfirst] at hread
      exact ⟨fun _ => rfl, fun _ => ⟨x, hread⟩⟩
    | some e =>
      rw [hfirst] at hread
      refine ⟨?_, fun h => by cases h⟩
      rintro ⟨y, hy⟩
      rw [hread] at hy
      cases hy
  · intro y hy
    rw [hread] at hy
    split at hy
    · cases hy
    · cases hy
      rfl
  · intro m hm
    obtain ⟨mark, -, hmark⟩ := List.exists_of_findSome?_eq_some (hrefuses _ hm)
    exact Landmark.message_of_offence? hmark

/-- Reading a written text, given the tree of the text and the reader at that tree. -/
theorem readsBack_of_tree {α : Type} {read : Nat → Document → Except ReadError α}
    {text : List Char} {t : Tree} {x : α} {numbers : List Double}
    (htext : TreeText t text)
    (hread : read nestingLimit t.document = settle (t.landmarks 0) x)
    (hplaces : (t.landmarks 0).filterMap Landmark.finite? = numbers.map Double.isFinite) :
    ReadsBack (fun s => readText read s.toList) (String.ofList text) x numbers := by
  refine readsBack_of_settle ?_ ?_
  · show readText read (String.ofList text).toList = _
    rw [String.toList_ofList]
    exact readText_eq_settle htext.spells hread
  · rw [textLandmarks_of_spells htext.spells]
    exact hplaces

/-- **What is written is read back, wherever JSON can hold it.** The names have to be unique because
a map has room for one variable of a name only, as the values themselves have. -/
theorem written_text_reads_back :
    (∀ v : Variable, v.NamesUnique → ReadsBack Variable.ofJson v.toJson v v.numbers)
    ∧ (∀ c : Container, c.NamesUnique → ReadsBack Container.ofJson c.toJson c c.numbers)
    ∧ (∀ l : Layout, l.NamesUnique → ReadsBack Layout.ofJson l.toJson l l.numbers)
    ∧ (∀ p : Project, p.NamesUnique → ReadsBack Project.ofJson p.toJson p p.numbers
      ∧ ∀ q, Project.ofJson p.toJson = .ok q → ∀ slot name,
        Chain.forLayoutNamed ⟨slot, q⟩ name = Chain.forLayoutNamed ⟨slot, p⟩ name) := by
  have hlimit : nestingLimit + 0 = nestingLimit := rfl
  refine ⟨fun v hv => ?_, fun c hc => ?_, fun l hl => ?_, fun p hp => ?_⟩
  · exact readsBack_of_tree (treeText_variable v) (readVariable_written v hv hlimit)
      (filterMap_variableTree v 0)
  · exact readsBack_of_tree (treeText_container c) (readContainer_written hc hlimit)
      (filterMap_containerTree c 0)
  · exact readsBack_of_tree (treeText_layout l) (readLayout_written hl hlimit)
      (filterMap_layoutTree l 0)
  · have hback : ReadsBack Project.ofJson p.toJson p p.numbers :=
      readsBack_of_tree (treeText_project p) (readProject_written hp hlimit)
        (filterMap_projectTree p 0)
    refine ⟨hback, fun q hq slot name => ?_⟩
    rw [hback.exact q hq]

/-- Two layouts of one name; in the second a record whose child has a quote in its name and is the
negative zero. -/
def twinLayouts : Project :=
  ⟨"game", ⟨[("on", .boolean true)]⟩,
    [⟨"level", ⟨[]⟩⟩,
      ⟨"level", ⟨[("spawn", .record [("a\"b", .number (.ofRank true 0)), ("c", .array [])])]⟩⟩]⟩

theorem twinLayouts_read_back : Project.ofJson twinLayouts.toJson = .ok twinLayouts := by
  have hnames : twinLayouts.NamesUnique := by
    simp [twinLayouts, Project.NamesUnique, Layout.NamesUnique, Container.NamesUnique,
      childrenNamesUnique, Variable.NamesUnique, elementsNamesUnique, Bindings.Unique]
  have hback := (written_text_reads_back.2.2.2 twinLayouts hnames).1
  have hmarks : textLandmarks twinLayouts.toJson = (projectTree twinLayouts).landmarks 0 :=
    textLandmarks_of_spells (treeText_project twinLayouts).spells
  have hflat : ∀ k, .opening k ∈ textLandmarks twinLayouts.toJson → k < 128 := by
    rw [hmarks]
    intro k hk
    have hzero : (Double.ofRank true 0).isFinite = true := by decide
    simp [landmarks_projectTree, landmarks_layoutTree, landmarks_typedTree, containerTree,
      twinLayouts, Tree.landmarks, itemLandmarks, memberLandmarks, childTrees, variableTree,
      elementTrees, numberTree, hzero] at hk
    omega
  obtain ⟨p, hp⟩ := hback.accepts.mpr ⟨by decide, hflat⟩
  rw [hp, hback.exact p hp]

end Json

end ScopedVars
