import ScopedVars.Proofs.Bindings.Merged
import ScopedVars.Proofs.Container.Timeline
import ScopedVars.Proofs.Json.Acceptance
import ScopedVars.Proofs.Json.RoundTrip

/-!
# `Proofs/Container/Collected` — one list of pairs, one container

Named variables get into a container one by one, chained, or collected at once, and into a record as
its children; and there are texts, in which they are the members of an object. A text has three ways
to be read: as a container, as the value of a record whose type is known, and as a value that is
held back because its type is still to come. None of these looks at the others, and a name may come
again in any of them.

> They all come to the same list, and it is the one that the pairs *merge* to: first places, last
> values (`ways_of_building_agree`).

In a program each way is the same fold. In a text the members are read one by one, each from another
place, and what ties the readers to the fold is the relation of trees and values
(`Proofs/Json/Denotes`): it has no order of reading in it, and both modes of reading are held
against it. So a text need not be the one that is written for the pairs. That one is a text for them
(`denotesMembers_childTrees`) if its numbers can be written at all.
-/

set_option autoImplicit false

namespace ScopedVars

/-! ## In a program -/

namespace Container

/-- A run in which each edit declares one of the pairs comes to the container of the pairs. -/
theorem run_declaring {edit : String × Variable → Edit}
    (hedit : ∀ c pair, (step c (edit pair)).2 = c.adding pair.1 pair.2) :
    ∀ (pairs : List (String × Variable)) (c : Container),
      (c.run (pairs.map edit)).2
        = ⟨pairs.foldl (fun b pair => Bindings.insert b pair.1 pair.2) c.entries⟩
  | [], _ => rfl
  | pair :: rest, c => by
    show ((step c (edit pair)).2.run (rest.map edit)).2 = _
    rw [hedit, run_declaring hedit rest]
    rfl

/-- However a program makes something of the pairs, it comes to one list. -/
structure MadeAlike (pairs : List (String × Variable)) : Prop where
  inserted : (empty.run (pairs.map fun m => .insert m.1 m.2)).2 = .ofList pairs
  chained : (empty.run (pairs.map fun m => .adding m.1 m.2)).2 = .ofList pairs
  children : Variable.ofChildren pairs = .record (ofList pairs).toList
  /-- The names in the order in which they first come, each with the value it has last. -/
  merged : Bindings.Merged pairs (ofList pairs).toList
  only : ∀ entries, Bindings.Merged pairs entries → entries = (ofList pairs).toList

theorem madeAlike (pairs : List (String × Variable)) : MadeAlike pairs where
  inserted := run_declaring (fun _ _ => rfl) pairs empty
  chained := run_declaring (fun _ _ => rfl) pairs empty
  children := rfl
  merged := Bindings.merged_ofList pairs
  only _ h := h.eq

end Container

namespace Json

/-! ## In a text -/

/-- A variable of which the value stands before the type, so that it has to be held. -/
def heldTree (kind : Kind) (value : Tree) : Tree :=
  .object [(Field.value.key, value), (Field.type.key, .string (kindWord kind))]

/-- However a text with these members is read, it comes to the list that the pairs come to. The
brackets are those of the whole text. -/
structure ReadAlike (members : List (String × Tree)) (pairs : List (String × Variable)) : Prop where
  container : ∀ text : String, PaddedText (.object members) text.toList →
    (Tree.object members).nesting ≤ 127 → Container.ofJson text = .ok (.ofList pairs)
  typeFirst : ∀ text : String, PaddedText (typedTree .record (.object members)) text.toList →
    (typedTree .record (.object members)).nesting ≤ 127 →
      Variable.ofJson text = .ok (.record (Container.ofList pairs).toList)
  valueFirst : ∀ text : String, PaddedText (heldTree .record (.object members)) text.toList →
    (heldTree .record (.object members)).nesting ≤ 127 →
      Variable.ofJson text = .ok (.record (Container.ofList pairs).toList)

theorem ofJson_of_denotes {text : String} {t : Tree} {v : Variable}
    (htext : PaddedText t text.toList) (hwithin : t.Within nestingLimit)
    (h : DenotesVariable SpelledKind .streamed t v) : Variable.ofJson text = .ok v := by
  unfold Variable.ofJson
  rw [readText_eq htext]
  exact ((variable_payload_iff nestingLimit).1 .streamed t hwithin v).mpr h

/-- **Members that stand for the pairs are read to what the pairs come to**, whichever way they are
read and however they are spelled. -/
theorem readAlike {mode : Mode} {members : List (String × Tree)}
    {pairs : List (String × Variable)} (h : DenotesMembers NamedKind mode members pairs)
    (hfit : membersFit members) : ReadAlike members pairs := by
  have hpayload : ∀ mode, DenotesPayload SpelledKind mode .record (.object members)
      (.record (Bindings.ofList pairs)) := fun mode => .record (h.of_named mode)
  have hword : SpelledKind .field .streamed (.string (kindWord .record)) .record := .word rfl
  refine ⟨fun text htext hnesting => ?_, fun text htext hnesting => ?_,
    fun text htext hnesting => ?_⟩
  · unfold Container.ofJson
    rw [readText_eq htext]
    exact (readContainer_iff ⟨hnesting, hfit⟩).mpr (.mk (h.of_named .streamed))
  · exact ofJson_of_denotes htext ⟨hnesting, trivial, hfit, trivial⟩
      (.object rfl rfl hword (hpayload _))
  · exact ofJson_of_denotes htext ⟨hnesting, hfit, trivial, trivial⟩
      (.object rfl rfl hword (hpayload _))

/-! ## The text that is written -/

theorem childrenNumbers_eq (children : List (String × Variable)) :
    childrenNumbers children = children.flatMap (·.2.numbers) := by
  induction children with
  | nil => rw [childrenNumbers, List.flatMap_nil]
  | cons child rest ih => rw [childrenNumbers, ih, List.flatMap_cons]

theorem elementsNumbers_eq (elements : List Variable) :
    elementsNumbers elements = elements.flatMap (·.numbers) := by
  induction elements with
  | nil => rw [elementsNumbers, List.flatMap_nil]
  | cons v rest ih => rw [elementsNumbers, ih, List.flatMap_cons]

/-- The tree that is written for a variable stands for it, in either mode, and nothing in it is too
large. -/
structure Faithful (v : Variable) : Prop where
  denotes : ∀ mode, DenotesVariable NamedKind mode (variableTree v) v
  fits : (variableTree v).NumbersFit

theorem faithful_typed {kind : Kind} {t : Tree} {v : Variable}
    (ht : variableTree v = typedTree kind t)
    (hpayload : ∀ mode, DenotesPayload NamedKind mode kind t v) (hfit : t.NumbersFit) :
    Faithful v where
  denotes mode := by
    have hkind : NamedKind .field mode (.string (kindWord kind)) kind :=
      .word (by cases kind <;> rfl)
    rw [ht]
    exact .object rfl rfl hkind (hpayload _)
  fits := by
    rw [ht]
    exact ⟨trivial, hfit, trivial⟩

theorem denotesMembers_childTrees {children : List (String × Variable)}
    (h : ∀ m ∈ children, Faithful m.2) (mode : Mode) :
    DenotesMembers NamedKind mode (childTrees children) children := by
  induction children with
  | nil => exact .nil
  | cons child rest ih =>
    obtain ⟨hchild, hrest⟩ := List.forall_mem_cons.mp h
    exact .cons (hchild.denotes mode) (ih hrest)

theorem membersFit_childTrees {children : List (String × Variable)}
    (h : ∀ m ∈ children, Faithful m.2) : membersFit (childTrees children) := by
  induction children with
  | nil => trivial
  | cons child rest ih =>
    obtain ⟨hchild, hrest⟩ := List.forall_mem_cons.mp h
    exact ⟨hchild.fits, ih hrest⟩

theorem denotesItems_elementTrees {elements : List Variable} (h : ∀ v ∈ elements, Faithful v)
    (mode : Mode) : DenotesItems NamedKind mode (elementTrees elements) elements := by
  induction elements with
  | nil => exact .nil
  | cons v rest ih =>
    obtain ⟨hv, hrest⟩ := List.forall_mem_cons.mp h
    exact .cons (hv.denotes mode) (ih hrest)

theorem itemsFit_elementTrees {elements : List Variable} (h : ∀ v ∈ elements, Faithful v) :
    itemsFit (elementTrees elements) := by
  induction elements with
  | nil => trivial
  | cons v rest ih =>
    obtain ⟨hv, hrest⟩ := List.forall_mem_cons.mp h
    exact ⟨hv.fits, ih hrest⟩

theorem faithful_of_finite {v : Variable} (hnames : v.NamesUnique)
    (hnumbers : ∀ x ∈ v.numbers, x.isFinite = true) : Faithful v := by
  induction v using Variable.induction with
  | number x =>
    have hx : x.isFinite = true := hnumbers x (by rw [Variable.numbers]; exact List.mem_cons_self)
    have htree : numberTree x = .number (Numeral.written x) := if_pos hx
    have hvalue := toDouble?_written hx
    refine faithful_typed (by rw [variableTree, htree]) (fun _ => .number hvalue) ?_
    show (Numeral.written x).toDouble?.isSome = true
    rw [hvalue]
    rfl
  | string s => exact faithful_typed (by rw [variableTree]) (fun _ => .string s) trivial
  | boolean b => exact faithful_typed (by rw [variableTree]) (fun _ => .boolean b) trivial
  | record children ih =>
    rw [Variable.NamesUnique] at hnames
    rw [Variable.numbers, childrenNumbers_eq] at hnumbers
    have hchildren : ∀ m ∈ children, Faithful m.2 := fun m hm =>
      ih m hm (childrenNamesUnique_iff.mp hnames.2 m hm) fun x hx =>
        hnumbers x (List.mem_flatMap.mpr ⟨m, hm, hx⟩)
    have hpayload : ∀ mode, DenotesPayload NamedKind mode .record (.object (childTrees children))
        (.record children) := by
      intro mode
      have hmerged := DenotesPayload.record (denotesMembers_childTrees hchildren mode)
      rwa [Bindings.ofList_of_unique hnames.1] at hmerged
    exact faithful_typed (by rw [variableTree]) hpayload (membersFit_childTrees hchildren)
  | array elements ih =>
    rw [Variable.NamesUnique] at hnames
    rw [Variable.numbers, elementsNumbers_eq] at hnumbers
    have helements : ∀ v ∈ elements, Faithful v := fun v hv =>
      ih v hv (elementsNamesUnique_iff.mp hnames v hv) fun x hx =>
        hnumbers x (List.mem_flatMap.mpr ⟨v, hv, hx⟩)
    exact faithful_typed (by rw [variableTree])
      (fun mode => .array (denotesItems_elementTrees helements mode))
      (itemsFit_elementTrees helements)

theorem treeText_held (kind : Kind) {value : List Char} {t : Tree} (h : TreeText t value) :
    TreeText (heldTree kind t)
      (map [entry Field.value.key value, entry Field.type.key (stringChars (kindWord kind))]) :=
  .object (membersText_more _ h (membersText_last _ (treeText_string _)))

end Json

/-! ## All ways -/

open Json in
/-- **All ways of building an ordered map agree.** The last part is about the text that is written
for the pairs, which needs that their numbers are finite; the part before it is about any other. -/
theorem ways_of_building_agree (pairs : List (String × Variable)) :
    Container.MadeAlike pairs
    ∧ (∀ mode members, DenotesMembers NamedKind mode members pairs → membersFit members →
        ReadAlike members pairs)
    ∧ ((∀ m ∈ pairs, m.2.NamesUnique) → (∀ m ∈ pairs, ∀ x ∈ m.2.numbers, x.isFinite = true) →
        TreeText (.object (childTrees pairs)) (map (childEntries pairs))
        ∧ ReadAlike (childTrees pairs) pairs) := by
  refine ⟨Container.madeAlike pairs, fun mode members => readAlike, fun hnames hfinite => ?_⟩
  have hfaithful : ∀ m ∈ pairs, Faithful m.2 := fun m hm =>
    faithful_of_finite (hnames m hm) (hfinite m hm)
  exact ⟨.object (membersText_children pairs),
    readAlike (denotesMembers_childTrees hfaithful .streamed) (membersFit_childTrees hfaithful)⟩

/-- A name that comes twice: its first place is before the other one, and its last value is a
text. -/
def repeatedPairs : List (String × Variable) :=
  [("lives", .number .zero), ("on", .boolean true), ("lives", .string "none")]

open Json in
/-- The object with these members, and the record of it whose value is held. -/
theorem repeatedPairs_agree :
    Variable.ofChildren repeatedPairs = .record [("lives", .string "none"), ("on", .boolean true)]
    ∧ Container.ofJson (String.ofList (map (childEntries repeatedPairs)))
      = .ok ⟨[("lives", .string "none"), ("on", .boolean true)]⟩
    ∧ Variable.ofJson (String.ofList (map [entry Field.value.key (map (childEntries repeatedPairs)),
        entry Field.type.key (stringChars (kindWord .record))]))
      = .ok (.record [("lives", .string "none"), ("on", .boolean true)]) := by
  obtain ⟨hmade, -, hread⟩ := ways_of_building_agree repeatedPairs
  have hnames : ∀ m ∈ repeatedPairs, m.2.NamesUnique := by
    simp [repeatedPairs, Variable.NamesUnique]
  have hfinite : ∀ m ∈ repeatedPairs, ∀ x ∈ m.2.numbers, x.isFinite = true := by
    decide
  obtain ⟨htext, halike⟩ := hread hnames hfinite
  have hnesting : (heldTree .record (.object (childTrees repeatedPairs))).nesting ≤ 127 := by
    decide
  refine ⟨hmade.children, halike.container _ ?_ (by decide), halike.valueFirst _ ?_ hnesting⟩
  · rw [String.toList_ofList]
    exact htext.padded
  · rw [String.toList_ofList]
    exact (treeText_held .record htext).padded

end ScopedVars
