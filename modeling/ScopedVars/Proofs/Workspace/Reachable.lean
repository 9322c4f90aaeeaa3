import ScopedVars.Proofs.Index
import ScopedVars.Proofs.Json.Loadable
import ScopedVars.Workspace

/-!
# `Proofs/Workspace/Reachable` — every state of a program is indexed

What a program can do with variables, containers, layouts and projects, and what is true of all it
can come to. A variable is built from other variables, taken out of them or loaded from a text
(`Variable.Built`). A container, a layout or a project is made empty, collected from pairs or loaded
(`Fresh`), put into a slot of a workspace and from then on edited, moved and copied there
(`Workspace.Step`). Names may come again in every list of pairs and in every text.

> In every reachable workspace the answers of every container fit together, and so do those of every
> record in its variables, at any depth (`reachable_indexed`).

The invariant is `NamesUnique`, for everything in every slot. It is what an edit of a single
container keeps (`Proofs/Names`); the rest is that no operation of a workspace puts anything
somewhere else than where it says.
-/

set_option autoImplicit false

namespace ScopedVars

/-! ## What is built -/

/-- The variables that a program can have. -/
inductive Variable.Built : Variable → Prop where
  | number (x : Double) : Built (.number x)
  | string (s : String) : Built (.string s)
  | boolean (b : Bool) : Built (.boolean b)
  | record {children : List (String × Variable)} (h : ∀ m ∈ children, m.2.Built) :
      Built (.ofChildren children)
  | array {elements : List Variable} (h : ∀ v ∈ elements, v.Built) : Built (.array elements)
  | loaded {text : String} {v : Variable} (h : Variable.ofJson text = .ok v) : Built v

/-- Being built is nothing but having unique names: a record with unique names can be built of its
own children. So what is taken out of a variable or a container is as good as built. -/
theorem Variable.built_iff {v : Variable} : v.Built ↔ v.NamesUnique := by
  constructor
  · intro h
    induction h with
    | number _ | string _ | boolean _ =>
      rw [NamesUnique]
      trivial
    | record _ ih => exact namesUnique_ofChildren ih
    | array _ ih => exact namesUnique_array ih
    | loaded h => exact (loadable_of_ofJson h).namesUnique
  · intro h
    induction v using Variable.induction with
    | number x => exact .number x
    | string s => exact .string s
    | boolean b => exact .boolean b
    | record children ih =>
      rw [NamesUnique] at h
      rw [← Bindings.ofList_of_unique h.1]
      exact .record fun m hm => ih m hm (childrenNamesUnique_iff.mp h.2 m hm)
    | array elements ih =>
      rw [NamesUnique] at h
      exact .array fun v hv => ih v hv (elementsNamesUnique_iff.mp h v hv)

/-- The variable that an edit brings in is built. -/
def Edit.Built : Edit → Prop
  | insert _ v | adding _ v | set _ v => v.Built
  | remove _ | rename _ _ | clear => True

theorem Edit.Built.namesUnique {e : Edit} (h : e.Built) : e.NamesUnique := by
  cases e with
  | insert _ _ | adding _ _ | set _ _ => exact Variable.built_iff.mp h
  | remove _ | rename _ _ | clear => trivial

/-- The containers that are made from nothing. -/
inductive Container.Fresh : Container → Prop where
  | empty : Fresh .empty
  | ofList {pairs : List (String × Variable)} (h : ∀ m ∈ pairs, m.2.Built) : Fresh (.ofList pairs)
  | loaded {text : String} {c : Container} (h : Container.ofJson text = .ok c) : Fresh c

inductive Layout.Fresh : Layout → Prop where
  | unnamed : Fresh default
  | named (name : String) : Fresh (.named name)
  | withVariables (name : String) {c : Container} (h : c.Fresh) : Fresh ⟨name, c⟩
  | loaded {text : String} {l : Layout} (h : Layout.ofJson text = .ok l) : Fresh l

inductive Project.Fresh : Project → Prop where
  | unnamed : Fresh default
  | named (name : String) : Fresh (.named name)
  | loaded {text : String} {p : Project} (h : Project.ofJson text = .ok p) : Fresh p

theorem Container.Fresh.namesUnique {c : Container} (h : c.Fresh) : c.NamesUnique := by
  cases h with
  | empty => exact namesUnique_empty
  | ofList h => exact namesUnique_ofList fun m hm => Variable.built_iff.mp (h m hm)
  | loaded h => exact (loadable_of_ofJson h).namesUnique

theorem Layout.Fresh.namesUnique {l : Layout} (h : l.Fresh) : l.NamesUnique := by
  cases h with
  | unnamed => exact Container.namesUnique_empty
  | named name => exact Container.namesUnique_empty
  | withVariables name h => exact h.namesUnique
  | loaded h => exact (loadable_of_ofJson h).namesUnique

theorem Project.Fresh.namesUnique {p : Project} (h : p.Fresh) : p.NamesUnique := by
  cases h with
  | unnamed => exact ⟨Container.namesUnique_empty, List.forall_mem_nil _⟩
  | named name => exact ⟨Container.namesUnique_empty, List.forall_mem_nil _⟩
  | loaded h => exact (loadable_of_ofJson h).namesUnique

namespace Workspace

/-! ## Steps -/

/-- One operation of a program on its workspace. -/
inductive Step (w : Workspace) : Workspace → Prop where
  | newContainer (slot : String) {c : Container} (h : c.Fresh) : Step w (w.putContainer slot c)
  | newLayout (slot : String) {l : Layout} (h : l.Fresh) : Step w (w.putLayout slot l)
  | newProject (slot : String) {p : Project} (h : p.Fresh) : Step w (w.putProject slot p)
  /-- A layout that is made around the variables that stand somewhere. -/
  | withVariables (slot name : String) {ref : ContainerRef}
      {target : Placed ContainerPlace Container} (h : w.container? ref = some target) :
      Step w (w.putLayout slot ⟨name, target.object⟩)
  | edit {ref : ContainerRef} {e : Edit} {answer : Answer} {w' : Workspace} (he : e.Built)
      (h : w.editContainer ref (·.step e) = some (answer, w')) : Step w w'
  | renameLayout {ref : LayoutRef} {name : String} {w' : Workspace}
      (h : w.renameLayout ref name = some w') : Step w w'
  | insertLayout {project source : String} {keepIn : Option String}
      {answer : Option Layout × Project} {w' : Workspace}
      (h : w.insertLayout project source keepIn = some (answer, w')) : Step w w'
  | removeLayout {project name : String} {keepIn : Option String}
      {answer : Option Layout × Project} {w' : Workspace}
      (h : w.removeLayout project name keepIn = some (answer, w')) : Step w w'
  | copyContainer {ref : ContainerRef} {slot : String} {c : Container} {w' : Workspace}
      (h : w.copyContainer ref slot = some (c, w')) : Step w w'
  | copyLayout {ref : LayoutRef} {slot : String} {l : Layout} {w' : Workspace}
      (h : w.copyLayout ref slot = some (l, w')) : Step w w'
  | copyProject {project slot : String} {p : Project} {w' : Workspace}
      (h : w.copyProject project slot = some (p, w')) : Step w w'

inductive Reachable : Workspace → Prop where
  | empty : Reachable .empty
  | step {w w' : Workspace} (h : Reachable w) (hstep : Step w w') : Reachable w'

/-! ## What every step keeps -/

/-- No name comes twice in anything that stands in a slot. -/
structure NamesUnique (w : Workspace) : Prop where
  projects : ∀ m ∈ w.projects, m.2.NamesUnique
  layouts : ∀ m ∈ w.layouts, m.2.NamesUnique
  containers : ∀ m ∈ w.containers, m.2.NamesUnique

theorem forall_mem_insert {α : Type} {P : α → Prop} {slots : List (String × α)} {slot : String}
    {x : α} (h : ∀ m ∈ slots, P m.2) (hx : P x) : ∀ m ∈ Bindings.insert slots slot x, P m.2 := by
  intro m hm
  rcases Bindings.mem_insert hm with rfl | hm
  · exact hx
  · exact h m hm

namespace NamesUnique

variable {w : Workspace}

theorem empty : Workspace.empty.NamesUnique :=
  ⟨List.forall_mem_nil _, List.forall_mem_nil _, List.forall_mem_nil _⟩

theorem putProject (h : w.NamesUnique) (slot : String) {p : Project} (hp : p.NamesUnique) :
    (w.putProject slot p).NamesUnique :=
  ⟨forall_mem_insert h.projects hp, h.layouts, h.containers⟩

theorem putLayout (h : w.NamesUnique) (slot : String) {l : Layout} (hl : l.NamesUnique) :
    (w.putLayout slot l).NamesUnique :=
  ⟨h.projects, forall_mem_insert h.layouts hl, h.containers⟩

theorem putContainer (h : w.NamesUnique) (slot : String) {c : Container} (hc : c.NamesUnique) :
    (w.putContainer slot c).NamesUnique :=
  ⟨h.projects, h.layouts, forall_mem_insert h.containers hc⟩

theorem freeLayout (h : w.NamesUnique) (slot : String) :
    { w with layouts := Bindings.erase w.layouts slot }.NamesUnique :=
  ⟨h.projects, fun m hm => h.layouts m (Bindings.mem_erase hm), h.containers⟩

/-! What a reference leads to -/

theorem getProject (h : w.NamesUnique) {slot : String} {p : Project}
    (hp : Bindings.get? w.projects slot = some p) : p.NamesUnique :=
  h.projects _ (Bindings.mem_of_get? hp)

theorem getLayout (h : w.NamesUnique) {slot : String} {l : Layout}
    (hl : Bindings.get? w.layouts slot = some l) : l.NamesUnique :=
  h.layouts _ (Bindings.mem_of_get? hl)

theorem project (h : w.NamesUnique) {slot : String} {target : Placed String Project}
    (htarget : w.project? slot = some target) : target.object.NamesUnique := by
  obtain ⟨p, hp, rfl⟩ := Option.map_eq_some_iff.mp htarget
  exact h.getProject hp

theorem layoutAt {p : Placed String Project} (hp : p.object.NamesUnique) {index : Nat}
    {target : Placed LayoutPlace Layout} (htarget : p.layoutAt? index = some target) :
    target.object.NamesUnique := by
  obtain ⟨l, hl, rfl⟩ := Option.map_eq_some_iff.mp htarget
  exact hp.2 l (List.mem_of_getElem? hl)

theorem layout (h : w.NamesUnique) {ref : LayoutRef} {target : Placed LayoutPlace Layout}
    (htarget : w.layout? ref = some target) : target.object.NamesUnique := by
  cases ref with
  | loose slot =>
    obtain ⟨l, hl, rfl⟩ := Option.map_eq_some_iff.mp htarget
    exact h.getLayout hl
  | named slot name =>
    obtain ⟨p, hp, htarget⟩ := Option.bind_eq_some_iff.mp htarget
    obtain ⟨index, -, htarget⟩ := Option.bind_eq_some_iff.mp htarget
    exact layoutAt (h.project hp) htarget
  | indexed slot index =>
    obtain ⟨p, hp, htarget⟩ := Option.bind_eq_some_iff.mp htarget
    exact layoutAt (h.project hp) htarget

theorem container (h : w.NamesUnique) {ref : ContainerRef}
    {target : Placed ContainerPlace Container} (htarget : w.container? ref = some target) :
    target.object.NamesUnique := by
  cases ref with
  | loose slot =>
    obtain ⟨c, hc, rfl⟩ := Option.map_eq_some_iff.mp htarget
    exact h.containers _ (Bindings.mem_of_get? hc)
  | ofLayout ref =>
    obtain ⟨l, hl, rfl⟩ := Option.map_eq_some_iff.mp htarget
    exact h.layout hl
  | ofProject slot =>
    obtain ⟨p, hp, rfl⟩ := Option.map_eq_some_iff.mp htarget
    exact (h.project hp).1

/-! Writing in place -/

theorem setLayout (h : w.NamesUnique) (place : LayoutPlace) {l : Layout} (hl : l.NamesUnique) :
    (w.setLayout place l).NamesUnique := by
  cases place with
  | loose slot => exact h.putLayout slot hl
  | inProject slot index =>
    cases hp : Bindings.get? w.projects slot with
    | none => simpa only [Workspace.setLayout, hp] using h
    | some p =>
      simp only [Workspace.setLayout, hp]
      refine h.putProject slot ⟨(h.getProject hp).1, fun l' hl' => ?_⟩
      rcases List.mem_or_eq_of_mem_set hl' with hl' | rfl
      · exact (h.getProject hp).2 l' hl'
      · exact hl

theorem setContainer (h : w.NamesUnique) (place : ContainerPlace) {c : Container}
    (hc : c.NamesUnique) : (w.setContainer place c).NamesUnique := by
  match place with
  | .loose slot => exact h.putContainer slot hc
  | .ofProject slot =>
    cases hp : Bindings.get? w.projects slot with
    | none => simpa only [Workspace.setContainer, hp] using h
    | some p =>
      simp only [Workspace.setContainer, hp]
      exact h.putProject slot ⟨hc, (h.getProject hp).2⟩
  | .ofLayout (.loose slot) =>
    cases hl : Bindings.get? w.layouts slot with
    | none => simpa only [Workspace.setContainer, hl] using h
    | some l =>
      simp only [Workspace.setContainer, hl]
      exact h.putLayout slot hc
  | .ofLayout (.inProject slot index) =>
    cases hp : Bindings.get? w.projects slot with
    | none => simpa only [Workspace.setContainer, hp] using h
    | some p =>
      simp only [Workspace.setContainer, hp]
      refine h.putProject slot ⟨(h.getProject hp).1, fun l hl => ?_⟩
      obtain ⟨i, hi⟩ := List.mem_iff_getElem?.mp hl
      rw [List.getElem?_modify] at hi
      obtain ⟨l', hl', rfl⟩ := Option.map_eq_some_iff.mp hi
      split
      · exact hc
      · exact (h.getProject hp).2 l' (List.mem_of_getElem? hl')

theorem keep (h : w.NamesUnique) (slot : Option String) {l : Option Layout}
    (hl : ∀ l', l = some l' → l'.NamesUnique) : (w.keep slot l).NamesUnique := by
  cases slot with
  | none => exact h
  | some slot =>
    cases l with
    | none => exact h
    | some l => exact h.putLayout slot (hl l rfl)

end NamesUnique

theorem namesUnique_insertLayout {p : Project} (hp : p.NamesUnique) {l : Layout}
    (hl : l.NamesUnique) : (p.insertLayout l).2.NamesUnique
      ∧ ∀ old, (p.insertLayout l).1 = some old → old.NamesUnique := by
  unfold Project.insertLayout
  cases hi : p.layoutIndex? l.name with
  | none =>
    refine ⟨⟨hp.1, List.forall_mem_append.mpr ⟨hp.2, List.forall_mem_singleton.mpr hl⟩⟩, ?_⟩
    intro old hold
    cases hold
  | some i =>
    refine ⟨⟨hp.1, fun l' hl' => ?_⟩, fun old hold => hp.2 old (List.mem_of_getElem? hold)⟩
    rcases List.mem_or_eq_of_mem_set hl' with hl' | rfl
    · exact hp.2 l' hl'
    · exact hl

theorem namesUnique_removeLayout {p : Project} (hp : p.NamesUnique) (name : String) :
    (p.removeLayout name).2.NamesUnique
      ∧ ∀ old, (p.removeLayout name).1 = some old → old.NamesUnique := by
  unfold Project.removeLayout
  cases hi : p.layoutIndex? name with
  | none =>
    refine ⟨hp, ?_⟩
    intro old hold
    cases hold
  | some i =>
    exact ⟨⟨hp.1, fun l hl => hp.2 l (List.mem_of_mem_eraseIdx hl)⟩,
      fun old hold => hp.2 old (List.mem_of_getElem? hold)⟩

/-- **One operation keeps names unique** in everything that stands in the workspace. -/
theorem NamesUnique.step {w w' : Workspace} (h : w.NamesUnique) (hstep : Step w w') :
    w'.NamesUnique := by
  cases hstep with
  | newContainer slot hc => exact h.putContainer slot hc.namesUnique
  | newLayout slot hl => exact h.putLayout slot hl.namesUnique
  | newProject slot hp => exact h.putProject slot hp.namesUnique
  | withVariables slot name htarget => exact h.putLayout slot (h.container htarget)
  | edit he hedit =>
    obtain ⟨target, htarget, hw⟩ := Option.map_eq_some_iff.mp hedit
    cases hw
    exact h.setContainer target.place ((h.container htarget).step he.namesUnique)
  | renameLayout hrename =>
    obtain ⟨target, htarget, rfl⟩ := Option.map_eq_some_iff.mp hrename
    exact h.setLayout target.place (h.layout htarget)
  | @insertLayout project source keepIn answer w' hinsert =>
    obtain ⟨p, hp, hinsert⟩ := Option.bind_eq_some_iff.mp hinsert
    obtain ⟨l, hl, hinsert⟩ := Option.bind_eq_some_iff.mp hinsert
    cases hinsert
    obtain ⟨hproject, hold⟩ := namesUnique_insertLayout (h.getProject hp) (h.getLayout hl)
    exact ((h.freeLayout source).putProject project hproject).keep keepIn hold
  | removeLayout hremove =>
    obtain ⟨p, hp, hremove⟩ := Option.bind_eq_some_iff.mp hremove
    cases hremove
    obtain ⟨hproject, hold⟩ := namesUnique_removeLayout (h.getProject hp) _
    exact (h.putProject _ hproject).keep _ hold
  | copyContainer hcopy =>
    obtain ⟨target, htarget, hw⟩ := Option.map_eq_some_iff.mp hcopy
    cases hw
    exact h.putContainer _ (h.container htarget)
  | copyLayout hcopy =>
    obtain ⟨target, htarget, hw⟩ := Option.map_eq_some_iff.mp hcopy
    cases hw
    exact h.putLayout _ (h.layout htarget)
  | copyProject hcopy =>
    obtain ⟨target, htarget, hw⟩ := Option.map_eq_some_iff.mp hcopy
    cases hw
    exact h.putProject _ (h.project htarget)

/-! ## Every state -/

theorem Reachable.namesUnique {w : Workspace} (h : w.Reachable) : w.NamesUnique := by
  induction h with
  | empty => exact .empty
  | step _ hstep ih => exact ih.step hstep

/-- What is taken out of a container of a program can be put into another one: the steps leave
nothing out by asking for variables that are built. -/
theorem Reachable.built {w : Workspace} (h : w.Reachable) {ref : ContainerRef}
    {target : Placed ContainerPlace Container} (htarget : w.container? ref = some target)
    {m : String × Variable} (hm : m ∈ target.object.toList) {v : Variable}
    (hv : Variable.Inside v m.2) : v.Built :=
  Variable.built_iff.mpr
    ((childrenNamesUnique_iff.mp (h.namesUnique.container htarget).2 m hm).inside hv)

/-- **In every state that a program can come to, names are unique and the index is right**: in every
container, in every record inside its variables, and in every record inside a variable that is not
in a container. -/
theorem reachable_indexed :
    (∀ w : Workspace, w.Reachable → ∀ ref target, w.container? ref = some target →
      target.object.Indexed
      ∧ ∀ m ∈ target.object.toList, ∀ children, Variable.Inside (.record children) m.2 →
        Variable.RecordIndexed children)
    ∧ ∀ v : Variable, v.Built → ∀ children, Variable.Inside (.record children) v →
        Variable.RecordIndexed children := by
  refine ⟨fun w hw ref target htarget => ?_, fun v hv children hinside => ?_⟩
  · have hnames := hw.namesUnique.container htarget
    refine ⟨Container.indexed hnames.1, fun m hm children hinside => ?_⟩
    exact (childrenNamesUnique_iff.mp hnames.2 m hm).indexed hinside
  · exact (Variable.built_iff.mp hv).indexed hinside

/-- A text in which names come again: in the variables of a layout, and in a record of theirs. -/
def repeatingText : String :=
  "\x7b\"name\":\"p\",\"variables\":\x7b\x7d,\"layouts\":[[\"level\",\x7b\"a\":[\"number\",1],"
    ++ "\"b\":[\"structure\",\x7b\"x\":[\"number\",1],\"x\":[\"boolean\",true]\x7d],\"a\":[\"number\",2]\x7d]]\x7d"

/-- The project of that text. -/
def merged : Project :=
  ⟨"p", .empty, [⟨"level", ⟨[("a", .number (.ofRank false 0x4000000000000000)),
    ("b", .record [("x", .boolean true)])]⟩⟩]⟩

theorem merged_indexed_after_rename : ∃ w : Workspace, w.Reachable
    ∧ ∃ target, w.container? (.ofLayout (.named "p" "level")) = some target
      ∧ target.object.names = ["c", "b"] ∧ target.object.Indexed
      ∧ Variable.RecordIndexed [("x", .boolean true)] := by
  have hload : Project.ofJson repeatingText = .ok merged := by decide +kernel
  have hloaded : Reachable (empty.putProject "p" merged) :=
    .step .empty (.newProject "p" (.loaded hload))
  have hrename : Reachable ((empty.putProject "p" merged).setContainer
      (.ofLayout (.inProject "p" 0))
      ⟨[("c", .number (.ofRank false 0x4000000000000000)), ("b", .record [("x", .boolean true)])]⟩) :=
    .step hloaded (@Step.edit _ (.ofLayout (.named "p" "level")) (.rename "a" "c") _ _ trivial rfl)
  have hindexed := reachable_indexed.1 _ hrename (.ofLayout (.named "p" "level")) _ rfl
  refine ⟨_, hrename, _, rfl, rfl, hindexed.1, ?_⟩
  exact hindexed.2 ("b", .record [("x", .boolean true)]) (by decide) _ .self

/-- A project with two layouts. The first has a variable that the project has too. -/
def arcade : Workspace :=
  empty.putProject "p" ⟨"game", ⟨[("lives", .boolean true), ("score", .string "best")]⟩,
    [⟨"level", ⟨[("score", .string "now"), ("time", .number .zero)]⟩⟩, ⟨"menu", .empty⟩]⟩

/-- It is put together step by step. -/
theorem arcade_reachable : arcade.Reachable := by
  have hproject := Reachable.step .empty (.newProject "p" (.named "game"))
  have hlives := hproject.step
    (@Step.edit _ (.ofProject "p") (.insert "lives" (.boolean true)) _ _ (.boolean true) rfl)
  have hscore := hlives.step
    (@Step.edit _ (.ofProject "p") (.insert "score" (.string "best")) _ _ (.string "best") rfl)
  have hvariables : ∀ m ∈ [("score", Variable.string "now"), ("time", .number .zero)],
      m.2.Built :=
    List.forall_mem_cons.mpr ⟨.string "now", List.forall_mem_singleton.mpr (.number .zero)⟩
  have hlevel := hscore.step (.newLayout "l" (.withVariables "level" (.ofList hvariables)))
  have hinserted := hlevel.step (@Step.insertLayout _ "p" "l" none _ _ rfl)
  have hmenu := hinserted.step (.newLayout "m" (.named "menu"))
  exact hmenu.step (@Step.insertLayout _ "p" "m" none _ _ rfl)

end Workspace

end ScopedVars
