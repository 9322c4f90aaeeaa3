import ScopedVars.Bindings.Lemmas
import ScopedVars.Workspace

/-!
# `Proofs/Workspace/Frame` — reading after writing

An edit follows a reference to a place and puts another container there. What *other* references
read afterwards is what every statement about two objects comes down to. Following a reference is
taken apart into finding its place (`containerPlace?`) and reading what stands there
(`containerAt?`), and then two laws say it all:

> Writing changes what stands at one place and at no other (`containerAt?_setContainer`), and every
> reference leads to the place it led to before (`containerPlace?_setContainer`).

The second is the one that could fail: a reference to a layout by its name searches the project
anew. It does not fail because a container says nothing about the name of its layout. (Renaming a
layout is no edit of this kind, and there it does.)
-/

set_option autoImplicit false

namespace ScopedVars

namespace Project

theorem layoutIndex?_eq (p : Project) (name : String) :
    p.layoutIndex? name = p.layoutNames.findIdx? (· == name) := by
  unfold layoutIndex? layoutNames
  rw [List.findIdx?_map]
  rfl

theorem layoutNames_modify (p : Project) (index : Nat) (c : Container) :
    { p with layouts := p.layouts.modify index ({ · with locals := c }) }.layoutNames
      = p.layoutNames := by
  apply List.ext_getElem?
  intro i
  simp only [layoutNames, List.getElem?_map, List.getElem?_modify, Option.map_eq_map,
    Option.map_map]
  congr 1
  funext l
  by_cases h : index = i <;> simp [h]

end Project

namespace Workspace

variable {w : Workspace}

/-! ## Places -/

/-- The position at which a name finds a layout of the project in a slot. -/
def layoutIndex? (w : Workspace) (slot name : String) : Option Nat :=
  (Bindings.get? w.projects slot).bind (·.layoutIndex? name)

/-- The place that a reference to a layout leads to. A name leads to the first layout that has
it. -/
def layoutPlace? (w : Workspace) : LayoutRef → Option LayoutPlace
  | .loose slot => some (.loose slot)
  | .indexed slot index => some (.inProject slot index)
  | .named slot name => (w.layoutIndex? slot name).map (.inProject slot)

def containerPlace? (w : Workspace) : ContainerRef → Option ContainerPlace
  | .loose slot => some (.loose slot)
  | .ofProject slot => some (.ofProject slot)
  | .ofLayout ref => (w.layoutPlace? ref).map .ofLayout

/-- The layout that stands at a place. -/
def layoutAt? (w : Workspace) : LayoutPlace → Option Layout
  | .loose slot => Bindings.get? w.layouts slot
  | .inProject slot index => (Bindings.get? w.projects slot).bind (·.layouts[index]?)

/-- The container that stands at a place. -/
def containerAt? (w : Workspace) : ContainerPlace → Option Container
  | .loose slot => Bindings.get? w.containers slot
  | .ofProject slot => (Bindings.get? w.projects slot).map (·.globals)
  | .ofLayout place => (w.layoutAt? place).map (·.locals)

/-- Following a reference is finding its place and reading what stands there. -/
theorem layout?_eq (w : Workspace) (ref : LayoutRef) :
    w.layout? ref
      = (w.layoutPlace? ref).bind fun place => (w.layoutAt? place).map (⟨place, ·⟩) := by
  cases ref with
  | loose slot => rfl
  | indexed slot index =>
    cases hp : Bindings.get? w.projects slot <;>
      simp [layout?, project?, layoutPlace?, layoutAt?, Placed.layoutAt?, hp]
  | named slot name =>
    cases hp : Bindings.get? w.projects slot with
    | none => simp [layout?, project?, layoutPlace?, layoutIndex?, hp]
    | some p =>
      cases hi : p.layoutIndex? name <;>
        simp [layout?, project?, layoutPlace?, layoutIndex?, layoutAt?, Placed.layoutNamed?,
          Placed.layoutAt?, hp, hi]

theorem container?_eq (w : Workspace) (ref : ContainerRef) :
    w.container? ref
      = (w.containerPlace? ref).bind fun place => (w.containerAt? place).map (⟨place, ·⟩) := by
  cases ref with
  | loose slot => rfl
  | ofProject slot =>
    cases hp : Bindings.get? w.projects slot <;>
      simp [container?, project?, containerPlace?, containerAt?, Placed.globals, hp]
  | ofLayout ref =>
    rw [container?, layout?_eq, containerPlace?]
    cases w.layoutPlace? ref with
    | none => rfl
    | some place => cases h : w.layoutAt? place <;> simp [containerAt?, Placed.locals, h]

theorem project?_eq_some {slot : String} {p : Placed String Project} :
    w.project? slot = some p ↔ p.place = slot ∧ Bindings.get? w.projects slot = some p.object := by
  unfold project?
  rw [Option.map_eq_some_iff]
  constructor
  · rintro ⟨q, hq, rfl⟩
    exact ⟨rfl, hq⟩
  · rintro ⟨hplace, hp⟩
    exact ⟨p.object, hp, by rw [← hplace]⟩

theorem layout?_eq_some {ref : LayoutRef} {target : Placed LayoutPlace Layout} :
    w.layout? ref = some target ↔ w.layoutPlace? ref = some target.place
      ∧ w.layoutAt? target.place = some target.object := by
  rw [layout?_eq, Option.bind_eq_some_iff]
  constructor
  · rintro ⟨place, hplace, htarget⟩
    obtain ⟨l, hl, rfl⟩ := Option.map_eq_some_iff.mp htarget
    exact ⟨hplace, hl⟩
  · rintro ⟨hplace, hl⟩
    exact ⟨target.place, hplace, Option.map_eq_some_iff.mpr ⟨target.object, hl, rfl⟩⟩

theorem container?_eq_some {ref : ContainerRef} {target : Placed ContainerPlace Container} :
    w.container? ref = some target ↔ w.containerPlace? ref = some target.place
      ∧ w.containerAt? target.place = some target.object := by
  rw [container?_eq, Option.bind_eq_some_iff]
  constructor
  · rintro ⟨place, hplace, htarget⟩
    obtain ⟨c, hc, rfl⟩ := Option.map_eq_some_iff.mp htarget
    exact ⟨hplace, hc⟩
  · rintro ⟨hplace, hc⟩
    exact ⟨target.place, hplace, Option.map_eq_some_iff.mpr ⟨target.object, hc, rfl⟩⟩

theorem container?_ofLayout {ref : LayoutRef} {l : Placed LayoutPlace Layout}
    (hl : w.layout? ref = some l) : w.container? (.ofLayout ref) = some l.locals := by
  simp [container?, hl]

theorem container?_ofProject {slot : String} {p : Placed String Project}
    (hp : w.project? slot = some p) : w.container? (.ofProject slot) = some p.globals := by
  simp [container?, hp]

/-! ## Writing -/

theorem layoutIndex?_putProject {slot : String} {p q : Project}
    (hp : Bindings.get? w.projects slot = some p) (hnames : q.layoutNames = p.layoutNames)
    (other name : String) :
    (w.putProject slot q).layoutIndex? other name = w.layoutIndex? other name := by
  unfold layoutIndex? putProject
  rw [Bindings.get?_insert]
  by_cases h : slot = other
  · subst h
    simp [hp, Project.layoutIndex?_eq, hnames]
  · rw [if_neg h]

theorem layoutIndex?_setContainer (w : Workspace) (place : ContainerPlace) (c : Container)
    (slot name : String) :
    (w.setContainer place c).layoutIndex? slot name = w.layoutIndex? slot name := by
  match place with
  | .loose other => rfl
  | .ofProject other =>
    cases hp : Bindings.get? w.projects other with
    | none => simp only [setContainer, hp]
    | some p =>
      simp only [setContainer, hp]
      apply layoutIndex?_putProject hp
      rfl
  | .ofLayout (.loose other) =>
    cases hl : Bindings.get? w.layouts other with
    | none => simp only [setContainer, hl]
    | some l =>
      simp only [setContainer, hl]
      rfl
  | .ofLayout (.inProject other index) =>
    cases hp : Bindings.get? w.projects other with
    | none => simp only [setContainer, hp]
    | some p =>
      simp only [setContainer, hp]
      exact layoutIndex?_putProject hp (p.layoutNames_modify index c) slot name

/-- **A reference leads where it led before**, whatever was written. -/
theorem containerPlace?_setContainer (w : Workspace) (place : ContainerPlace) (c : Container)
    (ref : ContainerRef) :
    (w.setContainer place c).containerPlace? ref = w.containerPlace? ref := by
  cases ref with
  | loose slot => rfl
  | ofProject slot => rfl
  | ofLayout ref =>
    cases ref with
    | loose slot => rfl
    | indexed slot index => rfl
    | named slot name => simp only [containerPlace?, layoutPlace?, layoutIndex?_setContainer]

/-- What the project in a slot is replaced by is seen at its own places only. -/
theorem containerAt?_putProject (w : Workspace) (slot : String) (p : Project)
    (other : ContainerPlace) :
    (w.putProject slot p).containerAt? other
      = match other with
        | .ofProject s => if slot = s then some p.globals else w.containerAt? other
        | .ofLayout (.inProject s index) =>
          if slot = s then (p.layouts[index]?).map (·.locals) else w.containerAt? other
        | _ => w.containerAt? other := by
  match other with
  | .loose _ | .ofLayout (.loose _) => rfl
  | .ofProject s | .ofLayout (.inProject s index) =>
    simp only [containerAt?, layoutAt?, putProject, Bindings.get?_insert]
    split <;> rfl

/-- **What is written at a place stands there, and what stands elsewhere stays.** -/
theorem containerAt?_setContainer {place : ContainerPlace} {old : Container}
    (h : w.containerAt? place = some old) (c : Container) (other : ContainerPlace) :
    (w.setContainer place c).containerAt? other
      = if other = place then some c else w.containerAt? other := by
  match place with
  | .loose slot =>
    match other with
    | .loose s => simp [setContainer, putContainer, containerAt?, Bindings.get?_insert, eq_comm]
    | .ofProject _ | .ofLayout (.loose _) | .ofLayout (.inProject _ _) => rfl
  | .ofLayout (.loose slot) =>
    obtain ⟨l, hl, rfl⟩ := Option.map_eq_some_iff.mp h
    have hl : Bindings.get? w.layouts slot = some l := hl
    simp only [setContainer, hl]
    match other with
    | .ofLayout (.loose s) =>
      simp only [containerAt?, layoutAt?, putLayout, Bindings.get?_insert, eq_comm,
        ContainerPlace.ofLayout.injEq, LayoutPlace.loose.injEq]
      split <;> rfl
    | .loose _ | .ofProject _ | .ofLayout (.inProject _ _) => rfl
  | .ofProject slot =>
    obtain ⟨p, hp, rfl⟩ := Option.map_eq_some_iff.mp h
    simp only [setContainer, hp]
    rw [containerAt?_putProject]
    match other with
    | .loose _ | .ofLayout (.loose _) => rfl
    | .ofProject s => simp [eq_comm]
    | .ofLayout (.inProject s index) =>
      by_cases hs : slot = s
      · subst hs
        simp [containerAt?, layoutAt?, hp]
      · simp [hs]
  | .ofLayout (.inProject slot index) =>
    obtain ⟨l, hl, rfl⟩ := Option.map_eq_some_iff.mp h
    obtain ⟨p, hp, hl⟩ := Option.bind_eq_some_iff.mp hl
    simp only [setContainer, hp]
    rw [containerAt?_putProject]
    match other with
    | .loose _ | .ofLayout (.loose _) => rfl
    | .ofProject s =>
      by_cases hs : slot = s
      · subst hs
        simp [containerAt?, hp]
      · simp [hs]
    | .ofLayout (.inProject s i) =>
      by_cases hs : slot = s
      · subst hs
        by_cases hi : index = i
        · subst hi
          simp [hl]
        · simp [containerAt?, layoutAt?, hp, hi, Ne.symm hi]
      · simp [hs, Ne.symm hs]

/-- Writing what stands there already changes nothing. -/
theorem setContainer_of_containerAt? {place : ContainerPlace} {c : Container}
    (h : w.containerAt? place = some c) : w.setContainer place c = w := by
  match place with
  | .loose slot =>
    show { w with containers := _ } = w
    rw [Bindings.insert_of_get? h]
  | .ofProject slot =>
    obtain ⟨p, hp, rfl⟩ := Option.map_eq_some_iff.mp h
    simp only [setContainer, hp]
    show { w with projects := _ } = w
    rw [Bindings.insert_of_get? hp]
  | .ofLayout (.loose slot) =>
    obtain ⟨l, hl, rfl⟩ := Option.map_eq_some_iff.mp h
    have hl : Bindings.get? w.layouts slot = some l := hl
    simp only [setContainer, hl]
    show { w with layouts := _ } = w
    rw [Bindings.insert_of_get? hl]
  | .ofLayout (.inProject slot index) =>
    obtain ⟨l, hl, rfl⟩ := Option.map_eq_some_iff.mp h
    obtain ⟨p, hp, hl⟩ := Option.bind_eq_some_iff.mp hl
    have hsame : p.layouts.modify index ({ · with locals := l.locals }) = p.layouts := by
      apply List.ext_getElem?
      intro i
      rw [List.getElem?_modify]
      by_cases hi : index = i
      · subst hi
        simp [hl]
      · simp [hi]
    simp only [setContainer, hp, hsame]
    show { w with projects := _ } = w
    rw [Bindings.insert_of_get? hp]

/-! ## Editing through a reference -/

section Edit

variable {ref : ContainerRef} {target : Placed ContainerPlace Container}

/-- What a reference reads when another one has written. -/
theorem container?_setContainer (h : w.container? ref = some target) (c : Container)
    (other : ContainerRef) :
    (w.setContainer target.place c).container? other
      = (w.container? other).map fun t => if t.place = target.place then ⟨t.place, c⟩ else t := by
  have hold := (container?_eq_some.mp h).2
  rw [container?_eq, container?_eq, containerPlace?_setContainer]
  cases w.containerPlace? other with
  | none => rfl
  | some place =>
    simp only [Option.bind_some, containerAt?_setContainer hold]
    by_cases hplace : place = target.place
    · subst hplace
      simp [hold]
    · cases w.containerAt? place <;> simp [hplace]

/-- An edit goes through wherever its reference leads somewhere. -/
theorem editContainer_eq {α : Type} (h : w.container? ref = some target)
    (edit : Container → α × Container) :
    w.editContainer ref edit
      = some ((edit target.object).1, w.setContainer target.place (edit target.object).2) := by
  unfold editContainer
  rw [h]
  rfl

end Edit

end Workspace

end ScopedVars
