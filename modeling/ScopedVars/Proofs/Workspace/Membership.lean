import ScopedVars.Chain
import ScopedVars.Proofs.Chain.Resolution
import ScopedVars.Proofs.Container.Timeline
import ScopedVars.Proofs.Project.LayoutNames
import ScopedVars.Proofs.Workspace.Frame

/-!
# `Proofs/Workspace/Membership` — which object is meant

Whether a layout is one of a project's, and whether a container is part of a chain, are questions
about objects, and the library answers them by comparing places. That this is the right answer needs
a notion of one object that has nothing to do with places, and there is one in what a program can
do: two references mean one object if an edit through the one shows through the other (`Shared`).

> Two references lead to one place exactly if they are shared, and to two places exactly if no edit
> through the one ever shows through the other (`shared_iff_place`, `apart_iff_place`).

So membership is a statement about edits: a layout is one of a project's exactly if editing it edits
a layout in the project's list, and a container is part of a chain exactly if editing it can change
what the chain sees. Contents and names are not asked for, and so a copy, however equal, is a member
of nothing that the original is a member of.
-/

set_option autoImplicit false

namespace ScopedVars

/-- Every container can be edited so that it differs from a given one. -/
theorem Container.exists_step_ne (c d : Container) : ∃ e : Edit, (c.step e).2 ≠ d := by
  by_cases h : d = .empty
  · subst h
    refine ⟨.insert "" default, fun hsame => ?_⟩
    have hmem : (c.adding "" default).has "" = true := by
      simp [adding, has, Bindings.has, Bindings.get?_insert]
    rw [show c.adding "" default = .empty from hsame] at hmem
    cases hmem
  · exact ⟨.clear, fun hsame => h hsame.symm⟩

namespace Workspace

variable {w : Workspace}

/-! ## One object -/

/-- Whatever edit is made through the first reference, both read the same afterwards. -/
def Shared (w : Workspace) (r s : ContainerRef) : Prop :=
  ∀ e : Edit, ∃ answer w' t u, w.editContainer r (·.step e) = some (answer, w')
    ∧ w'.container? r = some t ∧ w'.container? s = some u ∧ u.object = t.object

/-- Whatever edit is made through the first reference, the second reads what it read before. -/
def Apart (w : Workspace) (r s : ContainerRef) : Prop :=
  ∀ e : Edit, ∃ answer w', w.editContainer r (·.step e) = some (answer, w')
    ∧ w'.container? s = w.container? s

section Objects

variable {r s : ContainerRef} {t u : Placed ContainerPlace Container}

/-- What the two references read after an edit through the first. -/
theorem container?_edited (hr : w.container? r = some t) (hs : w.container? s = some u) (e : Edit) :
    ∃ answer w', w.editContainer r (·.step e) = some (answer, w')
      ∧ w'.container? r = some ⟨t.place, (t.object.step e).2⟩
      ∧ w'.container? s
        = some (if u.place = t.place then ⟨u.place, (t.object.step e).2⟩ else u) := by
  refine ⟨_, _, editContainer_eq hr _, ?_, ?_⟩
  · rw [container?_setContainer hr, hr]
    simp
  · rw [container?_setContainer hr, hs]
    rfl

theorem shared_iff_place (hr : w.container? r = some t) (hs : w.container? s = some u) :
    w.Shared r s ↔ t.place = u.place := by
  constructor
  · intro h
    by_contra hne
    -- An edit after which `r` reads something that `s` does not.
    obtain ⟨e, he⟩ := t.object.exists_step_ne u.object
    obtain ⟨answer, w', t', u', hedit, hr', hs', hsame⟩ := h e
    obtain ⟨_, _, hedit', hrt, hsu⟩ := container?_edited hr hs e
    cases hedit.symm.trans hedit'
    rw [if_neg (Ne.symm hne)] at hsu
    cases hr'.symm.trans hrt
    cases hs'.symm.trans hsu
    exact he hsame.symm
  · intro h e
    obtain ⟨answer, w', hedit, hr', hs'⟩ := container?_edited hr hs e
    rw [if_pos h.symm] at hs'
    exact ⟨answer, w', _, _, hedit, hr', hs', rfl⟩

theorem apart_iff_place (hr : w.container? r = some t) (hs : w.container? s = some u) :
    w.Apart r s ↔ t.place ≠ u.place := by
  constructor
  · intro h hplace
    obtain ⟨e, he⟩ := t.object.exists_step_ne u.object
    obtain ⟨answer, w', hedit, hsame⟩ := h e
    obtain ⟨_, _, hedit', -, hsu⟩ := container?_edited hr hs e
    cases hedit.symm.trans hedit'
    rw [if_pos hplace.symm, hsame, hs] at hsu
    exact he (congrArg Placed.object (Option.some.inj hsu)).symm
  · intro hne e
    obtain ⟨answer, w', hedit, -, hs'⟩ := container?_edited hr hs e
    rw [if_neg (Ne.symm hne)] at hs'
    exact ⟨answer, w', hedit, hs'.trans hs.symm⟩

/-- References are shared exactly if both lead somewhere, and to one place. -/
theorem shared_iff : w.Shared r s ↔
    ∃ t u, w.container? r = some t ∧ w.container? s = some u ∧ t.place = u.place := by
  constructor
  · intro h
    obtain ⟨answer, w', t', u', hedit, hr', hs', -⟩ := h .clear
    obtain ⟨t, hr, hw⟩ := Option.map_eq_some_iff.mp hedit
    cases hw
    rw [container?_setContainer hr] at hs'
    obtain ⟨u, hs, -⟩ := Option.map_eq_some_iff.mp hs'
    exact ⟨t, u, hr, hs, (shared_iff_place hr hs).mp h⟩
  · rintro ⟨t, u, hr, hs, hplace⟩
    exact (shared_iff_place hr hs).mpr hplace

end Objects

/-! ## Layouts of a project -/

section Layouts

variable {slot : String} {p : Placed String Project} {ref : LayoutRef}
  {l : Placed LayoutPlace Layout}

/-- A layout is one of a project's exactly if it stands in the project's list. -/
theorem contains_iff_place (hp : w.project? slot = some p) (hl : w.layout? ref = some l) :
    p.contains l.place = true ↔ ∃ i, l.place = .inProject slot i := by
  obtain ⟨rfl, hget⟩ := project?_eq_some.mp hp
  unfold Placed.contains
  rw [List.any_eq_true]
  constructor
  · rintro ⟨i, -, hi⟩
    exact ⟨i, eq_of_beq hi⟩
  · rintro ⟨i, hi⟩
    have hat := (layout?_eq_some.mp hl).2
    rw [hi, layoutAt?, hget] at hat
    refine ⟨i, List.mem_range.mpr (List.getElem?_eq_some_iff.mp hat).1, ?_⟩
    rw [hi, beq_self_eq_true]

theorem contains_iff_shared (hp : w.project? slot = some p) (hl : w.layout? ref = some l) :
    p.contains l.place = true ↔ ∃ i, w.Shared (.ofLayout ref) (.ofLayout (.indexed slot i)) := by
  rw [contains_iff_place hp hl]
  constructor
  · rintro ⟨i, hi⟩
    have hat := (layout?_eq_some.mp hl).2
    have hindexed : w.layout? (.indexed slot i) = some l :=
      layout?_eq_some.mpr ⟨congrArg some hi.symm, hat⟩
    exact ⟨i, (shared_iff_place (container?_ofLayout hl) (container?_ofLayout hindexed)).mpr rfl⟩
  · rintro ⟨i, hi⟩
    obtain ⟨t, u, ht, hu, hplace⟩ := shared_iff.mp hi
    cases (container?_ofLayout hl).symm.trans ht
    obtain ⟨l', hl', rfl⟩ := Option.map_eq_some_iff.mp hu
    have hl'place : l'.place = .inProject slot i :=
      (Option.some.inj (layout?_eq_some.mp hl').1).symm
    exact ⟨i, (ContainerPlace.ofLayout.inj hplace).trans hl'place⟩

/-- Only a reference into the project leads there. -/
theorem contains_iff_reference (hp : w.project? slot = some p) (hl : w.layout? ref = some l) :
    p.contains l.place = true ↔
      (∃ name, ref = .named slot name) ∨ ∃ i, ref = .indexed slot i := by
  rw [contains_iff_place hp hl]
  have hplace := (layout?_eq_some.mp hl).1
  cases ref with
  | loose other =>
    rw [← Option.some.inj hplace]
    simp
  | indexed other i =>
    rw [← Option.some.inj hplace]
    simp [eq_comm]
  | named other name =>
    obtain ⟨i, -, hi⟩ := Option.map_eq_some_iff.mp hplace
    rw [← hi]
    simp [eq_comm]

/-- A name means the first layout that has it. -/
theorem named_first {name : String} (hl : w.layout? (.named slot name) = some l) :
    ∃ p i, w.project? slot = some p ∧ w.layout? (.indexed slot i) = some l
      ∧ p.object.layoutNames[i]? = some name ∧ ∀ j < i, p.object.layoutNames[j]? ≠ some name := by
  obtain ⟨hplace, hat⟩ := layout?_eq_some.mp hl
  obtain ⟨i, hi, hinProject⟩ := Option.map_eq_some_iff.mp hplace
  obtain ⟨p, hp, hfirst⟩ := Option.bind_eq_some_iff.mp hi
  obtain ⟨hname, hbefore⟩ := Project.layoutIndex?_eq_some.mp hfirst
  exact ⟨⟨slot, p⟩, i, project?_eq_some.mpr ⟨rfl, hp⟩,
    layout?_eq_some.mpr ⟨congrArg some hinProject, hat⟩, hname, hbefore⟩

/-- Two positions of a project are two layouts, whatever they hold. -/
theorem apart_of_positions {i j : Nat} {l' : Placed LayoutPlace Layout}
    (hl : w.layout? (.indexed slot i) = some l) (hl' : w.layout? (.indexed slot j) = some l')
    (hij : i ≠ j) : w.Apart (.ofLayout (.indexed slot i)) (.ofLayout (.indexed slot j)) := by
  rw [apart_iff_place (container?_ofLayout hl) (container?_ofLayout hl')]
  intro hplace
  have hi := Option.some.inj (layout?_eq_some.mp hl).1
  have hj := Option.some.inj (layout?_eq_some.mp hl').1
  rw [← ContainerPlace.ofLayout.inj hplace, ← hi] at hj
  exact hij (LayoutPlace.inProject.inj hj).2.symm

end Layouts

/-! ## Containers of a chain -/

section Chains

variable {slot : String} {p : Placed String Project} {ref : LayoutRef}
  {l : Placed LayoutPlace Layout} {r : ContainerRef} {c : Placed ContainerPlace Container}

theorem hasContainer_iff_place {place : ContainerPlace} :
    (Chain.forLayout p l).answer.hasContainer place = true
      ↔ place = .ofLayout l.place ∨ place = .ofProject p.place := by
  show [l.locals, p.globals].any (·.place == place) = true ↔ _
  simp only [List.any_cons, List.any_nil, Bool.or_false, Bool.or_eq_true, beq_iff_eq,
    Placed.locals, Placed.globals]
  exact or_congr eq_comm eq_comm

theorem hasContainer_iff_shared (hp : w.project? slot = some p) (hl : w.layout? ref = some l)
    (hc : w.container? r = some c) :
    (Chain.forLayout p l).answer.hasContainer c.place = true
      ↔ w.Shared r (.ofLayout ref) ∨ w.Shared r (.ofProject slot) := by
  rw [hasContainer_iff_place, shared_iff_place hc (container?_ofLayout hl),
    shared_iff_place hc (container?_ofProject hp)]
  rfl

theorem hasContainer_eq_false_iff_apart (hp : w.project? slot = some p)
    (hl : w.layout? ref = some l) (hc : w.container? r = some c) :
    (Chain.forLayout p l).answer.hasContainer c.place = false
      ↔ w.Apart r (.ofLayout ref) ∧ w.Apart r (.ofProject slot) := by
  rw [← Bool.not_eq_true, hasContainer_iff_place, not_or,
    apart_iff_place hc (container?_ofLayout hl), apart_iff_place hc (container?_ofProject hp)]
  rfl

/-- What a chain holds is told by the places alone. -/
theorem hasContainer_congr {d e : Chain} (h : d.scopes.map (·.place) = e.scopes.map (·.place))
    (place : ContainerPlace) : d.hasContainer place = e.hasContainer place := by
  have hany : ∀ chain : Chain, chain.hasContainer place
      = (chain.scopes.map (·.place)).any (· == place) := by
    intro chain
    rw [List.any_map]
    rfl
  rw [hany, hany, h]

end Chains

/-! ## A chain by the name of its layout -/

theorem isSome_layoutNamed? (p : Placed String Project) (name : String) :
    (p.layoutNamed? name).isSome = p.object.hasLayout name := by
  unfold Placed.layoutNamed? Project.hasLayout
  rw [Project.layout?_eq]
  cases p.object.layoutIndex? name with
  | none => rfl
  | some i => simp [Placed.layoutAt?]

/-- What asking for a chain by the name of a layout gives. -/
structure NamedFactory (w : Workspace) (slot : String) (p : Placed String Project) (name : String) :
    Prop where
  succeeds_iff : (∃ chain, Chain.forLayoutNamed p name = .ok chain) ↔ p.object.hasLayout name = true
  missing : p.object.hasLayout name = false →
    Chain.forLayoutNamed p name = .error (.unknownLayout name)
  /-- The chain is the one of the layout that the name means, and that layout is the project's. -/
  found : ∀ chain, Chain.forLayoutNamed p name = .ok chain →
    ∃ l, w.layout? (.named slot name) = some l ∧ chain = Chain.forLayout p l
      ∧ chain.answer.hasContainer l.locals.place = true ∧ p.contains l.place = true

theorem namedFactory {slot : String} {p : Placed String Project} (hp : w.project? slot = some p)
    (name : String) : w.NamedFactory slot p name := by
  have hsome := isSome_layoutNamed? p name
  cases hl : p.layoutNamed? name with
  | none =>
    rw [hl] at hsome
    have herror : Chain.forLayoutNamed p name = .error (.unknownLayout name) := by
      simp [Chain.forLayoutNamed, hl]
    exact ⟨by simp [herror, ← hsome], fun _ => herror, by simp [herror]⟩
  | some l =>
    rw [hl] at hsome
    have hok : Chain.forLayoutNamed p name = .ok (Chain.forLayout p l) := by
      simp [Chain.forLayoutNamed, hl]
    refine ⟨by simp [hok, ← hsome], by simp [← hsome], ?_⟩
    intro chain hchain
    cases hok.symm.trans hchain
    have hnamed : w.layout? (.named slot name) = some l := by simp [layout?, hp, hl]
    exact ⟨l, hnamed, rfl, hasContainer_iff_place.mpr (Or.inl rfl),
      (contains_iff_reference hp hnamed).mpr (Or.inl ⟨name, rfl⟩)⟩

/-! ## Copies -/

section Copies

variable {slot : String} {r s : ContainerRef}

/-- A reference by nothing but a slot means an object that no other reference means. -/
theorem eq_of_shared (hr : r = .loose slot ∨ r = .ofLayout (.loose slot) ∨ r = .ofProject slot)
    (h : w.Shared r s) : s = r := by
  obtain ⟨t, u, ht, hu, hplace⟩ := shared_iff.mp h
  have hsame : w.containerPlace? s = w.containerPlace? r := by
    rw [(container?_eq_some.mp ht).1, (container?_eq_some.mp hu).1, hplace]
  rcases hr with rfl | rfl | rfl <;>
    rcases s with other | (other | ⟨other, name⟩ | ⟨other, i⟩) | other <;>
    simp_all [containerPlace?, layoutPlace?]

/-- A copy holds what the original holds and stands in a slot, and so it is part of nothing that
the original is part of. -/
structure Copies (w : Workspace) : Prop where
  container : ∀ r slot c w', w.copyContainer r slot = some (c, w') →
    (∃ t, w.container? r = some t ∧ t.object = c)
    ∧ w'.container? (.loose slot) = some ⟨.loose slot, c⟩
    ∧ ∀ p l, (Chain.forLayout p l).answer.hasContainer (.loose slot) = false
  layout : ∀ ref slot l w', w.copyLayout ref slot = some (l, w') →
    (∃ t, w.layout? ref = some t ∧ t.object = l)
    ∧ w'.layout? (.loose slot) = some ⟨.loose slot, l⟩
    ∧ (∀ project p, w'.project? project = some p → p.contains (.loose slot) = false)
    ∧ ∀ p l', l'.place ≠ .loose slot →
      (Chain.forLayout p l').answer.hasContainer (.ofLayout (.loose slot)) = false
  project : ∀ source slot q w', w.copyProject source slot = some (q, w') →
    (∃ t, w.project? source = some t ∧ t.object = q)
    ∧ w'.project? slot = some ⟨slot, q⟩
    ∧ ∀ other p, w'.project? other = some p → other ≠ slot →
      ∀ i l, w'.layout? (.indexed slot i) = some l → p.contains l.place = false

theorem copies (w : Workspace) : w.Copies := by
  refine ⟨?container, ?layout, ?project⟩
  case container =>
    intro r slot c w' h
    obtain ⟨t, ht, hw⟩ := Option.map_eq_some_iff.mp h
    cases hw
    refine ⟨⟨t, ht, rfl⟩, ?_, fun p l => ?_⟩
    · simp [container?, putContainer, Bindings.get?_insert]
    · rw [← Bool.not_eq_true, hasContainer_iff_place]
      rintro (h | h) <;> cases h
  case layout =>
    intro ref slot l w' h
    obtain ⟨t, ht, hw⟩ := Option.map_eq_some_iff.mp h
    cases hw
    have hcopy : (w.putLayout slot t.object).layout? (.loose slot)
        = some ⟨.loose slot, t.object⟩ := by
      simp [layout?, putLayout, Bindings.get?_insert]
    refine ⟨⟨t, ht, rfl⟩, hcopy, fun project p hp => ?_, fun p l' hl' => ?_⟩
    · rw [← Bool.not_eq_true, contains_iff_reference hp hcopy]
      simp
    · rw [← Bool.not_eq_true, hasContainer_iff_place]
      rintro (h | h)
      · exact hl' (ContainerPlace.ofLayout.inj h).symm
      · cases h
  case project =>
    intro source slot q w' h
    obtain ⟨t, ht, hw⟩ := Option.map_eq_some_iff.mp h
    cases hw
    refine ⟨⟨t, ht, rfl⟩, ?_, fun other p hp hother i l hl => ?_⟩
    · simp [project?, putProject, Bindings.get?_insert]
    · rw [← Bool.not_eq_true, contains_iff_reference hp hl]
      simp [Ne.symm hother]

end Copies

/-! ## Membership -/

/-- When a layout, reached in some way, is one of a project's. -/
structure LayoutMembership (w : Workspace) (slot : String) (p : Placed String Project)
    (ref : LayoutRef) (l : Placed LayoutPlace Layout) : Prop where
  /-- The layout is one object with one of the project's list. -/
  iff_shared : p.contains l.place = true ↔
    ∃ i, w.Shared (.ofLayout ref) (.ofLayout (.indexed slot i))
  /-- It was reached in the project: no free layout is a member, and none of another project. -/
  iff_reference : p.contains l.place = true ↔
    (∃ name, ref = .named slot name) ∨ ∃ i, ref = .indexed slot i
  /-- A name means the first layout that has it. -/
  named : ∀ name, ref = .named slot name →
    ∃ i, w.layout? (.indexed slot i) = some l ∧ p.object.layoutNames[i]? = some name
      ∧ ∀ j < i, p.object.layoutNames[j]? ≠ some name
  indexed : ∀ i, ref = .indexed slot i → p.object.layouts[i]? = some l.object

/-- Which containers are part of the chain of a project and a layout. -/
structure ChainMembership (w : Workspace) (slot : String) (p : Placed String Project)
    (ref : LayoutRef) (l : Placed LayoutPlace Layout) : Prop where
  iff_shared : ∀ r c, w.container? r = some c →
    ((Chain.forLayout p l).answer.hasContainer c.place = true
      ↔ w.Shared r (.ofLayout ref) ∨ w.Shared r (.ofProject slot))
  /-- No edit of a container that is not part of the chain is seen through the chain. -/
  false_iff_apart : ∀ r c, w.container? r = some c →
    ((Chain.forLayout p l).answer.hasContainer c.place = false
      ↔ w.Apart r (.ofLayout ref) ∧ w.Apart r (.ofProject slot))
  /-- The variables of another layout are not part of it, whatever that one is called and holds. -/
  otherLayout : ∀ ref' l', w.layout? ref' = some l' →
    ((Chain.forLayout p l).answer.hasContainer l'.locals.place = true
      ↔ w.Shared (.ofLayout ref') (.ofLayout ref))

theorem layoutMembership {slot : String} {p : Placed String Project} {ref : LayoutRef}
    {l : Placed LayoutPlace Layout} (hp : w.project? slot = some p) (hl : w.layout? ref = some l) :
    w.LayoutMembership slot p ref l := by
  refine ⟨contains_iff_shared hp hl, contains_iff_reference hp hl, ?_, ?_⟩
  · rintro name rfl
    obtain ⟨q, i, hq, hindexed, hfirst⟩ := named_first hl
    cases hp.symm.trans hq
    exact ⟨i, hindexed, hfirst⟩
  · rintro i rfl
    obtain ⟨hplace, hat⟩ := layout?_eq_some.mp hl
    rw [← Option.some.inj hplace, layoutAt?, (project?_eq_some.mp hp).2] at hat
    exact hat

theorem chainMembership {slot : String} {p : Placed String Project} {ref : LayoutRef}
    {l : Placed LayoutPlace Layout} (hp : w.project? slot = some p) (hl : w.layout? ref = some l) :
    w.ChainMembership slot p ref l := by
  refine ⟨fun r c => hasContainer_iff_shared hp hl,
    fun r c => hasContainer_eq_false_iff_apart hp hl, fun ref' l' hl' => ?_⟩
  rw [hasContainer_iff_place, shared_iff_place (container?_ofLayout hl') (container?_ofLayout hl)]
  simp [Placed.locals]

/-- Membership is by object in all that stands in the workspace. -/
structure MembersByObject (w : Workspace) : Prop where
  layout : ∀ slot p ref l, w.project? slot = some p → w.layout? ref = some l →
    w.LayoutMembership slot p ref l
  chain : ∀ slot p ref l, w.project? slot = some p → w.layout? ref = some l →
    w.ChainMembership slot p ref l
  /-- Two positions of a project are two objects, whatever they hold. -/
  positions : ∀ slot i j l l', w.layout? (.indexed slot i) = some l →
    w.layout? (.indexed slot j) = some l' → i ≠ j →
    w.Apart (.ofLayout (.indexed slot i)) (.ofLayout (.indexed slot j))
  /-- What stands in a slot is one object with nothing else. -/
  slots : ∀ slot r s, r = .loose slot ∨ r = .ofLayout (.loose slot) ∨ r = .ofProject slot →
    w.Shared r s → s = r
  factory : ∀ slot p name, w.project? slot = some p → w.NamedFactory slot p name
  emptyChain : ∀ place, Chain.empty.hasContainer place = false
  /-- A copy of a chain holds the same containers in the same places. -/
  copiedChain : ∀ c d : Chain, c.scopes.map (·.place) = d.scopes.map (·.place) →
    ∀ place, c.hasContainer place = d.hasContainer place
  copies : w.Copies

/-- **Membership is by object, never by contents or name.** Nothing is asked of the workspace: what
stands in it may be equal and have equal names in any way. -/
theorem membership_is_by_object (w : Workspace) : w.MembersByObject where
  layout _ _ _ _ hp hl := layoutMembership hp hl
  chain _ _ _ _ hp hl := chainMembership hp hl
  positions _ _ _ _ _ hl hl' hij := apart_of_positions hl hl' hij
  slots _ _ _ hr h := eq_of_shared hr h
  factory _ _ name hp := namedFactory hp name
  emptyChain _ := rfl
  copiedChain _ _ h := hasContainer_congr h
  copies := w.copies

/-- A project with two layouts that are equal in all, a copy of the project, and a free layout that
is equal to them too. -/
def twins : Workspace :=
  let level : Layout := ⟨"level", ⟨[("lives", .number .zero)]⟩⟩
  let game : Project := ⟨"game", .empty, [level, level]⟩
  ⟨[("p", game), ("q", game)], [("free", level)], []⟩

/-- The name means the first of the two layouts. The second is no part of the chain of the first,
and neither the free layout nor the one of the copy is one of the project's. -/
theorem twins_told_apart : ∃ p first second free copied,
    twins.project? "p" = some p ∧ twins.layout? (.named "p" "level") = some first
    ∧ twins.layout? (.indexed "p" 1) = some second ∧ twins.layout? (.loose "free") = some free
    ∧ twins.layout? (.named "q" "level") = some copied
    ∧ second.object = first.object ∧ free.object = first.object ∧ copied.object = first.object
    ∧ p.contains first.place = true ∧ p.contains free.place = false
    ∧ p.contains copied.place = false
    ∧ (Chain.forLayout p first).answer.hasContainer first.locals.place = true
    ∧ (Chain.forLayout p first).answer.hasContainer second.locals.place = false
    ∧ twins.Apart (.ofLayout (.indexed "p" 0)) (.ofLayout (.indexed "p" 1)) := by
  have h := membership_is_by_object twins
  have hfirst := h.layout "p" _ (.named "p" "level") _ rfl rfl
  have hfree := h.layout "p" _ (.loose "free") _ rfl rfl
  have hcopied := h.layout "p" _ (.named "q" "level") _ rfl rfl
  have hchain := h.chain "p" _ (.named "p" "level") _ rfl rfl
  have hapart := h.positions "p" 0 1 _ _ rfl rfl (by decide)
  have hsecond : twins.Apart (.ofLayout (.indexed "p" 1)) (.ofLayout (.named "p" "level"))
      ∧ twins.Apart (.ofLayout (.indexed "p" 1)) (.ofProject "p") :=
    ⟨(apart_iff_place rfl rfl).mpr (by decide), (apart_iff_place rfl rfl).mpr (by decide)⟩
  refine ⟨_, _, _, _, _, rfl, rfl, rfl, rfl, rfl, rfl, rfl, rfl, ?_, ?_, ?_, ?_, ?_, hapart⟩
  · exact hfirst.iff_reference.mpr (Or.inl ⟨_, rfl⟩)
  · rw [← Bool.not_eq_true, hfree.iff_reference]
    simp
  · rw [← Bool.not_eq_true, hcopied.iff_reference]
    simp
  · exact hasContainer_iff_place.mpr (Or.inl rfl)
  · exact (hchain.false_iff_apart (.ofLayout (.indexed "p" 1)) _ rfl).mpr hsecond

end Workspace

end ScopedVars
