import ScopedVars.Proofs.Project.LayoutNames

/-!
# `Proofs/Project/LayoutEdits` — inserting and removing lose nothing

A project puts a layout where the first one of its name stands, or at the end, and takes the first
one of a name out. Names may repeat, so "the first" is all there is to go by, and it is said here by
taking the list apart: what stands before it, the layout itself, and what stands behind it
(`FirstNamed`). Each of the two edits is then an equation of lists with the answer beside it, one
for a name that is there and one for a name that is missing, and nothing in it has to be looked up.

> An insertion can be undone: by removing the layout if its name was new, and otherwise by inserting
> the one it replaced (`undo_new`, `undo_replaced`).

What makes this so is that the list comes apart at the same place after the edit as before it
(`FirstNamed.replaced`): the new layout has the name of the old one, and nothing before it has.
-/

set_option autoImplicit false

namespace ScopedVars

namespace Project

/-! ## The first layout of a name -/

/-- The list of layouts, taken apart at the first one of this name. -/
structure FirstNamed (p : Project) (name : String) (before : List Layout) (o : Layout)
    (after : List Layout) : Prop where
  layouts : p.layouts = before ++ o :: after
  named : o.name = name
  first : ∀ l ∈ before, l.name ≠ name

/-- No layout has this name. -/
def NoneNamed (p : Project) (name : String) : Prop :=
  ∀ l ∈ p.layouts, l.name ≠ name

theorem layout?_eq_some_iff {p : Project} {name : String} {o : Layout} :
    p.layout? name = some o ↔ ∃ before after, p.FirstNamed name before o after := by
  unfold layout?
  rw [List.find?_eq_some_iff_append]
  constructor
  · rintro ⟨hname, before, after, hlayouts, hfirst⟩
    exact ⟨before, after, hlayouts, by simpa using hname, by simpa using hfirst⟩
  · rintro ⟨before, after, hlayouts, hname, hfirst⟩
    exact ⟨by simpa using hname, before, after, hlayouts, by simpa using hfirst⟩

theorem layout?_eq_none_iff {p : Project} {name : String} :
    p.layout? name = none ↔ p.NoneNamed name := by
  unfold layout? NoneNamed
  simp

theorem first_or_none (p : Project) (name : String) :
    (∃ before o after, p.FirstNamed name before o after) ∨ p.NoneNamed name := by
  cases h : p.layout? name with
  | none => exact Or.inr (layout?_eq_none_iff.mp h)
  | some o =>
    obtain ⟨before, after, hfirst⟩ := layout?_eq_some_iff.mp h
    exact Or.inl ⟨before, o, after, hfirst⟩

theorem NoneNamed.layoutIndex? {p : Project} {name : String} (h : p.NoneNamed name) :
    p.layoutIndex? name = none := by
  unfold Project.layoutIndex?
  rw [List.findIdx?_eq_none_iff]
  intro l hl
  exact beq_eq_false_iff_ne.mpr (h l hl)

theorem NoneNamed.insertLayout {p : Project} {l : Layout} (h : p.NoneNamed l.name) :
    p.insertLayout l = (none, { p with layouts := p.layouts ++ [l] }) := by
  simp only [Project.insertLayout, h.layoutIndex?]

theorem NoneNamed.removeLayout {p : Project} {name : String} (h : p.NoneNamed name) :
    p.removeLayout name = (none, p) := by
  simp only [Project.removeLayout, h.layoutIndex?]

/-- A layout that was added behind all others is the first one of its name. -/
theorem NoneNamed.added {p : Project} {l : Layout} (h : p.NoneNamed l.name) :
    FirstNamed { p with layouts := p.layouts ++ [l] } l.name p.layouts l [] :=
  ⟨rfl, rfl, h⟩

namespace FirstNamed

variable {p : Project} {name : String} {before after : List Layout} {o : Layout}

theorem layoutIndex? (h : p.FirstNamed name before o after) :
    p.layoutIndex? name = some before.length := by
  have hbefore : before.findIdx? (·.name == name) = none := by
    rw [List.findIdx?_eq_none_iff]
    intro l hl
    exact beq_eq_false_iff_ne.mpr (h.first l hl)
  have ho : (o.name == name) = true := beq_iff_eq.mpr h.named
  unfold Project.layoutIndex?
  rw [h.layouts, List.findIdx?_append, hbefore, List.findIdx?_cons, ho]
  simp

theorem insertLayout {l : Layout} (h : p.FirstNamed l.name before o after) :
    p.insertLayout l = (some o, { p with layouts := before ++ l :: after }) := by
  simp [Project.insertLayout, h.layoutIndex?, h.layouts]

theorem removeLayout (h : p.FirstNamed name before o after) :
    p.removeLayout name = (some o, { p with layouts := before ++ after }) := by
  simp [Project.removeLayout, h.layoutIndex?, h.layouts, List.eraseIdx_append_of_length_le]

/-- **The list comes apart where it came apart before** when another layout of the name is in the
place of the first one. -/
theorem replaced (h : p.FirstNamed name before o after) {l : Layout} (hl : l.name = name) :
    FirstNamed { p with layouts := before ++ l :: after } name before l after :=
  ⟨rfl, hl, h.first⟩

theorem layout?_of_ne (h : p.FirstNamed name before o after) {l : Layout} (hl : l.name = name)
    {other : String} (hother : other ≠ name) :
    layout? { p with layouts := before ++ l :: after } other = p.layout? other := by
  have ho : (o.name == other) = false := beq_eq_false_iff_ne.mpr (h.named ▸ Ne.symm hother)
  have hnew : (l.name == other) = false := beq_eq_false_iff_ne.mpr (hl ▸ Ne.symm hother)
  unfold layout?
  rw [h.layouts]
  simp only [List.find?_append, List.find?_cons, ho, hnew]

end FirstNamed

/-! ## Insertion -/

/-- What inserting a layout does. -/
structure Inserts (p : Project) (l : Layout) : Prop where
  /-- The layout takes the place of the first one of its name, and that one is the answer. -/
  replaces : ∀ before o after, p.FirstNamed l.name before o after →
    p.insertLayout l = (some o, { p with layouts := before ++ l :: after })
  appends : p.NoneNamed l.name → p.insertLayout l = (none, { p with layouts := p.layouts ++ [l] })
  name : (p.insertLayout l).2.name = p.name
  globals : (p.insertLayout l).2.globals = p.globals
  found : (p.insertLayout l).2.layout? l.name = some l
  others : ∀ other, other ≠ l.name → (p.insertLayout l).2.layout? other = p.layout? other
  /-- A layout of a new name can be taken out again. -/
  undo_new : p.NoneNamed l.name → (p.insertLayout l).2.removeLayout l.name = (some l, p)
  /-- A layout that was replaced can be put back. -/
  undo_replaced : ∀ o, (p.insertLayout l).1 = some o →
    (p.insertLayout l).2.insertLayout o = (some l, p)

theorem FirstNamed.inserts {p : Project} {l o : Layout} {before after : List Layout}
    (h : p.FirstNamed l.name before o after) : p.Inserts l := by
  have hinsert := h.insertLayout
  have hthere : ¬ p.NoneNamed l.name := fun hnone =>
    hnone o (h.layouts ▸ List.mem_append_right before List.mem_cons_self) h.named
  constructor
  case replaces => exact fun _ _ _ h' => h'.insertLayout
  case appends => exact fun hnone => absurd hnone hthere
  case name => rw [hinsert]
  case globals => rw [hinsert]
  case found =>
    rw [hinsert]
    exact layout?_eq_some_iff.mpr ⟨before, after, h.replaced rfl⟩
  case others =>
    intro other hother
    rw [hinsert]
    exact h.layout?_of_ne rfl hother
  case undo_new => exact fun hnone => absurd hnone hthere
  case undo_replaced =>
    intro o' ho'
    rw [hinsert] at ho' ⊢
    cases ho'
    have hback := h.replaced rfl
    rw [← h.named] at hback
    rw [hback.insertLayout, ← h.layouts]

theorem NoneNamed.inserts {p : Project} {l : Layout} (h : p.NoneNamed l.name) : p.Inserts l := by
  have hinsert := h.insertLayout
  constructor
  case replaces => exact fun _ _ _ h' => h'.insertLayout
  case appends => exact fun _ => hinsert
  case name => rw [hinsert]
  case globals => rw [hinsert]
  case found =>
    rw [hinsert]
    exact layout?_eq_some_iff.mpr ⟨_, _, h.added⟩
  case others =>
    intro other hother
    have hl : (l.name == other) = false := beq_eq_false_iff_ne.mpr (Ne.symm hother)
    rw [hinsert]
    unfold layout?
    simp [List.find?_append, hl]
  case undo_new =>
    intro _
    rw [hinsert, h.added.removeLayout, List.append_nil]
  case undo_replaced =>
    intro o ho
    rw [hinsert] at ho
    cases ho

theorem inserts (p : Project) (l : Layout) : p.Inserts l := by
  rcases p.first_or_none l.name with ⟨_, _, _, h⟩ | h
  · exact h.inserts
  · exact h.inserts

/-! ## Removal -/

/-- What removing a layout by its name does. -/
structure Removes (p : Project) (gone : String) : Prop where
  /-- The first layout of the name is taken out and is the answer. -/
  removes : ∀ before o after, p.FirstNamed gone before o after →
    p.removeLayout gone = (some o, { p with layouts := before ++ after })
  misses : p.NoneNamed gone → p.removeLayout gone = (none, p)
  name : (p.removeLayout gone).2.name = p.name
  globals : (p.removeLayout gone).2.globals = p.globals
  /-- The name is still there exactly if it was there twice. -/
  hasLayout_iff : (p.removeLayout gone).2.hasLayout gone = true ↔ 2 ≤ p.layoutNames.count gone

theorem FirstNamed.removes {p : Project} {name : String} {o : Layout} {before after : List Layout}
    (h : p.FirstNamed name before o after) : p.Removes name := by
  have hremove := h.removeLayout
  constructor
  case removes => exact fun _ _ _ h' => h'.removeLayout
  case misses => exact fun hnone => hnone.removeLayout
  case name => rw [hremove]
  case globals => rw [hremove]
  case hasLayout_iff =>
    -- Nothing in front has the name, so what is left of it stands behind.
    have hbefore : name ∉ before.map (·.name) := by
      rw [List.mem_map]
      rintro ⟨l, hl, hname⟩
      exact h.first l hl hname
    have hcount : p.layoutNames.count name = (after.map (·.name)).count name + 1 := by
      rw [layoutNames, h.layouts, List.map_append, List.map_cons, h.named, List.count_append,
        List.count_eq_zero.mpr hbefore, List.count_cons_self, Nat.zero_add]
    rw [hremove, Project.hasLayout_iff, hcount]
    show name ∈ (before ++ after).map (·.name) ↔ _
    rw [List.map_append, List.mem_append, or_iff_right hbefore, ← List.count_pos_iff]
    omega

theorem NoneNamed.removes {p : Project} {name : String} (h : p.NoneNamed name) :
    p.Removes name := by
  have hremove := h.removeLayout
  constructor
  case removes => exact fun _ _ _ h' => h'.removeLayout
  case misses => exact fun _ => hremove
  case name => rw [hremove]
  case globals => rw [hremove]
  case hasLayout_iff =>
    have hname : name ∉ p.layoutNames := layoutIndex?_eq_none.mp h.layoutIndex?
    rw [hremove, Project.hasLayout_iff, List.count_eq_zero.mpr hname]
    exact iff_of_false hname (by decide)

theorem removes (p : Project) (name : String) : p.Removes name := by
  rcases p.first_or_none name with ⟨_, _, _, h⟩ | h
  · exact h.removes
  · exact h.removes

/-- **Inserting and removing layouts lose and duplicate nothing**, whatever names the layouts of the
project have. A name is there or it is missing, so the equations say all. -/
theorem layouts_neither_lost_nor_doubled (p : Project) :
    (∀ name, (∃ before o after, p.FirstNamed name before o after) ∨ p.NoneNamed name)
    ∧ (∀ l, p.Inserts l) ∧ ∀ name, p.Removes name :=
  ⟨p.first_or_none, p.inserts, p.removes⟩

/-- Two layouts of one name with another between them. Only the first one has variables. -/
def twoMenus : Project :=
  ⟨"game", .empty, [⟨"menu", ⟨[("lives", .number .zero)]⟩⟩, .named "level", .named "menu"]⟩

/-- The first "menu" is replaced and put back, a "shop" comes and goes, and of two menus one is left
when one is taken out. -/
theorem twoMenus_edited : ∃ first shown, twoMenus.layout? "menu" = some first
    ∧ shown.name = "menu"
    ∧ twoMenus.insertLayout shown
      = (some first, { twoMenus with layouts := [shown, .named "level", .named "menu"] })
    ∧ (twoMenus.insertLayout shown).2.insertLayout first = (some shown, twoMenus)
    ∧ (twoMenus.insertLayout (.named "shop")).2.removeLayout "shop"
      = (some (.named "shop"), twoMenus)
    ∧ twoMenus.removeLayout "menu"
      = (some first, { twoMenus with layouts := [.named "level", .named "menu"] })
    ∧ (twoMenus.removeLayout "menu").2.hasLayout "menu" = true := by
  obtain ⟨-, hinserts, hremoves⟩ := layouts_neither_lost_nor_doubled twoMenus
  let shown : Layout := ⟨"menu", ⟨[("score", .number .zero)]⟩⟩
  have hfirst : twoMenus.FirstNamed "menu" [] ⟨"menu", ⟨[("lives", .number .zero)]⟩⟩
      [.named "level", .named "menu"] := ⟨rfl, rfl, List.forall_mem_nil _⟩
  have hnone : twoMenus.NoneNamed "shop" := by unfold NoneNamed; decide
  have hreplaced := (hinserts shown).replaces _ _ _ hfirst
  refine ⟨_, shown, layout?_eq_some_iff.mpr ⟨_, _, hfirst⟩, rfl, hreplaced, ?_, ?_, ?_, ?_⟩
  · exact (hinserts shown).undo_replaced _ (congrArg Prod.fst hreplaced)
  · exact (hinserts (.named "shop")).undo_new hnone
  · exact (hremoves "menu").removes _ _ _ hfirst
  · exact (hremoves "menu").hasLayout_iff.mpr (by decide)

end Project

end ScopedVars
