import Mathlib.Data.List.InsertIdx
import Mathlib.Data.List.Nodup
import ScopedVars.Bindings.Lemmas
import ScopedVars.Json.Read
import ScopedVars.Proofs.Json.RoundTrip
import ScopedVars.Workspace

/-!
# `Proofs/Project/LayoutNames` — when the layouts of a project have names of their own

A project finds its layouts by name, and every operation by name means the first one. That is all of
them only while no two have one name, and this file says exactly when that is so.

> Over a run, names stay unique exactly if none of two things happens: the run starts from a text
> that lists two layouts of one name, or it renames a layout to the name of another
> (`Project.unique_states_iff`).

Inserting cannot do it, since it looks the name up first. The two that can are the two that put a
name into the list without looking: a renaming has only the layout at hand, and the reader of a text
only the layout it reads.

What is lost when it happens is said from both ends: a layout that its name does not find
(`Addressed`), and a name that is still there after its removal (`Forgets`). Each is the same as two
layouts of one name.

The edits are those of a project by itself; that they are what the operations of a workspace do to
it is `Workspace.Performs.projects`.
-/

set_option autoImplicit false

namespace ScopedVars

/-! ## Edits and runs -/

/-- An edit of a project. Variables may be changed in any way; a layout that is changed or renamed
is found by its name. -/
inductive ProjectEdit where
  | insertLayout (l : Layout)
  | removeLayout (name : String)
  | globals (change : Container → Container)
  | locals (layout : String) (change : Container → Container)
  | rename (layout new : String)

inductive Start where
  | named (name : String)
  | unnamed
  | loaded (text : String)

def Start.project : Start → Except Json.ReadError Project
  | named name => .ok (.named name)
  | unnamed => .ok default
  | loaded text => Project.ofJson text

namespace Project

/-- A change of the first layout of a name, where it stands. -/
def changeLayout (p : Project) (name : String) (change : Layout → Layout) : Project :=
  match p.layoutIndex? name with
  | some i => { p with layouts := p.layouts.modify i change }
  | none => p

def step (p : Project) : ProjectEdit → Project
  | .insertLayout l => (p.insertLayout l).2
  | .removeLayout name => (p.removeLayout name).2
  | .globals change => { p with globals := change p.globals }
  | .locals layout change => p.changeLayout layout fun l => { l with locals := change l.locals }
  | .rename layout new => p.changeLayout layout ({ · with name := new })

def states (p : Project) : List ProjectEdit → List Project
  | [] => [p]
  | e :: rest => p :: (p.step e).states rest

/-! ## Names of their own -/

/-- No two layouts have one name. -/
def LayoutNamesUnique (p : Project) : Prop :=
  p.layoutNames.Nodup

instance (p : Project) : Decidable p.LayoutNamesUnique :=
  inferInstanceAs (Decidable p.layoutNames.Nodup)

/-- Every layout is the one that its name finds: it stands there, and it is what is found. -/
def Addressed (p : Project) : Prop :=
  ∀ i l, p.layouts[i]? = some l → p.layoutIndex? l.name = some i ∧ p.layout? l.name = some l

/-- A name whose layout was removed is gone. -/
def Forgets (p : Project) : Prop :=
  ∀ name, (p.removeLayout name).2.hasLayout name = false

end Project

/-- A renaming that takes the name of another layout. -/
def ProjectEdit.Clashes (p : Project) : ProjectEdit → Prop
  | rename layout new => p.hasLayout layout = true ∧ p.hasLayout new = true ∧ new ≠ layout
  | _ => False

/-- A run in which some renaming does. -/
def Project.Clashes (p : Project) : List ProjectEdit → Prop
  | [] => False
  | e :: rest => e.Clashes p ∨ (p.step e).Clashes rest

/-- A text that spells a project in which two layouts have one name. -/
def Start.Clashes : Start → Prop
  | loaded text => ∃ p, Project.ofJson text = .ok p ∧ ¬ p.LayoutNamesUnique
  | _ => False

namespace Project

/-! ## Finding by name -/

theorem getElem?_layoutNames (p : Project) (i : Nat) :
    p.layoutNames[i]? = (p.layouts[i]?).map (·.name) :=
  List.getElem?_map

theorem layoutIndex?_eq_none {p : Project} {name : String} :
    p.layoutIndex? name = none ↔ name ∉ p.layoutNames := by
  unfold layoutIndex? layoutNames
  rw [List.findIdx?_eq_none_iff, List.mem_map]
  constructor
  · rintro h ⟨l, hl, rfl⟩
    exact absurd (h l hl) (by rw [beq_self_eq_true]; decide)
  · intro h l hl
    exact beq_eq_false_iff_ne.mpr fun hn => h ⟨l, hl, hn⟩

/-- What a name finds has the name, and none before it has. -/
theorem layoutIndex?_eq_some {p : Project} {name : String} {i : Nat} :
    p.layoutIndex? name = some i ↔
      p.layoutNames[i]? = some name ∧ ∀ j < i, p.layoutNames[j]? ≠ some name := by
  unfold layoutIndex?
  rw [List.findIdx?_eq_some_iff_getElem]
  have hname : ∀ (j : Nat) (hj : j < p.layouts.length),
      p.layoutNames[j]? = some name ↔ (p.layouts[j].name == name) = true := by
    intro j hj
    rw [getElem?_layoutNames, List.getElem?_eq_getElem hj, beq_iff_eq]
    exact Option.some_inj
  constructor
  · rintro ⟨hi, hfound, hbefore⟩
    refine ⟨(hname i hi).mpr hfound, fun j hj hsame => ?_⟩
    exact hbefore j hj ((hname j (Nat.lt_trans hj hi)).mp hsame)
  · rintro ⟨hfound, hbefore⟩
    have hi : i < p.layouts.length := by
      have hlt := (List.getElem?_eq_some_iff.mp hfound).1
      rwa [layoutNames, List.length_map] at hlt
    refine ⟨hi, (hname i hi).mp hfound, fun j hj hsame => ?_⟩
    exact hbefore j hj ((hname j (Nat.lt_trans hj hi)).mpr hsame)

theorem layout?_eq (p : Project) (name : String) :
    p.layout? name = (p.layoutIndex? name).bind (p.layouts[·]?) :=
  List.find?_eq_bind_findIdx?_getElem?

theorem hasLayout_iff {p : Project} {name : String} :
    p.hasLayout name = true ↔ name ∈ p.layoutNames := by
  unfold hasLayout layout? layoutNames
  rw [List.find?_isSome, List.mem_map]
  simp only [beq_iff_eq]

theorem hasLayout_eq_false_iff {p : Project} {name : String} :
    p.hasLayout name = false ↔ name ∉ p.layoutNames := by
  rw [← hasLayout_iff, Bool.not_eq_true]

theorem exists_of_layoutIndex? {p : Project} {name : String} {i : Nat}
    (h : p.layoutIndex? name = some i) : ∃ l, p.layouts[i]? = some l ∧ l.name = name := by
  have hname := (layoutIndex?_eq_some.mp h).1
  rw [getElem?_layoutNames] at hname
  exact Option.map_eq_some_iff.mp hname

/-! ## What each edit does to the names -/

theorem changeLayout_eq {p : Project} {name : String} {i : Nat} {l : Layout}
    (hi : p.layoutIndex? name = some i) (hl : p.layouts[i]? = some l) (change : Layout → Layout) :
    p.changeLayout name change = { p with layouts := p.layouts.set i (change l) } := by
  unfold changeLayout
  rw [hi]
  show { p with layouts := p.layouts.modify i change } = _
  rw [List.modify_eq_set_getElem?, hl]
  rfl

theorem layoutNames_set (p : Project) (i : Nat) (l : Layout) :
    { p with layouts := p.layouts.set i l }.layoutNames = p.layoutNames.set i l.name :=
  List.map_set

theorem set_layoutNames_self {p : Project} {i : Nat} {name : String}
    (h : p.layoutNames[i]? = some name) : p.layoutNames.set i name = p.layoutNames := by
  obtain ⟨hlt, rfl⟩ := List.getElem?_eq_some_iff.mp h
  exact List.set_getElem_self hlt

theorem layoutNames_insertLayout (p : Project) (l : Layout) :
    (p.insertLayout l).2.layoutNames =
      if l.name ∈ p.layoutNames then p.layoutNames else p.layoutNames ++ [l.name] := by
  unfold insertLayout
  cases hi : p.layoutIndex? l.name with
  | none =>
    rw [if_neg (layoutIndex?_eq_none.mp hi)]
    exact List.map_append
  | some i =>
    have hname := (layoutIndex?_eq_some.mp hi).1
    rw [if_pos (List.mem_of_getElem? hname)]
    exact (layoutNames_set p i l).trans (set_layoutNames_self hname)

theorem layoutNames_removeLayout (p : Project) (name : String) :
    (p.removeLayout name).2.layoutNames =
      match p.layoutIndex? name with
      | some i => p.layoutNames.eraseIdx i
      | none => p.layoutNames := by
  unfold removeLayout
  cases p.layoutIndex? name with
  | none => rfl
  | some i => exact (List.eraseIdx_map _ _ _).symm

/-- A change finds a layout of the name and gives it the name it makes, or finds none and does
nothing. -/
theorem changeLayout_cases (p : Project) (name : String) (change : Layout → Layout) :
    (∃ i l, p.layoutNames[i]? = some name ∧ l.name = name
      ∧ (p.changeLayout name change).layoutNames = p.layoutNames.set i (change l).name)
    ∨ name ∉ p.layoutNames ∧ p.changeLayout name change = p := by
  cases hi : p.layoutIndex? name with
  | none =>
    refine Or.inr ⟨layoutIndex?_eq_none.mp hi, ?_⟩
    unfold changeLayout
    rw [hi]
  | some i =>
    obtain ⟨l, hl, hname⟩ := exists_of_layoutIndex? hi
    refine Or.inl ⟨i, l, (layoutIndex?_eq_some.mp hi).1, hname, ?_⟩
    rw [changeLayout_eq hi hl]
    exact layoutNames_set p i (change l)

theorem layoutNames_locals (p : Project) (layout : String) (change : Container → Container) :
    (p.step (.locals layout change)).layoutNames = p.layoutNames := by
  rcases p.changeLayout_cases layout fun l => { l with locals := change l.locals } with
    ⟨i, l, hi, hname, hset⟩ | ⟨-, hsame⟩
  · rw [← hname] at hi
    exact hset.trans (set_layoutNames_self hi)
  · exact congrArg layoutNames hsame

/-! ## One edit -/

theorem LayoutNamesUnique.index_inj {p : Project} (h : p.LayoutNamesUnique) {i j : Nat}
    {name : String} (hi : p.layoutNames[i]? = some name) (hj : p.layoutNames[j]? = some name) :
    i = j := by
  have hlt := (List.getElem?_eq_some_iff.mp hi).1
  exact (List.getElem?_inj hlt h).mp (hi.trans hj.symm)

theorem LayoutNamesUnique.insertLayout {p : Project} (h : p.LayoutNamesUnique) (l : Layout) :
    (p.insertLayout l).2.LayoutNamesUnique := by
  unfold LayoutNamesUnique
  rw [layoutNames_insertLayout]
  by_cases hl : l.name ∈ p.layoutNames
  · rw [if_pos hl]
    exact h
  · rw [if_neg hl, List.nodup_append]
    refine ⟨h, List.nodup_singleton l.name, ?_⟩
    rintro name hname other hother rfl
    cases List.mem_singleton.mp hother
    exact hl hname

theorem LayoutNamesUnique.removeLayout {p : Project} (h : p.LayoutNamesUnique) (name : String) :
    (p.removeLayout name).2.LayoutNamesUnique := by
  unfold LayoutNamesUnique
  rw [layoutNames_removeLayout]
  cases p.layoutIndex? name with
  | none => exact h
  | some i => exact h.eraseIdx i

/-- A renaming keeps names apart exactly if it does not take the name of another layout. -/
theorem LayoutNamesUnique.rename_iff {p : Project} (h : p.LayoutNamesUnique) (layout new : String) :
    (p.step (.rename layout new)).LayoutNamesUnique ↔
      ¬ ProjectEdit.Clashes p (.rename layout new) := by
  show (p.changeLayout layout ({ · with name := new })).layoutNames.Nodup
    ↔ ¬ (p.hasLayout layout = true ∧ p.hasLayout new = true ∧ new ≠ layout)
  rw [hasLayout_iff, hasLayout_iff]
  rcases p.changeLayout_cases layout ({ · with name := new }) with
    ⟨i, l, hi, -, hset⟩ | ⟨hnone, hsame⟩
  · rw [hset]
    constructor
    · rintro hnodup ⟨-, hnew, hne⟩
      -- The name stands at its old place and at `i`, and these are two places.
      obtain ⟨j, hj⟩ := List.mem_iff_getElem?.mp hnew
      have hij : i ≠ j := by
        rintro rfl
        exact hne (Option.some.inj (hj.symm.trans hi))
      have hlt : i < (p.layoutNames.set i new).length := by
        rw [List.length_set]
        exact (List.getElem?_eq_some_iff.mp hi).1
      refine hij ((List.getElem?_inj hlt hnodup).mp ?_)
      rw [List.getElem?_set_self (List.getElem?_eq_some_iff.mp hi).1, List.getElem?_set_ne hij, hj]
    · intro hclash
      -- A name that is there can only be the layout's own, and then nothing changes.
      by_cases hnew : new ∈ p.layoutNames
      · have hsame : new = layout := by
          by_contra hne
          exact hclash ⟨List.mem_of_getElem? hi, hnew, hne⟩
        show (p.layoutNames.set i new).Nodup
        rw [hsame, set_layoutNames_self hi]
        exact h
      · exact List.Nodup.set h hnew
  · rw [hsame]
    exact ⟨fun _ hclash => hnone hclash.1, fun _ => h⟩

/-- **One edit keeps names apart exactly if it is not a renaming that clashes.** -/
theorem unique_step_iff {p : Project} (h : p.LayoutNamesUnique) (e : ProjectEdit) :
    (p.step e).LayoutNamesUnique ↔ ¬ e.Clashes p := by
  cases e with
  | insertLayout l => exact ⟨fun _ hclash => hclash, fun _ => h.insertLayout l⟩
  | removeLayout name => exact ⟨fun _ hclash => hclash, fun _ => h.removeLayout name⟩
  | globals change => exact ⟨fun _ hclash => hclash, fun _ => h⟩
  | locals layout change =>
    refine ⟨fun _ hclash => hclash, fun _ => ?_⟩
    unfold LayoutNamesUnique
    rw [layoutNames_locals]
    exact h
  | rename layout new => exact h.rename_iff layout new

/-! ## A whole run -/

/-- **A run keeps names apart exactly if they are apart at first and no renaming clashes.** -/
theorem unique_states_iff : ∀ (edits : List ProjectEdit) (p : Project),
    (∀ q ∈ p.states edits, q.LayoutNamesUnique) ↔ p.LayoutNamesUnique ∧ ¬ p.Clashes edits
  | [], p => by
    show (∀ q ∈ [p], _) ↔ _ ∧ ¬ False
    rw [List.forall_mem_singleton]
    exact ⟨fun h => ⟨h, id⟩, And.left⟩
  | e :: rest, p => by
    show (∀ q ∈ p :: (p.step e).states rest, _) ↔ _ ∧ ¬ (e.Clashes p ∨ (p.step e).Clashes rest)
    rw [List.forall_mem_cons, unique_states_iff rest, not_or]
    constructor
    · rintro ⟨h, hstep, hrest⟩
      exact ⟨h, (unique_step_iff h e).mp hstep, hrest⟩
    · rintro ⟨h, hstep, hrest⟩
      exact ⟨h, (unique_step_iff h e).mpr hstep, hrest⟩

/-- Only a text can make a run start with two layouts of one name. -/
theorem unique_start_iff {start : Start} {p : Project} (h : start.project = .ok p) :
    p.LayoutNamesUnique ↔ ¬ start.Clashes := by
  cases start with
  | named name =>
    cases h
    exact ⟨fun _ hclash => hclash, fun _ => List.nodup_nil⟩
  | unnamed =>
    cases h
    exact ⟨fun _ hclash => hclash, fun _ => List.nodup_nil⟩
  | loaded text =>
    constructor
    · rintro hunique ⟨q, hq, hclash⟩
      cases h.symm.trans hq
      exact hclash hunique
    · intro hclash
      by_contra hunique
      exact hclash ⟨p, h, hunique⟩

/-! ## What hangs on it -/

theorem LayoutNamesUnique.forgets {p : Project} (h : p.LayoutNamesUnique) : p.Forgets := by
  intro name
  rw [hasLayout_eq_false_iff, layoutNames_removeLayout]
  cases hi : p.layoutIndex? name with
  | none => exact layoutIndex?_eq_none.mp hi
  | some i =>
    intro hmem
    obtain ⟨j, hj, hname⟩ := List.mem_eraseIdx_iff_getElem?.mp hmem
    exact hj (h.index_inj hname (layoutIndex?_eq_some.mp hi).1)

/-- A layout that its name does not find stays behind when the name is removed. -/
theorem Forgets.addressed {p : Project} (h : p.Forgets) : p.Addressed := by
  intro i l hl
  have hname : p.layoutNames[i]? = some l.name := by
    rw [getElem?_layoutNames, hl]
    rfl
  cases hk : p.layoutIndex? l.name with
  | none => exact absurd (List.mem_of_getElem? hname) (layoutIndex?_eq_none.mp hk)
  | some k =>
    -- Were it another one that the name finds, this one would be left after a removal.
    have hki : k = i := by
      by_contra hne
      have hgone := hasLayout_eq_false_iff.mp (h l.name)
      rw [layoutNames_removeLayout, hk] at hgone
      exact hgone (List.mem_eraseIdx_iff_getElem?.mpr ⟨i, Ne.symm hne, hname⟩)
    refine ⟨congrArg some hki, ?_⟩
    rw [layout?_eq, hk, hki]
    exact hl

theorem Addressed.unique {p : Project} (h : p.Addressed) : p.LayoutNamesUnique := by
  unfold LayoutNamesUnique
  rw [List.nodup_iff_getElem?_ne_getElem?]
  intro i j hij hj hsame
  have hlen : j < p.layouts.length := by
    rwa [layoutNames, List.length_map] at hj
  have hi : i < p.layouts.length := Nat.lt_trans hij hlen
  rw [getElem?_layoutNames, getElem?_layoutNames, List.getElem?_eq_getElem hi,
    List.getElem?_eq_getElem hlen] at hsame
  have hname : p.layouts[i].name = p.layouts[j].name := Option.some.inj hsame
  have hfirst := (h i _ (List.getElem?_eq_getElem hi)).1
  have hsecond := (h j _ (List.getElem?_eq_getElem hlen)).1
  rw [hname] at hfirst
  exact Nat.ne_of_lt hij (Option.some.inj (hfirst.symm.trans hsecond))

theorem unique_iff_addressed (p : Project) : p.LayoutNamesUnique ↔ p.Addressed :=
  ⟨fun h => h.forgets.addressed, Addressed.unique⟩

theorem unique_iff_forgets (p : Project) : p.LayoutNamesUnique ↔ p.Forgets :=
  ⟨LayoutNamesUnique.forgets, fun h => h.addressed.unique⟩

end Project

/-! ## Texts with any names -/

def Project.bare (names : List String) : Project :=
  ⟨"", .empty, names.map .named⟩

theorem Project.layoutNames_bare (names : List String) :
    (Project.bare names).layoutNames = names := by
  show (names.map Layout.named).map (·.name) = names
  rw [List.map_map]
  exact List.map_id names

theorem Project.numbers_bare (names : List String) : (Project.bare names).numbers = [] := by
  refine List.flatMap_eq_nil_iff.mpr fun l hl => ?_
  obtain ⟨name, -, rfl⟩ := List.mem_map.mp hl
  rfl

open Json in
theorem Project.opening_bare {names : List String} {k : Nat}
    (h : .opening k ∈ (projectTree (Project.bare names)).landmarks 0) : k ≤ 4 := by
  have hempty : ∀ nesting, (containerTree .empty).landmarks nesting = [.opening (nesting + 1)] :=
    fun _ => rfl
  have hitems : .opening k ∈ itemLandmarks 2 ((names.map Layout.named).map layoutTree) → k ≤ 4 := by
    clear h
    induction names with
    | nil =>
      intro hk
      cases hk
    | cons name rest ih =>
      intro hk
      rcases List.mem_append.mp hk with hk | hk
      · rw [landmarks_layoutTree] at hk
        rcases List.mem_cons.mp hk with hk | hk
        · cases hk
          decide
        · cases List.mem_singleton.mp ((hempty 3) ▸ hk)
          decide
      · exact ih hk
  rw [landmarks_projectTree] at h
  rcases List.mem_cons.mp h with h | h
  · cases h
    decide
  · rcases List.mem_append.mp h with h | h
    · cases List.mem_singleton.mp ((hempty 1) ▸ h)
      decide
    · rcases List.mem_cons.mp h with h | h
      · cases h
        decide
      · exact hitems h

open Json in
/-- **A text can list any names.** The reader of a project takes every layout that is listed. -/
theorem exists_load (names : List String) :
    ∃ text p, Start.project (.loaded text) = .ok p ∧ p.layoutNames = names := by
  have hnames : (Project.bare names).NamesUnique := by
    refine ⟨Container.namesUnique_empty, fun l hl => ?_⟩
    obtain ⟨name, -, rfl⟩ := List.mem_map.mp hl
    exact Container.namesUnique_empty
  have hback : ReadsBack Project.ofJson (Project.bare names).toJson (Project.bare names) [] := by
    rw [← Project.numbers_bare names]
    exact readsBack_of_tree (treeText_project (Project.bare names)) (readProject_written hnames rfl)
      (filterMap_projectTree (Project.bare names) 0)
  have hflat : ∀ k, .opening k ∈ textLandmarks (Project.bare names).toJson → k < 128 := by
    intro k hk
    have hmarks : textLandmarks (Project.bare names).toJson
        = (projectTree (Project.bare names)).landmarks 0 :=
      textLandmarks_of_spells (treeText_project (Project.bare names)).spells
    rw [hmarks] at hk
    exact Nat.lt_of_le_of_lt (Project.opening_bare hk) (by decide)
  have hfinite : ∀ n ∈ ([] : List Double), n.isFinite = true := by
    intro n hn
    cases hn
  obtain ⟨p, hp⟩ := hback.accepts.mpr ⟨hfinite, hflat⟩
  cases hback.exact p hp
  exact ⟨_, _, hp, Project.layoutNames_bare names⟩

/-! ## Projects in a workspace

A project of a workspace stands in a slot, layouts go into it and come out of it through slots of
their own, and what is changed is found by following a reference. To the project each of these
operations is one of the edits above, and to all other projects it is nothing. -/

namespace Workspace

/-- The operations of a workspace on the project in a slot, and the edit each of them is. -/
inductive Performs (slot : String) (w w' : Workspace) : ProjectEdit → Prop where
  | insertLayout {source : String} {keepIn : Option String} {l : Layout}
      {answer : Option Layout × Project} (hsource : Bindings.get? w.layouts source = some l)
      (h : w.insertLayout slot source keepIn = some (answer, w')) :
      Performs slot w w' (.insertLayout l)
  | removeLayout {name : String} {keepIn : Option String} {answer : Option Layout × Project}
      (h : w.removeLayout slot name keepIn = some (answer, w')) :
      Performs slot w w' (.removeLayout name)
  | globals {α : Type} {edit : Container → α × Container} {answer : α}
      (h : w.editContainer (.ofProject slot) edit = some (answer, w')) :
      Performs slot w w' (.globals fun c => (edit c).2)
  | locals {α : Type} {layout : String} {edit : Container → α × Container} {answer : α}
      (h : w.editContainer (.ofLayout (.named slot layout)) edit = some (answer, w')) :
      Performs slot w w' (.locals layout fun c => (edit c).2)
  | rename {layout new : String} (h : w.renameLayout (.named slot layout) new = some w') :
      Performs slot w w' (.rename layout new)

theorem projects_keep (w : Workspace) (keepIn : Option String) (l : Option Layout) :
    (w.keep keepIn l).projects = w.projects := by
  cases keepIn with
  | none => rfl
  | some slot =>
    cases l with
    | none => rfl
    | some l => rfl

theorem layout?_named {w : Workspace} {slot name : String} {target : Placed LayoutPlace Layout}
    (h : w.layout? (.named slot name) = some target) :
    ∃ p i, Bindings.get? w.projects slot = some p ∧ p.layoutIndex? name = some i
      ∧ p.layouts[i]? = some target.object ∧ target.place = .inProject slot i := by
  obtain ⟨placed, hplaced, htarget⟩ := Option.bind_eq_some_iff.mp h
  obtain ⟨p, hp, rfl⟩ := Option.map_eq_some_iff.mp hplaced
  obtain ⟨i, hi, hat⟩ := Option.bind_eq_some_iff.mp htarget
  obtain ⟨l, hl, rfl⟩ := Option.map_eq_some_iff.mp hat
  exact ⟨p, i, hp, hi, hl, rfl⟩

/-- **An operation on the project in a slot is one edit of that project**, and leaves the projects
in all other slots as they are. -/
theorem Performs.projects {slot : String} {w w' : Workspace} {e : ProjectEdit}
    (h : Performs slot w w' e) : ∃ p, Bindings.get? w.projects slot = some p
      ∧ w'.projects = Bindings.insert w.projects slot (p.step e) := by
  cases h with
  | @insertLayout source keepIn l answer hsource h =>
    obtain ⟨p, hp, h⟩ := Option.bind_eq_some_iff.mp h
    rw [hsource] at h
    cases h
    exact ⟨p, hp, projects_keep _ _ _⟩
  | removeLayout h =>
    obtain ⟨p, hp, h⟩ := Option.bind_eq_some_iff.mp h
    cases h
    exact ⟨p, hp, projects_keep _ _ _⟩
  | globals h =>
    obtain ⟨target, htarget, h⟩ := Option.map_eq_some_iff.mp h
    obtain ⟨placed, hplaced, rfl⟩ := Option.map_eq_some_iff.mp htarget
    obtain ⟨p, hp, rfl⟩ := Option.map_eq_some_iff.mp hplaced
    cases h
    refine ⟨p, hp, ?_⟩
    show (w.setContainer (.ofProject slot) _).projects = _
    simp only [setContainer, hp]
    rfl
  | @locals _ layout edit answer h =>
    obtain ⟨target, htarget, h⟩ := Option.map_eq_some_iff.mp h
    obtain ⟨⟨place, l⟩, hlayout, rfl⟩ := Option.map_eq_some_iff.mp htarget
    obtain ⟨p, i, hp, hi, hl, hplace⟩ := layout?_named hlayout
    cases hplace
    cases h
    refine ⟨p, hp, ?_⟩
    show (w.setContainer (.ofLayout (.inProject slot i)) (edit l.locals).2).projects
      = Bindings.insert w.projects slot
          (p.changeLayout layout fun l => { l with locals := (edit l.locals).2 })
    rw [Project.changeLayout_eq hi hl]
    simp only [setContainer, hp]
    rw [List.modify_eq_set_getElem?, hl]
    rfl
  | rename h =>
    obtain ⟨target, htarget, h⟩ := Option.map_eq_some_iff.mp h
    obtain ⟨p, i, hp, hi, hl, hplace⟩ := layout?_named htarget
    cases h
    refine ⟨p, hp, ?_⟩
    rw [hplace]
    show _ = Bindings.insert w.projects slot (p.changeLayout _ _)
    rw [Project.changeLayout_eq hi hl]
    simp only [setLayout, hp]
    rfl

/-- One operation after the other on the project in a slot. -/
inductive Runs (slot : String) : Workspace → List ProjectEdit → Workspace → Prop where
  | done (w : Workspace) : Runs slot w [] w
  | cons {w w' w'' : Workspace} {e : ProjectEdit} {rest : List ProjectEdit}
      (h : Performs slot w w' e) (hrest : Runs slot w' rest w'') : Runs slot w (e :: rest) w''

/-- What the slot holds after a run of operations is a project of the run of edits. -/
theorem Runs.project {slot : String} {w w' : Workspace} {edits : List ProjectEdit}
    (h : Runs slot w edits w') {p : Project} (hp : Bindings.get? w.projects slot = some p) :
    ∃ q ∈ p.states edits, Bindings.get? w'.projects slot = some q := by
  induction h generalizing p with
  | done w => exact ⟨p, List.mem_cons_self, hp⟩
  | @cons w w' w'' e rest hfirst _ ih =>
    obtain ⟨p', hp', hprojects⟩ := hfirst.projects
    cases hp.symm.trans hp'
    have hnext : Bindings.get? w'.projects slot = some (p.step e) := by
      rw [hprojects, Bindings.get?_insert, if_pos rfl]
    obtain ⟨q, hq, hlast⟩ := ih hnext
    exact ⟨q, List.mem_cons_of_mem _ hq, hlast⟩

end Workspace

/-! ## When names stay unique -/

/-- All projects of a run have layouts with names of their own
exactly if nothing clashes, and only then does every name find its layout and does every removed
name go. However a workspace makes the edits, its project is one of the run. -/
theorem layout_names_stay_unique_iff {start : Start} {p : Project} (h : start.project = .ok p)
    (edits : List ProjectEdit) :
    ((∀ q ∈ p.states edits, q.LayoutNamesUnique) ↔ ¬ start.Clashes ∧ ¬ p.Clashes edits)
    ∧ (∀ q ∈ p.states edits,
        (q.LayoutNamesUnique ↔ q.Addressed) ∧ (q.LayoutNamesUnique ↔ q.Forgets))
    ∧ ∀ slot w w', Bindings.get? w.projects slot = some p → Workspace.Runs slot w edits w' →
        ∃ q ∈ p.states edits, Bindings.get? w'.projects slot = some q := by
  refine ⟨?_, fun q _ => ⟨q.unique_iff_addressed, q.unique_iff_forgets⟩,
    fun slot w w' hp hrun => hrun.project hp⟩
  rw [Project.unique_states_iff, Project.unique_start_iff h]

/-- A run that renames a layout to a free name and removes another one. -/
theorem renamed_to_free_name : Start.project (.named "game") = .ok (.named "game")
    ∧ ∀ q ∈ (Project.named "game").states
        [.insertLayout (.named "menu"), .insertLayout (.named "level"), .rename "level" "cave",
          .removeLayout "menu"],
      q.LayoutNamesUnique := by
  have hstart : Start.project (.named "game") = .ok (.named "game") := rfl
  refine ⟨hstart, (layout_names_stay_unique_iff hstart _).1.mpr ⟨id, ?_⟩⟩
  rintro (hinsert | hinsert | ⟨-, htaken, -⟩ | hremove | hend)
  · exact hinsert
  · exact hinsert
  · cases htaken
  · exact hremove
  · exact hend

/-- A run that renames a layout to the name of another: one of the two is not found by its name, and
the name is there after it was removed. And a text that lists two layouts of one name. -/
theorem renamed_to_taken_name :
    (∃ p, Start.project (.named "game") = .ok p
      ∧ ∃ q ∈ p.states
          [.insertLayout (.named "menu"), .insertLayout (.named "level"), .rename "level" "menu"],
        ¬ q.LayoutNamesUnique ∧ ¬ q.Addressed
          ∧ (q.removeLayout "menu").2.hasLayout "menu" = true)
    ∧ ∃ text p, Start.project (.loaded text) = .ok p ∧ ¬ p.LayoutNamesUnique := by
  constructor
  · refine ⟨_, rfl, _, List.mem_of_getElem? (i := 3) rfl, by decide, ?_, by decide⟩
    intro h
    cases (h 1 _ rfl).1
  · obtain ⟨text, p, hp, hnames⟩ := exists_load ["menu", "menu"]
    refine ⟨text, p, hp, ?_⟩
    unfold Project.LayoutNamesUnique
    rw [hnames]
    decide

end ScopedVars
