import ScopedVars.Proofs.Chain.Resolution
import ScopedVars.Proofs.Container.Renaming
import ScopedVars.Proofs.Workspace.Frame
import ScopedVars.Proofs.Workspace.Reachable

/-!
# `Proofs/Workspace/Shadowing` — what an edit hides and what it uncovers

A variable of a layout hides the variable of the project that has its name. So an edit of one
container can change what a name means in two ways: the name means something else in that container,
or it means nothing there any more and what was hidden behind it comes to light.

The chains of a workspace before and after an edit differ in one container (`chainAfter_layout`,
`chainAfter_project`), so all there is to know is what the edit does to a name in that container:

> An edit changes the names that it is about and no others (`get?_step`). One that is inserted is
> there, one that is removed is not, and a renaming moves a value from one to the other.

Removing and renaming need that no name comes twice in the container: a second entry would come to
light before the project's variable does. No container of a program has one.
-/

set_option autoImplicit false

namespace ScopedVars

/-! ## A name in one container -/

namespace Container

variable {c : Container} {x : String}

theorem rename_of_step {a b : String} (h : (c.step (.rename a b)).1 = .renamed (.ok ())) :
    c.rename a b = .ok (c.step (.rename a b)).2 := by
  cases hrename : c.rename a b with
  | ok c' => rw [step_rename_ok hrename]
  | error refusal => simp [step_rename_error hrename] at h

theorem step_refused {a b : String} {refusal : Refusal}
    (h : (c.step (.rename a b)).1 = .renamed (.error refusal)) :
    (c.step (.rename a b)).2 = c := by
  cases hrename : c.rename a b with
  | ok c' => simp [step_rename_ok hrename] at h
  | error refusal => rw [step_rename_error hrename]

/-- **An edit leaves the names alone that it is not about.** -/
theorem get?_step (hc : c.names.Nodup) {e : Edit} (h : ¬e.concerns x) :
    (c.step e).2.get? x = c.get? x := by
  cases e with
  | insert name v =>
    have hx : name ≠ x := Ne.symm h
    simp [step, insert, get?_adding, hx]
  | adding name v =>
    have hx : name ≠ x := Ne.symm h
    simp [step, get?_adding, hx]
  | set name v =>
    have hx : name ≠ x := Ne.symm h
    cases hname : c.has name <;> simp [step, set, hname, get?_adding, hx]
  | remove name =>
    have hx : name ≠ x := Ne.symm h
    simp [step, get?_remove hc, hx]
  | rename a b =>
    obtain ⟨hxa, hxb⟩ := not_or.mp h
    cases hrename : c.rename a b with
    | ok c' =>
      rw [step_rename_ok hrename]
      exact ((renamed_of_eq_ok hc hrename).others x hxa hxb).1
    | error refusal => rw [step_rename_error hrename]
  | clear => exact absurd trivial h

end Container

/-! ## A name in a chain -/

namespace Chain

/-- What a name means in a chain, and in which container. -/
def sees (c : Chain) (name : String) : Option (ContainerPlace × Variable) :=
  (c.findWithScope name).answer.map fun hit => (hit.scope.place, hit.value)

section Sees

variable {s t : Placed ContainerPlace Container} {name : String}

theorem sees_first {v : Variable} (h : s.object.get? name = some v) :
    (⟨[s, t]⟩ : Chain).sees name = some (s.place, v) := by
  simp [sees, findWithScope, search, h]

theorem sees_behind (h : s.object.get? name = none) :
    (⟨[s, t]⟩ : Chain).sees name = (t.object.get? name).map (t.place, ·) := by
  cases ht : t.object.get? name <;> simp [sees, findWithScope, search, h, ht]

/-- What a name means depends on the places, and on what the name means in each of them. -/
theorem sees_congr {s' t' : Placed ContainerPlace Container} (hs : s.place = s'.place)
    (ht : t.place = t'.place) (hsget : s.object.get? name = s'.object.get? name)
    (htget : t.object.get? name = t'.object.get? name) :
    (⟨[s, t]⟩ : Chain).sees name = (⟨[s', t']⟩ : Chain).sees name := by
  cases h : s.object.get? name with
  | some v => rw [sees_first h, sees_first (hsget ▸ h), hs]
  | none => rw [sees_behind h, sees_behind (hsget ▸ h), ht, htget]

end Sees

end Chain

namespace Workspace

variable {w : Workspace}

/-! ## Chains before and after an edit -/

/-- The chain of a project and a layout. -/
def chain? (w : Workspace) (slot : String) (ref : LayoutRef) : Option Chain := do
  let p ← w.project? slot
  let l ← w.layout? ref
  return (Chain.forLayout p l).answer

/-- The chain that is seen after an edit which gave this answer. -/
def ChainAfter (w : Workspace) (r : ContainerRef) (e : Edit) (slot : String) (ref : LayoutRef)
    (answer : Answer) (c : Chain) : Prop :=
  ∃ w', w.editContainer r (·.step e) = some (answer, w') ∧ w'.chain? slot ref = some c

section After

variable {slot : String} {p : Placed String Project} {ref : LayoutRef}
  {l : Placed LayoutPlace Layout} {e : Edit} {answer : Answer} {c : Chain}

theorem chain?_eq_forLayout (hp : w.project? slot = some p) (hl : w.layout? ref = some l) :
    w.chain? slot ref = some (Chain.forLayout p l).answer := by
  simp [chain?, hp, hl]

theorem chain?_named {name : String} {chain : Logged Chain} (hp : w.project? slot = some p)
    (h : Chain.forLayoutNamed p name = .ok chain) :
    w.chain? slot (.named slot name) = some chain.answer := by
  obtain ⟨l, hl, rfl⟩ := Chain.eq_forLayout_of_named h
  exact chain?_eq_forLayout hp (by simp [layout?, hp, hl])

/-- A chain is told by the two containers in it. -/
theorem chain?_eq (w : Workspace) (slot : String) (ref : LayoutRef) :
    w.chain? slot ref = (w.container? (.ofLayout ref)).bind fun s =>
      (w.container? (.ofProject slot)).map fun t => ⟨[s, t]⟩ := by
  cases hp : w.project? slot <;> cases hl : w.layout? ref <;>
    simp [chain?, container?, hp, hl, Chain.forLayout]

/-- An edit shows in the chain wherever the container that it is made in stands there. -/
theorem chainAfter_iff {r : ContainerRef} {target : Placed ContainerPlace Container}
    (hp : w.project? slot = some p) (hl : w.layout? ref = some l)
    (hr : w.container? r = some target) :
    w.ChainAfter r e slot ref answer c ↔ answer = (target.object.step e).1
      ∧ c = ⟨[l.locals, p.globals].map fun s =>
        if s.place = target.place then ⟨s.place, (target.object.step e).2⟩ else s⟩ := by
  have hafter : (w.setContainer target.place (target.object.step e).2).chain? slot ref
      = some ⟨[l.locals, p.globals].map fun s =>
        if s.place = target.place then ⟨s.place, (target.object.step e).2⟩ else s⟩ := by
    rw [chain?_eq, container?_setContainer hr, container?_setContainer hr, container?_ofLayout hl,
      container?_ofProject hp]
    rfl
  unfold ChainAfter
  rw [editContainer_eq hr]
  constructor
  · rintro ⟨w', hedit, hchain⟩
    cases hedit
    exact ⟨rfl, Option.some.inj (hchain.symm.trans hafter)⟩
  · rintro ⟨rfl, rfl⟩
    exact ⟨_, rfl, hafter⟩

theorem chainAfter_layout (hp : w.project? slot = some p) (hl : w.layout? ref = some l) :
    w.ChainAfter (.ofLayout ref) e slot ref answer c ↔ answer = (l.object.locals.step e).1
      ∧ c = ⟨[⟨.ofLayout l.place, (l.object.locals.step e).2⟩, p.globals]⟩ := by
  rw [chainAfter_iff hp hl (container?_ofLayout hl)]
  simp [Placed.locals, Placed.globals]

theorem chainAfter_project (hp : w.project? slot = some p) (hl : w.layout? ref = some l) :
    w.ChainAfter (.ofProject slot) e slot ref answer c ↔ answer = (p.object.globals.step e).1
      ∧ c = ⟨[l.locals, ⟨.ofProject p.place, (p.object.globals.step e).2⟩]⟩ := by
  rw [chainAfter_iff hp hl (container?_ofProject hp)]
  simp [Placed.locals, Placed.globals]

end After

/-! ## Edits of a layout's variables -/

section Edits

variable {slot : String} {p : Placed String Project} {ref : LayoutRef}
  {l : Placed LayoutPlace Layout}

/-- What the edits of a layout's variables do to what is seen through the layout. -/
structure LocalEdits (w : Workspace) (slot : String) (p : Placed String Project) (ref : LayoutRef)
    (l : Placed LayoutPlace Layout) : Prop where
  total : ∀ e, ∃ answer c, w.ChainAfter (.ofLayout ref) e slot ref answer c
  insert : ∀ name v answer c, w.ChainAfter (.ofLayout ref) (.insert name v) slot ref answer c →
    c.sees name = some (.ofLayout l.place, v)
  /-- A value that is written through a mutable reference to the variable. -/
  set : ∀ name v answer c, w.ChainAfter (.ofLayout ref) (.set name v) slot ref answer c →
    l.object.locals.has name = true → c.sees name = some (.ofLayout l.place, v)
  /-- What the project has of the name comes to light. -/
  remove : ∀ name answer c, w.ChainAfter (.ofLayout ref) (.remove name) slot ref answer c →
    c.sees name = (p.object.globals.get? name).map (.ofProject slot, ·)
  rename : ∀ a b c, a ≠ b →
    w.ChainAfter (.ofLayout ref) (.rename a b) slot ref (.renamed (.ok ())) c →
    (∃ v, l.object.locals.get? a = some v ∧ c.sees b = some (.ofLayout l.place, v))
      ∧ c.sees a = (p.object.globals.get? a).map (.ofProject slot, ·)
  /-- All names that the edit is not about mean what they meant, where they did. -/
  others : ∀ e answer c, w.ChainAfter (.ofLayout ref) e slot ref answer c →
    ∀ x, ¬e.concerns x → c.sees x = (Chain.forLayout p l).answer.sees x
  setAbsent : ∀ name v answer c, w.ChainAfter (.ofLayout ref) (.set name v) slot ref answer c →
    l.object.locals.has name = false → ∀ x, c.sees x = (Chain.forLayout p l).answer.sees x
  removeAbsent : ∀ name answer c, w.ChainAfter (.ofLayout ref) (.remove name) slot ref answer c →
    l.object.locals.has name = false → ∀ x, c.sees x = (Chain.forLayout p l).answer.sees x
  refused : ∀ a b refusal c,
    w.ChainAfter (.ofLayout ref) (.rename a b) slot ref (.renamed (.error refusal)) c →
    ∀ x, c.sees x = (Chain.forLayout p l).answer.sees x

theorem localEdits (hp : w.project? slot = some p) (hl : w.layout? ref = some l)
    (hnames : l.object.locals.names.Nodup) : w.LocalEdits slot p ref l := by
  obtain ⟨rfl, -⟩ := project?_eq_some.mp hp
  constructor
  case total =>
    intro e
    exact ⟨_, _, (chainAfter_layout hp hl).mpr ⟨rfl, rfl⟩⟩
  case insert =>
    intro name v answer c h
    obtain ⟨-, rfl⟩ := (chainAfter_layout hp hl).mp h
    apply Chain.sees_first
    simp [Container.step, Container.insert, Container.get?_adding]
  case set =>
    intro name v answer c h hhas
    obtain ⟨-, rfl⟩ := (chainAfter_layout hp hl).mp h
    apply Chain.sees_first
    simp [Container.step, Container.set, Container.get?_adding, hhas]
  case remove =>
    intro name answer c h
    obtain ⟨-, rfl⟩ := (chainAfter_layout hp hl).mp h
    apply Chain.sees_behind
    simp [Container.step, Container.get?_remove hnames]
  case rename =>
    intro a b c hab h
    obtain ⟨hanswer, rfl⟩ := (chainAfter_layout hp hl).mp h
    have hrename := Container.rename_of_step hanswer.symm
    have hrenamed := Container.renamed_of_eq_ok hnames hrename
    obtain ⟨i, v, -, hv, -⟩ := hrenamed.entries
    refine ⟨⟨v, hv, Chain.sees_first (hrenamed.value.trans hv)⟩, ?_⟩
    exact Chain.sees_behind (Container.has_eq_false_iff.mp (hrenamed.gone (Ne.symm hab)))
  case others =>
    intro e answer c h x hx
    obtain ⟨-, rfl⟩ := (chainAfter_layout hp hl).mp h
    exact Chain.sees_congr rfl rfl (Container.get?_step hnames hx) rfl
  case setAbsent =>
    intro name v answer c h hhas x
    obtain ⟨-, rfl⟩ := (chainAfter_layout hp hl).mp h
    simp only [Container.step, Container.set, hhas]
    rfl
  case removeAbsent =>
    intro name answer c h hhas x
    obtain ⟨-, rfl⟩ := (chainAfter_layout hp hl).mp h
    have hget : (l.object.locals.remove name).2.get? x = l.object.locals.get? x := by
      rw [Container.get?_remove hnames]
      split
      next heq => rw [← heq, Container.has_eq_false_iff.mp hhas]
      next => rfl
    exact Chain.sees_congr rfl rfl hget rfl
  case refused =>
    intro a b refusal c h x
    obtain ⟨hanswer, rfl⟩ := (chainAfter_layout hp hl).mp h
    rw [Container.step_refused hanswer.symm]
    rfl

/-! ## Edits of other containers -/

/-- What the edits of a project's variables do to what is seen through a layout. -/
structure GlobalEdits (w : Workspace) (slot : String) (p : Placed String Project) (ref : LayoutRef)
    (l : Placed LayoutPlace Layout) : Prop where
  total : ∀ e, ∃ answer c, w.ChainAfter (.ofProject slot) e slot ref answer c
  /-- The variables of the layout stay in front of whatever becomes of the project's. -/
  hidden : ∀ e answer c, w.ChainAfter (.ofProject slot) e slot ref answer c →
    ∀ x, l.object.locals.has x = true → c.sees x = (Chain.forLayout p l).answer.sees x
  others : ∀ e answer c, w.ChainAfter (.ofProject slot) e slot ref answer c →
    ∀ x, ¬e.concerns x → c.sees x = (Chain.forLayout p l).answer.sees x

theorem globalEdits (hp : w.project? slot = some p) (hl : w.layout? ref = some l)
    (hnames : p.object.globals.names.Nodup) : w.GlobalEdits slot p ref l := by
  refine ⟨?total, ?hidden, ?others⟩
  case total =>
    intro e
    exact ⟨_, _, (chainAfter_project hp hl).mpr ⟨rfl, rfl⟩⟩
  case hidden =>
    intro e answer c h x hx
    obtain ⟨-, rfl⟩ := (chainAfter_project hp hl).mp h
    obtain ⟨v, hv⟩ := Container.exists_get? hx
    exact (Chain.sees_first hv).trans (Chain.sees_first hv).symm
  case others =>
    intro e answer c h x hx
    obtain ⟨-, rfl⟩ := (chainAfter_project hp hl).mp h
    exact Chain.sees_congr rfl rfl rfl (Container.get?_step hnames hx)

/-- Through another layout, of whichever project, nothing is seen of an edit. -/
theorem chain?_elsewhere {e : Edit} {answer : Answer} {w' : Workspace}
    (hl : w.layout? ref = some l)
    (hedit : w.editContainer (.ofLayout ref) (·.step e) = some (answer, w')) {slot' : String}
    {ref' : LayoutRef} {p' : Placed String Project} {l' : Placed LayoutPlace Layout}
    (hp' : w.project? slot' = some p') (hl' : w.layout? ref' = some l')
    (hplace : l'.place ≠ l.place) :
    w'.chain? slot' ref' = some (Chain.forLayout p' l').answer := by
  have hlocals := container?_ofLayout hl
  rw [editContainer_eq hlocals] at hedit
  cases hedit
  rw [chain?_eq, container?_setContainer hlocals, container?_setContainer hlocals,
    container?_ofLayout hl', container?_ofProject hp']
  simp [Placed.locals, Placed.globals, hplace, Chain.forLayout]

end Edits

/-- **Edits shadow and un-shadow exactly what they should**, in every workspace of a program. Edits
of a layout's variables are seen through that layout as `LocalEdits` says and through no other one,
and edits of the project's variables only where the layout does not define the name. -/
theorem edits_shadow_exactly {w : Workspace} (hw : w.Reachable) {slot : String}
    {p : Placed String Project} {ref : LayoutRef} {l : Placed LayoutPlace Layout}
    (hp : w.project? slot = some p) (hl : w.layout? ref = some l) :
    (w.chain? slot ref = some (Chain.forLayout p l).answer
      ∧ ∀ name chain, Chain.forLayoutNamed p name = .ok chain →
        w.chain? slot (.named slot name) = some chain.answer)
    ∧ w.LocalEdits slot p ref l
    ∧ w.GlobalEdits slot p ref l
    ∧ ∀ (e : Edit) answer w', w.editContainer (.ofLayout ref) (·.step e) = some (answer, w') →
      ∀ slot' ref' p' l', w.project? slot' = some p' → w.layout? ref' = some l' →
        l'.place ≠ l.place → w'.chain? slot' ref' = some (Chain.forLayout p' l').answer := by
  refine ⟨⟨chain?_eq_forLayout hp hl, fun name chain => chain?_named hp⟩,
    localEdits hp hl (hw.namesUnique.layout hl).1,
    globalEdits hp hl (hw.namesUnique.project hp).1.1, ?_⟩
  intro e answer w' hedit slot' ref' p' l' hp' hl' hplace
  exact chain?_elsewhere hl hedit hp' hl' hplace

/-- Without the layout's "score" the project's comes to light. Under the name "lives" it hides
another variable of the project. The other layout sees the project's variables all the while. -/
theorem arcade_score_uncovered : ∃ p l removed renamed w',
    arcade.project? "p" = some p ∧ arcade.layout? (.named "p" "level") = some l
    ∧ arcade.ChainAfter (.ofLayout (.named "p" "level")) (.remove "score") "p" (.named "p" "level")
      (.value (some (.string "now"))) removed
    ∧ removed.sees "score" = some (.ofProject "p", .string "best")
    ∧ arcade.ChainAfter (.ofLayout (.named "p" "level")) (.rename "score" "lives") "p"
      (.named "p" "level") (.renamed (.ok ())) renamed
    ∧ renamed.sees "lives" = some (.ofLayout (.inProject "p" 0), .string "now")
    ∧ renamed.sees "score" = some (.ofProject "p", .string "best")
    ∧ renamed.sees "time" = some (.ofLayout (.inProject "p" 0), .number .zero)
    ∧ arcade.editContainer (.ofLayout (.named "p" "level")) (·.step (.rename "score" "lives"))
      = some (.renamed (.ok ()), w')
    ∧ w'.chain? "p" (.named "p" "menu") = arcade.chain? "p" (.named "p" "menu") := by
  obtain ⟨-, hlocal, -, helsewhere⟩ := edits_shadow_exactly arcade_reachable
    (show arcade.project? "p" = some _ from rfl)
    (show arcade.layout? (.named "p" "level") = some _ from rfl)
  have hremoved : arcade.ChainAfter (.ofLayout (.named "p" "level")) (.remove "score") "p"
      (.named "p" "level") (.value (some (.string "now"))) _ := ⟨_, rfl, rfl⟩
  have hrenamed : arcade.ChainAfter (.ofLayout (.named "p" "level")) (.rename "score" "lives") "p"
      (.named "p" "level") (.renamed (.ok ())) _ := ⟨_, rfl, rfl⟩
  obtain ⟨⟨v, hv, hlives⟩, hscore⟩ := hlocal.rename "score" "lives" _ (by decide) hrenamed
  cases hv
  have htime := hlocal.others _ _ _ hrenamed "time" (by simp [Edit.concerns])
  have hmenu := helsewhere (.rename "score" "lives") _ _ rfl "p" (.named "p" "menu") _ _ rfl rfl
    (by decide)
  exact ⟨_, _, _, _, _, rfl, rfl, hremoved, hlocal.remove "score" _ _ hremoved, hrenamed, hlives,
    hscore, htime, rfl, hmenu⟩

end Workspace

end ScopedVars
