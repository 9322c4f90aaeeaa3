import ScopedVars.Proofs.Bindings.Merged
import ScopedVars.Proofs.Chain.Resolution
import ScopedVars.Proofs.Workspace.Reachable

/-!
# `Proofs/Chain/VisibleNames` — the list of what resolves

The visible names of a chain are collected without looking anything up: the names of one container
after the other are taken in, and a name that was taken in before is passed over. That the list is
*the* list of what resolves, in the order of where it resolves, connects this with the search, and
the link between them is the first position of a name in all names of all containers:

> The names taken in stand in the order of their first positions (`Bindings.pairwise_eraseDups`),
> and a name with a smaller first position resolves earlier (`resolves_before`).

The two facts are one induction each, over the names and over the containers. They need nothing of
the containers; only to write the list down as "the names of the layout, then the ones of the
project that the layout does not have" one must know that no container has a name twice.
-/

set_option autoImplicit false

namespace ScopedVars

theorem Bindings.position?_eq_idxOf {α : Type} {b : Bindings α} {name : String}
    (h : name ∈ names b) : position? b name = some ((names b).idxOf name) := by
  induction b with
  | nil => cases h
  | cons head rest ih =>
    obtain ⟨n, v⟩ := head
    by_cases hn : n = name
    · simp [position?, hn]
    · have hrest : name ∈ names rest := (List.mem_cons.mp h).resolve_left (Ne.symm hn)
      simp [position?, hn, ih hrest]

namespace Chain

/-! ## Where a name resolves -/

/-- One hit comes before another: in an earlier container, or in the same one at an earlier
position. -/
def Hit.Before (a b : String) (ha hb : Hit) : Prop :=
  ha.depth < hb.depth
  ∨ ha.depth = hb.depth ∧ ha.scope = hb.scope
    ∧ ∃ i j, ha.scope.object.position? a = some i ∧ hb.scope.object.position? b = some j ∧ i < j

section Search

variable {name : String} {head : Placed ContainerPlace Container}
  {rest : List (Placed ContainerPlace Container)}

theorem search_of_mem (h : name ∈ head.object.names) (depth : Nat)
    (rest : List (Placed ContainerPlace Container)) :
    ∃ v, search name depth (head :: rest) = some ⟨depth, head, v⟩ := by
  obtain ⟨v, hv⟩ := Container.exists_get? ((Container.has_iff _ _).mpr h)
  exact ⟨v, by rw [search, hv]⟩

theorem search_of_not_mem (h : name ∉ head.object.names) (depth : Nat) :
    search name depth (head :: rest) = search name (depth + 1) rest := by
  have hnone := Container.has_eq_false_iff.mp (Container.has_eq_false_iff_not_mem.mpr h)
  rw [search, hnone]

/-- A name of one of the containers is found, and no less deep than where the search began. -/
theorem exists_search : ∀ {scopes : List (Placed ContainerPlace Container)} (depth : Nat),
    name ∈ scopes.flatMap (·.object.names) →
      ∃ hit, search name depth scopes = some hit ∧ depth ≤ hit.depth
  | [], _, h => by cases h
  | head :: rest, depth, h => by
    by_cases hhead : name ∈ head.object.names
    · obtain ⟨v, hv⟩ := search_of_mem hhead depth rest
      exact ⟨_, hv, Nat.le_refl depth⟩
    · rw [List.flatMap_cons, List.mem_append] at h
      obtain ⟨hit, hhit, hle⟩ := exists_search (depth + 1) (h.resolve_left hhead)
      rw [search_of_not_mem hhead]
      exact ⟨hit, hhit, Nat.le_of_succ_le hle⟩

/-- A name that comes first among all names of all containers resolves first. -/
theorem resolves_before {a b : String} : ∀ {scopes : List (Placed ContainerPlace Container)}
    (depth : Nat), b ∈ scopes.flatMap (·.object.names) →
    (scopes.flatMap (·.object.names)).idxOf a < (scopes.flatMap (·.object.names)).idxOf b →
      ∃ ha hb, search a depth scopes = some ha ∧ search b depth scopes = some hb
        ∧ ha.Before a b hb
  | [], _, hb, _ => by cases hb
  | head :: rest, depth, hb, hab => by
    rw [List.flatMap_cons, List.mem_append] at hb
    rw [List.flatMap_cons, List.idxOf_append, List.idxOf_append] at hab
    by_cases hahead : a ∈ head.object.names
    · obtain ⟨va, hva⟩ := search_of_mem hahead depth rest
      by_cases hbhead : b ∈ head.object.names
      · -- Both in this container: their positions decide.
        obtain ⟨vb, hvb⟩ := search_of_mem hbhead depth rest
        rw [if_pos hahead, if_pos hbhead] at hab
        exact ⟨_, _, hva, hvb, Or.inr ⟨rfl, rfl, _, _, Bindings.position?_eq_idxOf hahead,
          Bindings.position?_eq_idxOf hbhead, hab⟩⟩
      · -- The later name is found deeper.
        obtain ⟨hit, hhit, hle⟩ := exists_search (depth + 1) (hb.resolve_left hbhead)
        rw [search_of_not_mem hbhead]
        exact ⟨_, hit, hva, hhit, Or.inl hle⟩
    · rw [if_neg hahead] at hab
      by_cases hbhead : b ∈ head.object.names
      · -- The names of this container come before all others.
        rw [if_pos hbhead] at hab
        have hlt : head.object.names.idxOf b < head.object.names.length :=
          List.idxOf_lt_length_of_mem hbhead
        omega
      · rw [if_neg hbhead] at hab
        rw [search_of_not_mem hahead, search_of_not_mem hbhead]
        exact resolves_before (depth + 1) (hb.resolve_left hbhead) (Nat.lt_of_add_lt_add_right hab)

end Search

/-! ## The order of a chain -/

/-- Both names resolve, and `a` where it comes before `b`. -/
def Precedes (c : Chain) (a b : String) : Prop :=
  ∃ ha hb, (c.findWithScope a).answer = some ha ∧ (c.findWithScope b).answer = some hb
    ∧ c.scopes[ha.depth]? = some ha.scope ∧ c.scopes[hb.depth]? = some hb.scope
    ∧ ha.Before a b hb

theorem answer_findWithScope (c : Chain) (name : String) :
    (c.findWithScope name).answer = search name 0 c.scopes := by
  unfold findWithScope
  cases search name 0 c.scopes <;> rfl

theorem firstHit_of_findWithScope {c : Chain} {name : String} {hit : Hit}
    (h : (c.findWithScope name).answer = some hit) : c.FirstHit name hit := by
  rcases c.exists_firstHit_or_undefined name with ⟨first, hfirst⟩ | hnone
  · cases h.symm.trans hfirst.allFind.findWithScope
    exact hfirst
  · cases h.symm.trans hnone.noneFinds.findWithScope

theorem Precedes.asymm {c : Chain} {a b : String} (h : c.Precedes a b) : ¬c.Precedes b a := by
  obtain ⟨ha, hb, hha, hhb, -, -, hbefore⟩ := h
  rintro ⟨hb', ha', hhb', hha', -, -, hafter⟩
  cases hha.symm.trans hha'
  cases hhb.symm.trans hhb'
  rcases hbefore with hlt | ⟨heq, -, i, j, hi, hj, hij⟩
  · rcases hafter with hgt | ⟨heq, -⟩
    · exact Nat.lt_asymm hlt hgt
    · exact Nat.ne_of_gt hlt heq
  · rcases hafter with hgt | ⟨-, -, j', i', hj', hi', hji⟩
    · exact Nat.ne_of_gt hgt heq
    · cases hi.symm.trans hi'
      cases hj.symm.trans hj'
      exact Nat.lt_asymm hij hji

/-- The visible names of a chain are the names that resolve, each once, in the order of where they
resolve. There is only one such list. -/
structure ListsVisible (c : Chain) (names : List String) : Prop where
  once : names.Nodup
  complete : ∀ name, name ∈ names ↔ c.has name = true
  ordered : names.Pairwise c.Precedes

theorem mem_visibleNames (c : Chain) (name : String) :
    name ∈ c.visibleNames ↔ c.has name = true := by
  unfold visibleNames
  rw [List.mem_eraseDups, List.mem_flatMap, has_iff]
  exact exists_congr fun scope => and_congr_right fun _ => (Container.has_iff _ _).symm

theorem precedes_visibleNames (c : Chain) : c.visibleNames.Pairwise c.Precedes := by
  apply (Bindings.pairwise_eraseDups _).imp_of_mem
  intro a b _ hb hab
  rw [List.mem_eraseDups] at hb
  obtain ⟨ha, hb, hha, hhb, hbefore⟩ := resolves_before 0 hb hab
  rw [← answer_findWithScope] at hha hhb
  exact ⟨ha, hb, hha, hhb, (firstHit_of_findWithScope hha).stands,
    (firstHit_of_findWithScope hhb).stands, hbefore⟩

theorem listsVisible_visibleNames (c : Chain) : c.ListsVisible c.visibleNames := by
  refine ⟨?_, c.mem_visibleNames, c.precedes_visibleNames⟩
  apply c.precedes_visibleNames.imp
  rintro a _ h rfl
  exact h.asymm h

theorem ListsVisible.eq {c : Chain} {names names' : List String} (h : c.ListsVisible names)
    (h' : c.ListsVisible names') : names = names' := by
  have hperm : names.Perm names' := (List.perm_ext_iff_of_nodup h.once h'.once).mpr fun name =>
    (h.complete name).trans (h'.complete name).symm
  apply hperm.eq_of_pairwise _ h.ordered h'.ordered
  intro a b _ _ hab hba
  exact absurd hba hab.asymm

/-! ## A layout and its project -/

theorem visibleNames_forLayout {p : Placed String Project} {l : Placed LayoutPlace Layout}
    (hl : l.object.locals.names.Nodup) (hp : p.object.globals.names.Nodup) :
    (forLayout p l).answer.visibleNames
      = l.object.locals.names
        ++ p.object.globals.names.filter (fun name => !l.object.locals.has name) := by
  show (l.object.locals.names ++ (p.object.globals.names ++ [])).eraseDups = _
  have hfilter : p.object.globals.names.removeAll l.object.locals.names
      = p.object.globals.names.filter (fun name => !l.object.locals.has name) := by
    apply List.filter_congr
    intro name _
    rw [List.elem_eq_mem, Bool.eq_iff_iff]
    simp [← Container.has_iff]
  rw [List.append_nil, List.eraseDups_append, Bindings.eraseDups_of_nodup hl, hfilter,
    Bindings.eraseDups_of_nodup (hp.filter _)]

/-- **The visible names are exactly what resolves**, once, in scope order. In a program they are the
names of the layout and then those of the project that the layout does not have. -/
theorem visible_names_list_what_resolves :
    (∀ c : Chain, c.ListsVisible c.visibleNames
      ∧ ∀ names, c.ListsVisible names → names = c.visibleNames)
    ∧ Chain.empty.visibleNames = []
    ∧ ∀ w : Workspace, w.Reachable → ∀ slot p ref l, w.project? slot = some p →
      w.layout? ref = some l →
        (forLayout p l).answer.visibleNames
          = l.object.locals.names
            ++ p.object.globals.names.filter (fun name => !l.object.locals.has name) := by
  refine ⟨fun c => ⟨c.listsVisible_visibleNames, fun names h => h.eq c.listsVisible_visibleNames⟩,
    rfl, fun w hw slot p ref l hp hl => ?_⟩
  exact visibleNames_forLayout (hw.namesUnique.layout hl).1 (hw.namesUnique.project hp).1.1

/-- The layout's "score" hides the one of the project, and keeps its place among the layout's. -/
theorem arcade_level_sees : ∃ p l, Workspace.arcade.project? "p" = some p
    ∧ Workspace.arcade.layout? (.named "p" "level") = some l
    ∧ (forLayout p l).answer.visibleNames = ["score", "time", "lives"]
    ∧ ∀ names, (forLayout p l).answer.ListsVisible names → names = ["score", "time", "lives"] := by
  have hnames := visible_names_list_what_resolves.2.2 Workspace.arcade Workspace.arcade_reachable
    "p" _ (.named "p" "level") _ rfl rfl
  refine ⟨_, _, rfl, rfl, hnames.trans (by decide), fun names h => ?_⟩
  exact ((visible_names_list_what_resolves.1 _).2 names h).trans (hnames.trans (by decide))

end Chain

end ScopedVars
