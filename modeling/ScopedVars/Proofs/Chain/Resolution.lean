import ScopedVars.Chain
import ScopedVars.Container.Lemmas

/-!
# `Proofs/Chain/Resolution` — all lookups mean the same variable

There are five ways to look a name up in a chain. Four of them go through one search and differ in
what they make of a name that nothing defines; `has` does not search, it asks every container. What
they have in common is said without any of them: the *first hit* of a name, the least depth at which
a container defines it (`FirstHit`). There is one, or no container defines the name at all
(`exists_firstHit_or_undefined`), and **that alone settles all answers** (`lookups_agree`).

A chain holds its containers by their places, so a copy of a chain, which has the same containers in
the same places, is that chain. And whether a variable is the bad one is no question about what it
holds (`Variable/Handle`): a stored 0 is a hit like any other.
-/

set_option autoImplicit false

namespace ScopedVars

namespace Chain

/-- The hit stands at the least depth at which a container defines the name, and holds the value
that the container has for it. -/
structure FirstHit (c : Chain) (name : String) (hit : Hit) : Prop where
  stands : c.scopes[hit.depth]? = some hit.scope
  defines : hit.scope.object.get? name = some hit.value
  least : ∀ depth scope, c.scopes[depth]? = some scope → scope.object.has name = true →
    hit.depth ≤ depth

/-- No container of the chain defines the name. -/
def Undefined (c : Chain) (name : String) : Prop :=
  ∀ scope ∈ c.scopes, scope.object.has name = false

/-! ## The search -/

section Search

variable {name : String}

/-- Behind a container that does not define the name everything stands one deeper. -/
theorem least_cons {head : Placed ContainerPlace Container}
    {rest : List (Placed ContainerPlace Container)} {i : Nat}
    (hhead : head.object.has name = false) :
    (∀ j scope, (head :: rest)[j]? = some scope → scope.object.has name = true → i + 1 ≤ j) ↔
      ∀ j scope, rest[j]? = some scope → scope.object.has name = true → i ≤ j := by
  constructor
  · intro h j scope hj hscope
    exact Nat.le_of_succ_le_succ (h (j + 1) scope hj hscope)
  · intro h j scope hj hscope
    cases j with
    | zero =>
      cases hj
      rw [hhead] at hscope
      cases hscope
    | succ j => exact Nat.succ_le_succ (h j scope hj hscope)

theorem search_of_undefined : ∀ (scopes : List (Placed ContainerPlace Container)) (depth : Nat),
    (∀ scope ∈ scopes, scope.object.has name = false) → search name depth scopes = none
  | [], _, _ => rfl
  | head :: rest, depth, h => by
    obtain ⟨hhead, hrest⟩ := List.forall_mem_cons.mp h
    rw [search, Container.has_eq_false_iff.mp hhead]
    exact search_of_undefined rest (depth + 1) hrest

theorem search_of_least : ∀ (scopes : List (Placed ContainerPlace Container)) (depth i : Nat)
    {scope : Placed ContainerPlace Container} {v : Variable}, scopes[i]? = some scope →
    scope.object.get? name = some v →
    (∀ j s, scopes[j]? = some s → s.object.has name = true → i ≤ j) →
      search name depth scopes = some ⟨depth + i, scope, v⟩
  | [], _, _, _, _, h, _, _ => by cases h
  | head :: rest, depth, 0, _, _, h, hv, _ => by
    cases h
    rw [search, hv]
    rfl
  | head :: rest, depth, i + 1, scope, v, h, hv, hleast => by
    have hhead : head.object.has name = false := by
      cases hhas : head.object.has name with
      | true => exact absurd (hleast 0 head rfl hhas) (Nat.not_succ_le_zero i)
      | false => rfl
    rw [search, Container.has_eq_false_iff.mp hhead]
    show search name (depth + 1) rest = _
    rw [search_of_least rest (depth + 1) i h hv ((least_cons hhead).mp hleast),
      Nat.add_right_comm, Nat.add_assoc]

theorem exists_least_or_undefined : ∀ scopes : List (Placed ContainerPlace Container),
    (∃ (i : Nat) (scope : _) (v : Variable), scopes[i]? = some scope
      ∧ scope.object.get? name = some v
      ∧ ∀ j s, scopes[j]? = some s → s.object.has name = true → i ≤ j)
    ∨ ∀ scope ∈ scopes, scope.object.has name = false
  | [] => Or.inr (List.forall_mem_nil _)
  | head :: rest => by
    cases hv : head.object.get? name with
    | some v => exact Or.inl ⟨0, head, v, rfl, hv, fun j _ _ _ => Nat.zero_le j⟩
    | none =>
      have hhead := Container.has_eq_false_iff.mpr hv
      rcases exists_least_or_undefined rest with ⟨i, scope, w, hi, hw, hleast⟩ | hrest
      · exact Or.inl ⟨i + 1, scope, w, hi, hw, (least_cons hhead).mpr hleast⟩
      · exact Or.inr (List.forall_mem_cons.mpr ⟨hhead, hrest⟩)

end Search

theorem exists_firstHit_or_undefined (c : Chain) (name : String) :
    (∃ hit, c.FirstHit name hit) ∨ c.Undefined name := by
  rcases exists_least_or_undefined c.scopes with ⟨i, scope, v, hi, hv, hleast⟩ | h
  · exact Or.inl ⟨⟨i, scope, v⟩, hi, hv, hleast⟩
  · exact Or.inr h

theorem FirstHit.search_eq {c : Chain} {name : String} {hit : Hit} (h : c.FirstHit name hit) :
    search name 0 c.scopes = some hit := by
  rw [search_of_least c.scopes 0 hit.depth h.stands h.defines h.least, Nat.zero_add]

theorem Undefined.search_eq {c : Chain} {name : String} (h : c.Undefined name) :
    search name 0 c.scopes = none :=
  search_of_undefined c.scopes 0 h

/-! ## The answers -/

/-- Every lookup answers with this hit. -/
structure AllFind (c : Chain) (name : String) (hit : Hit) : Prop where
  has : c.has name = true
  findWithScope : (c.findWithScope name).answer = some hit
  find : (c.find name).answer = some hit.value
  lookup : (c.lookup name).answer = .ok hit.value
  get : (c.get name).answer = .stored hit.value
  /-- Also when it is the number 0, which is what the bad variable shows. -/
  isBad : (c.get name).answer.isBad = false

/-- No lookup finds anything, and the lenient one answers with the bad variable itself. -/
structure NoneFinds (c : Chain) (name : String) : Prop where
  has : c.has name = false
  findWithScope : (c.findWithScope name).answer = none
  find : (c.find name).answer = none
  lookup : (c.lookup name).answer = .error (.variableNotFound name)
  get : (c.get name).answer = .bad
  isBad : (c.get name).answer.isBad = true
  shown : (c.get name).answer.shown = .number .zero

theorem has_iff (c : Chain) (name : String) :
    c.has name = true ↔ ∃ scope ∈ c.scopes, scope.object.has name = true :=
  List.any_eq_true

theorem FirstHit.allFind {c : Chain} {name : String} {hit : Hit} (h : c.FirstHit name hit) :
    c.AllFind name hit := by
  have hhas : hit.scope.object.has name = true := by
    cases hnot : hit.scope.object.has name with
    | true => rfl
    | false => cases (Container.has_eq_false_iff.mp hnot).symm.trans h.defines
  have hscope : (c.findWithScope name).answer = some hit := by
    unfold findWithScope
    rw [h.search_eq]
  have hfind : (c.find name).answer = some hit.value := congrArg (Option.map _) hscope
  have hget : (c.get name).answer = .stored hit.value := by
    unfold get
    simp only [hfind]
  constructor
  case has => exact (has_iff c name).mpr ⟨hit.scope, List.mem_of_getElem? h.stands, hhas⟩
  case findWithScope => exact hscope
  case find => exact hfind
  case lookup =>
    unfold lookup Logged.map
    rw [hfind]
  case get => exact hget
  case isBad => rw [hget, Handle.isBad]

theorem Undefined.noneFinds {c : Chain} {name : String} (h : c.Undefined name) :
    c.NoneFinds name := by
  have hscope : (c.findWithScope name).answer = none := by
    unfold findWithScope
    rw [h.search_eq]
  have hfind : (c.find name).answer = none := congrArg (Option.map _) hscope
  have hget : (c.get name).answer = .bad := by
    unfold get
    simp only [hfind]
  constructor
  case has =>
    rw [Bool.eq_false_iff, Ne, has_iff]
    rintro ⟨scope, hmem, hhas⟩
    rw [h scope hmem] at hhas
    cases hhas
  case findWithScope => exact hscope
  case find => exact hfind
  case lookup =>
    unfold lookup Logged.map
    rw [hfind]
  case get => exact hget
  case isBad => rw [hget, Handle.isBad]
  case shown => rw [hget, Handle.shown]

theorem isBad_get_iff (c : Chain) (name : String) :
    (c.get name).answer.isBad = true ↔ c.has name = false := by
  rcases c.exists_firstHit_or_undefined name with ⟨hit, h⟩ | h
  · rw [h.allFind.has, h.allFind.isBad]
    exact ⟨nofun, nofun⟩
  · rw [h.noneFinds.has, h.noneFinds.isBad]
    exact ⟨fun _ => rfl, fun _ => rfl⟩

/-! ## A layout and its project -/

section ForLayout

variable {p : Placed String Project} {l : Placed LayoutPlace Layout} {name : String} {v : Variable}

theorem firstHit_local (h : l.locals.object.get? name = some v) :
    (forLayout p l).answer.FirstHit name ⟨0, l.locals, v⟩ :=
  ⟨rfl, h, fun depth _ _ _ => Nat.zero_le depth⟩

theorem firstHit_global (hlocal : l.locals.object.get? name = none)
    (h : p.globals.object.get? name = some v) :
    (forLayout p l).answer.FirstHit name ⟨1, p.globals, v⟩ := by
  refine ⟨rfl, h, fun depth scope hdepth hscope => ?_⟩
  cases depth with
  | zero =>
    cases hdepth
    rw [Container.has_eq_false_iff.mpr hlocal] at hscope
    cases hscope
  | succ depth => exact Nat.succ_le_succ (Nat.zero_le depth)

theorem undefined_forLayout (hlocal : l.locals.object.get? name = none)
    (hglobal : p.globals.object.get? name = none) :
    (forLayout p l).answer.Undefined name :=
  List.forall_mem_cons.mpr ⟨Container.has_eq_false_iff.mpr hlocal,
    List.forall_mem_singleton.mpr (Container.has_eq_false_iff.mpr hglobal)⟩

end ForLayout

theorem eq_forLayout_of_named {p : Placed String Project} {layout : String}
    {chain : Logged Chain} (h : forLayoutNamed p layout = .ok chain) :
    ∃ l, p.layoutNamed? layout = some l ∧ chain = forLayout p l := by
  unfold forLayoutNamed at h
  split at h
  next l hl =>
    cases h
    exact ⟨l, hl, rfl⟩
  next => cases h

/-! ## One first match -/

/-- One first hit, or none, settles what every lookup of the name answers. -/
structure Agrees (c : Chain) (name : String) : Prop where
  decided : (∃ hit, c.FirstHit name hit) ∨ c.Undefined name
  found : ∀ hit, c.FirstHit name hit → c.AllFind name hit
  missed : c.Undefined name → c.NoneFinds name
  isBad : (c.get name).answer.isBad = true ↔ c.has name = false

/-- The variables of the layout hide those of the project. -/
structure LocalFirst (p : Placed String Project) (l : Placed LayoutPlace Layout) (c : Chain)
    (name : String) : Prop where
  ofLayout : ∀ v, l.object.locals.get? name = some v → c.AllFind name ⟨0, l.locals, v⟩
  ofProject : l.object.locals.get? name = none →
    ∀ v, p.object.globals.get? name = some v → c.AllFind name ⟨1, p.globals, v⟩
  ofNeither : l.object.locals.get? name = none → p.object.globals.get? name = none →
    c.NoneFinds name

/-- **All lookups of a chain agree on its first match.** That holds for every list of containers,
and so for the chains of a project and a layout: the layout need not be one of the project's, and a
chain that is asked for by the name of the layout is one of them. -/
theorem lookups_agree_on_first_match :
    (∀ (c : Chain) (name : String), c.Agrees name)
    ∧ (∀ (p : Placed String Project) (l : Placed LayoutPlace Layout) (name : String),
      LocalFirst p l (forLayout p l).answer name)
    ∧ ∀ (p : Placed String Project) (layout : String) (chain : Logged Chain),
      forLayoutNamed p layout = .ok chain →
        ∃ l, p.layoutNamed? layout = some l ∧ chain = forLayout p l := by
  refine ⟨fun c name => ?_, fun p l name => ?_, fun p layout chain => eq_forLayout_of_named⟩
  · exact ⟨c.exists_firstHit_or_undefined name, fun _ h => h.allFind, fun h => h.noneFinds,
      c.isBad_get_iff name⟩
  · exact ⟨fun v h => (firstHit_local h).allFind,
      fun hlocal v h => (firstHit_global hlocal h).allFind,
      fun hlocal hglobal => (undefined_forLayout hlocal hglobal).noneFinds⟩

/-- The layout of a project that has a variable of the same name. The one of the layout holds the
number 0. -/
def shadowing : Placed LayoutPlace Layout :=
  ⟨.inProject "p" 0, ⟨"level", ⟨[("lives", .number .zero)]⟩⟩⟩

def shadowed : Placed String Project :=
  ⟨"p", ⟨"game", ⟨[("lives", .number (.ofRank false 1))]⟩, [shadowing.object]⟩⟩

theorem shadowing_zero_found :
    ∃ l, forLayoutNamed shadowed "level" = .ok (forLayout shadowed l)
      ∧ ((forLayout shadowed shadowing).answer.get "lives").answer.shown = .number .zero
      ∧ ((forLayout shadowed shadowing).answer.get "lives").answer.isBad = false
      ∧ ((forLayout shadowed shadowing).answer.get "score").answer.isBad = true := by
  have hnamed : forLayoutNamed shadowed "level" = .ok (forLayout shadowed shadowing) := rfl
  obtain ⟨l, -, hl⟩ := lookups_agree_on_first_match.2.2 shadowed "level" _ hnamed
  have hlives := (lookups_agree_on_first_match.2.1 shadowed shadowing "lives").ofLayout _ rfl
  have hscore := (lookups_agree_on_first_match.1 (forLayout shadowed shadowing).answer
    "score").missed (undefined_forLayout rfl rfl)
  refine ⟨l, hl ▸ hnamed, ?_, hlives.isBad, hscore.isBad⟩
  rw [hlives.get, Handle.shown]

end Chain

end ScopedVars
