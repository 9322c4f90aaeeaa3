import Mathlib.Data.List.Forall2
import Mathlib.Data.List.Perm.Subperm
import ScopedVars.Proofs.Index
import ScopedVars.Variable.Handle

/-!
# `Proofs/Variable/Equality` — equal is what no path tells apart

Equality of variables is a recursion through both of them, and for records a lopsided one: as many
children here as there, and each child here found there under its name. A *path* through a variable
knows nothing of the other one. What it comes to can be looked at (`LooksLike`): the kind, how many
children or elements there are, and the content of what has none.

> Two variables are equal exactly if every path comes to the same look in both, or to nothing in
> both (`equal_iff_indistinct`).

The proof says both sides in one form, "they look alike, and so on one step further"
(`equal_iff_step`, `indistinct_iff_step`). Only the first needs an argument: where names are unique,
as many children and each of them found means that no child of the other one is left over
(`Bindings.forall_get?_rel_iff`). That is where the lopsidedness goes, and with it everything that
would have to be proved by a recursion of its own: that equality is symmetric and transitive is now
a matter of looks.
-/

set_option autoImplicit false

namespace ScopedVars

/-! ## Numbers -/

namespace Double

/-- The same number, as arithmetic has it. The two zeros are, and a NaN is the same as nothing. -/
def SameNumber (x y : Double) : Prop :=
  x.isNaN = false ∧ y.isNaN = false ∧ (x = y ∨ x.isZero = true ∧ y.isZero = true)

theorem equal_iff {x y : Double} : x.equal y = true ↔ x.SameNumber y := by
  unfold equal SameNumber
  simp [and_assoc]

theorem SameNumber.symm {x y : Double} (h : x.SameNumber y) : y.SameNumber x :=
  ⟨h.2.1, h.1, h.2.2.imp Eq.symm And.symm⟩

theorem SameNumber.trans {x y z : Double} (h : x.SameNumber y) (h' : y.SameNumber z) :
    x.SameNumber z := by
  obtain ⟨hx, -, hxy⟩ := h
  obtain ⟨-, hz, hyz⟩ := h'
  refine ⟨hx, hz, ?_⟩
  rcases hxy with rfl | ⟨hxzero, hyzero⟩
  · exact hyz
  · rcases hyz with rfl | ⟨-, hzzero⟩
    · exact Or.inr ⟨hxzero, hyzero⟩
    · exact Or.inr ⟨hxzero, hzzero⟩

theorem sameNumber_self_iff {x : Double} : x.SameNumber x ↔ x.isNaN = false :=
  ⟨And.left, fun h => ⟨h, h, Or.inl rfl⟩⟩

end Double

/-! ## Something in both, or nothing in both -/

section Rel

variable {α β γ : Type} {R : α → β → Prop}

theorem rel_congr {S : α → β → Prop} {x : Option α} {y : Option β}
    (h : ∀ a b, x = some a → y = some b → (R a b ↔ S a b)) :
    Option.Rel R x y ↔ Option.Rel S x y := by
  cases x with
  | none =>
    cases y with
    | none => exact ⟨fun _ => .none, fun _ => .none⟩
    | some b => exact ⟨nofun, nofun⟩
  | some a =>
    cases y with
    | none => exact ⟨nofun, nofun⟩
    | some b => rw [Option.rel_some_some, Option.rel_some_some, h a b rfl rfl]

theorem rel_symm {S : β → α → Prop} (hRS : ∀ a b, R a b → S b a) {x : Option α} {y : Option β}
    (h : Option.Rel R x y) : Option.Rel S y x := by
  cases h with
  | none => exact .none
  | some h => exact .some (hRS _ _ h)

theorem rel_trans {S : β → γ → Prop} {T : α → γ → Prop} (hRST : ∀ a b c, R a b → S b c → T a c)
    {x : Option α} {y : Option β} {z : Option γ} (h : Option.Rel R x y) (h' : Option.Rel S y z) :
    Option.Rel T x z := by
  cases h with
  | none =>
    cases h'
    exact .none
  | some h =>
    cases h' with
    | some h' => exact .some (hRST _ _ _ h h')

/-- As many entries, and each found on the other side: then nothing is left over there. -/
theorem Bindings.forall_get?_rel_iff {b : Bindings α} {c : Bindings β} (hb : Unique b)
    (hlength : b.length = c.length) :
    (∀ m ∈ b, ∃ y, get? c m.1 = some y ∧ R m.2 y) ↔
      ∀ name, Option.Rel R (get? b name) (get? c name) := by
  constructor
  · intro h name
    have hsub : names b ⊆ names c := by
      intro other hother
      obtain ⟨m, hm, rfl⟩ := List.mem_map.mp hother
      obtain ⟨y, hy, -⟩ := h m hm
      exact List.mem_map_of_mem (mem_of_get? hy)
    -- The names are pairwise distinct, so there can be no more of them on the other side.
    have hlengths : (names c).length ≤ (names b).length := by simp [names, hlength]
    have hperm : (names b).Perm (names c) :=
      (List.Nodup.subperm hb hsub).perm_of_length_le hlengths
    cases hx : get? b name with
    | some x =>
      obtain ⟨y, hy, hxy⟩ := h (name, x) (mem_of_get? hx)
      rw [hy]
      exact .some hxy
    | none =>
      rw [get?_eq_none, hperm.mem_iff, ← get?_eq_none] at hx
      rw [hx]
      exact .none
  · rintro h ⟨name, x⟩ hm
    have hname := h name
    rw [(get?_eq_some_iff hb).mpr hm] at hname
    cases hy : get? c name with
    | none =>
      rw [hy] at hname
      cases hname
    | some y =>
      rw [hy] at hname
      exact ⟨y, rfl, Option.rel_some_some.mp hname⟩

end Rel

namespace Variable

/-! ## Looks -/

/-- What can be seen of the two without a step further is the same. -/
structure LooksLike (v w : Variable) : Prop where
  kind : v.kind = w.kind
  childrenCount : v.childrenCount = w.childrenCount
  number : Option.Rel Double.SameNumber v.asNumber w.asNumber
  string : v.asString = w.asString
  boolean : v.asBool = w.asBool

/-- Every path comes to the same look in both, or to nothing in both. -/
def Indistinct (v w : Variable) : Prop :=
  ∀ path, Option.Rel LooksLike (v.walk? path) (w.walk? path)

theorem LooksLike.symm {v w : Variable} (h : v.LooksLike w) : w.LooksLike v :=
  ⟨h.kind.symm, h.childrenCount.symm, rel_symm (fun _ _ => Double.SameNumber.symm) h.number,
    h.string.symm, h.boolean.symm⟩

theorem LooksLike.trans {u v w : Variable} (h : u.LooksLike v) (h' : v.LooksLike w) :
    u.LooksLike w :=
  ⟨h.kind.trans h'.kind, h.childrenCount.trans h'.childrenCount,
    rel_trans (fun _ _ _ hx hy => hx.trans hy) h.number h'.number,
    h.string.trans h'.string, h.boolean.trans h'.boolean⟩

/-- Everything looks like itself but a NaN. -/
theorem looksLike_self_iff {v : Variable} :
    v.LooksLike v ↔ ∀ x, v = .number x → x.isNaN = false := by
  constructor
  · rintro h x rfl
    exact Double.sameNumber_self_iff.mp (Option.rel_some_some.mp h.number)
  · intro h
    refine ⟨rfl, rfl, ?_, rfl, rfl⟩
    cases v with
    | number x => exact .some (Double.sameNumber_self_iff.mpr (h x rfl))
    | string _ | boolean _ | record _ | array _ => exact .none

theorem Indistinct.symm {v w : Variable} (h : v.Indistinct w) : w.Indistinct v :=
  fun path => rel_symm (fun _ _ => LooksLike.symm) (h path)

theorem Indistinct.trans {u v w : Variable} (h : u.Indistinct v) (h' : v.Indistinct w) :
    u.Indistinct w :=
  fun path => rel_trans (fun _ _ _ hu hv => hu.trans hv) (h path) (h' path)

/-- A path is a look at once or one step and a path from there. -/
theorem indistinct_iff_step {v w : Variable} :
    v.Indistinct w ↔ v.LooksLike w ∧ ∀ s, Option.Rel Indistinct (v.step? s) (w.step? s) := by
  constructor
  · intro h
    refine ⟨Option.rel_some_some.mp (h []), fun s => ?_⟩
    have hpath : ∀ path, Option.Rel LooksLike ((v.step? s).bind (·.walk? path))
        ((w.step? s).bind (·.walk? path)) := fun path => h (s :: path)
    cases hv : v.step? s with
    | none =>
      cases hw : w.step? s with
      | none => exact .none
      | some w' =>
        have hend := hpath []
        rw [hv, hw] at hend
        cases hend
    | some v' =>
      cases hw : w.step? s with
      | none =>
        have hend := hpath []
        rw [hv, hw] at hend
        cases hend
      | some w' =>
        rw [hv, hw] at hpath
        exact .some hpath
  · rintro ⟨hlooks, hstep⟩ path
    cases path with
    | nil => exact .some hlooks
    | cons s path =>
      show Option.Rel LooksLike ((v.step? s).bind (·.walk? path)) ((w.step? s).bind (·.walk? path))
      have hs := hstep s
      generalize v.step? s = v', w.step? s = w' at hs ⊢
      cases hs with
      | none => exact .none
      | some h => exact h path

/-! ## Equality, one step -/

/-- Equality of variables as a relation. -/
def Equal (v w : Variable) : Prop :=
  v.equal w = true

theorem childrenEqual_iff {others children : List (String × Variable)} :
    childrenEqual children others = true ↔
      ∀ m ∈ children, ∃ w, Bindings.get? others m.1 = some w ∧ Equal m.2 w := by
  induction children with
  | nil =>
    rw [childrenEqual]
    exact iff_of_true rfl (List.forall_mem_nil _)
  | cons m rest ih =>
    obtain ⟨name, v⟩ := m
    rw [childrenEqual, Bool.and_eq_true, ih, List.forall_mem_cons]
    refine and_congr_left fun _ => ?_
    cases Bindings.get? others name with
    | none => simp
    | some w => simp [Equal]

theorem elementsEqual_iff : ∀ {e f : List Variable}, elementsEqual e f = true ↔
    e.length = f.length ∧ ∀ i : Nat, Option.Rel Equal e[i]? f[i]?
  | [], [] => by
    rw [elementsEqual]
    exact iff_of_true rfl ⟨rfl, fun _ => .none⟩
  | [], _ :: _ => by simp [elementsEqual]
  | _ :: _, [] => by simp [elementsEqual]
  | v :: vs, w :: ws => by
    rw [elementsEqual, Bool.and_eq_true, elementsEqual_iff]
    constructor
    · rintro ⟨hv, hlength, hrest⟩
      refine ⟨congrArg (· + 1) hlength, fun i => ?_⟩
      cases i with
      | zero => exact .some hv
      | succ i => exact hrest i
    · rintro ⟨hlength, h⟩
      have hhead : Option.Rel Equal (some v) (some w) := h 0
      have hv : Equal v w := Option.rel_some_some.mp hhead
      exact ⟨hv, Nat.succ.inj hlength, fun i => h (i + 1)⟩

theorem equal_record_iff {c d : List (String × Variable)} :
    Equal (.record c) (.record d) ↔
      c.length = d.length ∧ ∀ m ∈ c, ∃ w, Bindings.get? d m.1 = some w ∧ Equal m.2 w := by
  rw [Equal, equal, Bool.and_eq_true, beq_iff_eq, childrenEqual_iff]

theorem equal_array_iff {e f : List Variable} :
    Equal (.array e) (.array f) ↔
      e.length = f.length ∧ ∀ i : Nat, Option.Rel Equal e[i]? f[i]? := by
  rw [Equal, equal, elementsEqual_iff]

theorem equal_record_iff_step {c d : List (String × Variable)} (hc : Bindings.Unique c) :
    Equal (.record c) (.record d) ↔ LooksLike (.record c) (.record d)
      ∧ ∀ s, Option.Rel Equal (step? (.record c) s) (step? (.record d) s) := by
  rw [equal_record_iff]
  constructor
  · rintro ⟨hlength, h⟩
    refine ⟨⟨rfl, hlength, .none, rfl, rfl⟩, fun s => ?_⟩
    cases s with
    | child name => exact (Bindings.forall_get?_rel_iff hc hlength).mp h name
    | element i => exact .none
  · rintro ⟨hlooks, h⟩
    have hlength : c.length = d.length := hlooks.childrenCount
    exact ⟨hlength, (Bindings.forall_get?_rel_iff hc hlength).mpr fun name => h (.child name)⟩

theorem equal_array_iff_step {e f : List Variable} :
    Equal (.array e) (.array f) ↔ LooksLike (.array e) (.array f)
      ∧ ∀ s, Option.Rel Equal (step? (.array e) s) (step? (.array f) s) := by
  rw [equal_array_iff]
  constructor
  · rintro ⟨hlength, h⟩
    refine ⟨⟨rfl, hlength, .none, rfl, rfl⟩, fun s => ?_⟩
    cases s with
    | child name => exact .none
    | element i => exact h i
  · rintro ⟨hlooks, h⟩
    exact ⟨hlooks.childrenCount, fun i => h (.element i)⟩

theorem not_equal_of_kind {v w : Variable} (h : v.kind ≠ w.kind) : ¬ v.Equal w := by
  cases v <;> cases w <;> first | exact absurd rfl h | simp [Equal, equal]

/-- **Equality is a look, and equality of what lies one step further.** -/
theorem equal_iff_step {v w : Variable} (hv : v.NamesUnique) :
    v.Equal w ↔ v.LooksLike w ∧ ∀ s, Option.Rel Equal (v.step? s) (w.step? s) := by
  by_cases hkind : v.kind = w.kind
  case neg => exact iff_of_false (not_equal_of_kind hkind) fun h => hkind h.1.kind
  cases v with
  | number x =>
    cases w with
    | number y =>
      have hequal : Equal (.number x) (.number y) ↔ x.SameNumber y := by
        rw [Equal, equal, Double.equal_iff]
      rw [hequal]
      constructor
      · exact fun h => ⟨⟨rfl, rfl, .some h, rfl, rfl⟩, fun s => by cases s <;> exact .none⟩
      · exact fun h => Option.rel_some_some.mp h.1.number
    | string _ | boolean _ | record _ | array _ => cases hkind
  | string s =>
    cases w with
    | string t =>
      have hequal : Equal (.string s) (.string t) ↔ s = t := by rw [Equal, equal, beq_iff_eq]
      rw [hequal]
      constructor
      · rintro rfl
        exact ⟨⟨rfl, rfl, .none, rfl, rfl⟩, fun s => by cases s <;> exact .none⟩
      · exact fun h => Option.some.inj h.1.string
    | number _ | boolean _ | record _ | array _ => cases hkind
  | boolean a =>
    cases w with
    | boolean b =>
      have hequal : Equal (.boolean a) (.boolean b) ↔ a = b := by rw [Equal, equal, beq_iff_eq]
      rw [hequal]
      constructor
      · rintro rfl
        exact ⟨⟨rfl, rfl, .none, rfl, rfl⟩, fun s => by cases s <;> exact .none⟩
      · exact fun h => Option.some.inj h.1.boolean
    | number _ | string _ | record _ | array _ => cases hkind
  | record c =>
    cases w with
    | record d =>
      rw [NamesUnique] at hv
      exact equal_record_iff_step hv.1
    | number _ | string _ | boolean _ | array _ => cases hkind
  | array e =>
    cases w with
    | array f => exact equal_array_iff_step
    | number _ | string _ | boolean _ | record _ => cases hkind

/-! ## Equality along paths -/

/-- A step leads to a child of a record or to an element of an array. -/
theorem step_cases {v u : Variable} {s : Step} (h : v.step? s = some u) :
    (∃ children m, v = .record children ∧ m ∈ children ∧ m.2 = u)
    ∨ ∃ elements, v = .array elements ∧ u ∈ elements := by
  cases s with
  | child name =>
    cases v with
    | record children => exact Or.inl ⟨children, _, rfl, Bindings.mem_of_get? h, rfl⟩
    | number _ | string _ | boolean _ | array _ => cases h
  | element i =>
    cases v with
    | array elements => exact Or.inr ⟨elements, rfl, List.mem_of_getElem? h⟩
    | number _ | string _ | boolean _ | record _ => cases h

theorem inside_of_step {v u w : Variable} {s : Step} (h : v.step? s = some u) (hw : Inside w u) :
    Inside w v := by
  rcases step_cases h with ⟨children, m, rfl, hm, rfl⟩ | ⟨elements, rfl, hu⟩
  · exact .child hm hw
  · exact .element hu hw

theorem NamesUnique.step {v u : Variable} (hv : v.NamesUnique) {s : Step}
    (h : v.step? s = some u) : u.NamesUnique :=
  hv.inside (inside_of_step h .self)

/-- What holds of a variable when it holds of everything one step further holds of all. -/
theorem inductionOnSteps {P : Variable → Prop}
    (h : ∀ v, (∀ s u, v.step? s = some u → P u) → P v) (v : Variable) : P v := by
  induction v using Variable.induction with
  | number _ | string _ | boolean _ =>
    refine h _ fun s u hu => ?_
    rcases step_cases hu with ⟨_, _, hv, -⟩ | ⟨_, hv, -⟩ <;> cases hv
  | record children ih =>
    refine h _ fun s u hu => ?_
    rcases step_cases hu with ⟨_, m, hv, hm, rfl⟩ | ⟨_, hv, -⟩
    · cases hv
      exact ih m hm
    · cases hv
  | array elements ih =>
    refine h _ fun s u hu => ?_
    rcases step_cases hu with ⟨_, _, hv, -⟩ | ⟨_, hv, hu⟩
    · cases hv
    · cases hv
      exact ih u hu

/-- **Two variables are equal exactly if no path tells them apart.** The names of one of them have
to be unique; if the other one has a name twice, some path tells. -/
theorem equal_iff_indistinct {v w : Variable} (hv : v.NamesUnique) :
    v.Equal w ↔ v.Indistinct w := by
  induction v using inductionOnSteps generalizing w with
  | h v ih =>
    rw [equal_iff_step hv, indistinct_iff_step]
    refine and_congr_right fun _ => forall_congr' fun s => rel_congr fun u _ hu _ => ?_
    exact ih s u hu (hv.step hu)

theorem equal_comm {v w : Variable} (hv : v.NamesUnique) (hw : w.NamesUnique) :
    v.equal w = w.equal v := by
  have hiff : v.Equal w ↔ w.Equal v := by
    rw [equal_iff_indistinct hv, equal_iff_indistinct hw]
    exact ⟨Indistinct.symm, Indistinct.symm⟩
  exact Bool.eq_iff_iff.mpr hiff

theorem Equal.trans {u v w : Variable} (hu : u.NamesUnique) (hv : v.NamesUnique)
    (h : u.Equal v) (h' : v.Equal w) : u.Equal w := by
  rw [equal_iff_indistinct hu] at h ⊢
  rw [equal_iff_indistinct hv] at h'
  exact h.trans h'

/-! ## Equality with oneself -/

/-- What stands in a variable is what a path through it comes to. -/
theorem inside_iff_walk {v w : Variable} (hv : v.NamesUnique) :
    Inside w v ↔ ∃ path, v.walk? path = some w := by
  constructor
  · intro h
    induction h with
    | self => exact ⟨[], rfl⟩
    | @child children m hm h ih =>
      rw [NamesUnique] at hv
      obtain ⟨path, hpath⟩ := ih (childrenNamesUnique_iff.mp hv.2 m hm)
      refine ⟨.child m.1 :: path, ?_⟩
      show (Bindings.get? children m.1).bind (·.walk? path) = some w
      rw [(Bindings.get?_eq_some_iff hv.1).mpr hm]
      exact hpath
    | @element elements v hmem h ih =>
      rw [NamesUnique] at hv
      obtain ⟨path, hpath⟩ := ih (elementsNamesUnique_iff.mp hv v hmem)
      obtain ⟨i, hi⟩ := List.mem_iff_getElem?.mp hmem
      refine ⟨.element i :: path, ?_⟩
      show (elements[i]?).bind (·.walk? path) = some w
      rw [hi]
      exact hpath
  · rintro ⟨path, h⟩
    induction path generalizing v with
    | nil =>
      cases h
      exact .self
    | cons s path ih =>
      obtain ⟨u, hu, hpath⟩ := Option.bind_eq_some_iff.mp h
      exact inside_of_step hu (ih (hv.step hu) hpath)

/-- **A variable equals itself exactly if no NaN stands in it.** -/
theorem equal_self_iff {v : Variable} (hv : v.NamesUnique) :
    v.Equal v ↔ ∀ x, Inside (.number x) v → x.isNaN = false := by
  have hself : ∀ u : Option Variable,
      Option.Rel LooksLike u u ↔ ∀ x, u = some (.number x) → x.isNaN = false := by
    intro u
    cases u with
    | none => exact iff_of_true .none nofun
    | some u =>
      rw [Option.rel_some_some, looksLike_self_iff]
      simp only [Option.some.injEq]
  rw [equal_iff_indistinct hv]
  constructor
  · intro h x hx
    obtain ⟨path, hpath⟩ := (inside_iff_walk hv).mp hx
    exact (hself _).mp (h path) x hpath
  · intro h path
    exact (hself _).mpr fun x hx => h x ((inside_iff_walk hv).mpr ⟨path, hx⟩)

/-! ## Order -/

/-- The same but for the order in which the children of records stand, at any depth. -/
inductive Reordered : Variable → Variable → Prop where
  | refl (v : Variable) : Reordered v v
  | trans {u v w : Variable} (h : Reordered u v) (h' : Reordered v w) : Reordered u w
  | children {c d : List (String × Variable)} (h : c.Perm d) : Reordered (.record c) (.record d)
  | inChild {before after : List (String × Variable)} {name : String} {v w : Variable}
      (h : Reordered v w) :
      Reordered (.record (before ++ (name, v) :: after)) (.record (before ++ (name, w) :: after))
  | inElement {before after : List Variable} {v w : Variable} (h : Reordered v w) :
      Reordered (.array (before ++ v :: after)) (.array (before ++ w :: after))

theorem Reordered.namesUnique {v w : Variable} (h : Reordered v w) (hv : v.NamesUnique) :
    w.NamesUnique := by
  induction h with
  | refl v => exact hv
  | trans _ _ ih ih' => exact ih' (ih hv)
  | children h =>
    rw [NamesUnique, childrenNamesUnique_iff] at hv ⊢
    exact ⟨(h.map Prod.fst).nodup_iff.mp hv.1, fun m hm => hv.2 m (h.mem_iff.mpr hm)⟩
  | inChild _ ih =>
    rw [NamesUnique, childrenNamesUnique_iff, List.forall_mem_append, List.forall_mem_cons] at hv ⊢
    obtain ⟨hunique, hbefore, hchild, hafter⟩ := hv
    refine ⟨?_, hbefore, ih hchild, hafter⟩
    simpa [Bindings.Unique, Bindings.names] using hunique
  | inElement _ ih =>
    rw [NamesUnique, elementsNamesUnique_iff, List.forall_mem_append, List.forall_mem_cons] at hv ⊢
    obtain ⟨hbefore, helement, hafter⟩ := hv
    exact ⟨hbefore, ih helement, hafter⟩

theorem equal_record_congr {c d : List (String × Variable)}
    (h : ∀ e, Equal (.record c) (.record e) ↔ Equal (.record d) (.record e)) (u : Variable) :
    Equal (.record c) u ↔ Equal (.record d) u := by
  cases u with
  | record e => exact h e
  | number _ | string _ | boolean _ | array _ =>
    exact iff_of_false (not_equal_of_kind nofun) (not_equal_of_kind nofun)

theorem equal_array_congr {e f : List Variable}
    (h : ∀ g, Equal (.array e) (.array g) ↔ Equal (.array f) (.array g)) (u : Variable) :
    Equal (.array e) u ↔ Equal (.array f) u := by
  cases u with
  | array g => exact h g
  | number _ | string _ | boolean _ | record _ =>
    exact iff_of_false (not_equal_of_kind nofun) (not_equal_of_kind nofun)

/-- Equality asks the variable on its left for its children one by one, and so their order does not
matter. Nothing is needed of the names here. -/
theorem Reordered.equal_iff {v w : Variable} (h : Reordered v w) :
    ∀ u, v.Equal u ↔ w.Equal u := by
  induction h with
  | refl v => exact fun _ => Iff.rfl
  | trans _ _ ih ih' => exact fun u => (ih u).trans (ih' u)
  | children h =>
    refine equal_record_congr fun e => ?_
    rw [equal_record_iff, equal_record_iff, h.length_eq]
    simp only [h.mem_iff]
  | inChild _ ih =>
    refine equal_record_congr fun e => ?_
    rw [equal_record_iff, equal_record_iff, List.forall_mem_append, List.forall_mem_append,
      List.forall_mem_cons, List.forall_mem_cons, List.length_append, List.length_append]
    simp only [ih, List.length_cons]
  | @inElement before after v w _ ih =>
    refine equal_array_congr fun g => ?_
    rw [equal_array_iff, equal_array_iff, List.length_append, List.length_append]
    refine and_congr Iff.rfl (forall_congr' fun i => ?_)
    -- The two lists differ in one place.
    rcases Nat.lt_trichotomy i before.length with hi | rfl | hi
    · rw [List.getElem?_append_left hi, List.getElem?_append_left hi]
    · rw [List.getElem?_append_right (Nat.le_refl _), List.getElem?_append_right (Nat.le_refl _),
        Nat.sub_self, List.getElem?_cons_zero, List.getElem?_cons_zero]
      cases g[before.length]? with
      | none => exact ⟨nofun, nofun⟩
      | some u => exact Option.rel_some_some.trans ((ih u).trans Option.rel_some_some.symm)
    · obtain ⟨k, hk⟩ := Nat.exists_eq_add_of_lt hi
      have hright : i - before.length = k + 1 := by omega
      rw [List.getElem?_append_right (Nat.le_of_lt hi),
        List.getElem?_append_right (Nat.le_of_lt hi), hright, List.getElem?_cons_succ,
        List.getElem?_cons_succ]

/-- Two variables that are the same but for the order of children are equal to the same. -/
theorem Reordered.equal_eq {v w : Variable} (h : Reordered v w) (hv : v.NamesUnique) {u : Variable}
    (hu : u.NamesUnique) : v.equal u = w.equal u ∧ u.equal v = u.equal w := by
  have hleft : v.equal u = w.equal u := Bool.eq_iff_iff.mpr (h.equal_iff u)
  refine ⟨hleft, ?_⟩
  rw [equal_comm hu hv, equal_comm hu (h.namesUnique hv), hleft]

/-- Elements are compared place by place, and so two that are not equal cannot change places. -/
theorem not_equal_swapped {v w : Variable} (h : ¬ v.Equal w)
    (before between after : List Variable) :
    ¬ Equal (.array (before ++ v :: between ++ w :: after))
      (.array (before ++ w :: between ++ v :: after)) := by
  intro hequal
  have hplace := (equal_array_iff.mp hequal).2 before.length
  rw [List.append_assoc, List.append_assoc, List.getElem?_append_right (Nat.le_refl _),
    List.getElem?_append_right (Nat.le_refl _), Nat.sub_self] at hplace
  exact h (Option.rel_some_some.mp hplace)

/-- **Equality is exactly observational equality along paths.** So it is symmetric and transitive,
it does not see the order of children at any depth but sees the order of elements, and a copy is
equal to what it was made of exactly if no NaN stands in it. Names are unique in every variable that
is made or read (`Proofs/Names`). -/
theorem equal_iff_no_path_tells :
    (∀ v w : Variable, v.NamesUnique →
      (v.equal w = true ↔ ∀ path, Option.Rel LooksLike (v.walk? path) (w.walk? path)))
    ∧ (∀ v w : Variable, v.NamesUnique → w.NamesUnique → v.equal w = w.equal v)
    ∧ (∀ u v w : Variable, u.NamesUnique → v.NamesUnique →
        u.equal v = true → v.equal w = true → u.equal w = true)
    ∧ (∀ v w : Variable, Reordered v w → v.NamesUnique → ∀ u : Variable, u.NamesUnique →
        v.equal u = w.equal u ∧ u.equal v = u.equal w)
    ∧ (∀ v w : Variable, v.equal w = false → ∀ before between after : List Variable,
        (Variable.array (before ++ v :: between ++ w :: after)).equal
          (.array (before ++ w :: between ++ v :: after)) = false)
    ∧ ∀ h : Handle, h.shown.NamesUnique →
        (h.shown.equal h.copy.shown = true ↔
          ∀ x, Inside (.number x) h.shown → x.isNaN = false) := by
  refine ⟨fun v w => equal_iff_indistinct, fun v w => equal_comm, fun u v w => Equal.trans,
    fun v w h hv u => h.equal_eq hv, fun v w h before between after => ?_, fun h => equal_self_iff⟩
  rw [Bool.eq_false_iff] at h ⊢
  exact not_equal_swapped h before between after

/-- A record in a record, with an array. -/
def spawnPoint : Variable :=
  .record [("at", .record [("x", .number .zero), ("y", .string "top")]),
    ("path", .array [.boolean true, .string "door"])]

/-- The children stand the other way round, in both records, and the zero is the negative one. -/
def turnedPoint : Variable :=
  .record [("path", .array [.boolean true, .string "door"]),
    ("at", .record [("y", .string "top"), ("x", .number (.ofRank true 0))])]

/-- No path tells the two apart. The elements of the array may not change places, and the first one
equals its own copy, for there is no NaN in it. -/
theorem spawnPoint_equals_turnedPoint :
    spawnPoint.NamesUnique ∧ turnedPoint.NamesUnique
    ∧ (∀ path, Option.Rel LooksLike (spawnPoint.walk? path) (turnedPoint.walk? path))
    ∧ turnedPoint.equal spawnPoint = true ∧ turnedPoint.equal turnedPoint = true
    ∧ (Variable.array [.boolean true, .string "door"]).equal
        (.array [.string "door", .boolean true]) = false
    ∧ ∀ x, Inside (.number x) spawnPoint → x.isNaN = false := by
  obtain ⟨hpaths, hcomm, htrans, -, hswapped, hself⟩ := equal_iff_no_path_tells
  have hv : spawnPoint.NamesUnique := by
    simp [spawnPoint, NamesUnique, childrenNamesUnique, elementsNamesUnique, Bindings.Unique]
  have hw : turnedPoint.NamesUnique := by
    simp [turnedPoint, NamesUnique, childrenNamesUnique, elementsNamesUnique, Bindings.Unique]
  have hequal : spawnPoint.equal turnedPoint = true := by decide +kernel
  have hback : turnedPoint.equal spawnPoint = true := (hcomm _ _ hw hv).trans hequal
  refine ⟨hv, hw, (hpaths _ _ hv).mp hequal, hback, htrans _ _ _ hw hv hback hequal, ?_, ?_⟩
  · exact hswapped (.boolean true) (.string "door") (by decide) [] [] []
  · exact (hself (.stored spawnPoint) hv).mp (by decide +kernel)

end Variable

end ScopedVars
