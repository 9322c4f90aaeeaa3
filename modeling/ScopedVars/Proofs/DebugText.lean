import ScopedVars.Project
import ScopedVars.Proofs.Double.Text
import ScopedVars.Proofs.Names
import ScopedVars.Proofs.Text.Separable
import ScopedVars.Variable.Debug

/-!
# `Proofs/DebugText` — what debugging texts show

A debugging text is said to show all there is. The one thing it does not show is which NaN a NaN is;
so what it shows is the variable with one NaN for all (`Variable.withOneNaN`), and the main
statement is that it shows just that:

> `v.debug = w.debug ↔ v.withOneNaN = w.withOneNaN`,

for variables and for containers, layouts and projects (`debug_unambiguous`).

The texts nest, so equality of texts is no invariant to prove: two lists of children may have one
text without their first children having one. What goes down to the children is that each piece can
be told from what follows it (`Text.Separable`), whatever that is, and one lemma says so for each
kind of piece. In the end nothing follows.
-/

set_option autoImplicit false

namespace ScopedVars

/-! ## One NaN for all -/

/-- The number, or the one NaN if it is a NaN. -/
def Double.withOneNaN (x : Double) : Double :=
  if x.isNaN then .ofBits 0x7ff8000000000000 else x

namespace Variable

mutual

/-- The variable with one NaN for all NaNs in it. -/
def withOneNaN : Variable → Variable
  | number x => number x.withOneNaN
  | string s => string s
  | boolean b => boolean b
  | record children => record (childrenWithOneNaN children)
  | array elements => array (elementsWithOneNaN elements)

def childrenWithOneNaN : List (String × Variable) → List (String × Variable)
  | [] => []
  | (name, v) :: rest => (name, v.withOneNaN) :: childrenWithOneNaN rest

def elementsWithOneNaN : List Variable → List Variable
  | [] => []
  | v :: rest => v.withOneNaN :: elementsWithOneNaN rest

end

theorem childrenWithOneNaN_eq (children : List (String × Variable)) :
    childrenWithOneNaN children = children.map fun m => (m.1, m.2.withOneNaN) := by
  induction children with
  | nil => rw [childrenWithOneNaN, List.map_nil]
  | cons m rest ih => rw [childrenWithOneNaN, ih, List.map_cons]

theorem elementsWithOneNaN_eq (elements : List Variable) :
    elementsWithOneNaN elements = elements.map withOneNaN := by
  induction elements with
  | nil => rw [elementsWithOneNaN, List.map_nil]
  | cons v rest ih => rw [elementsWithOneNaN, ih, List.map_cons]

end Variable

def Container.withOneNaN (c : Container) : Container :=
  ⟨Variable.childrenWithOneNaN c.entries⟩

def Layout.withOneNaN (l : Layout) : Layout :=
  ⟨l.name, l.locals.withOneNaN⟩

def Project.withOneNaN (p : Project) : Project :=
  ⟨p.name, p.globals.withOneNaN, p.layouts.map Layout.withOneNaN⟩

/-! ## Numbers -/

namespace Double

open Json (InNumber signChars)

/-- What is neither finite nor a NaN has only its sign to tell. -/
theorem eq_of_infinite {x y : Double} (hx : x.isFinite = false) (hxnan : x.isNaN = false)
    (hy : y.isFinite = false) (hynan : y.isNaN = false) (h : x.negative = y.negative) : x = y := by
  have hfields : ∀ {z : Double}, z.isFinite = false → z.isNaN = false →
      z.exponent.val = 2047 ∧ z.fraction.val = 0 := by
    intro z hfinite hnan
    simp only [isFinite, bne_eq_false_iff_eq] at hfinite
    simp only [isNaN, hfinite, beq_self_eq_true, Bool.true_and, bne_eq_false_iff_eq] at hnan
    exact ⟨hfinite, hnan⟩
  obtain ⟨hxe, hxf⟩ := hfields hx hxnan
  obtain ⟨hye, hyf⟩ := hfields hy hynan
  cases x
  cases y
  simp only [mk.injEq]
  exact ⟨h, Fin.ext (hxe.trans hye.symm), Fin.ext (hxf.trans hyf.symm)⟩

/-- The three kinds of texts. -/
theorem text_cases (style : NumberStyle) (x : Double) :
    (x.isNaN = true ∧ x.text style = ['N', 'a', 'N'])
      ∨ (x.isFinite = false ∧ x.isNaN = false
        ∧ x.text style = signChars x.negative ++ ['i', 'n', 'f'])
      ∨ (x.isFinite = true ∧ InNumber (x.text style)) := by
  cases hnan : x.isNaN with
  | true =>
    refine .inl ⟨rfl, ?_⟩
    unfold text
    rw [hnan, if_pos rfl]
  | false =>
    cases hx : x.isFinite with
    | true => exact .inr (.inr ⟨rfl, (numberText_text hx style).inNumber⟩)
    | false =>
      refine .inr (.inl ⟨rfl, rfl, ?_⟩)
      unfold text
      rw [hnan, hx, if_neg Bool.false_ne_true, if_neg Bool.false_ne_true]
      rfl

theorem withOneNaN_of_not_isNaN {x : Double} (h : x.isNaN = false) : x.withOneNaN = x := by
  unfold withOneNaN
  rw [h, if_neg Bool.false_ne_true]

/-- **The text of a number shows every bit of it**, unless it is a NaN. -/
theorem withOneNaN_eq_of_text_eq {style : NumberStyle} {x y : Double}
    (h : x.text style = y.text style) : x.withOneNaN = y.withOneNaN := by
  have hn : ∀ {cs : List Char}, 'n' ∈ cs → ¬ InNumber cs := fun hmem hin =>
    absurd (hin _ hmem) (by decide)
  have hN : ∀ {cs : List Char}, 'N' ∈ cs → ¬ InNumber cs := fun hmem hin =>
    absurd (hin _ hmem) (by decide)
  rcases text_cases style x with ⟨hx, htext⟩ | ⟨hx, hxnan, htext⟩ | ⟨hx, htext⟩ <;>
    rcases text_cases style y with ⟨hy, htext'⟩ | ⟨hy, hynan, htext'⟩ | ⟨hy, htext'⟩
  · unfold withOneNaN
    rw [hx, hy, if_pos rfl, if_pos rfl]
  · rw [htext, htext'] at h
    cases hsign : y.negative <;> simp [hsign, signChars] at h
  · exact absurd (h ▸ htext') (hN (by simp [htext]))
  · rw [htext, htext'] at h
    cases hsign : x.negative <;> simp [hsign, signChars] at h
  · rw [htext, htext'] at h
    have hsigns := List.append_cancel_right h
    have hsign : x.negative = y.negative := by
      cases hxs : x.negative <;> cases hys : y.negative <;>
        simp [hxs, hys, signChars] at hsigns ⊢
    rw [eq_of_infinite hx hxnan hy hynan hsign]
  · exact absurd (h ▸ htext') (hn (by simp [htext]))
  · exact absurd (h ▸ htext) (hN (by simp [htext']))
  · exact absurd (h ▸ htext) (hn (by simp [htext']))
  · rw [text_injective hx hy h]

theorem text_withOneNaN (style : NumberStyle) (x : Double) :
    x.withOneNaN.text style = x.text style := by
  cases hnan : x.isNaN with
  | true =>
    unfold withOneNaN text
    rw [hnan, if_pos rfl, if_pos rfl]
    rfl
  | false => rw [withOneNaN_of_not_isNaN hnan]

theorem bracket_notMem_text (style : NumberStyle) (x : Double) : ')' ∉ x.text style := by
  intro hmem
  rcases text_cases style x with ⟨-, htext⟩ | ⟨-, -, htext⟩ | ⟨-, htext⟩
  · rw [htext] at hmem
    revert hmem
    decide
  · rw [htext] at hmem
    revert hmem
    cases x.negative <;> decide
  · exact absurd (htext _ hmem) (by decide)

end Double

/-! ## Variables -/

namespace Variable

open Text (Separable quoted spaced)

theorem debugChars_number (x : Double) :
    (number x).debugChars = "Number(".toList ++ x.text debugStyle ++ ")".toList := rfl

theorem debugChars_string (s : String) :
    (string s).debugChars = "String(".toList ++ quoted s ++ ")".toList := rfl

theorem debugChars_boolean (b : Bool) :
    (boolean b).debugChars = "Boolean(".toList ++ Text.bool b ++ ")".toList := rfl

theorem debugChars_record (children : List (String × Variable)) : (record children).debugChars
    = "Structure(\x7b".toList ++ spaced (debugChildren children) ++ "\x7d)".toList := rfl

theorem debugChars_array (elements : List Variable) : (array elements).debugChars
    = "Array([".toList ++ spaced (debugElements elements) ++ "])".toList := rfl

/-- A child as it is shown. -/
def childChars (m : String × Variable) : List Char :=
  quoted m.1 ++ ": ".toList ++ m.2.debugChars

theorem debugChildren_eq (children : List (String × Variable)) :
    debugChildren children = children.map childChars := by
  induction children with
  | nil => rw [debugChildren, List.map_nil]
  | cons m rest ih => rw [debugChildren, ih, List.map_cons, childChars]

theorem debugElements_eq (elements : List Variable) :
    debugElements elements = elements.map debugChars := by
  induction elements with
  | nil => rw [debugElements, List.map_nil]
  | cons v rest ih => rw [debugElements, ih, List.map_cons]

theorem head?_debugChars (v : Variable) : ∃ c, v.debugChars.head? = some c ∧ c ≠ ']' := by
  cases v <;> simp only [debugChars_number, debugChars_string, debugChars_boolean,
    debugChars_record, debugChars_array] <;> simp

theorem head?_childChars (m : String × Variable) :
    ∃ c, (childChars m).head? = some c ∧ c ≠ '\x7d' :=
  ⟨'"', rfl, by decide⟩

theorem separable_childChars {m : String × Variable}
    (h : Separable debugChars withOneNaN m.2) :
    Separable childChars (fun m => (m.1, m.2.withOneNaN)) m := by
  intro n r r' heq
  unfold childChars at heq
  simp only [List.append_assoc] at heq
  obtain ⟨hname, hrest⟩ := Text.separable_quoted m.1 n.1 _ _ heq
  obtain ⟨hform, hr⟩ := h n.2 _ _ (List.append_cancel_left hrest)
  exact ⟨Prod.ext hname hform, hr⟩

/-- Children in a row, up to the brace that closes them. -/
theorem separable_children {children : List (String × Variable)}
    (h : ∀ m ∈ children, Separable debugChars withOneNaN m.2) :
    Separable (fun c => spaced (debugChildren c) ++ ['\x7d']) childrenWithOneNaN children := by
  rw [funext childrenWithOneNaN_eq, funext debugChildren_eq]
  exact Text.separable_spaced (by decide) head?_childChars fun m hm =>
    separable_childChars (h m hm)

theorem separable_elements {elements : List Variable}
    (h : ∀ v ∈ elements, Separable debugChars withOneNaN v) :
    Separable (fun e => spaced (debugElements e) ++ [']']) elementsWithOneNaN elements := by
  rw [funext elementsWithOneNaN_eq, funext debugElements_eq]
  exact Text.separable_spaced (by decide) head?_debugChars h

theorem debugChildren_withOneNaN {children : List (String × Variable)}
    (h : ∀ m ∈ children, m.2.withOneNaN.debugChars = m.2.debugChars) :
    debugChildren (childrenWithOneNaN children) = debugChildren children := by
  rw [debugChildren_eq, debugChildren_eq, childrenWithOneNaN_eq, List.map_map]
  refine List.map_congr_left fun m hm => ?_
  show quoted m.1 ++ ": ".toList ++ m.2.withOneNaN.debugChars = childChars m
  rw [h m hm]
  rfl

/-- The word in front tells the kind. -/
theorem kind_eq_of_append_eq {v w : Variable} {r r' : List Char}
    (h : v.debugChars ++ r = w.debugChars ++ r') : v.kind = w.kind := by
  cases v <;> cases w <;> first
    | rfl
    | simp only [debugChars_number, debugChars_string, debugChars_boolean, debugChars_record,
        debugChars_array] at h
      simp at h

/-- **The text of a variable says where it ends**, and shows all of it but which NaNs its NaNs are.
-/
theorem separable_debugChars (v : Variable) : Separable debugChars withOneNaN v := by
  induction v using Variable.induction with
  | number x =>
    intro w r r' h
    cases w with
    | number y =>
      simp only [debugChars_number, List.append_assoc, List.append_cancel_left_eq] at h
      obtain ⟨htext, hr⟩ := Text.cut_of_notMem (Double.bracket_notMem_text _ x)
        (Double.bracket_notMem_text _ y) h
      exact ⟨by rw [withOneNaN, withOneNaN, Double.withOneNaN_eq_of_text_eq htext], hr⟩
    | _ => cases kind_eq_of_append_eq h
  | string s =>
    intro w r r' h
    cases w with
    | string t =>
      simp only [debugChars_string, List.append_assoc, List.append_cancel_left_eq] at h
      obtain ⟨hst, hrest⟩ := Text.separable_quoted s t _ _ h
      exact ⟨by rw [show s = t from hst], List.append_cancel_left hrest⟩
    | _ => cases kind_eq_of_append_eq h
  | boolean b =>
    intro w r r' h
    cases w with
    | boolean c =>
      simp only [debugChars_boolean, List.append_assoc, List.append_cancel_left_eq] at h
      cases b <;> cases c <;> simp [Text.bool] at h ⊢ <;> exact h
    | _ => cases kind_eq_of_append_eq h
  | record children ih =>
    intro w r r' h
    cases w with
    | record others =>
      simp only [debugChars_record, List.append_assoc, List.append_cancel_left_eq] at h
      obtain ⟨hform, hrest⟩ := separable_children ih others (')' :: r) (')' :: r') (by
        simpa using h)
      exact ⟨by rw [withOneNaN, withOneNaN, hform], (List.cons.inj hrest).2⟩
    | _ => cases kind_eq_of_append_eq h
  | array elements ih =>
    intro w r r' h
    cases w with
    | array others =>
      simp only [debugChars_array, List.append_assoc, List.append_cancel_left_eq] at h
      obtain ⟨hform, hrest⟩ := separable_elements ih others (')' :: r) (')' :: r') (by
        simpa using h)
      exact ⟨by rw [withOneNaN, withOneNaN, hform], (List.cons.inj hrest).2⟩
    | _ => cases kind_eq_of_append_eq h

/-- Which NaNs there are is not shown. -/
theorem debugChars_withOneNaN (v : Variable) : v.withOneNaN.debugChars = v.debugChars := by
  induction v using Variable.induction with
  | number x =>
    rw [withOneNaN, debugChars_number, debugChars_number, Double.text_withOneNaN]
  | string s => rw [withOneNaN]
  | boolean b => rw [withOneNaN]
  | record children ih =>
    rw [withOneNaN, debugChars_record, debugChars_record, debugChildren_withOneNaN ih]
  | array elements ih =>
    have helements : debugElements (elementsWithOneNaN elements) = debugElements elements := by
      rw [debugElements_eq, debugElements_eq, elementsWithOneNaN_eq, List.map_map]
      exact List.map_congr_left ih
    rw [withOneNaN, debugChars_array, debugChars_array, helements]

end Variable

/-! ## Containers, layouts and projects -/

open Text (Separable quoted spaced)

theorem Container.separable_debugChars (c : Container) :
    Separable Container.debugChars Container.withOneNaN c := by
  intro d r r' h
  unfold Container.debugChars at h
  simp only [List.append_assoc, List.append_cancel_left_eq] at h
  obtain ⟨hform, hrest⟩ := Variable.separable_children
    (fun m _ => Variable.separable_debugChars m.2) d.entries (" \x7d".toList ++ r)
    (" \x7d".toList ++ r') (by simpa using h)
  exact ⟨congrArg Container.mk hform, List.append_cancel_left hrest⟩

theorem Layout.separable_debugChars (l : Layout) :
    Separable Layout.debugChars Layout.withOneNaN l := by
  intro k r r' h
  unfold Layout.debugChars at h
  simp only [List.append_assoc, List.append_cancel_left_eq] at h
  obtain ⟨hname, hrest⟩ := Text.separable_quoted l.name k.name _ _ h
  obtain ⟨hform, hend⟩ := l.locals.separable_debugChars k.locals _ _
    (List.append_cancel_left hrest)
  exact ⟨congrArg₂ Layout.mk hname hform, List.append_cancel_left hend⟩

theorem Layout.head?_debugChars (l : Layout) : ∃ c, l.debugChars.head? = some c ∧ c ≠ ']' := by
  unfold Layout.debugChars
  simp

theorem Project.separable_debugChars (p : Project) :
    Separable Project.debugChars Project.withOneNaN p := by
  intro q r r' h
  unfold Project.debugChars at h
  simp only [List.append_assoc, List.append_cancel_left_eq] at h
  obtain ⟨hname, hrest⟩ := Text.separable_quoted p.name q.name _ _ h
  obtain ⟨hglobals, hlist⟩ := p.globals.separable_debugChars q.globals _ _
    (List.append_cancel_left hrest)
  obtain ⟨hlayouts, hend⟩ := Text.separable_spaced (by decide) Layout.head?_debugChars
    (fun l _ => l.separable_debugChars) q.layouts (" \x7d".toList ++ r) (" \x7d".toList ++ r')
    (by simpa using hlist)
  refine ⟨?_, List.append_cancel_left hend⟩
  unfold Project.withOneNaN
  rw [show p.name = q.name from hname, hglobals, hlayouts]

theorem Container.debugChars_withOneNaN (c : Container) :
    c.withOneNaN.debugChars = c.debugChars := by
  unfold Container.debugChars Container.withOneNaN
  rw [Variable.debugChildren_withOneNaN fun m _ => Variable.debugChars_withOneNaN m.2]

theorem Layout.debugChars_withOneNaN (l : Layout) : l.withOneNaN.debugChars = l.debugChars := by
  unfold Layout.debugChars Layout.withOneNaN
  rw [Container.debugChars_withOneNaN]

theorem Project.debugChars_withOneNaN (p : Project) :
    p.withOneNaN.debugChars = p.debugChars := by
  have hlayouts : (p.layouts.map Layout.withOneNaN).map Layout.debugChars
      = p.layouts.map Layout.debugChars := by
    rw [List.map_map]
    exact List.map_congr_left fun l _ => l.debugChars_withOneNaN
  unfold Project.debugChars Project.withOneNaN
  rw [Container.debugChars_withOneNaN, hlayouts]

/-- What is separable and shown by its form alone is shown as the same text just when it has the
same form. -/
theorem debug_eq_iff {α : Type} {chars : α → List Char} {form : α → α}
    (hseparable : ∀ a, Separable chars form a) (hform : ∀ a, chars (form a) = chars a) (a b : α) :
    String.ofList (chars a) = String.ofList (chars b) ↔ form a = form b := by
  constructor
  · intro h
    exact (hseparable a).form_eq (String.ofList_inj.mp h)
  · intro h
    rw [← hform a, h, hform b]

/-- **Debugging texts are unambiguous.** Two variables have the same text if and only if they are
the same, with one NaN for all NaNs; and so have two containers, two layouts and two projects. -/
theorem debug_unambiguous :
    (∀ v w : Variable, v.debug = w.debug ↔ v.withOneNaN = w.withOneNaN)
    ∧ (∀ c d : Container, c.debug = d.debug ↔ c.withOneNaN = d.withOneNaN)
    ∧ (∀ l k : Layout, l.debug = k.debug ↔ l.withOneNaN = k.withOneNaN)
    ∧ ∀ p q : Project, p.debug = q.debug ↔ p.withOneNaN = q.withOneNaN :=
  ⟨debug_eq_iff Variable.separable_debugChars Variable.debugChars_withOneNaN,
    debug_eq_iff Container.separable_debugChars Container.debugChars_withOneNaN,
    debug_eq_iff Layout.separable_debugChars Layout.debugChars_withOneNaN,
    debug_eq_iff Project.separable_debugChars Project.debugChars_withOneNaN⟩

end ScopedVars
