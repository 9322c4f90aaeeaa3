import Mathlib.Data.List.Induction
import ScopedVars.Bindings.Lemmas

/-!
# `Proofs/Bindings/Merged` — what pairs with repeated names come to

Pairs may give one name several values; bindings give it one. Taken in one after the other the
pairs come to one list, and two things decide it that look at the pairs from opposite ends:

> A name stands where it was given **first** (`names_ofList`) and has the value it was given
> **last** (`get?_ofList`).

Neither is said in terms of inserting, so `Merged` can be asked of a list wherever it comes from;
and there is only one such list (`Merged.eq`). Both proofs go through the pairs from the back,
because the pair that is taken in last is the only one of which the result still shows everything.

The first section is about names alone: a name that comes again is passed over.
-/

set_option autoImplicit false

namespace ScopedVars

namespace Bindings

/-! ## Taking names in -/

/-- A name that was not there yet goes to the end. -/
theorem eraseDups_concat (names : List String) (name : String) :
    (names ++ [name]).eraseDups
      = if name ∈ names then names.eraseDups else names.eraseDups ++ [name] := by
  rw [List.eraseDups_append]
  by_cases h : name ∈ names <;> simp [List.removeAll, List.eraseDups_cons, h]

theorem pairwise_eraseDups (names : List String) :
    names.eraseDups.Pairwise fun a b => names.idxOf a < names.idxOf b := by
  induction names using List.reverseRecOn with
  | nil => exact List.Pairwise.nil
  | append_singleton names name ih =>
    have hkept : names.eraseDups.Pairwise fun a b =>
        (names ++ [name]).idxOf a < (names ++ [name]).idxOf b := by
      apply ih.imp_of_mem
      intro a b ha hb hab
      rw [List.mem_eraseDups] at ha hb
      rw [List.idxOf_append, List.idxOf_append, if_pos ha, if_pos hb]
      exact hab
    rw [eraseDups_concat]
    by_cases h : name ∈ names
    · rw [if_pos h]
      exact hkept
    · rw [if_neg h, List.pairwise_append]
      refine ⟨hkept, List.pairwise_singleton _ _, ?_⟩
      intro a ha b hb
      cases List.mem_singleton.mp hb
      rw [List.mem_eraseDups] at ha
      rw [List.idxOf_append, List.idxOf_append, if_pos ha, if_neg h]
      exact Nat.lt_add_left _ (List.idxOf_lt_length_of_mem ha)

theorem eraseDups_of_nodup {names : List String} (h : names.Nodup) : names.eraseDups = names := by
  induction names using List.reverseRecOn with
  | nil => rfl
  | append_singleton names name ih =>
    obtain ⟨hnames, -, hnew⟩ := List.nodup_append.mp h
    have hname : name ∉ names := fun hmem => hnew name hmem name List.mem_cons_self rfl
    rw [eraseDups_concat, if_neg hname, ih hnames]

/-! ## Taking pairs in -/

variable {α : Type}

theorem ofList_concat (pairs : List (String × α)) (name : String) (v : α) :
    ofList (pairs ++ [(name, v)]) = insert (ofList pairs) name v := by
  unfold ofList
  rw [List.foldl_append]
  rfl

theorem names_insert (b : Bindings α) (name : String) (v : α) :
    names (insert b name v) = if name ∈ names b then names b else names b ++ [name] := by
  by_cases h : name ∈ names b
  · rw [if_pos h, names_insert_of_mem h]
  · rw [if_neg h, names_insert_of_not_mem h]

/-- **The names stand in the order in which they first came.** -/
theorem names_ofList (pairs : List (String × α)) :
    names (ofList pairs) = (names pairs).eraseDups := by
  induction pairs using List.reverseRecOn with
  | nil => rfl
  | append_singleton pairs pair ih =>
    obtain ⟨name, v⟩ := pair
    have hnames : names (pairs ++ [(name, v)]) = names pairs ++ [name] := List.map_append
    rw [ofList_concat, names_insert, hnames, eraseDups_concat, ih]
    simp only [List.mem_eraseDups]

/-- **Each name has the value that it was given last.** -/
theorem get?_ofList (pairs : List (String × α)) (name : String) :
    get? (ofList pairs) name = get? pairs.reverse name := by
  induction pairs using List.reverseRecOn with
  | nil => rfl
  | append_singleton pairs pair ih =>
    obtain ⟨last, v⟩ := pair
    rw [ofList_concat, get?_insert, List.reverse_concat, get?_cons, ih]

/-- The value of a name stands in the first pair that has the name. -/
theorem get?_eq_some_iff_first {b : Bindings α} {name : String} {v : α} :
    get? b name = some v ↔
      ∃ before after, b = before ++ (name, v) :: after ∧ name ∉ names before := by
  constructor
  · intro h
    induction b with
    | nil => cases h
    | cons head rest ih =>
      obtain ⟨n, w⟩ := head
      rw [get?_cons] at h
      by_cases hn : n = name
      · rw [if_pos hn] at h
        cases h
        exact ⟨[], rest, by rw [hn]; rfl, List.not_mem_nil⟩
      · rw [if_neg hn] at h
        obtain ⟨before, after, rfl, hbefore⟩ := ih h
        refine ⟨(n, w) :: before, after, rfl, ?_⟩
        rw [names_cons, List.mem_cons, not_or]
        exact ⟨Ne.symm hn, hbefore⟩
  · rintro ⟨before, after, rfl, hbefore⟩
    induction before with
    | nil => exact if_pos rfl
    | cons head before ih =>
      obtain ⟨n, w⟩ := head
      rw [names_cons, List.mem_cons, not_or] at hbefore
      rw [List.cons_append, get?_cons, if_neg (Ne.symm hbefore.1)]
      exact ih hbefore.2

theorem names_reverse (pairs : List (String × α)) :
    names pairs.reverse = (names pairs).reverse :=
  List.map_reverse

/-- Read from the back, it is the last pair that has the name. -/
theorem get?_reverse_eq_some_iff {pairs : List (String × α)} {name : String} {v : α} :
    get? pairs.reverse name = some v ↔
      ∃ before after, pairs = before ++ (name, v) :: after ∧ name ∉ names after := by
  rw [get?_eq_some_iff_first]
  constructor
  · rintro ⟨before, after, h, hbefore⟩
    refine ⟨after.reverse, before.reverse, ?_, ?_⟩
    · rw [← List.reverse_inj, h]
      simp
    · rw [names_reverse, List.mem_reverse]
      exact hbefore
  · rintro ⟨before, after, rfl, hafter⟩
    refine ⟨after.reverse, before.reverse, by simp, ?_⟩
    rw [names_reverse, List.mem_reverse]
    exact hafter

/-! ## First places, last values -/

/-- The entries are what the pairs come to. -/
structure Merged (pairs entries : List (String × α)) : Prop where
  /-- The distinct names of the pairs, -/
  names : names entries = (names pairs).eraseDups
  /-- in the order in which they first came. -/
  ordered : (Bindings.names entries).Pairwise fun a b =>
    (Bindings.names pairs).idxOf a < (Bindings.names pairs).idxOf b
  /-- A name has the value of the last pair that has the name. -/
  value : ∀ name v, get? entries name = some v ↔
    ∃ before after, pairs = before ++ (name, v) :: after ∧ name ∉ Bindings.names after

theorem merged_ofList (pairs : List (String × α)) : Merged pairs (ofList pairs) where
  names := names_ofList pairs
  ordered := by
    rw [names_ofList]
    exact pairwise_eraseDups (Bindings.names pairs)
  value name v := by
    rw [get?_ofList]
    exact get?_reverse_eq_some_iff

/-- Bindings are told by the two views of them. -/
theorem eq_of_names_of_get? : ∀ {b c : Bindings α}, Unique b → names b = names c →
    (∀ name, get? b name = get? c name) → b = c
  | [], c, _, hnames, _ => (List.map_eq_nil_iff.mp hnames.symm).symm
  | (n, v) :: rest, c, hb, hnames, hget => by
    obtain ⟨hn, hrest⟩ := List.nodup_cons.mp hb
    cases c with
    | nil => cases hnames
    | cons head rest' =>
      obtain ⟨m, w⟩ := head
      obtain ⟨rfl, htails⟩ := List.cons.inj hnames
      have hnames' : names rest = names rest' := htails
      have hvalue : v = w := by simpa [get?_cons] using hget n
      have htail : rest = rest' := by
        refine eq_of_names_of_get? hrest hnames' fun name => ?_
        by_cases hname : n = name
        · -- The name of the head has no value in either tail.
          subst hname
          rw [(get?_eq_none rest n).mpr hn, (get?_eq_none rest' n).mpr (hnames' ▸ hn)]
        · simpa [get?_cons, hname] using hget name
      rw [hvalue, htail]

/-- **There is only one list that the pairs come to.** -/
theorem Merged.eq {pairs entries : List (String × α)} (h : Merged pairs entries) :
    entries = ofList pairs := by
  have hofList := merged_ofList pairs
  have hnames : Bindings.names (ofList pairs) = Bindings.names entries :=
    hofList.names.trans h.names.symm
  refine (eq_of_names_of_get? (unique_ofList pairs) hnames fun name => ?_).symm
  apply Option.ext
  intro v
  exact (hofList.value name v).trans (h.value name v).symm

end Bindings

end ScopedVars
