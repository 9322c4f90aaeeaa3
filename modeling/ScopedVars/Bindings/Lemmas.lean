import ScopedVars.Bindings

/-!
# `Bindings/Lemmas` — what each operation does to names and values

Two views say all there is to say about bindings: the list of names (`names`) and the value of each
name (`get?`). For each operation there is one equation for either view, and one lemma that it keeps
names unique.
-/

set_option autoImplicit false

namespace ScopedVars

namespace Bindings

variable {α : Type}

/-! ## The two views -/

@[simp] theorem names_nil : names ([] : Bindings α) = [] := rfl

@[simp] theorem names_cons (n : String) (v : α) (rest : Bindings α) :
    names ((n, v) :: rest) = n :: names rest := rfl

@[simp] theorem get?_nil (name : String) : get? ([] : Bindings α) name = none := rfl

theorem get?_cons (n : String) (v : α) (rest : Bindings α) (name : String) :
    get? ((n, v) :: rest) name = if n = name then some v else get? rest name := rfl

/-- A name has a value exactly when it is one of the names. -/
theorem isSome_get? (b : Bindings α) (name : String) :
    (get? b name).isSome = true ↔ name ∈ names b := by
  induction b with
  | nil => simp
  | cons head rest ih =>
    obtain ⟨n, v⟩ := head
    by_cases h : n = name
    · simp [get?_cons, h]
    · simp [get?_cons, h, ih, Ne.symm h]

theorem has_iff (b : Bindings α) (name : String) : has b name = true ↔ name ∈ names b :=
  isSome_get? b name

theorem get?_eq_none (b : Bindings α) (name : String) : get? b name = none ↔ name ∉ names b := by
  rw [← isSome_get?]
  simp

/-! ## Inserting -/

theorem names_insert_of_mem {b : Bindings α} {name : String} (h : name ∈ names b) (v : α) :
    names (insert b name v) = names b := by
  induction b with
  | nil => simp at h
  | cons head rest ih =>
    obtain ⟨n, w⟩ := head
    by_cases hn : n = name
    · simp [insert, hn]
    · have hr : name ∈ names rest := by simpa [Ne.symm hn] using h
      simp [insert, hn, ih hr]

theorem names_insert_of_not_mem {b : Bindings α} {name : String} (h : name ∉ names b) (v : α) :
    names (insert b name v) = names b ++ [name] := by
  induction b with
  | nil => rfl
  | cons head rest ih =>
    obtain ⟨n, w⟩ := head
    have hn : n ≠ name := fun e => h (by simp [e])
    have hr : name ∉ names rest := fun e => h (by simp [e])
    simp [insert, hn, ih hr]

/-- A name that is not bound goes to the end, behind all others. -/
theorem insert_of_not_mem {b : Bindings α} {name : String} (h : name ∉ names b) (v : α) :
    insert b name v = b ++ [(name, v)] := by
  induction b with
  | nil => rfl
  | cons head rest ih =>
    obtain ⟨n, w⟩ := head
    have hn : n ≠ name := fun e => h (by simp [e])
    have hr : name ∉ names rest := fun e => h (by simp [e])
    simp [insert, hn, ih hr]

theorem get?_insert (b : Bindings α) (name : String) (v : α) (other : String) :
    get? (insert b name v) other = if name = other then some v else get? b other := by
  induction b with
  | nil => rfl
  | cons head rest ih =>
    obtain ⟨n, w⟩ := head
    by_cases hn : n = name
    · subst hn
      by_cases ho : n = other <;> simp [insert, get?_cons, ho]
    · by_cases ho : n = other
      · subst ho
        simp [insert, get?_cons, hn, Ne.symm hn]
      · simp [insert, get?_cons, hn, ho, ih]

/-- A name that is given the value it has changes nothing. -/
theorem insert_of_get? {b : Bindings α} {name : String} {v : α} (h : get? b name = some v) :
    insert b name v = b := by
  induction b with
  | nil => cases h
  | cons head rest ih =>
    obtain ⟨n, w⟩ := head
    rw [get?_cons] at h
    by_cases hn : n = name
    · rw [if_pos hn] at h
      cases h
      simp [insert, hn]
    · rw [if_neg hn] at h
      simp [insert, hn, ih h]

theorem mem_insert {b : Bindings α} {name : String} {v : α} {entry : String × α}
    (h : entry ∈ insert b name v) : entry = (name, v) ∨ entry ∈ b := by
  induction b with
  | nil => exact Or.inl (List.mem_singleton.1 h)
  | cons head rest ih =>
    obtain ⟨n, w⟩ := head
    by_cases hn : n = name
    · simp only [insert, if_pos hn, List.mem_cons] at h
      rcases h with h | h
      · exact Or.inl (by rw [h, hn])
      · exact Or.inr (List.mem_cons_of_mem _ h)
    · simp only [insert, if_neg hn, List.mem_cons] at h
      rcases h with h | h
      · exact Or.inr (by simp [h])
      · exact (ih h).imp_right (List.mem_cons_of_mem _)

theorem unique_insert {b : Bindings α} (h : Unique b) (name : String) (v : α) :
    Unique (insert b name v) := by
  unfold Unique at *
  by_cases hm : name ∈ names b
  · rw [names_insert_of_mem hm]
    exact h
  · rw [names_insert_of_not_mem hm, List.nodup_append]
    refine ⟨h, by simp, ?_⟩
    intro x hx y hy e
    rw [List.mem_singleton] at hy
    exact hm (by rwa [← hy, ← e])

/-- Whatever pairs one starts from, each name ends up once. -/
theorem unique_ofList (pairs : List (String × α)) : Unique (ofList pairs) := by
  have run : ∀ (pairs : List (String × α)) (b : Bindings α), Unique b →
      Unique (pairs.foldl (fun b pair => insert b pair.1 pair.2) b) := by
    intro pairs
    induction pairs with
    | nil => exact fun b h => h
    | cons pair rest ih => exact fun b h => ih _ (unique_insert h pair.1 pair.2)
  exact run pairs [] List.nodup_nil

theorem mem_ofList {pairs : List (String × α)} {entry : String × α} (h : entry ∈ ofList pairs) :
    entry ∈ pairs := by
  have run : ∀ (pairs : List (String × α)) (b : Bindings α),
      entry ∈ pairs.foldl (fun b pair => insert b pair.1 pair.2) b → entry ∈ b ∨ entry ∈ pairs := by
    intro pairs
    induction pairs with
    | nil => exact fun _ h => Or.inl h
    | cons pair rest ih =>
      intro b h
      rcases ih _ h with h | h
      · rcases mem_insert h with rfl | h
        · exact Or.inr List.mem_cons_self
        · exact Or.inl h
      · exact Or.inr (List.mem_cons_of_mem pair h)
  exact (run pairs [] h).resolve_left List.not_mem_nil

theorem not_mem_of_unique_append {b rest : Bindings α} {pair : String × α}
    (h : Unique (b ++ pair :: rest)) : pair.1 ∉ names b := by
  intro hmem
  unfold Unique names at h
  rw [List.map_append, List.nodup_append] at h
  exact h.2.2 _ hmem _ List.mem_cons_self rfl

/-- Pairs with names of their own are bindings already. -/
theorem ofList_of_unique {pairs : List (String × α)} (h : Unique pairs) : ofList pairs = pairs := by
  have run : ∀ (pairs b : List (String × α)), Unique (b ++ pairs) →
      pairs.foldl (fun b pair => insert b pair.1 pair.2) b = b ++ pairs := by
    intro pairs
    induction pairs with
    | nil => exact fun b _ => (List.append_nil b).symm
    | cons pair rest ih =>
      intro b h
      have hsplit : b ++ pair :: rest = (b ++ [pair]) ++ rest := by simp
      rw [List.foldl_cons, insert_of_not_mem (not_mem_of_unique_append h), hsplit]
      rw [hsplit] at h
      exact ih (b ++ [pair]) h
  exact run pairs [] h

/-! ## Erasing -/

theorem names_erase (b : Bindings α) (name : String) :
    names (erase b name) = (names b).erase name := by
  induction b with
  | nil => rfl
  | cons head rest ih =>
    obtain ⟨n, v⟩ := head
    by_cases h : n = name <;> simp [erase, h, ih]

theorem mem_erase {b : Bindings α} {name : String} {entry : String × α}
    (h : entry ∈ erase b name) : entry ∈ b := by
  induction b with
  | nil => exact h
  | cons head rest ih =>
    obtain ⟨n, v⟩ := head
    by_cases e : n = name
    · simp only [erase, if_pos e] at h
      exact List.mem_cons_of_mem _ h
    · simp only [erase, if_neg e, List.mem_cons] at h
      rcases h with h | h
      · simp [h]
      · exact List.mem_cons_of_mem _ (ih h)

theorem unique_erase {b : Bindings α} (h : Unique b) (name : String) : Unique (erase b name) := by
  unfold Unique at *
  rw [names_erase]
  exact h.erase name

/-- Erasing a name leaves it without a value, and every other name as it was. -/
theorem get?_erase {b : Bindings α} (h : Unique b) (name other : String) :
    get? (erase b name) other = if name = other then none else get? b other := by
  induction b with
  | nil => simp [erase]
  | cons head rest ih =>
    obtain ⟨n, v⟩ := head
    have hn : n ∉ names rest := (List.nodup_cons.1 h).1
    have hr : Unique rest := (List.nodup_cons.1 h).2
    by_cases e : n = name
    · subst e
      by_cases ho : n = other
      · subst ho
        simp [erase, (get?_eq_none rest n).2 hn]
      · simp [erase, get?_cons, ho]
    · by_cases ho : n = other
      · subst ho
        simp [erase, get?_cons, e, Ne.symm e]
      · simp [erase, get?_cons, e, ho, ih hr]

/-! ## Renaming -/

/-- A name that is written over another one has its value, and the other one has none. -/
theorem get?_rename {b : Bindings α} (h : Unique b) {old new : String} (hnew : new ∉ names b)
    (other : String) :
    get? (rename b old new) other
      = if new = other then get? b old else if old = other then none else get? b other := by
  induction b with
  | nil => simp [rename]
  | cons head rest ih =>
    obtain ⟨n, v⟩ := head
    have hn : n ∉ names rest := (List.nodup_cons.1 h).1
    have hr : Unique rest := (List.nodup_cons.1 h).2
    have hnn : n ≠ new := fun e => hnew (by simp [e])
    have hnr : new ∉ names rest := fun e => hnew (by simp [e])
    by_cases e : n = old
    · subst e
      by_cases ho : new = other
      · simp [rename, get?_cons, ho]
      · by_cases hon : n = other
        · subst hon
          simp [rename, get?_cons, ho, (get?_eq_none rest n).2 hn]
        · simp [rename, get?_cons, ho, hon]
    · by_cases ho : new = other
      · subst ho
        simp [rename, get?_cons, e, hnn, ih hr hnr]
      · by_cases hon : n = other
        · subst hon
          simp [rename, get?_cons, e, ho, Ne.symm e]
        · simp [rename, get?_cons, e, ho, hon, ih hr hnr]

/-- Renaming in place is taking the name out and putting the new one in where it was. -/
theorem rename_eq_insertIdx {b : Bindings α} {old : String} {i : Nat} {v : α}
    (hi : position? b old = some i) (hv : get? b old = some v) (new : String) :
    rename b old new = (erase b old).insertIdx i (new, v) := by
  induction b generalizing i with
  | nil => cases hi
  | cons head rest ih =>
    obtain ⟨n, w⟩ := head
    by_cases e : n = old
    · simp only [position?, get?, if_pos e, Option.some.injEq] at hi hv
      subst hi hv
      simp [rename, erase, e]
    · simp only [position?, get?, if_neg e, Option.map_eq_some_iff] at hi hv
      obtain ⟨j, hj, rfl⟩ := hi
      simp [rename, erase, e, ih hj hv]

/-- Renaming in place changes one entry, and of that entry the name. -/
theorem rename_eq_set {b : Bindings α} {old : String} {i : Nat} {v : α}
    (hi : position? b old = some i) (hv : get? b old = some v) (new : String) :
    rename b old new = b.set i (new, v) := by
  induction b generalizing i with
  | nil => cases hi
  | cons head rest ih =>
    obtain ⟨n, w⟩ := head
    by_cases e : n = old
    · simp only [position?, get?, if_pos e, Option.some.injEq] at hi hv
      subst hi hv
      simp [rename, e]
    · simp only [position?, get?, if_neg e, Option.map_eq_some_iff] at hi hv
      obtain ⟨j, hj, rfl⟩ := hi
      simp [rename, e, ih hj hv]

@[simp] theorem rename_same (b : Bindings α) (name : String) : rename b name name = b := by
  induction b with
  | nil => rfl
  | cons head rest ih =>
    obtain ⟨n, v⟩ := head
    by_cases e : n = name <;> simp [rename, e, ih]

/-- A renaming to a free name can be taken back. -/
theorem rename_rename {b : Bindings α} {old new : String} (hnew : new ∉ names b) :
    rename (rename b old new) new old = b := by
  induction b with
  | nil => rfl
  | cons head rest ih =>
    obtain ⟨n, v⟩ := head
    have hn : n ≠ new := fun e => hnew (by simp [e])
    have hr : new ∉ names rest := fun e => hnew (by simp [e])
    by_cases e : n = old
    · simp [rename, e]
    · simp [rename, e, hn, ih hr]

theorem mem_names_rename {b : Bindings α} {old new name : String}
    (h : name ∈ names (rename b old new)) : name = new ∨ name ∈ names b := by
  induction b with
  | nil => simp [rename] at h
  | cons head rest ih =>
    obtain ⟨n, v⟩ := head
    by_cases e : n = old
    · simp only [rename, if_pos e, names_cons, List.mem_cons] at h
      rcases h with h | h
      · exact Or.inl h
      · exact Or.inr (List.mem_cons_of_mem n h)
    · simp only [rename, if_neg e, names_cons, List.mem_cons] at h
      rcases h with h | h
      · exact Or.inr (by simp [h])
      · rcases ih h with h | h
        · exact Or.inl h
        · exact Or.inr (List.mem_cons_of_mem n h)

theorem unique_rename {b : Bindings α} (h : Unique b) (old : String) {new : String}
    (hnew : new ∉ names b) : Unique (rename b old new) := by
  induction b with
  | nil => exact List.nodup_nil
  | cons head rest ih =>
    obtain ⟨n, v⟩ := head
    have hn : n ∉ names rest := (List.nodup_cons.1 h).1
    have hr : Unique rest := (List.nodup_cons.1 h).2
    have hnn : n ≠ new := fun e => hnew (by simp [e])
    have hnr : new ∉ names rest := fun e => hnew (by simp [e])
    by_cases e : n = old
    · simp only [rename, if_pos e]
      exact List.nodup_cons.2 ⟨hnr, hr⟩
    · simp only [rename, if_neg e]
      refine List.nodup_cons.2 ⟨fun hm => ?_, ih hr hnr⟩
      rcases mem_names_rename hm with hm | hm
      · exact hnn hm
      · exact hn hm

/-! ## Values one by one -/

theorem mem_of_get? {b : Bindings α} {name : String} {v : α} (h : get? b name = some v) :
    (name, v) ∈ b := by
  induction b with
  | nil => cases h
  | cons head rest ih =>
    obtain ⟨n, w⟩ := head
    by_cases e : n = name
    · simp only [get?, if_pos e, Option.some.injEq] at h
      simp [h, e]
    · simp only [get?, if_neg e] at h
      exact List.mem_cons_of_mem _ (ih h)

/-- In unique bindings the value of a name is the one that is bound to it. -/
theorem get?_eq_some_iff {b : Bindings α} (h : Unique b) {name : String} {v : α} :
    get? b name = some v ↔ (name, v) ∈ b := by
  induction b with
  | nil => simp
  | cons head rest ih =>
    obtain ⟨n, w⟩ := head
    have hn : n ∉ names rest := (List.nodup_cons.1 h).1
    have hr : Unique rest := (List.nodup_cons.1 h).2
    by_cases e : n = name
    · subst e
      have hmem : (n, v) ∉ rest := fun hm => hn (List.mem_map_of_mem hm)
      simp [get?_cons, hmem, eq_comm]
    · simp [get?_cons, e, Ne.symm e, ih hr]

/-- In unique bindings a name has its position exactly where it stands. -/
theorem position?_eq_some_iff {b : Bindings α} (h : Unique b) {name : String} {i : Nat} :
    position? b name = some i ↔ (names b)[i]? = some name := by
  induction b generalizing i with
  | nil => simp [position?]
  | cons head rest ih =>
    obtain ⟨n, v⟩ := head
    have hn : n ∉ names rest := (List.nodup_cons.1 h).1
    have hr : Unique rest := (List.nodup_cons.1 h).2
    by_cases e : n = name
    · subst e
      cases i with
      | zero => simp [position?]
      | succ i =>
        have hrest : (names rest)[i]? ≠ some n := fun hi => hn (List.mem_of_getElem? hi)
        simp [position?, hrest]
    · cases i with
      | zero => simp [position?, e]
      | succ i => simp [position?, e, ih hr]

/-- A name stands where its position says. -/
theorem getElem?_of_position? {b : Bindings α} {name : String} {i : Nat}
    (h : position? b name = some i) : ∃ v, b[i]? = some (name, v) := by
  induction b generalizing i with
  | nil => cases h
  | cons head rest ih =>
    obtain ⟨n, v⟩ := head
    by_cases e : n = name
    · simp only [position?, if_pos e, Option.some.injEq] at h
      subst h e
      exact ⟨v, rfl⟩
    · simp only [position?, if_neg e, Option.map_eq_some_iff] at h
      obtain ⟨j, hj, rfl⟩ := h
      exact ih hj

theorem isSome_position? (b : Bindings α) (name : String) :
    (position? b name).isSome = (get? b name).isSome := by
  induction b with
  | nil => rfl
  | cons head rest ih =>
    obtain ⟨n, v⟩ := head
    by_cases e : n = name
    · simp [position?, get?, e]
    · simpa [position?, get?, e] using ih

theorem position?_eq_none (b : Bindings α) (name : String) :
    position? b name = none ↔ name ∉ names b := by
  rw [← get?_eq_none, ← Option.isNone_iff_eq_none, ← Option.isNone_iff_eq_none,
    ← Option.isSome_eq_false_iff, ← Option.isSome_eq_false_iff, isSome_position?]

/-- A name that is written over another one stands in its place, and all others stand where they
stood. -/
theorem position?_rename {b : Bindings α} (h : Unique b) {old new : String} (hnew : new ∉ names b)
    (other : String) :
    position? (rename b old new) other
      = if new = other then position? b old
        else if old = other then none else position? b other := by
  induction b with
  | nil => simp [rename, position?]
  | cons head rest ih =>
    obtain ⟨n, v⟩ := head
    have hn : n ∉ names rest := (List.nodup_cons.1 h).1
    have hr : Unique rest := (List.nodup_cons.1 h).2
    have hnn : n ≠ new := fun e => hnew (by simp [e])
    have hnr : new ∉ names rest := fun e => hnew (by simp [e])
    by_cases e : n = old
    · subst e
      by_cases ho : new = other
      · simp [rename, position?, ho]
      · by_cases hon : n = other
        · subst hon
          simp [rename, position?, ho, (position?_eq_none rest n).2 hn]
        · simp [rename, position?, ho, hon]
    · have ih := ih hr hnr
      by_cases ho : new = other
      · subst ho
        simp [rename, position?, e, hnn, ih]
      · by_cases hon : n = other
        · subst hon
          simp [rename, position?, e, ho, Ne.symm e]
        · by_cases holder : old = other
          · subst holder
            simp [rename, position?, e, ho, ih]
          · simp [rename, position?, e, ho, hon, holder, ih]

/-- The same names with other values. -/
def mapValues {β : Type} (f : α → β) (b : Bindings α) : Bindings β :=
  b.map fun entry => (entry.1, f entry.2)

section MapValues

variable {β : Type} (f : α → β)

theorem get?_mapValues (b : Bindings α) (name : String) :
    get? (mapValues f b) name = (get? b name).map f := by
  induction b with
  | nil => rfl
  | cons head rest ih =>
    obtain ⟨n, v⟩ := head
    by_cases h : n = name
    · simp [mapValues, get?_cons, h]
    · simpa [mapValues, get?_cons, h] using ih

theorem position?_mapValues (b : Bindings α) (name : String) :
    position? (mapValues f b) name = position? b name := by
  induction b with
  | nil => rfl
  | cons head rest ih =>
    obtain ⟨n, v⟩ := head
    by_cases h : n = name
    · simp [mapValues, position?, h]
    · simpa [mapValues, position?, h] using congrArg (Option.map (· + 1)) ih

theorem mapValues_insert (b : Bindings α) (name : String) (v : α) :
    mapValues f (insert b name v) = insert (mapValues f b) name (f v) := by
  induction b with
  | nil => rfl
  | cons head rest ih =>
    obtain ⟨n, w⟩ := head
    by_cases h : n = name
    · simp [mapValues, insert, h]
    · simpa [mapValues, insert, h] using ih

theorem mapValues_erase (b : Bindings α) (name : String) :
    mapValues f (erase b name) = erase (mapValues f b) name := by
  induction b with
  | nil => rfl
  | cons head rest ih =>
    obtain ⟨n, w⟩ := head
    by_cases h : n = name
    · simp [mapValues, erase, h]
    · simpa [mapValues, erase, h] using ih

theorem mapValues_rename (b : Bindings α) (old new : String) :
    mapValues f (rename b old new) = rename (mapValues f b) old new := by
  induction b with
  | nil => rfl
  | cons head rest ih =>
    obtain ⟨n, w⟩ := head
    by_cases h : n = old
    · simp [mapValues, rename, h]
    · simpa [mapValues, rename, h] using ih

end MapValues

end Bindings

end ScopedVars
