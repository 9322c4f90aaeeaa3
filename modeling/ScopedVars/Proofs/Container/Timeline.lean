import ScopedVars.Bindings.Lemmas
import ScopedVars.Container

/-!
# `Proofs/Container/Timeline` — declaration order over any run

A container says where a variable stands, and not since when. A *ledger* says since when and not
where: it is a map without order, from names to the time of their declaration and their value. The
two are edited side by side, and the ledger knows no more of places than the container of times.

> After any run the container is the ledger, sorted by time (`Ledger.Sorts`), and both have answered
> every edit alike.

The proof runs a third machine between them, the *dated* bindings: those of the container with the
time beside each value. Forgetting the times gives the container and forgetting the order gives the
ledger, so the invariant (`Agree`) is a statement about one list, and what an edit does to it is
known from `Bindings`.
-/

set_option autoImplicit false

namespace ScopedVars

/-! ## Edits and runs -/

inductive Edit where
  | insert (name : String) (v : Variable)
  | adding (name : String) (v : Variable)
  | set (name : String) (v : Variable)
  | remove (name : String)
  | rename (old new : String)
  | clear

/-- The names that an edit is about. Clearing is about all of them. -/
def Edit.concerns : Edit → String → Prop
  | insert name _, other => other = name
  | adding name _, other => other = name
  | set name _, other => other = name
  | remove name, other => other = name
  | rename old new, other => other = old ∨ other = new
  | clear, _ => True

inductive Answer where
  | none
  /-- The value before an insertion or removal, the value after a change. -/
  | value (v : Option Variable)
  | renamed (result : Except Refusal Unit)

namespace Container

/-- One edit of a container. A renaming that is refused leaves it as it is. -/
def step (c : Container) : Edit → Answer × Container
  | .insert name v => (.value (c.insert name v).1, (c.insert name v).2)
  | .adding name v => (.none, c.adding name v)
  | .set name v => (.value (c.set name v).1, (c.set name v).2)
  | .remove name => (.value (c.remove name).1, (c.remove name).2)
  | .rename old new =>
    match c.rename old new with
    | .ok c => (.renamed (.ok ()), c)
    | .error e => (.renamed (.error e), c)
  | .clear => (.none, c.clear)

def run (c : Container) : List Edit → List Answer × Container
  | [] => ([], c)
  | e :: rest => ((c.step e).1 :: ((c.step e).2.run rest).1, ((c.step e).2.run rest).2)

theorem step_rename_ok {c c' : Container} {old new : String} (h : c.rename old new = .ok c') :
    c.step (.rename old new) = (.renamed (.ok ()), c') := by
  simp only [step, h]

theorem step_rename_error {c : Container} {old new : String} {refusal : Refusal}
    (h : c.rename old new = .error refusal) :
    c.step (.rename old new) = (.renamed (.error refusal), c) := by
  simp only [step, h]

end Container

/-! ## The ledger -/

/-- Names with the time of their declaration and their value, in no order. -/
structure Ledger where
  /-- The time of the next declaration. -/
  clock : Nat
  entry : String → Option (Nat × Variable)

namespace Ledger

def empty : Ledger :=
  ⟨0, fun _ => none⟩

def write (l : Ledger) (name : String) (e : Option (Nat × Variable)) : Ledger :=
  { l with entry := fun other => if name = other then e else l.entry other }

/-- A new name is declared now; a name that is there keeps its time. -/
def insert (l : Ledger) (name : String) (v : Variable) : Ledger :=
  match l.entry name with
  | some (t, _) => l.write name (some (t, v))
  | none => { l.write name (some (l.clock, v)) with clock := l.clock + 1 }

/-- A name that is there gets a new value and keeps its time. -/
def set (l : Ledger) (name : String) (v : Variable) : Option Variable × Ledger :=
  match l.entry name with
  | some (t, _) => (some v, l.write name (some (t, v)))
  | none => (none, l)

/-- A name that is there takes time and value along to a name that is free. -/
def rename (l : Ledger) (old new : String) : Except Refusal Unit × Ledger :=
  if new = old then
    (if (l.entry old).isSome then .ok () else .error (.variableNotFound old), l)
  else
    match l.entry new, l.entry old with
    | some _, _ => (.error (.nameTaken new), l)
    | none, none => (.error (.variableNotFound old), l)
    | none, some e => (.ok (), (l.write old none).write new (some e))

def step (l : Ledger) : Edit → Answer × Ledger
  | .insert name v => (.value ((l.entry name).map Prod.snd), l.insert name v)
  | .adding name v => (.none, l.insert name v)
  | .set name v => (.value (l.set name v).1, (l.set name v).2)
  | .remove name => (.value ((l.entry name).map Prod.snd), l.write name none)
  | .rename old new => (.renamed (l.rename old new).1, (l.rename old new).2)
  | .clear => (.none, { l with entry := fun _ => none })

def run (l : Ledger) : List Edit → List Answer × Ledger
  | [] => ([], l)
  | e :: rest => ((l.step e).1 :: ((l.step e).2.run rest).1, ((l.step e).2.run rest).2)

/-- **The list is the entries of the ledger, sorted by time.** -/
def Sorts (l : Ledger) (entries : List (String × Variable)) : Prop :=
  ∃ dated : List (Nat × String × Variable), dated.Pairwise (fun a b => a.1 < b.1)
    ∧ dated.map Prod.snd = entries
    ∧ ∀ t name v, (t, name, v) ∈ dated ↔ l.entry name = some (t, v)

end Ledger

/-- Both names are there, and the first was declared earlier. -/
def Ledger.Earlier (l : Ledger) (x y : String) : Prop :=
  ∃ s t v w, l.entry x = some (s, v) ∧ l.entry y = some (t, w) ∧ s < t

/-- Both names are there, and the first stands before the second. -/
def Container.Before (c : Container) (x y : String) : Prop :=
  ∃ i j, c.position? x = some i ∧ c.position? y = some j ∧ i < j

/-! ## Dated bindings -/

open Bindings

/-- The times of dated bindings, in declaration order. -/
def times (d : Bindings (Nat × Variable)) : List Nat :=
  d.map fun e => e.2.1

theorem times_insert_of_get? {d : Bindings (Nat × Variable)} {name : String} {t : Nat}
    {w : Variable} (h : get? d name = some (t, w)) (v : Variable) :
    times (insert d name (t, v)) = times d := by
  induction d with
  | nil => cases h
  | cons head rest ih =>
    obtain ⟨n, e⟩ := head
    rw [get?_cons] at h
    unfold Bindings.insert
    by_cases hn : n = name
    · rw [if_pos hn] at h ⊢
      cases h
      rfl
    · rw [if_neg hn] at h ⊢
      exact congrArg (e.1 :: ·) (ih h)

theorem times_rename (d : Bindings (Nat × Variable)) (old new : String) :
    times (rename d old new) = times d := by
  induction d with
  | nil => rfl
  | cons head rest ih =>
    obtain ⟨n, e⟩ := head
    unfold Bindings.rename
    by_cases hn : n = old
    · rw [if_pos hn]
      rfl
    · rw [if_neg hn]
      exact congrArg (e.1 :: ·) ih

theorem times_erase (d : Bindings (Nat × Variable)) (name : String) :
    (times (erase d name)).Sublist (times d) := by
  induction d with
  | nil => exact List.Sublist.refl _
  | cons head rest ih =>
    obtain ⟨n, e⟩ := head
    unfold Bindings.erase
    by_cases hn : n = name
    · rw [if_pos hn]
      exact List.sublist_cons_self e.1 (times rest)
    · rw [if_neg hn]
      exact ih.cons_cons e.1

/-! ## The invariant -/

/-- A container and a ledger that have come the same way: there are dated bindings, in order of
time and all before now, of which the one has the values in their order and the other the entries by
name. -/
structure Agree (c : Container) (l : Ledger) (d : Bindings (Nat × Variable)) : Prop where
  unique : Unique d
  sorted : (times d).Pairwise (· < ·)
  past : ∀ t ∈ times d, t < l.clock
  values : mapValues Prod.snd d = c.entries
  entries : ∀ name, get? d name = l.entry name

namespace Agree

variable {c : Container} {l : Ledger} {d : Bindings (Nat × Variable)}

theorem get? (h : Agree c l d) (name : String) : c.get? name = (l.entry name).map Prod.snd := by
  unfold Container.get?
  rw [← h.values, get?_mapValues, h.entries]

theorem has (h : Agree c l d) (name : String) : c.has name = (l.entry name).isSome := by
  unfold Container.has Bindings.has
  rw [← h.values, get?_mapValues, h.entries, Option.isSome_map]

theorem not_mem_of_none (h : Agree c l d) {name : String} (hname : l.entry name = none) :
    name ∉ names d :=
  (get?_eq_none d name).mp ((h.entries name).trans hname)

theorem replace (h : Agree c l d) {name : String} {t : Nat} {w : Variable}
    (hname : l.entry name = some (t, w)) (v : Variable) :
    Agree (c.adding name v) (l.write name (some (t, v))) (insert d name (t, v)) := by
  have htimes := times_insert_of_get? ((h.entries name).trans hname) v
  refine ⟨unique_insert h.unique name (t, v), ?_, ?_, ?_, ?_⟩
  · rw [htimes]
    exact h.sorted
  · rw [htimes]
    exact h.past
  · rw [mapValues_insert, h.values]
    rfl
  · intro other
    rw [get?_insert, h.entries]
    rfl

/-- A declaration: the latest time goes to the end. -/
theorem declare (h : Agree c l d) {name : String} (hname : l.entry name = none) (v : Variable) :
    Agree (c.adding name v) { l.write name (some (l.clock, v)) with clock := l.clock + 1 }
      (insert d name (l.clock, v)) := by
  have htimes : times (insert d name (l.clock, v)) = times d ++ [l.clock] := by
    rw [insert_of_not_mem (h.not_mem_of_none hname)]
    exact List.map_append
  refine ⟨unique_insert h.unique name _, ?_, ?_, ?_, ?_⟩
  · rw [htimes, List.pairwise_append]
    refine ⟨h.sorted, List.pairwise_singleton _ _, ?_⟩
    intro t ht now hnow
    cases List.mem_singleton.mp hnow
    exact h.past t ht
  · rw [htimes]
    intro t ht
    show t < l.clock + 1
    rcases List.mem_append.mp ht with ht | ht
    · exact Nat.lt_succ_of_lt (h.past t ht)
    · cases List.mem_singleton.mp ht
      exact Nat.lt_succ_self _
  · rw [mapValues_insert, h.values]
    rfl
  · intro other
    rw [get?_insert, h.entries]
    rfl

theorem insert (h : Agree c l d) (name : String) (v : Variable) :
    ∃ d', Agree (c.adding name v) (l.insert name v) d' := by
  unfold Ledger.insert
  cases hname : l.entry name with
  | some e =>
    obtain ⟨t, w⟩ := e
    exact ⟨_, h.replace hname v⟩
  | none => exact ⟨_, h.declare hname v⟩

theorem remove (h : Agree c l d) (name : String) :
    Agree (c.remove name).2 (l.write name none) (erase d name) := by
  have hsub := times_erase d name
  refine ⟨unique_erase h.unique name, h.sorted.sublist hsub, ?_, ?_, ?_⟩
  · intro t ht
    exact h.past t (hsub.subset ht)
  · rw [mapValues_erase, h.values]
    rfl
  · intro other
    rw [get?_erase h.unique, h.entries]
    rfl

theorem move (h : Agree c l d) {old new : String} {e : Nat × Variable}
    (hold : l.entry old = some e) (hnew : l.entry new = none) :
    Agree ⟨rename c.entries old new⟩ ((l.write old none).write new (some e))
      (rename d old new) := by
  have hfree := h.not_mem_of_none hnew
  refine ⟨unique_rename h.unique old hfree, ?_, ?_, ?_, ?_⟩
  · rw [times_rename]
    exact h.sorted
  · rw [times_rename]
    exact h.past
  · rw [mapValues_rename, h.values]
  · intro other
    rw [get?_rename h.unique hfree, h.entries, h.entries, hold]
    rfl

theorem nil (l : Ledger) : Agree .empty { l with entry := fun _ => none } [] :=
  ⟨List.nodup_nil, List.Pairwise.nil, (fun t ht => by cases ht), rfl, fun _ => rfl⟩

theorem set (h : Agree c l d) (name : String) (v : Variable) :
    (c.set name v).1 = (l.set name v).1 ∧ ∃ d', Agree (c.set name v).2 (l.set name v).2 d' := by
  unfold Container.set Ledger.set
  rw [h.has name]
  cases hname : l.entry name with
  | some e => exact ⟨rfl, _, h.replace hname v⟩
  | none => exact ⟨rfl, d, h⟩

/-- A renaming succeeds on both sides, or fails on both for the same reason and changes nothing. -/
theorem rename (h : Agree c l d) (old new : String) :
    match c.rename old new with
    | .ok c' => (l.rename old new).1 = .ok () ∧ ∃ d', Agree c' (l.rename old new).2 d'
    | .error e => l.rename old new = (.error e, l) := by
  unfold Container.rename Ledger.rename
  rw [h.has new, h.has old]
  -- Both look at the same three things in the same order.
  by_cases hsame : new = old
  · rw [if_pos hsame, if_pos hsame]
    cases hold : l.entry old with
    | some e => exact ⟨rfl, d, h⟩
    | none => rfl
  · rw [if_neg hsame, if_neg hsame]
    cases hnew : l.entry new with
    | some e => rfl
    | none =>
      cases hold : l.entry old with
      | some e => exact ⟨rfl, _, h.move hold hnew⟩
      | none => rfl

/-- **One edit keeps the two in step**, and both answer it alike. -/
theorem step (h : Agree c l d) (e : Edit) :
    (c.step e).1 = (l.step e).1 ∧ ∃ d', Agree (c.step e).2 (l.step e).2 d' := by
  cases e with
  | insert name v =>
    refine ⟨?_, h.insert name v⟩
    show Answer.value (c.get? name) = _
    rw [h.get? name]
    rfl
  | adding name v => exact ⟨rfl, h.insert name v⟩
  | set name v =>
    obtain ⟨hanswer, hagree⟩ := h.set name v
    exact ⟨congrArg Answer.value hanswer, hagree⟩
  | remove name =>
    refine ⟨?_, _, h.remove name⟩
    show Answer.value (c.get? name) = _
    rw [h.get? name]
    rfl
  | rename old new =>
    have hrename := h.rename old new
    show _ = Answer.renamed (l.rename old new).1
      ∧ ∃ d', Agree (c.step (.rename old new)).2 (l.rename old new).2 d'
    cases hc : c.rename old new with
    | ok c' =>
      rw [hc] at hrename
      obtain ⟨hanswer, hagree⟩ := hrename
      rw [Container.step_rename_ok hc, hanswer]
      exact ⟨rfl, hagree⟩
    | error refusal =>
      have hsame : l.rename old new = (.error refusal, l) := by
        rw [hc] at hrename
        exact hrename
      rw [Container.step_rename_error hc, hsame]
      exact ⟨rfl, d, h⟩
  | clear => exact ⟨rfl, [], nil l⟩

/-- **A whole run keeps them in step.** -/
theorem run : ∀ (edits : List Edit) {c : Container} {l : Ledger} {d : Bindings (Nat × Variable)},
    Agree c l d → (c.run edits).1 = (l.run edits).1 ∧ ∃ d', Agree (c.run edits).2 (l.run edits).2 d'
  | [], _, _, d, h => ⟨rfl, d, h⟩
  | e :: rest, _, _, _, h => by
    obtain ⟨hanswer, d', h'⟩ := h.step e
    obtain ⟨hanswers, hrest⟩ := run rest h'
    refine ⟨?_, hrest⟩
    show _ :: _ = _ :: _
    rw [hanswer, hanswers]

/-! ## What they agree on -/

theorem sorts (h : Agree c l d) : l.Sorts c.entries := by
  refine ⟨d.map fun e => (e.2.1, e.1, e.2.2), ?_, ?_, ?_⟩
  · rw [List.pairwise_map]
    exact List.pairwise_map.mp h.sorted
  · rw [List.map_map]
    exact h.values
  · intro t name v
    rw [← h.entries name, get?_eq_some_iff h.unique, List.mem_map]
    constructor
    · rintro ⟨⟨n, s, w⟩, hmem, heq⟩
      cases heq
      exact hmem
    · intro hmem
      exact ⟨_, hmem, rfl⟩

/-- The time at a position is the time of the name that stands there. -/
theorem time_at (h : Agree c l d) {name : String} {i : Nat} (hi : c.position? name = some i) :
    ∃ t v, (times d)[i]? = some t ∧ l.entry name = some (t, v) := by
  unfold Container.position? at hi
  rw [← h.values, position?_mapValues] at hi
  obtain ⟨⟨t, v⟩, hget⟩ := getElem?_of_position? hi
  have hmem : (name, t, v) ∈ d := List.mem_of_getElem? hget
  refine ⟨t, v, ?_, ?_⟩
  · unfold times
    rw [List.getElem?_map, hget]
    rfl
  · rw [← h.entries name]
    exact (get?_eq_some_iff h.unique).mpr hmem

theorem position_of_entry (h : Agree c l d) {name : String} {e : Nat × Variable}
    (he : l.entry name = some e) : ∃ i, c.position? name = some i := by
  have hsome : (c.position? name).isSome = true := by
    unfold Container.position?
    rw [isSome_position?]
    show (c.get? name).isSome = true
    rw [h.get? name, he]
    rfl
  exact Option.isSome_iff_exists.mp hsome

theorem lt_of_lt (h : Agree c l d) {i j s t : Nat} (hs : (times d)[i]? = some s)
    (ht : (times d)[j]? = some t) (hij : i < j) : s < t := by
  obtain ⟨hi, rfl⟩ := List.getElem?_eq_some_iff.mp hs
  obtain ⟨hj, rfl⟩ := List.getElem?_eq_some_iff.mp ht
  exact List.pairwise_iff_getElem.mp h.sorted i j hi hj hij

/-- **A variable stands before another exactly if it was declared earlier.** -/
theorem before_iff (h : Agree c l d) (x y : String) : c.Before x y ↔ l.Earlier x y := by
  constructor
  · rintro ⟨i, j, hi, hj, hij⟩
    obtain ⟨s, v, hs, hx⟩ := h.time_at hi
    obtain ⟨t, w, ht, hy⟩ := h.time_at hj
    exact ⟨s, t, v, w, hx, hy, h.lt_of_lt hs ht hij⟩
  · rintro ⟨s, t, v, w, hx, hy, hst⟩
    obtain ⟨i, hi⟩ := h.position_of_entry hx
    obtain ⟨j, hj⟩ := h.position_of_entry hy
    -- The places are there; were they the other way round, so would be the times.
    obtain ⟨s', _, hs, hx'⟩ := h.time_at hi
    obtain ⟨t', _, ht, hy'⟩ := h.time_at hj
    cases hx.symm.trans hx'
    cases hy.symm.trans hy'
    refine ⟨i, j, hi, hj, Nat.lt_of_not_le fun hji => ?_⟩
    rcases Nat.lt_or_eq_of_le hji with hji | rfl
    · exact Nat.lt_asymm hst (h.lt_of_lt ht hs hji)
    · cases hs.symm.trans ht
      exact Nat.lt_irrefl s hst

end Agree

/-! ## The others -/

/-- **An edit leaves the entries of all other names as they are.** -/
theorem Ledger.entry_step (l : Ledger) {e : Edit} {name : String} (h : ¬ e.concerns name) :
    (l.step e).2.entry name = l.entry name := by
  have hwrite : ∀ (l : Ledger) {n : String} (entry : Option (Nat × Variable)), ¬ name = n →
      (l.write n entry).entry name = l.entry name := fun _ _ _ hn => if_neg (Ne.symm hn)
  cases e with
  | insert n v =>
    show (l.insert n v).entry name = _
    unfold Ledger.insert
    cases l.entry n with
    | some e => exact hwrite l _ h
    | none => exact hwrite l _ h
  | adding n v =>
    show (l.insert n v).entry name = _
    unfold Ledger.insert
    cases l.entry n with
    | some e => exact hwrite l _ h
    | none => exact hwrite l _ h
  | set n v =>
    show (l.set n v).2.entry name = _
    unfold Ledger.set
    cases l.entry n with
    | some e => exact hwrite l _ h
    | none => rfl
  | remove n => exact hwrite l none h
  | rename old new =>
    obtain ⟨hold, hnew⟩ := not_or.mp h
    show (l.rename old new).2.entry name = _
    unfold Ledger.rename
    by_cases hsame : new = old
    · rw [if_pos hsame]
    · rw [if_neg hsame]
      cases l.entry new with
      | some e => rfl
      | none =>
        cases l.entry old with
        | some e => exact (hwrite _ _ hnew).trans (hwrite l none hold)
        | none => rfl
  | clear => exact absurd trivial h

theorem agree_empty : Agree .empty .empty [] :=
  .nil .empty

/-- What is true after these edits of an empty container, beside a ledger with the same edits. -/
structure InStep (edits : List Edit) (c : Container) (l : Ledger) : Prop where
  /-- Every edit was answered as the ledger answers it. -/
  answers : (Container.empty.run edits).1 = (Ledger.empty.run edits).1
  /-- The container lists the entries of the ledger in order of time. -/
  sorts : l.Sorts c.toList
  /-- One stands before another exactly if it was declared earlier. -/
  before_iff : ∀ x y, c.Before x y ↔ l.Earlier x y
  /-- Whatever edit comes next, it leaves the values of all others as they are, -/
  value_step : ∀ e : Edit, ∀ x, ¬ e.concerns x → (c.step e).2.get? x = c.get? x
  /-- and their order. -/
  before_step : ∀ e : Edit, ∀ x y, ¬ e.concerns x → ¬ e.concerns y →
    ((c.step e).2.Before x y ↔ c.Before x y)

/-- **Containers keep declaration order over any run.** -/
theorem container_in_step (edits : List Edit) :
    InStep edits (Container.empty.run edits).2 (Ledger.empty.run edits).2 := by
  obtain ⟨hanswers, d, h⟩ := agree_empty.run edits
  refine ⟨hanswers, h.sorts, h.before_iff, ?_, ?_⟩
  · intro e x hx
    obtain ⟨-, d', h'⟩ := h.step e
    rw [h'.get? x, h.get? x, Ledger.entry_step _ hx]
  · intro e x y hx hy
    obtain ⟨-, d', h'⟩ := h.step e
    rw [h'.before_iff, h.before_iff]
    unfold Ledger.Earlier
    rw [Ledger.entry_step _ hx, Ledger.entry_step _ hy]

end ScopedVars
