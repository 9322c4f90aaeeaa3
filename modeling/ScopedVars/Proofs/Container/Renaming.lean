import ScopedVars.Container.Lemmas
import ScopedVars.Proofs.Container.Timeline
import ScopedVars.Proofs.Workspace.Frame

/-!
# `Proofs/Container/Renaming` — renaming is exact, atomic and reversible

Renaming a variable looks at three things in turn: whether the two names are the same, whether the
new one is taken, whether the old one is there. The four outcomes are four equations
(`rename_self`, `rename_taken`, `rename_free`, `rename_missing`), and no case is left over. The
order shows in one of them only: a name that is taken is reported also where there is nothing to
rename.

What a renaming that succeeds does is said in two ways, which come to the same. It writes another
name over the one of an entry. And it takes the entry out and puts it back, with the other name, at
the position where it was.

Going back needs that no name comes twice: the container that `a` was renamed in may then have no
other `a`. All containers of a program are such (`Workspace.Reachable.namesUnique`).
-/

set_option autoImplicit false

namespace ScopedVars

namespace Container

variable {c c' : Container} {a b : String}

/-! ## The four outcomes -/

theorem rename_self (ha : c.has a = true) : c.rename a a = .ok c := by
  simp [rename, ha]

theorem rename_taken (hab : b ≠ a) (hb : c.has b = true) :
    c.rename a b = .error (.nameTaken b) := by
  simp [rename, hab, hb]

theorem rename_free (hab : b ≠ a) (ha : c.has a = true) (hb : c.has b = false) :
    c.rename a b = .ok ⟨Bindings.rename c.entries a b⟩ := by
  simp [rename, hab, ha, hb]

theorem rename_missing (ha : c.has a = false) (hb : b = a ∨ c.has b = false) :
    c.rename a b = .error (.variableNotFound a) := by
  rcases hb with rfl | hb
  · simp [rename, ha]
  · simp [rename, ha, hb]

/-- A renaming that succeeds found both names as they should be, and wrote the one over the other.
(Writing a name over itself does nothing.) -/
theorem rename_eq_ok (h : c.rename a b = .ok c') :
    c.has a = true ∧ (b = a ∨ c.has b = false) ∧ c' = ⟨Bindings.rename c.entries a b⟩ := by
  by_cases hab : b = a
  · subst hab
    cases hb : c.has b with
    | false =>
      rw [rename_missing hb (Or.inl rfl)] at h
      cases h
    | true =>
      rw [rename_self hb] at h
      cases h
      exact ⟨rfl, Or.inl rfl, by simp⟩
  · cases hb : c.has b with
    | true =>
      rw [rename_taken hab hb] at h
      cases h
    | false =>
      cases ha : c.has a with
      | false =>
        rw [rename_missing ha (Or.inr hb)] at h
        cases h
      | true =>
        rw [rename_free hab ha hb] at h
        cases h
        exact ⟨rfl, Or.inr rfl, rfl⟩

theorem exists_rename_iff :
    (∃ c', c.rename a b = .ok c') ↔ c.has a = true ∧ (b = a ∨ c.has b = false) := by
  constructor
  · rintro ⟨c', h⟩
    obtain ⟨ha, hb, -⟩ := rename_eq_ok h
    exact ⟨ha, hb⟩
  · rintro ⟨ha, hb⟩
    by_cases hab : b = a
    · subst hab
      exact ⟨c, rename_self ha⟩
    · exact ⟨_, rename_free hab ha (hb.resolve_left hab)⟩

/-- The error tells which of the checks failed, and the new name is looked at first. -/
theorem rename_eq_error {e : Refusal} (h : c.rename a b = .error e) :
    e = if b ≠ a ∧ c.has b = true then .nameTaken b else .variableNotFound a := by
  by_cases hb : b ≠ a ∧ c.has b = true
  · rw [if_pos hb]
    rw [rename_taken hb.1 hb.2] at h
    cases h
    rfl
  · rw [if_neg hb]
    have hfree : b = a ∨ c.has b = false := by simpa [Classical.or_iff_not_imp_left] using hb
    cases ha : c.has a with
    | false =>
      rw [rename_missing ha hfree] at h
      cases h
      rfl
    | true =>
      obtain ⟨c', hok⟩ := exists_rename_iff.mpr ⟨ha, hfree⟩
      rw [hok] at h
      cases h

/-! ## What a renaming does -/

/-- `c'` is `c` with the name `b` in the place of the name `a`. -/
structure Renamed (c : Container) (a b : String) (c' : Container) : Prop where
  /-- One entry has another name. Its value is the same, and all other entries are untouched. -/
  entries : ∃ i v, c.position? a = some i ∧ c.get? a = some v ∧ c'.toList = c.toList.set i (b, v)
  /-- The variable was taken out, and put back where it was. -/
  moved : ∃ i v, c.position? a = some i ∧ (c.remove a).1 = some v
    ∧ c'.toList = (c.remove a).2.toList.insertIdx i (b, v)
  value : c'.get? b = c.get? a
  position : c'.position? b = c.position? a
  gone : b ≠ a → c'.has a = false
  others : ∀ x, x ≠ a → x ≠ b → c'.get? x = c.get? x ∧ c'.position? x = c.position? x
  /-- Renaming back makes it what it was. -/
  back : c'.rename b a = .ok c

theorem renamed_of_eq_ok (hc : c.names.Nodup) (h : c.rename a b = .ok c') : c.Renamed a b c' := by
  obtain ⟨ha, hb, rfl⟩ := rename_eq_ok h
  obtain ⟨i, v, hi, hv⟩ := exists_entry ha
  have hentries : ∃ i v, c.position? a = some i ∧ c.get? a = some v
      ∧ Bindings.rename c.entries a b = c.entries.set i (b, v) :=
    ⟨i, v, hi, hv, Bindings.rename_eq_set hi hv b⟩
  have hmoved : ∃ i v, c.position? a = some i ∧ (c.remove a).1 = some v
      ∧ Bindings.rename c.entries a b = (c.remove a).2.entries.insertIdx i (b, v) :=
    ⟨i, v, hi, hv, Bindings.rename_eq_insertIdx hi hv b⟩
  by_cases hab : b = a
  · subst hab
    have hsame : (⟨Bindings.rename c.entries b b⟩ : Container) = c := by simp
    refine ⟨hentries, hmoved, ?_, ?_, fun hne => absurd rfl hne, fun x _ _ => ?_, ?_⟩
    · rw [hsame]
    · rw [hsame]
    · rw [hsame]
      exact ⟨rfl, rfl⟩
    · rw [hsame]
      exact rename_self ha
  · have hfree : b ∉ Bindings.names c.entries := has_eq_false_iff_not_mem.mp (hb.resolve_left hab)
    have hget : ∀ x, Bindings.get? (Bindings.rename c.entries a b) x
        = if b = x then c.get? a else if a = x then none else c.get? x :=
      Bindings.get?_rename hc hfree
    have hposition : ∀ x, Bindings.position? (Bindings.rename c.entries a b) x
        = if b = x then c.position? a else if a = x then none else c.position? x :=
      Bindings.position?_rename hc hfree
    have hvalue : Bindings.get? (Bindings.rename c.entries a b) b = c.get? a := by
      rw [hget, if_pos rfl]
    have hgone : Bindings.has (Bindings.rename c.entries a b) a = false := by
      simp [Bindings.has, hget, hab]
    refine ⟨hentries, hmoved, hvalue, ?_, fun _ => hgone, fun x hxa hxb => ⟨?_, ?_⟩, ?_⟩
    · show Bindings.position? _ b = _
      rw [hposition, if_pos rfl]
    · show Bindings.get? _ x = _
      rw [hget, if_neg (Ne.symm hxb), if_neg (Ne.symm hxa)]
    · show Bindings.position? _ x = _
      rw [hposition, if_neg (Ne.symm hxb), if_neg (Ne.symm hxa)]
    · -- The old name is free now, so the way back is open, and it leads to the same entries.
      have hhas : Bindings.has (Bindings.rename c.entries a b) b = true := by
        unfold Bindings.has
        rw [hvalue]
        exact ha
      rw [rename_free (Ne.symm hab) hhas hgone]
      show Except.ok (⟨Bindings.rename (Bindings.rename c.entries a b) b a⟩ : Container) = .ok c
      rw [Bindings.rename_rename hfree]

/-- **Renaming is exact, atomic and reversible.** It succeeds exactly if the old name is there and
the new one is free or the same. Then it changes one name and nothing else, and renaming back undoes
it. If it fails, the error tells why, and the whole workspace that the container stands in is as it
was. -/
theorem rename_exact_and_reversible {c : Container} (hc : c.names.Nodup) (a b : String) :
    ((∃ c', c.rename a b = .ok c') ↔ c.has a = true ∧ (b = a ∨ c.has b = false))
    ∧ (∀ c', c.rename a b = .ok c' → c.Renamed a b c')
    ∧ ∀ e, c.rename a b = .error e →
        e = (if b ≠ a ∧ c.has b = true then .nameTaken b else .variableNotFound a)
        ∧ ∀ (w : Workspace) (ref : ContainerRef) (target : Placed ContainerPlace Container),
            w.container? ref = some target → target.object = c →
            w.editContainer ref (·.step (.rename a b)) = some (.renamed (.error e), w) := by
  refine ⟨exists_rename_iff, fun c' h => renamed_of_eq_ok hc h, fun e h => ⟨rename_eq_error h, ?_⟩⟩
  rintro w ref target htarget rfl
  rw [Workspace.editContainer_eq htarget, step_rename_error h,
    Workspace.setContainer_of_containerAt? (Workspace.container?_eq_some.mp htarget).2]

/-- Three variables in a row. -/
def trio : Container :=
  ⟨[("a", .boolean true), ("b", .string "second"), ("c", .number .zero)]⟩

/-- The one in the middle gets another name and gets it back. A taken name is refused, also for a
variable that is not there, and the workspace stays as it is. -/
theorem trio_renamed_and_back : trio.names.Nodup
    ∧ (∃ c', trio.rename "b" "beta" = .ok c' ∧ c'.names = ["a", "beta", "c"]
      ∧ c'.rename "beta" "b" = .ok trio)
    ∧ ∃ w : Workspace, w.container? (.loose "free") = some ⟨.loose "free", trio⟩
      ∧ w.editContainer (.loose "free") (·.step (.rename "z" "c"))
        = some (.renamed (.error (.nameTaken "c")), w) := by
  have hnames : trio.names.Nodup := by decide
  have h := rename_exact_and_reversible hnames "b" "beta"
  obtain ⟨c', hc'⟩ := h.1.mpr ⟨rfl, Or.inr rfl⟩
  have hentries : c'.names = ["a", "beta", "c"] := by
    cases hc'
    rfl
  refine ⟨hnames, ⟨c', hc', hentries, (h.2.1 c' hc').back⟩, ⟨[], [], [("free", trio)]⟩, rfl, ?_⟩
  exact ((rename_exact_and_reversible hnames "z" "c").2.2 (.nameTaken "c") rfl).2 _ _ _ rfl rfl

end Container

end ScopedVars
