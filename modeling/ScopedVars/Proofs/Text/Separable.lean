import Mathlib.Data.List.Basic
import ScopedVars.Text.Pieces
import ScopedVars.Text.Quoted

/-!
# `Proofs/Text/Separable` — texts that say where they end

A text of several parts can be taken apart if each part can be told from whatever follows it. That
is a property of the function that writes the part:

> `Separable text form a`: if the text of `a`, with something behind it, is also a text of `b` with
> something behind it, then `a` and `b` have the same form, and the same is behind both.

*The same form*, because a text need not show everything; what it does show is up to `form`.

A quoted string is separable, whatever characters it has (`separable_quoted`): an unescaped quote
ends it, and there is none inside. So is a row of separable pieces with a closing bracket behind it,
as long as no piece begins with that bracket (`separable_spaced`).
-/

set_option autoImplicit false

namespace ScopedVars

namespace Text

variable {α β : Type*}

/-- The text of `a` can be told from what follows it, and tells the form of `a`. -/
def Separable (text : α → List Char) (form : α → β) (a : α) : Prop :=
  ∀ (b : α) (r r' : List Char), text a ++ r = text b ++ r' → form a = form b ∧ r = r'

/-- With nothing behind the texts. -/
theorem Separable.form_eq {text : α → List Char} {form : α → β} {a b : α}
    (h : Separable text form a) (heq : text a = text b) : form a = form b :=
  (h b [] [] (by rw [heq])).1

/-! ## Quoted strings -/

/-- What stands before the first of a character is told by where that is. -/
theorem cut_of_notMem {a : Char} : ∀ {cs ds : List Char}, a ∉ cs → a ∉ ds →
    ∀ {r r' : List Char}, cs ++ a :: r = ds ++ a :: r' → cs = ds ∧ r = r'
  | [], [], _, _, _, _, h => ⟨rfl, (List.cons.inj h).2⟩
  | [], d :: ds, _, hd, _, _, h => absurd ((List.cons.inj h).1 ▸ List.mem_cons_self) hd
  | c :: cs, [], hc, _, _, _, h => absurd ((List.cons.inj h).1 ▸ List.mem_cons_self) hc
  | c :: cs, d :: ds, hc, hd, _, _, h => by
    obtain ⟨hhead, htail⟩ := List.cons.inj h
    obtain ⟨hcs, hr⟩ := cut_of_notMem (fun h => hc (List.mem_cons_of_mem _ h))
      (fun h => hd (List.mem_cons_of_mem _ h)) htail
    exact ⟨by rw [hhead, hcs], hr⟩

theorem digitChar_inj : ∀ a < 16, ∀ b < 16, a.digitChar = b.digitChar → a = b := by
  decide

theorem toDigits_sixteen_inj {n m : Nat} (h : Nat.toDigits 16 n = Nat.toDigits 16 m) : n = m := by
  induction n using Nat.strongRecOn generalizing m with
  | _ n ih =>
    rw [Nat.toDigits_eq_if (by decide), Nat.toDigits_eq_if (n := m) (by decide)] at h
    split at h <;> split at h
    case isTrue.isTrue hn hm => exact digitChar_inj n hn m hm (List.singleton_inj.mp h)
    case isTrue.isFalse hn hm =>
      have hlength := congrArg List.length h
      have hpos : 0 < (Nat.toDigits 16 (m / 16)).length := Nat.length_toDigits_pos
      simp only [List.length_append, List.length_singleton] at hlength
      omega
    case isFalse.isTrue hn hm =>
      have hlength := congrArg List.length h
      have hpos : 0 < (Nat.toDigits 16 (n / 16)).length := Nat.length_toDigits_pos
      simp only [List.length_append, List.length_singleton] at hlength
      omega
    case isFalse.isFalse hn hm =>
      obtain ⟨hfront, hlast⟩ := List.append_inj' h rfl
      have hdiv := ih (n / 16) (by omega) hfront
      have hmod := digitChar_inj _ (Nat.mod_lt n (by decide)) _ (Nat.mod_lt m (by decide))
        (List.singleton_inj.mp hlast)
      omega

theorem brace_notMem_toDigits (n : Nat) : '}' ∉ Nat.toDigits 16 n := by
  induction n using Nat.strongRecOn with
  | _ n ih =>
    rw [Nat.toDigits_eq_if (by decide)]
    split
    · simp
    · simp only [List.mem_append, List.mem_singleton, not_or]
      exact ⟨ih (n / 16) (by omega), by simp⟩

/-- The characters that stand behind a backslash for another one, but for a code point. -/
def shorthand? : Char → Option Char
  | '0' => some '\x00'
  | 't' => some '\t'
  | 'n' => some '\n'
  | 'r' => some '\r'
  | '"' => some '"'
  | '\\' => some '\\'
  | _ => none

/-- A character is written as itself, by a shorthand or by its code point. -/
theorem escape_cases (c : Char) :
    (escape c = [c] ∧ c ≠ '"' ∧ c ≠ '\\')
      ∨ (∃ e, escape c = ['\\', e] ∧ shorthand? e = some c)
      ∨ escape c = '\\' :: 'u' :: '{' :: (Nat.toDigits 16 c.toNat ++ ['}']) := by
  unfold escape
  split
  case h_1 => exact .inr (.inl ⟨'0', rfl, rfl⟩)
  case h_2 => exact .inr (.inl ⟨'t', rfl, rfl⟩)
  case h_3 => exact .inr (.inl ⟨'n', rfl, rfl⟩)
  case h_4 => exact .inr (.inl ⟨'r', rfl, rfl⟩)
  case h_5 => exact .inr (.inl ⟨'"', rfl, rfl⟩)
  case h_6 => exact .inr (.inl ⟨'\\', rfl, rfl⟩)
  case h_7 hquote hbackslash =>
    split
    · exact .inl ⟨rfl, hquote, hbackslash⟩
    · exact .inr (.inr rfl)

/-- A backslash says that it is not the character itself, and what follows it which way it is
written. -/
theorem separable_escape (c : Char) : Separable escape id c := by
  intro d r r' h
  -- The cases of `d` stand inside those of `c`: only three of the nine are written alike.
  rcases escape_cases c with ⟨hc, -, hcb⟩ | ⟨e, hc, hce⟩ | hc <;>
    rcases escape_cases d with ⟨hd, -, hdb⟩ | ⟨f, hd, hdf⟩ | hd <;>
    rw [hc, hd] at h
  · obtain ⟨hcd, hr⟩ := List.cons.inj h
    exact ⟨hcd, hr⟩
  · exact absurd (List.cons.inj h).1 hcb
  · exact absurd (List.cons.inj h).1 hcb
  · exact absurd (List.cons.inj h).1.symm hdb
  · simp only [List.cons_append, List.nil_append, List.cons.injEq, true_and] at h
    rw [h.1, hdf] at hce
    exact ⟨(Option.some.inj hce).symm, h.2⟩
  · simp only [List.cons_append, List.nil_append, List.cons.injEq, true_and] at h
    rw [h.1] at hce
    cases hce
  · exact absurd (List.cons.inj h).1.symm hdb
  · simp only [List.cons_append, List.nil_append, List.cons.injEq, true_and] at h
    rw [← h.1] at hdf
    cases hdf
  · simp only [List.cons_append, List.append_assoc, List.nil_append, List.cons.injEq,
      true_and] at h
    obtain ⟨hdigits, hr⟩ := cut_of_notMem (brace_notMem_toDigits _) (brace_notMem_toDigits _) h
    exact ⟨Char.toNat_inj.mp (toDigits_sixteen_inj hdigits), hr⟩

/-- The quote that ends a string is none of its characters. -/
theorem head_escape_ne_quote (c : Char) (rest : List Char) :
    (escape c ++ rest).head? ≠ some '"' := by
  rcases escape_cases c with ⟨hc, hquote, -⟩ | ⟨e, hc, -⟩ | hc <;> rw [hc]
  · simpa using hquote
  · simp
  · simp

theorem escaped_cut : ∀ (cs ds : List Char) (r r' : List Char),
    cs.flatMap escape ++ '"' :: r = ds.flatMap escape ++ '"' :: r' → cs = ds ∧ r = r' := by
  intro cs
  induction cs with
  | nil =>
    intro ds r r' h
    cases ds with
    | nil => exact ⟨rfl, (List.cons.inj h).2⟩
    | cons d ds =>
      rw [List.flatMap_cons, List.append_assoc] at h
      exact absurd (congrArg List.head? h).symm (head_escape_ne_quote d _)
  | cons c cs ih =>
    intro ds r r' h
    cases ds with
    | nil =>
      rw [List.flatMap_cons, List.append_assoc] at h
      exact absurd (congrArg List.head? h) (head_escape_ne_quote c _)
    | cons d ds =>
      rw [List.flatMap_cons, List.flatMap_cons, List.append_assoc, List.append_assoc] at h
      obtain ⟨hc, hrest⟩ := separable_escape c d _ _ h
      obtain ⟨hcs, hr⟩ := ih ds r r' hrest
      exact ⟨by rw [show c = d from hc, hcs], hr⟩

/-- **A quoted string says where it ends**, and tells all of its characters. -/
theorem separable_quoted (s : String) : Separable quoted id s := by
  intro t r r' h
  unfold quoted at h
  rw [List.cons_append, List.cons_append, List.append_assoc, List.append_assoc] at h
  obtain ⟨hchars, hr⟩ := escaped_cut s.toList t.toList r r' (List.cons.inj h).2
  exact ⟨String.toList_inj.mp hchars, hr⟩

/-! ## Rows -/

theorem spaced_cons (piece : List Char) (rest : List (List Char)) :
    spaced (piece :: rest) = piece ++ rest.flatMap fun p => ',' :: ' ' :: p := by
  induction rest generalizing piece with
  | nil => rw [List.flatMap_nil, List.append_nil]; rfl
  | cons next rest ih =>
    rw [List.flatMap_cons, List.cons_append, List.cons_append, ← ih next]
    rfl

/-- Behind the first piece a comma goes on with the row and the closing bracket ends it. -/
theorem row_cut {text : α → List Char} {form : α → β} {close : Char} (hcomma : close ≠ ',')
    {as : List α} (h : ∀ a ∈ as, Separable text form a) :
    ∀ (bs : List α) (r r' : List Char),
      ((as.map text).flatMap fun p => ',' :: ' ' :: p) ++ close :: r
        = ((bs.map text).flatMap fun p => ',' :: ' ' :: p) ++ close :: r' →
      as.map form = bs.map form ∧ r = r' := by
  induction as with
  | nil =>
    intro bs r r' heq
    cases bs with
    | nil => exact ⟨rfl, (List.cons.inj heq).2⟩
    | cons b bs => exact absurd (List.cons.inj heq).1 hcomma
  | cons a as ih =>
    intro bs r r' heq
    cases bs with
    | nil => exact absurd (List.cons.inj heq).1.symm hcomma
    | cons b bs =>
      obtain ⟨ha, has⟩ := List.forall_mem_cons.mp h
      simp only [List.map_cons, List.flatMap_cons, List.cons_append, List.append_assoc,
        List.cons.injEq, true_and] at heq
      obtain ⟨hform, hrest⟩ := ha b _ _ heq
      obtain ⟨hforms, hr⟩ := ih has bs r r' hrest
      exact ⟨by rw [List.map_cons, List.map_cons, hform, hforms], hr⟩

/-- **A row of separable pieces with a closing bracket says where it ends.** -/
theorem separable_spaced {text : α → List Char} {form : α → β} {close : Char}
    (hcomma : close ≠ ',') (hclose : ∀ a, ∃ c, (text a).head? = some c ∧ c ≠ close) {as : List α}
    (h : ∀ a ∈ as, Separable text form a) :
    Separable (fun as => spaced (as.map text) ++ [close]) (List.map form) as := by
  intro bs r r' heq
  simp only [List.append_assoc, List.singleton_append] at heq
  have hfirst : ∀ a rest, (text a ++ rest).head? ≠ some close := by
    intro a rest
    obtain ⟨c, hc, hne⟩ := hclose a
    rw [List.head?_append, hc]
    exact fun h => hne (Option.some.inj h)
  cases as with
  | nil =>
    cases bs with
    | nil => exact ⟨rfl, (List.cons.inj heq).2⟩
    | cons b bs =>
      rw [List.map_cons, spaced_cons, List.append_assoc] at heq
      exact absurd (congrArg List.head? heq).symm (hfirst b _)
  | cons a as =>
    cases bs with
    | nil =>
      rw [List.map_cons, spaced_cons, List.append_assoc] at heq
      exact absurd (congrArg List.head? heq) (hfirst a _)
    | cons b bs =>
      obtain ⟨ha, has⟩ := List.forall_mem_cons.mp h
      rw [List.map_cons, List.map_cons, spaced_cons, spaced_cons, List.append_assoc,
        List.append_assoc] at heq
      obtain ⟨hform, hrest⟩ := ha b _ _ heq
      obtain ⟨hforms, hr⟩ := row_cut hcomma has bs r r' hrest
      exact ⟨by rw [List.map_cons, List.map_cons, hform, hforms], hr⟩

end Text

end ScopedVars
