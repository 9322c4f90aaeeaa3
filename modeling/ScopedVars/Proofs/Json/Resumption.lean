import ScopedVars.Proofs.Json.Entries

/-!
# `Proofs/Json/Resumption` — documents of texts that go on

When a text breaks off, its document says so where it does, and everything around that place is cut.
When the text goes on, that place is filled, and what is around it goes on or is cut in another way.
`Document.Resumes d d'` is that relation: `d'` may be the document of a longer text than that of
`d`.

Not every place at which a text breaks off is one where it has merely ended. A word can be cut where
a key should be, and that is wrong whatever comes next. What is around such a place is cut in the
same way in both documents (`GoesOn.same`).

What a reader makes of the two is the second half: its answer is that the text has ended, or else
it stays as it is (`Persists`). That is proved here of lists and maps as such, given the same of
what is done with an entry; the readers themselves follow in `Proofs/Json/Persistence`.
-/

set_option autoImplicit false

namespace ScopedVars

namespace Json

/-! ## Resumption -/

/-- The token may have become the other one, when the text went on. -/
inductive Token.Resumes : Token → Token → Prop where
  | null : Resumes (.flaw (.word .ended)) .null
  | boolean (b : Bool) : Resumes (.flaw (.word .ended)) (.boolean b)
  | word (fault : Fault) : Resumes (.flaw (.word .ended)) (.flaw (.word fault))
  | numeral (fault : Fault) : Resumes (.flaw (.numeral .ended)) (.flaw (.numeral fault))
  | string (s : Option String) : Resumes (.flaw (.string .ended .ended)) (.string s)
  | unclosed (reading skipping : Fault) :
      Resumes (.flaw (.string .ended .ended)) (.flaw (.string reading skipping))
  /-- A string with half a surrogate pair in it has no contents, however it goes on. -/
  | broken : Resumes (.flaw (.string .malformed .ended)) (.string none)
  | brokenUnclosed (skipping : Fault) :
      Resumes (.flaw (.string .malformed .ended)) (.flaw (.string .malformed skipping))

/-- The same of a token in the place of a key, where a text may have ended before any token. -/
inductive Token.ResumesKey : Token → Token → Prop where
  | ended (key : Token) : ResumesKey (.flaw .ended) key
  | token {key key' : Token} (h : key.Resumes key') : ResumesKey key key'

/-- How a list or map may go on that is cut: with more entries and to any end if the text has ended
in it, and not at all if it is at fault. -/
inductive GoesOn {β : Type} : Ending → List β → Ending → Prop where
  | open {more : List β} {ending : Ending} : GoesOn (.cut .ended) more ending
  | same {fault : Fault} : GoesOn (.cut fault) [] (.cut fault)

/-- The last item is the one at which the first list is cut. -/
inductive ResumesItems (R : Document → Document → Prop) :
    List Document → Ending → List Document → Ending → Prop where
  /-- Nothing but the opening bracket was there. -/
  | start {items : List Document} {ending : Ending} :
      ResumesItems R [.leaf (.flaw .ended)] (.cut .ended) items ending
  | item {before more : List Document} {last last' : Document} {ending ending' : Ending}
      (h : R last last') (hends : GoesOn ending more ending') :
      ResumesItems R (before ++ [last]) ending (before ++ last' :: more) ending'

/-- The last member is the one at which the first map is cut: in its value or in its key. -/
inductive ResumesMembers (R : Document → Document → Prop) :
    List (Token × Document) → Ending → List (Token × Document) → Ending → Prop where
  | start {value : Document} {members : List (Token × Document)} {ending : Ending} :
      ResumesMembers R [(.flaw .ended, value)] (.cut .ended) members ending
  | value {before more : List (Token × Document)} {key : Token} {last last' : Document}
      {ending ending' : Ending} (h : R last last') (hends : GoesOn ending more ending') :
      ResumesMembers R (before ++ [(key, last)]) ending (before ++ (key, last') :: more) ending'
  | key {before more : List (Token × Document)} {key key' : Token} {value value' : Document}
      {ending ending' : Ending} (hkey : key.ResumesKey key') (hends : GoesOn ending more ending') :
      ResumesMembers R (before ++ [(key, value)]) ending (before ++ (key', value') :: more) ending'

/-- The second document may be that of a longer text than that of the first. -/
inductive Document.Resumes : Document → Document → Prop where
  | refl (d : Document) : Resumes d d
  | ended (d : Document) : Resumes (.leaf (.flaw .ended)) d
  | token {t t' : Token} (h : t.Resumes t') : Resumes (.leaf t) (.leaf t')
  | firstItem {items : List Document} {ending : Ending} :
      Resumes (.array [.leaf (.flaw .ended)] (.cut .ended)) (.array items ending)
  | item {before more : List Document} {last last' : Document} {ending ending' : Ending}
      (h : Resumes last last') (hends : GoesOn ending more ending') :
      Resumes (.array (before ++ [last]) ending) (.array (before ++ last' :: more) ending')
  | firstMember {value : Document} {members : List (Token × Document)} {ending : Ending} :
      Resumes (.object [(.flaw .ended, value)] (.cut .ended)) (.object members ending)
  | value {before more : List (Token × Document)} {key : Token} {last last' : Document}
      {ending ending' : Ending} (h : Resumes last last') (hends : GoesOn ending more ending') :
      Resumes (.object (before ++ [(key, last)]) ending)
        (.object (before ++ (key, last') :: more) ending')
  | key {before more : List (Token × Document)} {key key' : Token} {value value' : Document}
      {ending ending' : Ending} (hkey : key.ResumesKey key') (hends : GoesOn ending more ending') :
      Resumes (.object (before ++ [(key, value)]) ending)
        (.object (before ++ (key', value') :: more) ending')

/-- Induction on a resumption, by the shape of the documents. -/
@[elab_as_elim]
theorem Document.Resumes.shape {P : Document → Document → Prop} (refl : ∀ d, P d d)
    (ended : ∀ d, P (.leaf (.flaw .ended)) d)
    (token : ∀ t t', t.Resumes t' → P (.leaf t) (.leaf t'))
    (array : ∀ items ending items' ending',
      ResumesItems (fun d d' => d.Resumes d' ∧ P d d') items ending items' ending' →
        P (.array items ending) (.array items' ending'))
    (object : ∀ members ending members' ending',
      ResumesMembers (fun d d' => d.Resumes d' ∧ P d d') members ending members' ending' →
        P (.object members ending) (.object members' ending'))
    {d d' : Document} (h : d.Resumes d') : P d d' := by
  induction h with
  | refl => exact refl _
  | ended => exact ended _
  | token h => exact token _ _ h
  | firstItem => exact array _ _ _ _ .start
  | item h hends ih => exact array _ _ _ _ (.item ⟨h, ih⟩ hends)
  | firstMember => exact object _ _ _ _ .start
  | value h hends ih => exact object _ _ _ _ (.value ⟨h, ih⟩ hends)
  | key hkey hends => exact object _ _ _ _ (.key hkey hends)

/-! ## Answers that stay -/

/-- The first answer is that the text has ended, or the second is the same. -/
def Persists {α : Type} (answer answer' : Except ReadError α) : Prop :=
  answer = .error (.text .ended) ∨ answer' = answer

namespace Persists

variable {α β : Type} {x x' : Except ReadError α}

theorem refl (x : Except ReadError α) : Persists x x :=
  Or.inr rfl

theorem ended : Persists (.error (.text .ended)) x' :=
  Or.inl rfl

theorem bind (h : Persists x x') {f f' : α → Except ReadError β}
    (hf : ∀ a, x = .ok a → Persists (f a) (f' a)) : Persists (x >>= f) (x' >>= f') := by
  rcases h with rfl | rfl
  · exact ended
  · cases x' with
    | error e => exact refl _
    | ok a => exact hf a rfl

theorem map (h : Persists x x') (f : α → β) :
    Persists (x >>= fun a => Except.ok (f a)) (x' >>= fun a => Except.ok (f a)) :=
  h.bind fun a _ => refl (.ok (f a))

theorem nested {room : Nat} {f f' : Nat → Except ReadError α}
    (h : ∀ room, Persists (f room) (f' room)) :
    Persists (Json.nested room f) (Json.nested room f') := by
  cases room with
  | zero => exact refl _
  | succ room => exact h room

end Persists

/-- A key is refused, and stays refused. -/
theorem Token.ResumesKey.keyOf {key key' : Token} (h : key.ResumesKey key') :
    ∃ e, Json.keyOf key = .error e ∧ Persists (.error e) (Json.keyOf key') := by
  cases h with
  | ended => exact ⟨_, rfl, .ended⟩
  | token h =>
    cases h with
    | string | unclosed => exact ⟨_, rfl, .ended⟩
    | null | boolean | word | numeral | broken | brokenUnclosed => exact ⟨_, rfl, .refl _⟩

/-! ## Lists and maps that stay -/

section Entries

variable {α β σ : Type} {R : Document → Document → Prop}

theorem GoesOn.persists_foldlM {ending ending' : Ending} {more : List β}
    (h : GoesOn ending more ending') (step : σ → β → Except ReadError σ) (s : σ)
    (finish : σ → Except ReadError α) :
    Persists (atEnd ending (finish s))
      (more.foldlM step s >>= fun s => atEnd ending' (finish s)) := by
  cases h with
  | «open» => exact .ended
  | same => exact .refl _

theorem ResumesMembers.persists {members members' : List (Token × Document)}
    {ending ending' : Ending} (h : ResumesMembers R members ending members' ending')
    {step : σ → String → Document → Except ReadError σ}
    (hstep : ∀ s name d d', R d d' → Persists (step s name d) (step s name d')) (s : σ)
    (finish : σ → Except ReadError α) :
    Persists (members.foldlM (keyed step) s >>= fun s => atEnd ending (finish s))
      (members'.foldlM (keyed step) s >>= fun s => atEnd ending' (finish s)) := by
  cases h with
  | start => exact .ended
  | value hlast hends =>
    rw [List.foldlM_append, List.foldlM_append, bind_assoc, bind_assoc]
    refine (Persists.refl _).bind fun s _ => ?_
    rw [List.foldlM_cons, List.foldlM_cons, bind_assoc, bind_assoc]
    refine Persists.bind ((Persists.refl _).bind fun name _ => hstep s name _ _ hlast) fun s _ => ?_
    exact hends.persists_foldlM (keyed step) s finish
  | @key before more key key' value value' _ _ hkey hends =>
    obtain ⟨e, he, hpersists⟩ := hkey.keyOf
    rw [List.foldlM_append, List.foldlM_append, bind_assoc, bind_assoc]
    refine (Persists.refl _).bind fun s _ => ?_
    rw [List.foldlM_cons, List.foldlM_cons, bind_assoc, bind_assoc]
    have hstep : Persists (keyed step s (key, value)) (keyed step s (key', value')) := by
      unfold keyed
      rw [he]
      exact hpersists.bind fun _ h => by cases h
    exact hstep.bind fun s _ => hends.persists_foldlM (keyed step) s finish

/-- The same of a list that is read item by item. -/
theorem ResumesItems.persists {items items' : List Document} {ending ending' : Ending}
    (h : ResumesItems R items ending items' ending') {read : Document → Except ReadError β}
    (hended : read (.leaf (.flaw .ended)) = .error (.text .ended))
    (hread : ∀ d d', R d d' → Persists (read d) (read d')) (finish : List β → Except ReadError α) :
    Persists (items.mapM read >>= fun bs => atEnd ending (finish bs))
      (items'.mapM read >>= fun bs => atEnd ending' (finish bs)) := by
  cases h with
  | start =>
    rw [List.mapM_cons, hended]
    exact .ended
  | item hlast hends =>
    rw [List.mapM_append, List.mapM_append, bind_assoc, bind_assoc]
    refine (Persists.refl _).bind fun bs _ => ?_
    rw [List.mapM_cons, List.mapM_cons, bind_assoc, bind_assoc, bind_assoc, bind_assoc]
    refine (hread _ _ hlast).bind fun b _ => ?_
    cases hends with
    | «open» => exact .ended
    | same => exact .refl _

/-- A reader of the rest of a list stays at its answer: where the list is cut in an item that is
still to come, and where it is cut right here. -/
structure Steady (R : Document → Document → Prop)
    (read : List Document → Ending → Except ReadError α) : Prop where
  item : ∀ {before more last last' ending ending'}, R last last' → GoesOn ending more ending' →
    Persists (read (before ++ [last]) ending) (read (before ++ last' :: more) ending')
  here : ∀ {more ending ending'}, GoesOn ending more ending' →
    Persists (read [] ending) (read more ending')

theorem steady_atListEnd (a : α) : Steady R fun rest ending => atListEnd rest ending a where
  item := by
    intro before more last last' ending ending' _ _
    cases before <;> exact .refl _
  here := by
    intro more ending ending' hends
    cases hends with
    | «open» => exact .ended
    | same => exact .refl _

theorem Steady.takeItem {read : Document → Except ReadError β}
    {next : β → List Document → Ending → Except ReadError α}
    (hread : ∀ d d', R d d' → Persists (read d) (read d')) (hnext : ∀ b, Steady R (next b))
    (short : ReadError) : Steady R (takeItem short read next) where
  item := by
    intro before more last last' ending ending' hlast hends
    cases before with
    | nil => exact (hread _ _ hlast).bind fun b _ => (hnext b).here hends
    | cons d before => exact (Persists.refl _).bind fun b _ => (hnext b).item hlast hends
  here := by
    intro more ending ending' hends
    cases hends with
    | «open» => exact .ended
    | same => exact .refl _

/-- The fields in a list, of which nothing but the bracket may be there. -/
theorem ResumesItems.persists_takeItem {items items' : List Document} {ending ending' : Ending}
    (h : ResumesItems R items ending items' ending') {read : Document → Except ReadError β}
    (hended : read (.leaf (.flaw .ended)) = .error (.text .ended))
    (hread : ∀ d d', R d d' → Persists (read d) (read d'))
    {next : β → List Document → Ending → Except ReadError α} (hnext : ∀ b, Steady R (next b))
    (short : ReadError) :
    Persists (takeItem short read next items ending) (takeItem short read next items' ending') := by
  cases h with
  | start =>
    refine Or.inl ?_
    show (read (.leaf (.flaw .ended)) >>= fun b => next b [] (.cut .ended)) = _
    rw [hended]
    rfl
  | item hlast hends => exact (Steady.takeItem hread hnext short).item hlast hends

end Entries

end Json

end ScopedVars
