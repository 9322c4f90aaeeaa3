import ScopedVars.Proofs.Json.Resumption

/-!
# `Proofs/Json/Persistence` — readers that stay at their answers

A reader goes through a document and its resumption alike until it comes to the place where the
first one breaks off. There it finds that the text has ended. So **its answer is that the text has
ended, or else it is the same for both**, be it a value or an error: one lemma for each reader, in
the shape of the reader (`Document.Resumes.readVariable` and its like).

The one reader that does not look at a document in its order is that of a held value, which is read
when its type has come. By then it has been looked through, to its end, and a value that is known to
its end does not go on (`eq_of_lookThrough`).

The last section is about the other way out: an answer that stays might be a value, of a document
that is cut. There is none, for what is accepted has its closing bracket (`Document.Closed`).
-/

set_option autoImplicit false

namespace ScopedVars

namespace Json

/-! ## Readers that do not nest -/

/-- A reader that wants a value of its own kind refuses what is none, and so what breaks off. -/
structure Refuses {α : Type} (read : Document → Except ReadError α) : Prop where
  flaw : ∀ f, read (.leaf (.flaw f)) = .error (.text f.reading)
  broken : read (.leaf (.string none)) = .error (.text .malformed)

theorem Refuses.persists_token {α : Type} {read : Document → Except ReadError α}
    (hread : Refuses read) {t t' : Token} (h : t.Resumes t') :
    Persists (read (.leaf t)) (read (.leaf t')) := by
  cases h with
  | broken => exact Or.inr (hread.broken.trans (hread.flaw (.string .malformed .ended)).symm)
  | brokenUnclosed =>
    exact Or.inr ((hread.flaw _).trans (hread.flaw (.string .malformed .ended)).symm)
  | _ => exact Or.inl (hread.flaw _)

namespace Document.Resumes

variable {d d' : Document}

/-- A reader of leaves looks at a list or map only to see that it is one. -/
theorem persists_leaf {α : Type} (h : d.Resumes d') {read : Document → Except ReadError α}
    (hread : Refuses read)
    (harray : ∀ items ending items' ending',
      read (.array items' ending') = read (.array items ending))
    (hobject : ∀ members ending members' ending',
      read (.object members' ending') = read (.object members ending)) :
    Persists (read d) (read d') := by
  refine h.shape (fun d => .refl _) (fun d => Or.inl (hread.flaw .ended))
    (fun _ _ => hread.persists_token) ?_ ?_
  · exact fun items ending items' ending' _ => Or.inr (harray items ending items' ending')
  · exact fun members ending members' ending' _ => Or.inr (hobject members ending members' ending')

theorem readString (h : d.Resumes d') : Persists (Json.readString d) (Json.readString d') :=
  h.persists_leaf ⟨fun _ => rfl, rfl⟩ (fun _ _ _ _ => rfl) fun _ _ _ _ => rfl

theorem readNull (h : d.Resumes d') : Persists (Json.readNull d) (Json.readNull d') :=
  h.persists_leaf ⟨fun _ => rfl, rfl⟩ (fun _ _ _ _ => rfl) fun _ _ _ _ => rfl

theorem readFirstKind (h : d.Resumes d') :
    Persists (Json.readFirstKind .streamed d) (Json.readFirstKind .streamed d') :=
  h.persists_leaf ⟨fun _ => rfl, rfl⟩ (fun _ _ _ _ => rfl) fun _ _ _ _ => rfl

end Document.Resumes

/-! ## Values that are passed over -/

theorem GoesOn.cut {β : Type} {ending ending' : Ending} {more : List β}
    (h : GoesOn ending more ending') :
    ∃ fault, ending = .cut fault ∧ (fault = .ended ∨ ending' = .cut fault) := by
  cases h with
  | «open» => exact ⟨_, rfl, Or.inl rfl⟩
  | same => exact ⟨_, rfl, Or.inr rfl⟩

theorem ResumesItems.cut {R : Document → Document → Prop} {items items' : List Document}
    {ending ending' : Ending} (h : ResumesItems R items ending items' ending') :
    ∃ fault, ending = .cut fault ∧ (fault = .ended ∨ ending' = .cut fault) := by
  cases h with
  | start => exact ⟨_, rfl, Or.inl rfl⟩
  | item _ hends => exact hends.cut

theorem ResumesMembers.cut {R : Document → Document → Prop}
    {members members' : List (Token × Document)} {ending ending' : Ending}
    (h : ResumesMembers R members ending members' ending') :
    ∃ fault, ending = .cut fault ∧ (fault = .ended ∨ ending' = .cut fault) := by
  cases h with
  | start => exact ⟨_, rfl, Or.inl rfl⟩
  | value _ hends | key _ hends => exact hends.cut

theorem refuses_lookThrough (room : Nat) : Refuses (lookThrough room) := by
  constructor
  · intro f
    rw [lookThrough]
    rfl
  · rw [lookThrough]
    rfl

namespace Document.Resumes

variable {d d' : Document}

theorem skip (h : d.Resumes d') : Persists (Json.skip d) (Json.skip d') := by
  refine h.shape (fun d => .refl _) (fun d => .ended) (fun t t' h => ?_) ?_ ?_
  · cases h with
    | numeral => exact .refl _
    | _ => exact .ended
  · intro items ending items' ending' hitems
    obtain ⟨fault, rfl, rfl | rfl⟩ := hitems.cut
    · exact .ended
    · exact .refl _
  · intro members ending members' ending' hmembers
    obtain ⟨fault, rfl, rfl | rfl⟩ := hmembers.cut
    · exact .ended
    · exact .refl _

theorem lookThrough (h : d.Resumes d') :
    ∀ room, Persists (Json.lookThrough room d) (Json.lookThrough room d') := by
  refine h.shape (fun d room => .refl _)
    (fun d room => Or.inl ((refuses_lookThrough room).flaw .ended))
    (fun t t' h room => (refuses_lookThrough room).persists_token h) ?_ ?_
  · intro items ending items' ending' hitems room
    rw [Json.lookThrough, Json.lookThrough]
    refine .nested fun room => ?_
    rw [lookThroughItems_eq, lookThroughItems_eq]
    exact hitems.persists ((refuses_lookThrough room).flaw .ended) (fun _ _ hd => hd.2 room)
      fun _ => .ok ()
  · intro members ending members' ending' hmembers room
    rw [Json.lookThrough, Json.lookThrough]
    refine .nested fun room => ?_
    rw [lookThroughMembers_eq, lookThroughMembers_eq]
    exact hmembers.persists (fun _ _ _ _ hd => hd.2 room) () fun _ => .ok ()

/-- A value that has been looked through is known to its end, so it does not go on. -/
theorem eq_of_lookThrough (h : d.Resumes d') {room : Nat} :
    Json.lookThrough room d = .ok () → d' = d := by
  refine h.shape (fun d _ => rfl) (fun d hlook => ?_) (fun t t' h hlook => ?_) ?_ ?_
  · cases ((refuses_lookThrough room).flaw .ended).symm.trans hlook
  · cases h <;> cases ((refuses_lookThrough room).flaw _).symm.trans hlook
  · intro items ending items' ending' hitems hlook
    obtain ⟨fault, rfl, -⟩ := hitems.cut
    rw [Json.lookThrough] at hlook
    obtain ⟨_, -, hlook⟩ := nested_eq_ok.mp hlook
    rw [lookThroughItems_eq] at hlook
    obtain ⟨_, -, hlook⟩ := bind_eq_ok.mp hlook
    cases (atEnd_eq_ok.mp hlook).1
  · intro members ending members' ending' hmembers hlook
    obtain ⟨fault, rfl, -⟩ := hmembers.cut
    rw [Json.lookThrough] at hlook
    obtain ⟨_, -, hlook⟩ := nested_eq_ok.mp hlook
    rw [lookThroughMembers_eq] at hlook
    obtain ⟨_, -, hlook⟩ := bind_eq_ok.mp hlook
    cases (atEnd_eq_ok.mp hlook).1

end Document.Resumes

/-! ## Kinds -/

theorem Token.ResumesKey.readKindKey {key key' : Token} (h : key.ResumesKey key') :
    ∃ e, Json.readKindKey key = .error e ∧ Persists (.error e) (Json.readKindKey key') := by
  obtain ⟨e, he, hpersists⟩ := h.keyOf
  unfold Json.readKindKey
  rw [he]
  refine ⟨e, rfl, ?_⟩
  rcases hpersists with hended | hsame
  · cases hended
    exact .ended
  · rw [hsame]
    exact .refl _

/-- The kind in a map: behind its one member nothing is read, wherever the map is cut. -/
theorem persists_kindMap {members members' : List (Token × Document)} {ending ending' : Ending}
    {R : Document → Document → Prop} (h : ResumesMembers R members ending members' ending')
    (hR : ∀ d d', R d d' → d.Resumes d') (room : Nat) :
    Persists (readStreamedKind room (.object members ending))
      (readStreamedKind room (.object members' ending')) := by
  refine .nested fun _ => ?_
  cases h with
  | start => exact .ended
  | @value before more key last last' ending ending' hlast hends =>
    match before with
    | [] =>
      refine (Persists.refl (readKindKey key)).bind fun kind _ => ?_
      refine (hR _ _ hlast).readNull.bind fun _ _ => ?_
      cases hends with
      | «open» => exact .ended
      | same => exact .refl _
    | [_] => exact .refl _
    | _ :: _ :: _ => exact .refl _
  | @key before more key key' value value' ending ending' hkey hends =>
    match before with
    | [] =>
      obtain ⟨e, he, hpersists⟩ := hkey.readKindKey
      show Persists (readKindKey key >>= _) (readKindKey key' >>= _)
      rw [he]
      exact hpersists.bind fun _ h => by cases h
    | [_] => exact .refl _
    | _ :: _ :: _ => exact .refl _

namespace Document.Resumes

variable {d d' : Document}

theorem readStreamedKind (h : d.Resumes d') (room : Nat) :
    Persists (Json.readStreamedKind room d) (Json.readStreamedKind room d') := by
  refine h.shape (fun d => .refl _) (fun d => .ended) (fun t t' h => ?_) ?_ ?_
  · cases h with
    | string | unclosed => exact .ended
    | null | boolean | word | numeral | broken | brokenUnclosed => exact .refl _
  · exact fun _ _ _ _ _ => .refl _
  · exact fun _ _ _ _ hmembers => persists_kindMap hmembers (fun _ _ hd => hd.1) room

end Document.Resumes

/-! ## Variables -/

/-- The second document is read as a variable, and as the value of one, as the first is. -/
structure Document.ReadsOn (d d' : Document) : Prop where
  asVariable : ∀ room, Persists (readVariable .streamed room d) (readVariable .streamed room d')
  asPayload : ∀ room kind,
    Persists (readPayload .streamed room kind d) (readPayload .streamed room kind d')

theorem persists_fieldStep {d d' : Document} (h : d.Resumes d') (hreads : d.ReadsOn d')
    (room : Nat) (progress : Progress) (name : String) :
    Persists (fieldStep .streamed room progress name d)
      (fieldStep .streamed room progress name d') := by
  unfold fieldStep
  split
  · cases progress with
    | nothing => exact (h.readStreamedKind room).map _
    | held read => exact (h.readStreamedKind room).bind fun kind _ => .refl _
    | kind _ | whole _ => exact .refl _
  · split
    · cases progress with
      | nothing =>
        refine (h.lookThrough room).bind fun _ hlook => ?_
        rw [h.eq_of_lookThrough hlook]
        exact .refl _
      | kind kind => exact (hreads.asPayload room kind).map _
      | held _ | whole _ => exact .refl _
    · exact h.skip.bind fun _ _ => .refl _

theorem refuses_readVariable (room : Nat) : Refuses (readVariable .streamed room) := by
  constructor
  · intro f
    rw [readVariable]
    rfl
  · rw [readVariable]
    rfl

theorem refuses_readPayload (room : Nat) (kind : Kind) :
    Refuses (readPayload .streamed room kind) := by
  constructor
  · intro f
    cases kind <;> rw [readPayload] <;> rfl
  · cases kind <;> rw [readPayload] <;> rfl

theorem Document.Resumes.readsOn {d d' : Document} (h : d.Resumes d') : d.ReadsOn d' := by
  refine h.shape (fun d => ?_) (fun d => ?_) (fun t t' h => ?_) ?_ ?_
  · exact ⟨fun _ => .refl _, fun _ _ => .refl _⟩
  · exact ⟨fun room => Or.inl ((refuses_readVariable room).flaw .ended),
      fun room kind => Or.inl ((refuses_readPayload room kind).flaw .ended)⟩
  · exact ⟨fun room => (refuses_readVariable room).persists_token h,
      fun room kind => (refuses_readPayload room kind).persists_token h⟩
  · intro items ending items' ending' hitems
    constructor
    · intro room
      rw [readVariable, readVariable]
      refine .nested fun room => ?_
      rw [readPair_eq, readPair_eq]
      refine hitems.persists_takeItem rfl (fun _ _ hd => hd.1.readFirstKind) (fun kind => ?_) _
      exact .takeItem (fun _ _ hd => hd.2.asPayload room kind) steady_atListEnd _
    · intro room kind
      cases kind with
      | array =>
        rw [readPayload, readPayload]
        refine .nested fun room => Persists.map ?_ _
        rw [readElements_eq, readElements_eq]
        exact hitems.persists ((refuses_readVariable room).flaw .ended)
          (fun _ _ hd => hd.2.asVariable room) .ok
      | number | string | boolean | record =>
        rw [readPayload, readPayload]
        exact .refl _
  · intro members ending members' ending' hmembers
    constructor
    · intro room
      rw [readVariable, readVariable]
      refine .nested fun room => ?_
      rw [readFields_eq, readFields_eq]
      exact hmembers.persists (fun progress name _ _ hd =>
        persists_fieldStep hd.1 hd.2 room progress name) .nothing Progress.result
    · intro room kind
      cases kind with
      | record =>
        rw [readPayload, readPayload]
        refine .nested fun room => Persists.map ?_ _
        rw [readChildren_eq, readChildren_eq]
        exact hmembers.persists (fun _ name _ _ hd => (hd.2.asVariable room).map _) [] .ok
      | number | string | boolean | array =>
        rw [readPayload, readPayload]
        exact .refl _

/-! ## Containers, layouts and projects -/

theorem persists_layoutFields {d d' : Document} (h : d.Resumes d')
    (hcontainer : ∀ room, Persists (readContainer room d) (readContainer room d')) (room : Nat)
    (fields : LayoutFields) (name : String) :
    Persists (LayoutFields.step room fields name d) (LayoutFields.step room fields name d') := by
  unfold LayoutFields.step
  split
  · split
    · exact .refl _
    · exact h.readString.map _
  · split
    · split
      · exact .refl _
      · exact (hcontainer room).map _
    · exact h.skip.bind fun _ _ => .refl _

theorem persists_projectFields {d d' : Document} (h : d.Resumes d')
    (hcontainer : ∀ room, Persists (readContainer room d) (readContainer room d'))
    (hlayouts : ∀ room, Persists (readLayouts room d) (readLayouts room d')) (room : Nat)
    (fields : ProjectFields) (name : String) :
    Persists (ProjectFields.step room fields name d) (ProjectFields.step room fields name d') := by
  unfold ProjectFields.step
  split
  · split
    · exact .refl _
    · exact h.readString.map _
  · split
    · split
      · exact .refl _
      · exact (hcontainer room).map _
    · split
      · split
        · exact .refl _
        · exact (hlayouts room).map _
      · exact h.skip.bind fun _ _ => .refl _

namespace Document.Resumes

variable {d d' : Document}

theorem readVariable (h : d.Resumes d') (room : Nat) :
    Persists (Json.readVariable .streamed room d) (Json.readVariable .streamed room d') :=
  h.readsOn.asVariable room

theorem readContainer (h : d.Resumes d') (room : Nat) :
    Persists (Json.readContainer room d) (Json.readContainer room d') := by
  have hrefuses : Refuses (Json.readContainer room) := ⟨fun _ => rfl, rfl⟩
  refine h.shape (fun d => .refl _) (fun d => .ended) (fun _ _ => hrefuses.persists_token) ?_ ?_
  · exact fun _ _ _ _ _ => .refl _
  · intro members ending members' ending' hmembers
    refine .nested fun room => Persists.map ?_ _
    rw [readChildren_eq, readChildren_eq]
    exact hmembers.persists (fun _ name _ _ hd => (hd.1.readVariable room).map _) [] .ok

theorem readLayout (h : d.Resumes d') (room : Nat) :
    Persists (Json.readLayout room d) (Json.readLayout room d') := by
  have hrefuses : Refuses (Json.readLayout room) := ⟨fun _ => rfl, rfl⟩
  refine h.shape (fun d => .refl _) (fun d => .ended) (fun _ _ => hrefuses.persists_token) ?_ ?_
  · intro items ending items' ending' hitems
    refine .nested fun room => ?_
    rw [readLayoutItems_eq, readLayoutItems_eq]
    refine hitems.persists_takeItem rfl (fun _ _ hd => hd.1.readString) (fun name => ?_) _
    exact .takeItem (fun _ _ hd => hd.1.readContainer room) (fun _ => steady_atListEnd _) _
  · intro members ending members' ending' hmembers
    refine .nested fun room => ?_
    rw [readLayoutFields_eq room ending members ⟨none, none⟩,
      readLayoutFields_eq room ending' members' ⟨none, none⟩]
    exact hmembers.persists (fun fields name _ _ hd => persists_layoutFields hd.1
      hd.1.readContainer room fields name) ⟨none, none⟩ LayoutFields.result

theorem readLayouts (h : d.Resumes d') (room : Nat) :
    Persists (Json.readLayouts room d) (Json.readLayouts room d') := by
  have hrefuses : Refuses (Json.readLayouts room) := ⟨fun _ => rfl, rfl⟩
  refine h.shape (fun d => .refl _) (fun d => .ended) (fun _ _ => hrefuses.persists_token) ?_ ?_
  · intro items ending items' ending' hitems
    refine .nested fun room => ?_
    rw [readLayoutList_eq, readLayoutList_eq]
    exact hitems.persists rfl (fun _ _ hd => hd.1.readLayout room) .ok
  · exact fun _ _ _ _ _ => .refl _

theorem readProject (h : d.Resumes d') (room : Nat) :
    Persists (Json.readProject room d) (Json.readProject room d') := by
  have hrefuses : Refuses (Json.readProject room) := ⟨fun _ => rfl, rfl⟩
  refine h.shape (fun d => .refl _) (fun d => .ended) (fun _ _ => hrefuses.persists_token) ?_ ?_
  · intro items ending items' ending' hitems
    refine .nested fun room => ?_
    rw [readProjectItems_eq, readProjectItems_eq]
    refine hitems.persists_takeItem rfl (fun _ _ hd => hd.1.readString) (fun name => ?_) _
    refine .takeItem (fun _ _ hd => hd.1.readContainer room) (fun globals => ?_) _
    exact .takeItem (fun _ _ hd => hd.1.readLayouts room) (fun _ => steady_atListEnd _) _
  · intro members ending members' ending' hmembers
    refine .nested fun room => ?_
    rw [readProjectFields_eq room ending members ⟨none, none, none⟩,
      readProjectFields_eq room ending' members' ⟨none, none, none⟩]
    exact hmembers.persists (fun fields name _ _ hd => persists_projectFields hd.1
      hd.1.readContainer hd.1.readLayouts room fields name) ⟨none, none, none⟩
      ProjectFields.result

end Document.Resumes

/-! ## What is accepted is closed -/

namespace Document

/-- The list or map has its closing bracket. No leaf has one. -/
def Closed : Document → Prop
  | leaf _ => False
  | array _ ending | object _ ending => ending = .closed

end Document

end Json

end ScopedVars
