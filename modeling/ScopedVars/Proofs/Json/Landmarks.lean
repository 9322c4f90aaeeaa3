import ScopedVars.Json.Read
import ScopedVars.Proofs.Json.Tree

/-!
# `Proofs/Json/Landmarks` — what a reader of a written text may stumble over

Two things only: a bracket, because there may be too many open, and the null that stands for a
number JSON does not have. Both are marked in a text from its beginning to its end
(`landmarks`), and the first of them that is an offence is the error of the text. So "the first
offending place" is said of the text alone, and says nothing of how the text is read.

A reader that goes through a tree in the order of the text then has its answer written down
beforehand (`settle`): the first offence among the landmarks of the tree, or the value.
`settle_bind` and `nested_settle` are the two ways in which such readers are put together.
-/

set_option autoImplicit false

namespace ScopedVars

namespace Json

/-- A place in a text that may be an offence. -/
inductive Landmark where
  /-- A bracket opens a list or map; with it this many are open. -/
  | opening (nesting : Nat)
  /-- A number; one that is not finite stands there as null. -/
  | number (finite : Bool)
deriving DecidableEq

namespace Landmark

/-- The error that the place is for a reader. -/
def offence? : Landmark → Option ReadError
  | opening nesting => if nestingLimit < nesting then some (.text .malformed) else none
  | number finite => if finite then none else some (.data (.wrongType .null .number))

theorem message_of_offence? {mark : Landmark} {m : Mismatch}
    (h : mark.offence? = some (.data m)) : m.message = "invalid type: null, expected f64" := by
  cases mark with
  | opening nesting =>
    by_cases hdeep : nestingLimit < nesting
    · cases (if_pos hdeep).symm.trans h
    · cases (if_neg hdeep).symm.trans h
  | number finite =>
    cases finite with
    | true => cases h
    | false =>
      cases h
      rfl

/-- Whether the number at this place is finite, if there is a number. -/
def finite? : Landmark → Option Bool
  | opening _ => none
  | number finite => some finite

end Landmark

/-- The landmarks of tokens in their order, the first of which stands at this nesting. -/
def landmarks : Nat → List Token → List Landmark
  | _, [] => []
  | nesting, token :: rest =>
    match token with
    | .arrayOpen | .objectOpen => .opening (nesting + 1) :: landmarks (nesting + 1) rest
    | .arrayClose | .objectClose => landmarks (nesting - 1) rest
    | .number _ => .number true :: landmarks nesting rest
    | .null => .number false :: landmarks nesting rest
    | _ => landmarks nesting rest

def textLandmarks (text : String) : List Landmark :=
  landmarks 0 (Scanner.between.tokens text.toList)

def firstOffence? (text : String) : Option ReadError :=
  (textLandmarks text).findSome? Landmark.offence?

/-! ## The landmarks of a tree -/

mutual

/-- The landmarks of a tree that stands at this nesting. -/
def Tree.landmarks (nesting : Nat) : Tree → List Landmark
  | .null => [.number false]
  | .boolean _ => []
  | .number _ => [.number true]
  | .string _ => []
  | .array items => .opening (nesting + 1) :: itemLandmarks (nesting + 1) items
  | .object members => .opening (nesting + 1) :: memberLandmarks (nesting + 1) members

def itemLandmarks (nesting : Nat) : List Tree → List Landmark
  | [] => []
  | t :: rest => t.landmarks nesting ++ itemLandmarks nesting rest

def memberLandmarks (nesting : Nat) : List (String × Tree) → List Landmark
  | [] => []
  | (_, t) :: rest => t.landmarks nesting ++ memberLandmarks nesting rest

end

mutual

/-- **Behind a tree the nesting is what it was before**, and in between are the landmarks of the
tree. -/
theorem landmarks_tokens : ∀ (t : Tree) (nesting : Nat) (rest : List Token),
    landmarks nesting (t.tokens ++ rest) = t.landmarks nesting ++ landmarks nesting rest
  | .null, _, _ => by rw [Tree.tokens, Tree.landmarks]; rfl
  | .boolean _, _, _ => by rw [Tree.tokens, Tree.landmarks]; rfl
  | .number _, _, _ => by rw [Tree.tokens, Tree.landmarks]; rfl
  | .string _, _, _ => by rw [Tree.tokens, Tree.landmarks]; rfl
  | .array items, nesting, rest => by
    rw [Tree.tokens, Tree.landmarks, List.cons_append, List.append_assoc]
    show Landmark.opening (nesting + 1) :: landmarks (nesting + 1) _ = _
    rw [landmarks_items items]
    rfl
  | .object members, nesting, rest => by
    rw [Tree.tokens, Tree.landmarks, List.cons_append, List.append_assoc]
    show Landmark.opening (nesting + 1) :: landmarks (nesting + 1) _ = _
    rw [landmarks_members members]
    rfl

theorem landmarks_items : ∀ (items : List Tree) (nesting : Nat) (rest : List Token),
    landmarks nesting (separated (itemTokens items) ++ rest)
      = itemLandmarks nesting items ++ landmarks nesting rest
  | [], _, _ => by rw [itemLandmarks]; rfl
  | [t], nesting, rest => by
    show landmarks nesting (t.tokens ++ rest) = _
    rw [landmarks_tokens t, itemLandmarks, itemLandmarks, List.append_nil]
  | t :: u :: more, nesting, rest => by
    show landmarks nesting ((t.tokens ++ Token.comma :: separated (itemTokens (u :: more)))
      ++ rest) = _
    rw [List.append_assoc, landmarks_tokens t, itemLandmarks, List.append_assoc]
    show _ ++ landmarks nesting (separated (itemTokens (u :: more)) ++ rest) = _
    rw [landmarks_items (u :: more)]

theorem landmarks_members : ∀ (members : List (String × Tree)) (nesting : Nat)
    (rest : List Token),
    landmarks nesting (separated (memberTokens members) ++ rest)
      = memberLandmarks nesting members ++ landmarks nesting rest
  | [], _, _ => by rw [memberLandmarks]; rfl
  | [(_, t)], nesting, rest => by
    show landmarks nesting (t.tokens ++ rest) = _
    rw [landmarks_tokens t, memberLandmarks, memberLandmarks, List.append_nil]
  | (_, t) :: next :: more, nesting, rest => by
    show landmarks nesting ((t.tokens ++ Token.comma :: separated (memberTokens (next :: more)))
      ++ rest) = _
    rw [List.append_assoc, landmarks_tokens t, memberLandmarks, List.append_assoc]
    show _ ++ landmarks nesting (separated (memberTokens (next :: more)) ++ rest) = _
    rw [landmarks_members (next :: more)]

end

theorem textLandmarks_of_spells {text : List Char} {t : Tree} (h : Spells text t.tokens) :
    textLandmarks (String.ofList text) = t.landmarks 0 := by
  unfold textLandmarks
  rw [String.toList_ofList, h.tokens_eq, landmarks_tokens]
  exact List.append_nil _

/-! ## Readers whose answer is known -/

/-- The value, unless there is an offence among the landmarks: then it is the first one. -/
def settle {α : Type} (marks : List Landmark) (x : α) : Except ReadError α :=
  match marks.findSome? Landmark.offence? with
  | some e => .error e
  | none => .ok x

theorem settle_nil {α : Type} (x : α) : settle [] x = .ok x := rfl

theorem settle_bind {α β : Type} {marks more : List Landmark} {x : α} {y : β}
    {next : α → Except ReadError β} (h : next x = settle more y) :
    (settle marks x >>= next) = settle (marks ++ more) y := by
  unfold settle
  rw [List.findSome?_append]
  cases marks.findSome? Landmark.offence? with
  | some e => rfl
  | none => exact h

theorem settle_map {α β : Type} (marks : List Landmark) (x : α) (f : α → β) :
    (settle marks x >>= fun a => Except.ok (f a)) = settle marks (f x) := by
  have h : (settle marks x >>= fun a => Except.ok (f a)) = settle (marks ++ []) (f x) :=
    settle_bind (settle_nil (f x)).symm
  rwa [List.append_nil] at h

/-- A reader one bracket deeper. **Room and nesting make up the limit**, from the beginning of the
text on; so a bracket for which there is no room is the one whose nesting is past the limit. -/
theorem nested_settle {α : Type} {room nesting : Nat} {marks : List Landmark} {x : α}
    {inside : Nat → Except ReadError α} (h : room + nesting = nestingLimit)
    (hinside : ∀ room, room + (nesting + 1) = nestingLimit → inside room = settle marks x) :
    nested room inside = settle (.opening (nesting + 1) :: marks) x := by
  cases room with
  | zero =>
    have hdeep : nestingLimit < nesting + 1 := by omega
    unfold settle
    rw [List.findSome?_cons]
    simp only [Landmark.offence?, if_pos hdeep]
    rfl
  | succ room =>
    have hflat : ¬ nestingLimit < nesting + 1 := by omega
    rw [show nested (room + 1) inside = inside room from rfl, hinside room (by omega)]
    unfold settle
    rw [List.findSome?_cons]
    simp only [Landmark.offence?, if_neg hflat]

theorem readText_eq_settle {α : Type} {read : Nat → Document → Except ReadError α}
    {text : List Char} {t : Tree} {x : α} (htext : Spells text t.tokens)
    (hread : read nestingLimit t.document = settle (t.landmarks 0) x) :
    readText read text = settle (textLandmarks (String.ofList text)) x := by
  unfold readText
  rw [Contents.ofChars_of_tokens htext.tokens_eq, textLandmarks_of_spells htext]
  simp only [hread]
  exact settle_map _ x id

end Json

end ScopedVars
