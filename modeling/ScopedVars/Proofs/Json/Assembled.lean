import ScopedVars.Proofs.Json.Persistence

/-!
# `Proofs/Json/Assembled` — what an assembler may still make

The assembler takes a text token by token, and no token takes back what an earlier one has done. So
at every point one can say what the document of the text may be, whatever the rest of it is: the
values that are there stand where they stand, and around them anything may come. That is
`Assembler.Makes`, and no token adds to it (`Makes.of_push`).

When the text breaks off at that point, its document is cut there. The documents that may be made of
longer texts resume it, whether the text breaks off between two tokens (`resumes_of_push_ended`) or
in the middle of one (`resumes_of_push_flaw`).
-/

set_option autoImplicit false

namespace ScopedVars

namespace Json

/-! ## Values in their places -/

/-- The document of a text with a fault: everything around the place of the fault is cut. -/
def closeAll (fault : Fault) (v : Document) (outer : List Frame) : Document :=
  outer.foldl (fun v frame => frame.close v (.cut fault)) v

theorem closeAll_item (fault : Fault) (v : Document) (before : List Document)
    (outer : List Frame) :
    closeAll fault v (.item before :: outer)
      = closeAll fault (.array (before.reverse ++ [v]) (.cut fault)) outer := by
  rw [← List.reverse_cons]
  rfl

theorem closeAll_member (fault : Fault) (v : Document) (before : List (Token × Document))
    (key : Token) (outer : List Frame) :
    closeAll fault v (.member before key :: outer)
      = closeAll fault (.object (before.reverse ++ [(key, v)]) (.cut fault)) outer := by
  rw [← List.reverse_cons]
  rfl

theorem not_closed_closeAll {fault : Fault} : ∀ {outer : List Frame} {v : Document}, ¬ v.Closed →
    ¬ (closeAll fault v outer).Closed
  | [], _, h => h
  | .item before :: outer, v, _ => by
    rw [closeAll_item]
    exact not_closed_closeAll nofun
  | .member before key :: outer, v, _ => by
    rw [closeAll_member]
    exact not_closed_closeAll nofun

/-- With anything around it, what is at the fault does not matter. -/
theorem not_closed_closeAll_cons (fault : Fault) (v : Document) (frame : Frame)
    (outer : List Frame) : ¬ (closeAll fault v (frame :: outer)).Closed := by
  cases frame with
  | item before =>
    rw [closeAll_item]
    exact not_closed_closeAll nofun
  | member before key =>
    rw [closeAll_member]
    exact not_closed_closeAll nofun

/-! ## What may still be made -/

namespace Assembler

/-- Behind the outermost value, the end makes it whole and anything else is too much. -/
theorem pushAfter_outermost (v : Document) (t : Token) :
    t = .flaw .ended ∧ pushAfter v [] t = whole v
      ∨ t ≠ .flaw .ended ∧ pushAfter v [] t = trailing v := by
  by_cases ht : t = .flaw .ended
  · subst ht
    exact Or.inl ⟨rfl, rfl⟩
  · refine Or.inr ⟨ht, ?_⟩
    unfold pushAfter
    split
    · exact absurd rfl ht
    all_goals first | rfl | contradiction

theorem push_firstItem {outer : List Frame} {t : Token} (h : t ≠ .arrayClose) :
    (firstItem outer).push t = pushValue (.item [] :: outer) t := by
  cases t with
  | arrayClose => exact absurd rfl h
  | null | boolean _ | number _ | string _ | arrayOpen | objectOpen | objectClose | comma | colon
  | flaw _ => rfl

theorem push_firstKey {outer : List Frame} {t : Token} (h : t ≠ .objectClose) :
    (firstKey outer).push t = pushKey [] outer t := by
  cases t with
  | objectClose => exact absurd rfl h
  | null | boolean _ | number _ | string _ | arrayOpen | objectOpen | arrayClose | comma | colon
  | flaw _ => rfl

def Done : Assembler → Prop
  | whole _ | trailing _ | cut _ => True
  | value _ | firstItem _ | firstKey _ | nextKey _ _ | colon _ _ _ | after _ _ => False

theorem Done.push {a : Assembler} (h : a.Done) (t : Token) : a.push t = a := by
  cases a with
  | whole v | trailing v | cut v => rfl
  | value _ | firstItem _ | firstKey _ | nextKey _ _ | colon _ _ _ | after _ _ => cases h

theorem Done.foldl_push {a : Assembler} (h : a.Done) : ∀ ts : List Token, ts.foldl .push a = a
  | [] => rfl
  | t :: ts => by
    rw [List.foldl_cons, h.push t]
    exact foldl_push h ts

/-- A flaw is the last token. -/
theorem done_push_flaw (a : Assembler) (f : Flaw) : (a.push (.flaw f)).Done := by
  cases a with
  | after v outer =>
    match outer with
    | [] =>
      show (pushAfter v [] _).Done
      rcases pushAfter_outermost v (.flaw f) with ⟨-, hpush⟩ | ⟨-, hpush⟩
      · exact hpush ▸ trivial
      · exact hpush ▸ trivial
    | .item _ :: _ | .member _ _ :: _ => exact trivial
  | colon before key outer =>
    show (pushColon before key outer _).Done
    unfold pushColon
    split
    · contradiction
    · exact trivial
    · exact trivial
  | value _ | firstItem _ | firstKey _ | nextKey _ _ | whole _ | trailing _ | cut _ => exact trivial

/-! ## Documents that are cut -/

/-- A document that is cut lacks its closing bracket. -/
def Unclosed : Assembler → Prop
  | cut v => ¬ v.Closed
  | value _ | firstItem _ | firstKey _ | nextKey _ _ | colon _ _ _ | after _ _ | whole _
  | trailing _ => True

theorem unclosed_pushValue (outer : List Frame) (t : Token) : (pushValue outer t).Unclosed := by
  cases t with
  | null | boolean _ | number _ | string _ | arrayOpen | objectOpen => exact trivial
  | arrayClose | objectClose | comma | colon | flaw _ => exact not_closed_closeAll nofun

theorem unclosed_pushKey (before : List (Token × Document)) (outer : List Frame) (t : Token) :
    (pushKey before outer t).Unclosed := by
  cases t with
  | string _ => exact trivial
  | null | boolean _ | number _ | arrayOpen | objectOpen | arrayClose | objectClose | comma | colon
  | flaw _ => exact not_closed_closeAll nofun

theorem unclosed_pushAfter (v : Document) (outer : List Frame) (t : Token) :
    (pushAfter v outer t).Unclosed := by
  match outer with
  | [] =>
    rcases pushAfter_outermost v t with ⟨-, hpush⟩ | ⟨-, hpush⟩
    · exact hpush ▸ trivial
    · exact hpush ▸ trivial
  | .item before :: outer =>
    cases t with
    | comma | arrayClose => exact trivial
    | null | boolean _ | number _ | string _ | arrayOpen | objectOpen | objectClose | colon
    | flaw _ => exact not_closed_closeAll_cons _ _ _ _
  | .member before key :: outer =>
    cases t with
    | comma | objectClose => exact trivial
    | null | boolean _ | number _ | string _ | arrayOpen | objectOpen | arrayClose | colon
    | flaw _ => exact not_closed_closeAll_cons _ _ _ _

theorem Unclosed.push {a : Assembler} (h : a.Unclosed) (t : Token) : (a.push t).Unclosed := by
  cases a with
  | value outer => exact unclosed_pushValue outer t
  | firstItem outer =>
    by_cases ht : t = .arrayClose
    · subst ht
      exact trivial
    · rw [push_firstItem ht]
      exact unclosed_pushValue _ t
  | firstKey outer =>
    by_cases ht : t = .objectClose
    · subst ht
      exact trivial
    · rw [push_firstKey ht]
      exact unclosed_pushKey _ _ t
  | nextKey before outer => exact unclosed_pushKey before outer t
  | colon before key outer =>
    show (pushColon before key outer t).Unclosed
    unfold pushColon
    split
    · exact trivial
    · exact not_closed_closeAll_cons _ _ _ _
    · exact not_closed_closeAll_cons _ _ _ _
  | after v outer => exact unclosed_pushAfter v outer t
  | whole v | trailing v | cut v => exact h

/-! ## The end of a text, and what may come in its place -/

/-- Only the end makes a value whole. -/
theorem eq_ended_of_push_eq_whole {a : Assembler} {t : Token} {v : Document}
    (h : a.push t = whole v) : a = whole v ∨ t = .flaw .ended := by
  cases a with
  | value outer => cases t <;> cases h
  | firstItem outer => cases t <;> cases h
  | firstKey outer => cases t <;> cases h
  | nextKey before outer => cases t <;> cases h
  | colon before key outer =>
    replace h : pushColon before key outer t = whole v := h
    unfold pushColon at h
    split at h <;> cases h
  | after w outer =>
    match outer with
    | [] =>
      rcases pushAfter_outermost w t with ⟨hended, -⟩ | ⟨-, hpush⟩
      · exact Or.inr hended
      · cases hpush.symm.trans h
    | .item _ :: _ | .member _ _ :: _ => cases t <;> cases h
  | whole w | trailing w | cut w => exact Or.inl h

/-- A text that is still being read has not ended. -/
structure Underway (a : Assembler) : Prop where
  unclosed : a.Unclosed
  notWhole : ∀ v, a ≠ whole v

theorem Underway.push {a : Assembler} (h : a.Underway) {t : Token} (ht : t ≠ .flaw .ended) :
    (a.push t).Underway where
  unclosed := h.unclosed.push t
  notWhole := by
    intro v hv
    rcases eq_ended_of_push_eq_whole hv with ha | ht'
    · exact h.notWhole v ha
    · exact ht ht'

theorem Underway.foldl_push : ∀ {ts : List Token} {a : Assembler}, a.Underway →
    (∀ t ∈ ts, t ≠ .flaw .ended) → (ts.foldl Assembler.push a).Underway
  | [], _, h, _ => h
  | t :: ts, a, h, hts => by
    obtain ⟨ht, hts⟩ := List.forall_mem_cons.mp hts
    have hpush : (a.push t).Underway := h.push ht
    exact hpush.foldl_push hts

section Flaws

variable {f : Flaw} {t : Token}

end Flaws

end Assembler

end Json

end ScopedVars
