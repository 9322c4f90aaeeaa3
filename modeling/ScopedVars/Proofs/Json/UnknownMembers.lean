import Mathlib.Logic.Relation
import ScopedVars.Json.Read
import ScopedVars.Proofs.Json.Acceptance
import ScopedVars.Proofs.Json.Online
import ScopedVars.Proofs.Json.Grammar
import ScopedVars.Proofs.Json.Roles

/-!
# `Proofs/Json/UnknownMembers` — members that mean nothing

A map of a variable, a layout or a project may have members under other keys than its own. They are
skipped, so it should make no difference whether they are there: a text with such members put in,
wherever and however many, gives the same answer.

That is one statement about three machines. For the reader it is `Grown.same`: a document with a
member put in somewhere below is read as before. For the assembler it is a simulation: two
assemblers, one of which has taken in the tokens of such a member, go on in step, and their
documents differ in this member alone (`Assembler.Grown.push`). For the scanner it is `Spells`: the
member is the tokens of a key, a colon and a value, and what is around it is the same tokens as
without it. The theorem puts them together (`unknown_members_change_nothing`).
-/

set_option autoImplicit false

namespace ScopedVars

namespace Json

/-! ## Documents with one member more -/

/-- In a document with a role, one member that means nothing has been put in: in the map itself, or
in a part that has a role. -/
inductive Document.Grown : Role → Document → Document → Prop where
  | here {role : Role} {key : String} (hkey : role.Ignores key) (u : Tree)
      (before behind : List (Token × Document)) (ending : Ending) :
      Grown role (.object (before ++ behind) ending)
        (.object (before ++ (.string (some key), u.document) :: behind) ending)
  | item {role inner : Role} {before : List Document} {d d' : Document}
      (hleads : Leads role (.item before) inner) (h : Grown inner d d') (behind : List Document)
      (ending : Ending) :
      Grown role (.array (before.reverse ++ d :: behind) ending)
        (.array (before.reverse ++ d' :: behind) ending)
  | member {role inner : Role} {before : List (Token × Document)} {key : Token} {d d' : Document}
      (hleads : Leads role (.member before key) inner) (h : Grown inner d d')
      (behind : List (Token × Document)) (ending : Ending) :
      Grown role (.object (before.reverse ++ (key, d) :: behind) ending)
        (.object (before.reverse ++ (key, d') :: behind) ending)

/-- **A member that means nothing does not change the answer.** -/
theorem Document.Grown.same {role : Role} {d d' : Document} (h : Grown role d d') :
    role.Same d d' := by
  induction h with
  | here hkey u before behind ending => exact Role.same_insert hkey u before behind ending
  | item hleads _ behind ending ih => exact hleads.same_array ih behind ending
  | member hleads _ behind ending ih => exact hleads.same_object ih behind ending

/-! ## Assemblers with one member more -/

namespace Document

/-- The same for the entries of a map that has not been closed, which stand in reverse. -/
inductive MembersGrown (role : Role) :
    List (Token × Document) → List (Token × Document) → Prop where
  | here {key : String} (hkey : role.Ignores key) (u : Tree)
      (behind before : List (Token × Document)) :
      MembersGrown role (behind ++ before) (behind ++ (.string (some key), u.document) :: before)
  | member {inner : Role} {before : List (Token × Document)} {key : Token} {d d' : Document}
      (hleads : Leads role (.member before key) inner) (h : Grown inner d d')
      (behind : List (Token × Document)) :
      MembersGrown role (behind ++ (key, d) :: before) (behind ++ (key, d') :: before)

variable {role inner : Role} {v v' : Document}

theorem MembersGrown.cons {bs bs' : List (Token × Document)} (h : MembersGrown role bs bs')
    (m : Token × Document) : MembersGrown role (m :: bs) (m :: bs') := by
  cases h with
  | here hkey u behind before => exact .here hkey u (m :: behind) before
  | member hleads h behind => exact .member hleads h (m :: behind)

theorem MembersGrown.object {bs bs' : List (Token × Document)} (h : MembersGrown role bs bs')
    (ending : Ending) : Grown role (.object bs.reverse ending) (.object bs'.reverse ending) := by
  cases h with
  | here hkey u behind before =>
    rw [List.reverse_append, List.reverse_append, List.reverse_cons, List.append_assoc]
    exact .here hkey u before.reverse behind.reverse ending
  | member hleads h behind =>
    rw [List.reverse_append, List.reverse_append, List.reverse_cons, List.reverse_cons,
      List.append_assoc, List.append_assoc]
    exact .member hleads h behind.reverse ending

end Document

open Document (Grown MembersGrown)

/-- The same for a list or map that waits for a value. -/
inductive Frame.Grown (role : Role) : Frame → Frame → Prop where
  | item {inner : Role} {before : List Document} {d d' : Document}
      (hleads : Leads role (.item before) inner) (h : Document.Grown inner d d')
      (behind : List Document) :
      Grown role (.item (behind ++ d :: before)) (.item (behind ++ d' :: before))
  | member {bs bs' : List (Token × Document)} (h : MembersGrown role bs bs') (key : Token) :
      Grown role (.member bs key) (.member bs' key)

/-- Of all lists and maps that have begun, one is a grown one. -/
inductive StackGrown (outermost : Role) : List Frame → List Frame → Prop where
  | here {role : Role} {frame frame' : Frame} {outer : List Frame}
      (hreached : Reached outermost outer role) (h : Frame.Grown role frame frame') :
      StackGrown outermost (frame :: outer) (frame' :: outer)
  | outside (frame : Frame) {outer outer' : List Frame} (h : StackGrown outermost outer outer') :
      StackGrown outermost (frame :: outer) (frame :: outer')

/-- A value with what has begun around it, when one of them is grown; or when the member is the last
value so far. -/
inductive ValueGrown (outermost : Role) :
    Document → List Frame → Document → List Frame → Prop where
  | around (v : Document) {outer outer' : List Frame} (h : StackGrown outermost outer outer') :
      ValueGrown outermost v outer v outer'
  | value {role : Role} {outer : List Frame} {v v' : Document}
      (hreached : Reached outermost outer role) (h : Document.Grown role v v') :
      ValueGrown outermost v outer v' outer
  | member {role : Role} {outer : List Frame} {key : String} (hkey : role.Ignores key)
      (hreached : Reached outermost outer role) (v : Document) (before : List (Token × Document))
      (k : Token) (u : Tree) :
      ValueGrown outermost v (.member before k :: outer) u.document
        (.member ((k, v) :: before) (.string (some key)) :: outer)

/-- Two assemblers, the second of which has one member more. -/
inductive Assembler.Grown (outermost : Role) : Assembler → Assembler → Prop where
  | value {outer outer' : List Frame} (h : StackGrown outermost outer outer') :
      Grown outermost (.value outer) (.value outer')
  | firstItem {outer outer' : List Frame} (h : StackGrown outermost outer outer') :
      Grown outermost (.firstItem outer) (.firstItem outer')
  | firstKey {outer outer' : List Frame} (h : StackGrown outermost outer outer') :
      Grown outermost (.firstKey outer) (.firstKey outer')
  | nextKey {bs bs' : List (Token × Document)} {outer outer' : List Frame}
      (h : ∀ key, StackGrown outermost (.member bs key :: outer) (.member bs' key :: outer')) :
      Grown outermost (.nextKey bs outer) (.nextKey bs' outer')
  | colon {bs bs' : List (Token × Document)} {key : Token} {outer outer' : List Frame}
      (h : StackGrown outermost (.member bs key :: outer) (.member bs' key :: outer')) :
      Grown outermost (.colon bs key outer) (.colon bs' key outer')
  | after {d d' : Document} {outer outer' : List Frame}
      (h : ValueGrown outermost d outer d' outer') :
      Grown outermost (.after d outer) (.after d' outer')
  | whole {d d' : Document} (h : Document.Grown outermost d d') :
      Grown outermost (.whole d) (.whole d')
  | trailing {d d' : Document} (h : Document.Grown outermost d d') :
      Grown outermost (.trailing d) (.trailing d')
  | cut {d d' : Document} (h : Document.Grown outermost d d') :
      Grown outermost (.cut d) (.cut d')

section Simulation

variable {outermost role inner : Role} {v v' : Document} {frame frame' : Frame}
  {outer outer' : List Frame}

theorem Frame.Grown.close (h : Frame.Grown role frame frame') (v : Document) (ending : Ending) :
    Document.Grown role (frame.close v ending) (frame'.close v ending) := by
  cases h with
  | item hleads h behind =>
    show Document.Grown role (.array (v :: (behind ++ _ :: _)).reverse ending)
      (.array (v :: (behind ++ _ :: _)).reverse ending)
    rw [List.reverse_cons, List.reverse_cons, List.reverse_append, List.reverse_append,
      List.reverse_cons, List.reverse_cons, List.append_assoc, List.append_assoc,
      List.append_assoc, List.append_assoc]
    exact .item hleads h _ ending
  | member h key => exact (h.cons (key, v)).object ending

/-- A grown value makes the list or map around it a grown one. -/
theorem Leads.close (hleads : Leads role frame inner) (h : Document.Grown inner v v')
    (ending : Ending) : Document.Grown role (frame.close v ending) (frame.close v' ending) := by
  cases frame with
  | item before =>
    show Document.Grown role (.array (v :: before).reverse ending)
      (.array (v' :: before).reverse ending)
    rw [List.reverse_cons, List.reverse_cons]
    exact .item hleads h [] ending
  | member before key =>
    show Document.Grown role (.object ((key, v) :: before).reverse ending)
      (.object ((key, v') :: before).reverse ending)
    rw [List.reverse_cons, List.reverse_cons]
    exact .member hleads h [] ending

theorem Reached.closeAll (h : Reached outermost outer role) : ∀ {v v' : Document},
    Document.Grown role v v' → ∀ fault,
      Document.Grown outermost (closeAll fault v outer) (closeAll fault v' outer) := by
  induction h with
  | outermost => exact fun hv _ => hv
  | inside _ hleads ih => exact fun hv fault => ih (hleads.close hv (.cut fault)) fault

theorem StackGrown.closeAll (h : StackGrown outermost outer outer') :
    ∀ (v : Document) (fault : Fault),
      Document.Grown outermost (closeAll fault v outer) (closeAll fault v outer') := by
  induction h with
  | here hreached h => exact fun v fault => hreached.closeAll (h.close v (.cut fault)) fault
  | outside frame _ ih => exact fun v fault => ih (frame.close v (.cut fault)) fault

theorem ValueGrown.closeAll (h : ValueGrown outermost v outer v' outer') (fault : Fault) :
    Document.Grown outermost (closeAll fault v outer) (closeAll fault v' outer') := by
  cases h with
  | around v h => exact h.closeAll v fault
  | value hreached h => exact hreached.closeAll h fault
  | member hkey hreached v before k u =>
    exact hreached.closeAll ((MembersGrown.here hkey u [] ((k, v) :: before)).object (.cut fault))
      fault

namespace Assembler

theorem Grown.pushValue (h : StackGrown outermost outer outer') (t : Token) :
    Grown outermost (pushValue outer t) (pushValue outer' t) := by
  cases t with
  | null | boolean _ | number _ | string _ => exact .after (.around _ h)
  | arrayOpen => exact .firstItem h
  | objectOpen => exact .firstKey h
  | arrayClose | objectClose | comma | colon | flaw _ => exact .cut (h.closeAll _ _)

theorem Grown.pushKey {bs bs' : List (Token × Document)}
    (h : ∀ key, StackGrown outermost (.member bs key :: outer) (.member bs' key :: outer'))
    (t : Token) : Grown outermost (pushKey bs outer t) (pushKey bs' outer' t) := by
  cases t with
  | string s => exact .colon (h (.string s))
  | null | boolean _ | number _ | arrayOpen | objectOpen | arrayClose | objectClose | comma | colon
  | flaw _ => exact .cut ((h _).closeAll _ _)

theorem Grown.pushColon {bs bs' : List (Token × Document)} {key : Token}
    (h : StackGrown outermost (.member bs key :: outer) (.member bs' key :: outer')) (t : Token) :
    Grown outermost (pushColon bs key outer t) (pushColon bs' key outer' t) := by
  unfold Assembler.pushColon
  split
  · exact .value h
  · exact .cut (h.closeAll _ _)
  · exact .cut (h.closeAll _ _)

theorem Grown.pushAfter_around (h : StackGrown outermost outer outer') (v : Document) (t : Token) :
    Grown outermost (pushAfter v outer t) (pushAfter v outer' t) := by
  have hcut (fault : Fault) := h.closeAll v fault
  cases h with
  | here hreached hframe =>
    have hclosed : Document.Grown _ _ _ := hframe.close v .closed
    cases hframe with
    | item hleads h behind =>
      cases t with
      | comma => exact .value (.here hreached (.item hleads h (v :: behind)))
      | arrayClose => exact .after (.value hreached hclosed)
      | null | boolean _ | number _ | string _ | arrayOpen | objectOpen | objectClose | colon
      | flaw _ => exact .cut (hcut _)
    | member h key =>
      cases t with
      | comma => exact .nextKey fun next => .here hreached (.member (h.cons (key, v)) next)
      | objectClose => exact .after (.value hreached hclosed)
      | null | boolean _ | number _ | string _ | arrayOpen | objectOpen | arrayClose | colon
      | flaw _ => exact .cut (hcut _)
  | outside frame h =>
    cases frame with
    | item before =>
      cases t with
      | comma => exact .value (.outside _ h)
      | arrayClose => exact .after (.around _ h)
      | null | boolean _ | number _ | string _ | arrayOpen | objectOpen | objectClose | colon
      | flaw _ => exact .cut (hcut _)
    | member before key =>
      cases t with
      | comma => exact .nextKey fun _ => .outside _ h
      | objectClose => exact .after (.around _ h)
      | null | boolean _ | number _ | string _ | arrayOpen | objectOpen | arrayClose | colon
      | flaw _ => exact .cut (hcut _)

theorem Grown.pushAfter_value (hreached : Reached outermost outer role)
    (h : Document.Grown role v v') (t : Token) :
    Grown outermost (pushAfter v outer t) (pushAfter v' outer t) := by
  have hcut (fault : Fault) := hreached.closeAll h fault
  cases hreached with
  | outermost =>
    rcases pushAfter_outermost v t with ⟨rfl, -⟩ | ⟨ht, hpush⟩
    · exact .whole h
    · have hpush' := ((pushAfter_outermost v' t).resolve_left fun h => ht h.1).2
      rw [hpush, hpush']
      exact .trailing h
  | @inside frame _ _ _ hreached hleads =>
    have hclosed := hleads.close h .closed
    cases frame with
    | item before =>
      cases t with
      | comma => exact .value (.here hreached (.item hleads h []))
      | arrayClose => exact .after (.value hreached hclosed)
      | null | boolean _ | number _ | string _ | arrayOpen | objectOpen | objectClose | colon
      | flaw _ => exact .cut (hcut _)
    | member before key =>
      cases t with
      | comma => exact .nextKey fun _ => .here hreached (.member (.member hleads h []) _)
      | objectClose => exact .after (.value hreached hclosed)
      | null | boolean _ | number _ | string _ | arrayOpen | objectOpen | arrayClose | colon
      | flaw _ => exact .cut (hcut _)

theorem Grown.pushAfter (h : ValueGrown outermost v outer v' outer') (t : Token) :
    Grown outermost (pushAfter v outer t) (pushAfter v' outer' t) := by
  have hcut (fault : Fault) := h.closeAll fault
  cases h with
  | around v h => exact pushAfter_around h v t
  | value hreached h => exact pushAfter_value hreached h t
  | member hkey hreached v before k u =>
    have hmembers := MembersGrown.here hkey u [] ((k, v) :: before)
    cases t with
    | comma => exact .nextKey fun _ => .here hreached (.member hmembers _)
    | objectClose => exact .after (.value hreached (hmembers.object .closed))
    | null | boolean _ | number _ | string _ | arrayOpen | objectOpen | arrayClose | colon
    | flaw _ => exact .cut (hcut _)

variable {a a' : Assembler}

/-- **The two assemblers go on in step.** -/
theorem Grown.push (h : Grown outermost a a') (t : Token) :
    Grown outermost (a.push t) (a'.push t) := by
  cases h with
  | value h => exact .pushValue h t
  | firstItem h =>
    by_cases ht : t = .arrayClose
    · subst ht
      exact .after (.around _ h)
    · rw [push_firstItem ht, push_firstItem ht]
      exact .pushValue (.outside _ h) t
  | firstKey h =>
    by_cases ht : t = .objectClose
    · subst ht
      exact .after (.around _ h)
    · rw [push_firstKey ht, push_firstKey ht]
      exact .pushKey (fun _ => .outside _ h) t
  | nextKey h => exact .pushKey h t
  | colon h => exact .pushColon h t
  | after h => exact .pushAfter h t
  | whole h => exact .whole h
  | trailing h => exact .trailing h
  | cut h => exact .cut h

theorem Grown.foldl_push (h : Grown outermost a a') (ts : List Token) :
    Grown outermost (ts.foldl Assembler.push a) (ts.foldl Assembler.push a') :=
  List.foldl_rel h fun t _ _ _ h => h.push t

end Assembler

end Simulation

/-! ## Texts with one member more -/

/-- Behind these characters the first key of a map with this role may come, or its end. -/
def AtFirstKey (outermost : Role) (before : List Char) (role : Role) : Prop :=
  ∃ outer, Reached outermost outer role
    ∧ before.foldl Reading.step .start = ⟨.between, .firstKey outer⟩

/-- Behind these characters the next key of such a map is to come. -/
def AtNextKey (outermost : Role) (before : List Char) (role : Role) : Prop :=
  ∃ earlier outer, Reached outermost outer role
    ∧ before.foldl Reading.step .start = ⟨.between, .nextKey earlier outer⟩

/-- The second text has one member more, which means nothing in the map where it is. It goes before
the first member of the map or into one without members, before any later member, or behind a
member; a member has not ended before the digits that follow it. -/
inductive Enlarged (outermost : Role) : List Char → List Char → Prop where
  | first {before blanks behind cs : List Char} {role : Role} {key : String} {u : Tree}
      (hat : AtFirstKey outermost before role) (hkey : role.Ignores key)
      (hmember : MembersText [(key, u)] cs) (hblanks : Blanks blanks) :
      Enlarged outermost (before ++ (blanks ++ '"' :: behind))
        (before ++ (cs ++ ',' :: (blanks ++ '"' :: behind)))
  | only {before blanks behind cs : List Char} {role : Role} {key : String} {u : Tree}
      (hat : AtFirstKey outermost before role) (hkey : role.Ignores key)
      (hmember : MembersText [(key, u)] cs) (hblanks : Blanks blanks) :
      Enlarged outermost (before ++ (blanks ++ '\x7d' :: behind))
        (before ++ (cs ++ (blanks ++ '\x7d' :: behind)))
  | next {before behind cs : List Char} {role : Role} {key : String} {u : Tree}
      (hat : AtNextKey outermost before role) (hkey : role.Ignores key)
      (hmember : MembersText [(key, u)] cs) :
      Enlarged outermost (before ++ behind) (before ++ (cs ++ ',' :: behind))
  | behind {before behind cs : List Char} {role : Role} {key : String} {u : Tree}
      (hat : AtNextKey outermost (before ++ [',']) role) (hkey : role.Ignores key)
      (hmember : MembersText [(key, u)] cs) (hbehind : Delimited behind) :
      Enlarged outermost (before ++ behind) (before ++ ',' :: (cs ++ behind))

section Texts

variable {outermost role : Role} {key : String} {u : Tree} {cs : List Char}
  {bs : List (Token × Document)} {outer : List Frame}

theorem Reading.finish_append {before : List Char} {r : Reading}
    (h : before.foldl Reading.step .start = r) (rest : List Char) :
    ((before ++ rest).foldl Reading.step .start).finish = (rest.foldl Reading.step r).finish := by
  rw [List.foldl_append, h]

/-- The member is read where a key may come. -/
theorem Reading.finish_member (hmember : MembersText [(key, u)] cs) {a : Assembler}
    (ha : a.push (.string (some key)) = .colon bs (.string (some key)) outer) {rest : List Char}
    (hrest : Delimited rest) :
    ((cs ++ rest).foldl Reading.step ⟨.between, a⟩).finish
      = (Scanner.between.tokens rest).foldl Assembler.push
          (.after u.document (.member bs (.string (some key)) :: outer)) := by
  have htokens : Scanner.between.tokens (cs ++ rest)
      = .string (some key) :: .colon :: (u.tokens ++ Scanner.between.tokens rest) :=
    hmember.spells rest hrest
  rw [Reading.finish_foldl_step, htokens, List.foldl_cons, ha, List.foldl_cons, List.foldl_append]
  show List.foldl Assembler.push
    (u.tokens.foldl Assembler.push (.value (.member bs (.string (some key)) :: outer))) _ = _
  rw [push_tokens]

theorem Token.Resumes.ne_objectClose {f : Flaw} {t : Token} (h : (Token.flaw f).Resumes t) :
    t ≠ .objectClose := by
  cases h <;> nofun

/-- A comma leads to a key only behind the value of a member. -/
theorem Assembler.push_eq_nextKey {a : Assembler} {t : Token} (h : a.push t = .nextKey bs outer) :
    t = .comma ∧ ∃ before k v, bs = (k, v) :: before
      ∧ a = .after v (.member before k :: outer) := by
  cases a with
  | after v stack =>
    match stack with
    | [] =>
      rcases pushAfter_outermost v t with ⟨-, hpush⟩ | ⟨-, hpush⟩ <;> cases hpush.symm.trans h
    | .item before :: stack => cases t <;> cases h
    | .member before k :: stack =>
      cases t with
      | comma =>
        cases h
        exact ⟨rfl, before, k, v, rfl, rfl⟩
      | null | boolean _ | number _ | string _ | arrayOpen | objectOpen | arrayClose | objectClose
      | colon | flaw _ => cases h
  | colon before k stack =>
    replace h : pushColon before k stack t = _ := h
    unfold pushColon at h
    split at h <;> cases h
  | value stack | firstItem stack | firstKey stack | nextKey before stack =>
    cases t <;> cases h
  | whole v | trailing v | cut v => cases h

/-- Behind a member nothing is left to the scanner but the end of a number. -/
theorem Reading.Running.finish_of_nextKey {r : Reading} (hr : r.Running)
    (h : r.step ',' = ⟨.between, .nextKey bs outer⟩) :
    ∃ before k v, bs = (k, v) :: before ∧ ∀ rest, Delimited rest →
      (rest.foldl Reading.step r).finish
        = (Scanner.between.tokens rest).foldl Assembler.push
            (.after v (.member before k :: outer)) := by
  obtain ⟨s, a⟩ := r
  obtain ⟨hs, -⟩ := hr
  obtain ⟨hscanner, hassembler⟩ := Reading.mk.inj h
  cases s with
  | between =>
    obtain ⟨-, before, k, v, rfl, rfl⟩ := Assembler.push_eq_nextKey hassembler
    exact ⟨before, k, v, rfl, fun rest _ => Reading.finish_foldl_step rest _ _⟩
  | number n =>
    -- The number was still going on, and the comma ends it as any delimiter would.
    have hpush : n.push? ',' = none := push?_of_not_continuesNumber rfl n
    cases hends : n.endsBefore ',' with
    | false =>
      simp only [hpush, hends] at hscanner
      cases hscanner
    | true =>
      have hcomplete : n.complete = true := (Bool.and_eq_true_iff.mp hends).1
      simp only [hpush, hends] at hassembler
      obtain ⟨-, before, k, v, rfl, hvalue⟩ := Assembler.push_eq_nextKey hassembler
      refine ⟨before, k, v, rfl, fun rest hrest => ?_⟩
      rw [Reading.finish_foldl_step, Scanner.tokens_number_end hcomplete hrest, List.foldl_cons,
        hvalue]
  | word letter rest token =>
    -- No word is a comma.
    have htoken : token ≠ .comma := by
      rcases hs.resolve_right nofun with rfl | ⟨_, rfl⟩ <;> nofun
    cases rest with
    | nil =>
      by_cases hletter : ',' = letter
      · simp only [if_pos hletter] at hassembler
        exact absurd (Assembler.push_eq_nextKey hassembler).1 htoken
      · simp only [if_neg hletter] at hscanner
        cases hscanner
    | cons next rest =>
      by_cases hletter : ',' = letter
      · simp only [if_pos hletter] at hscanner
        cases hscanner
      · simp only [if_neg hletter] at hscanner
        cases hscanner
  | string s =>
    replace hscanner : (Scanner.stepString s ',').2 = .between := hscanner
    replace hassembler : (Scanner.stepString s ',').1.foldl Assembler.push a = _ := hassembler
    -- A comma within a string is a character of it.
    rcases Scanner.stepString_cases s ',' with hstep | hstep | ⟨next, hstep, -⟩
    · rw [hstep] at hassembler
      cases (Assembler.push_eq_nextKey hassembler).1
    · rw [hstep] at hscanner
      cases hscanner
    · rw [hstep] at hscanner
      cases hscanner
  | halted => cases hscanner

/-- **A text with one member more makes an assembler with one member more.** -/
theorem Enlarged.grown {text text' : List Char} (h : Enlarged outermost text text') :
    Assembler.Grown outermost (text.foldl Reading.step .start).finish
      (text'.foldl Reading.step .start).finish := by
  cases h with
  | @first before blanks behind cs role key u hat hkey hmember hblanks =>
    obtain ⟨outer, hreached, hstate⟩ := hat
    -- The quote begins a token that does not end the map, so a first key is the same as a next one.
    obtain ⟨t, ts, htokens, ht⟩ := Scanner.tokens_string behind .start
    have hrest : Scanner.between.tokens (blanks ++ '"' :: behind) = t :: ts :=
      (Scanner.tokens_blanks hblanks _).trans htokens
    have hcomma : Scanner.between.tokens (',' :: (blanks ++ '"' :: behind)) = .comma :: t :: ts :=
      congrArg (Token.comma :: ·) hrest
    rw [Reading.finish_append hstate, Reading.finish_append hstate, Reading.finish_foldl_step,
      hrest, Reading.finish_member hmember rfl (delimited_cons rfl _), hcomma, List.foldl_cons,
      List.foldl_cons, Assembler.push_firstKey ht.ne_objectClose]
    have hfirst (next : Token) : StackGrown outermost (.member [] next :: outer)
        (.member [(.string (some key), u.document)] next :: outer) :=
      .here hreached (.member (.here hkey u [] []) next)
    exact (Assembler.Grown.pushKey hfirst t).foldl_push ts
  | @only before blanks behind cs role key u hat hkey hmember hblanks =>
    obtain ⟨outer, hreached, hstate⟩ := hat
    have hrest : Scanner.between.tokens (blanks ++ '\x7d' :: behind)
        = .objectClose :: Scanner.between.tokens behind := Scanner.tokens_blanks hblanks _
    rw [Reading.finish_append hstate, Reading.finish_append hstate, Reading.finish_foldl_step,
      hrest, Reading.finish_member hmember rfl (hblanks.delimited (delimited_cons rfl _)), hrest]
    have honly : Assembler.Grown outermost (.after (.object [] .closed) outer)
        (.after (.object [(.string (some key), u.document)] .closed) outer) :=
      .after (.value hreached (.here hkey u [] [] .closed))
    exact honly.foldl_push _
  | @next before behind cs role key u hat hkey hmember =>
    obtain ⟨earlier, outer, hreached, hstate⟩ := hat
    have hcomma : Scanner.between.tokens (',' :: behind)
        = .comma :: Scanner.between.tokens behind := rfl
    rw [Reading.finish_append hstate, Reading.finish_append hstate, Reading.finish_foldl_step,
      Reading.finish_member hmember rfl (delimited_cons rfl _), hcomma]
    have hnext : Assembler.Grown outermost (.nextKey earlier outer)
        (.nextKey ((.string (some key), u.document) :: earlier) outer) :=
      .nextKey fun next => .here hreached (.member (.here hkey u [] earlier) next)
    exact hnext.foldl_push _
  | @behind before behind cs role key u hat hkey hmember hbehind =>
    obtain ⟨earlier, outer, hreached, hstate⟩ := hat
    have hrunning : (before.foldl Reading.step .start).Running :=
      Reading.running_start.foldl_step
    have hcomma : (before.foldl Reading.step .start).step ','
        = ⟨.between, .nextKey earlier outer⟩ := by
      rw [← hstate, List.foldl_append]
      rfl
    obtain ⟨before, k, v, rfl, hfinish⟩ := hrunning.finish_of_nextKey hcomma
    rw [Reading.finish_append rfl, Reading.finish_append rfl, hfinish behind hbehind,
      List.foldl_cons, hcomma, Reading.finish_member hmember rfl hbehind]
    have hbehind : Assembler.Grown outermost (.after v (.member before k :: outer))
        (.after u.document (.member ((k, v) :: before) (.string (some key)) :: outer)) :=
      .after (.member hkey hreached v before k u)
    exact hbehind.foldl_push _

end Texts

/-! ## The four readers -/

/-- A reader whose answer on a document stays when the document grows does not see the member. -/
theorem Assembler.Grown.answer {α : Type} {read : Nat → Document → Except ReadError α}
    {outermost : Role} {a a' : Assembler}
    (hread : ∀ {d d' : Document}, Document.Grown outermost d d' →
      ∀ room, read room d' = read room d)
    (h : Grown outermost a a') : a'.contents.answer read = a.contents.answer read := by
  have hvalue {d d' : Document} (h : Document.Grown outermost d d') (trailing : Bool) :
      Contents.answer read ⟨d', trailing⟩ = Contents.answer read ⟨d, trailing⟩ := by
    unfold Contents.answer
    rw [hread h]
  cases h with
  | whole h | cut h => exact hvalue h false
  | trailing h => exact hvalue h true
  | value _ | firstItem _ | firstKey _ | nextKey _ | colon _ | after _ => rfl

theorem readText_of_enlarged {α : Type} {read : Nat → Document → Except ReadError α}
    {outermost : Role}
    (hread : ∀ {d d' : Document}, Document.Grown outermost d d' →
      ∀ room, read room d' = read room d)
    {text text' : List Char} (h : Relation.ReflTransGen (Enlarged outermost) text text') :
    readText read text' = readText read text := by
  induction h with
  | refl => rfl
  | tail _ henlarged ih => exact (henlarged.grown.answer hread).trans ih

/-- **Members that mean nothing change nothing.** However many of them are put into the maps of a
text that are read as they go by, whatever their keys and values are and however deep these are, the
answer stays: the same value for a text that is accepted, the same error for one that is not. -/
theorem unknown_members_change_nothing (text text' : String) :
    (Relation.ReflTransGen (Enlarged .variable) text.toList text'.toList →
      Variable.ofJson text' = Variable.ofJson text)
    ∧ (Relation.ReflTransGen (Enlarged .container) text.toList text'.toList →
      Container.ofJson text' = Container.ofJson text)
    ∧ (Relation.ReflTransGen (Enlarged .layout) text.toList text'.toList →
      Layout.ofJson text' = Layout.ofJson text)
    ∧ (Relation.ReflTransGen (Enlarged .project) text.toList text'.toList →
      Project.ofJson text' = Project.ofJson text) :=
  ⟨@readText_of_enlarged _ (readVariable .streamed) .variable Document.Grown.same _ _,
    @readText_of_enlarged _ readContainer .container Document.Grown.same _ _,
    @readText_of_enlarged _ readLayout .layout Document.Grown.same _ _,
    @readText_of_enlarged _ readProject .project Document.Grown.same _ _⟩

/-- A list in a list, and so on. -/
def nestedLists : Nat → Tree
  | 0 => .array []
  | n + 1 => .array [nestedLists n]

def nestedBrackets : Nat → List Char
  | 0 => ['[', ']']
  | n + 1 => '[' :: (nestedBrackets n ++ [']'])

theorem treeText_nestedBrackets : ∀ n : Nat, TreeText (nestedLists n) (nestedBrackets n)
  | 0 => .array (.none blanks_nil)
  | n + 1 => .array (.last (treeText_nestedBrackets n).padded)

/-- A container whose variable has two members under an unknown key. -/
def annotatedText (value : List Char) : List Char :=
  "\x7b\"a\":\x7b\"x\":".toList
    ++ (value ++ ",\"type\":\"boolean\",\"x\":null,\"value\":true\x7d\x7d".toList)

/-- The container without them. -/
def plainText : String :=
  "\x7b\"a\":\x7b\"type\":\"boolean\",\"value\":true\x7d\x7d"

theorem enlarged_annotatedText {t : Tree} {value : List Char} (h : TreeText t value) :
    Relation.ReflTransGen (Enlarged .container) plainText.toList (annotatedText value) := by
  have hkey : Role.variable.Ignores "x" := ⟨_, rfl, by decide⟩
  have hname : KeyText "x" (stringChars "x") := .ofStringText (stringText_stringChars "x")
  have hreached : Reached .container [.member [] (.string (some "a"))] .variable :=
    .inside .outermost (.entry [] "a")
  have hbehind : Enlarged .container
      ("\x7b\"a\":\x7b\"type\":\"boolean\"".toList ++ ",\"value\":true\x7d\x7d".toList)
      ("\x7b\"a\":\x7b\"type\":\"boolean\"".toList
        ++ ',' :: (stringChars "x" ++ ':' :: "null".toList ++ ",\"value\":true\x7d\x7d".toList)) :=
    .behind ⟨_, _, hreached, rfl⟩ hkey (.last hname TreeText.null.padded) (delimited_cons rfl _)
  have hfirst : Enlarged .container
      ("\x7b\"a\":\x7b".toList
        ++ ([] ++ '"' :: "type\":\"boolean\",\"x\":null,\"value\":true\x7d\x7d".toList))
      ("\x7b\"a\":\x7b".toList ++ ((stringChars "x" ++ ':' :: value)
        ++ ',' :: ([] ++ '"' :: "type\":\"boolean\",\"x\":null,\"value\":true\x7d\x7d".toList))) :=
    .first ⟨_, hreached, rfl⟩ hkey (.last hname h.padded) blanks_nil
  have hplain : plainText.toList
      = "\x7b\"a\":\x7b\"type\":\"boolean\"".toList ++ ",\"value\":true\x7d\x7d".toList := by
    decide +kernel
  have hmiddle : "\x7b\"a\":\x7b\"type\":\"boolean\"".toList
        ++ ',' :: (stringChars "x" ++ ':' :: "null".toList ++ ",\"value\":true\x7d\x7d".toList)
      = "\x7b\"a\":\x7b".toList
        ++ ([] ++ '"' :: "type\":\"boolean\",\"x\":null,\"value\":true\x7d\x7d".toList) := by
    decide +kernel
  rw [hmiddle] at hbehind
  rw [hplain]
  exact (Relation.ReflTransGen.single hbehind).tail hfirst

/-- The value is nested deeper than anything that is read. -/
theorem annotatedText_read :
    Relation.ReflTransGen (Enlarged .container) plainText.toList
        (String.ofList (annotatedText (nestedBrackets 200))).toList
      ∧ Container.ofJson (String.ofList (annotatedText (nestedBrackets 200)))
        = .ok ⟨[("a", .boolean true)]⟩ := by
  have henlarged : Relation.ReflTransGen (Enlarged .container) plainText.toList
      (String.ofList (annotatedText (nestedBrackets 200))).toList := by
    rw [String.toList_ofList]
    exact enlarged_annotatedText (treeText_nestedBrackets 200)
  have hread : Container.ofJson plainText = .ok ⟨[("a", .boolean true)]⟩ := by
    decide +kernel
  exact ⟨henlarged, ((unknown_members_change_nothing plainText _).2.1 henlarged).trans hread⟩

end Json

end ScopedVars
