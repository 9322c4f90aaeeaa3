import ScopedVars.Json.Assembler
import ScopedVars.Text.Pieces

/-!
# `Proofs/Json/Spelling` — which tokens a text spells

The reader takes a text through two machines at once. A proof takes it through one after the other:
`Scanner.tokens` is the token list of a whole text, and the contents of a text are what the
assembler makes of that list (`Contents.ofChars_eq`).

Every statement about a written text is then a `Spells`:

> `Spells text ts`: wherever `text` stands, the scanner finds the tokens `ts` there and goes on
> behind it as if nothing had been.

*Wherever* has one proviso, and it is there for numbers alone. A number is over only when the next
character says so, and a digit that follows would become part of it. So what follows has to be
`Delimited`, which punctuation, a blank and the end of the text all are.
-/

set_option autoImplicit false

namespace ScopedVars

namespace Json

/-! ## One machine after the other -/

/-- The tokens of the rest of a text, from what the scanner is in the middle of. -/
def Scanner.tokens : Scanner → List Char → List Token
  | s, [] => s.finish
  | s, c :: rest => (s.step c).1 ++ tokens (s.step c).2 rest

theorem Scanner.tokens_cons (s : Scanner) (c : Char) (rest : List Char) :
    s.tokens (c :: rest) = (s.step c).1 ++ (s.step c).2.tokens rest := rfl

theorem Reading.finish_foldl_step : ∀ (text : List Char) (s : Scanner) (a : Assembler),
    (text.foldl Reading.step ⟨s, a⟩).finish = (s.tokens text).foldl Assembler.push a
  | [], _, _ => rfl
  | c :: rest, s, a => by
    rw [List.foldl_cons, Scanner.tokens_cons, List.foldl_append]
    exact finish_foldl_step rest (s.step c).2 ((s.step c).1.foldl Assembler.push a)

theorem Contents.ofChars_eq (text : List Char) :
    Contents.ofChars text
      = ((Scanner.between.tokens text).foldl Assembler.push (.value [])).contents := by
  unfold Contents.ofChars Reading.start
  rw [Reading.finish_foldl_step]

/-! ## Texts that spell tokens -/

/-- Whether a character that follows a number may belong to it. -/
def continuesNumber (c : Char) : Bool :=
  c.isDigit || c == '+' || c == '-' || c == '.' || c == 'e' || c == 'E'

/-- A rest of a text that ends a number which stands before it. -/
def Delimited (rest : List Char) : Prop :=
  ∀ c ∈ rest.head?, continuesNumber c = false

theorem delimited_nil : Delimited [] := by
  intro c hc
  cases hc

theorem delimited_cons {c : Char} (hc : continuesNumber c = false) (rest : List Char) :
    Delimited (c :: rest) := by
  intro d hd
  cases hd
  exact hc

/-- The text stands for these tokens, whatever delimited rest follows it. -/
def Spells (text : List Char) (ts : List Token) : Prop :=
  ∀ rest, Delimited rest → Scanner.between.tokens (text ++ rest) = ts ++ Scanner.between.tokens rest

theorem spells_nil : Spells [] [] := fun _ _ => rfl

/-- The tokens of the text by itself: its own, and the one for its end. -/
theorem Spells.tokens_eq {text : List Char} {ts : List Token} (h : Spells text ts) :
    Scanner.between.tokens text = ts ++ [.flaw .ended] := by
  have hwhole := h [] delimited_nil
  rwa [List.append_nil] at hwhole

/-- The characters that are tokens by themselves. -/
def punctuation? : Char → Option Token
  | '[' => some .arrayOpen
  | ']' => some .arrayClose
  | '{' => some .objectOpen
  | '}' => some .objectClose
  | ',' => some .comma
  | ':' => some .colon
  | _ => none

theorem continuesNumber_of_punctuation {c : Char} {t : Token} (hc : punctuation? c = some t) :
    continuesNumber c = false := by
  unfold punctuation? at hc
  split at hc <;> cases hc <;> rfl

theorem Spells.cons_punctuation {text : List Char} {ts : List Token} {c : Char} {t : Token}
    (hc : punctuation? c = some t) (h : Spells text ts) : Spells (c :: text) (t :: ts) := by
  intro rest hrest
  have hstep : Scanner.between.step c = ([t], .between) := by
    unfold punctuation? at hc
    split at hc <;> cases hc <;> rfl
  rw [List.cons_append, Scanner.tokens_cons, hstep, h rest hrest]
  rfl

/-- Punctuation delimits, so it may follow any text. -/
theorem Spells.append_punctuation {text more : List Char} {ts us : List Token} {c : Char}
    {t : Token} (h : Spells text ts) (hc : punctuation? c = some t) (hmore : Spells more us) :
    Spells (text ++ c :: more) (ts ++ t :: us) := by
  intro rest hrest
  have hdelimited := delimited_cons (continuesNumber_of_punctuation hc) (more ++ rest)
  rw [List.append_assoc, List.append_assoc, List.cons_append, h _ hdelimited]
  exact congrArg (ts ++ ·) (hmore.cons_punctuation hc rest hrest)

/-! ## Blanks -/

def Blanks (cs : List Char) : Prop :=
  ∀ c ∈ cs, isBlank c = true

theorem blanks_nil : Blanks [] := by
  intro c hc
  cases hc

/-- Blanks need no delimiter behind them: there is nothing that could go on. -/
theorem Scanner.tokens_blanks : ∀ {cs : List Char}, Blanks cs → ∀ rest : List Char,
    between.tokens (cs ++ rest) = between.tokens rest
  | [], _, _ => rfl
  | c :: cs, h, rest => by
    obtain ⟨hc, hcs⟩ := List.forall_mem_cons.mp h
    have hstep : Scanner.between.step c = ([], .between) := if_pos hc
    rw [List.cons_append, Scanner.tokens_cons, hstep]
    exact tokens_blanks hcs rest

theorem spells_blanks {cs : List Char} (h : Blanks cs) : Spells cs [] :=
  fun rest _ => Scanner.tokens_blanks h rest

/-- A blank delimits, too; and where there is none, what follows the text does. -/
theorem Blanks.delimited {cs rest : List Char} (h : Blanks cs) (hrest : Delimited rest) :
    Delimited (cs ++ rest) := by
  cases cs with
  | nil => exact hrest
  | cons c cs =>
    have hblank : isBlank c = true := h c List.mem_cons_self
    refine delimited_cons ?_ (cs ++ rest)
    simp only [isBlank, Bool.or_eq_true, beq_iff_eq] at hblank
    rcases hblank with ((rfl | rfl) | rfl) | rfl <;> rfl

theorem Spells.padded {before text behind : List Char} {ts : List Token} (h : Spells text ts)
    (hbefore : Blanks before) (hbehind : Blanks behind) :
    Spells (before ++ (text ++ behind)) ts := by
  intro rest hrest
  rw [List.append_assoc, List.append_assoc, Scanner.tokens_blanks hbefore,
    h _ (hbehind.delimited hrest), Scanner.tokens_blanks hbehind]

/-! ## Words -/

theorem spells_null : Spells "null".toList [.null] := fun _ _ => rfl

theorem spells_bool (b : Bool) : Spells (Text.bool b) [.boolean b] := by
  cases b <;> exact fun _ _ => rfl

/-! ## Pieces in a row -/

def separated : List (List Token) → List Token
  | [] => []
  | [piece] => piece
  | piece :: rest => piece ++ .comma :: separated rest

end Json

end ScopedVars
