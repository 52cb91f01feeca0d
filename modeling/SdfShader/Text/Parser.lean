import SdfShader.Text.Search

/-!
# Parsers

A parser takes characters from the head of a text and gives a result, or fails and takes nothing.
`first <|> second` tries the second parser where the first one fails.
-/

namespace SdfShader.Text

abbrev Parser := StateT (List Char) Option

namespace Parser

variable {α : Type}

/-! ## Characters -/

def satisfy (p : Char → Bool) : Parser Char := fun
  | c :: cs => if p c then some (c, cs) else none
  | [] => none

def char (c : Char) : Parser Char :=
  satisfy (· = c)

/-- The characters of a text, in a row. -/
def literal (s : String) : Parser Unit := fun cs =>
  (rest? s.toList cs).map ((), ·)

/-- The next character, which stays. -/
def peek? : Parser (Option Char) := fun cs =>
  some (cs.head?, cs)

/-- All characters up to the first that does not fit. -/
def takeWhile (p : Char → Bool) : Parser (List Char) := fun cs =>
  some (cs.takeWhile p, cs.dropWhile p)

/-- The end of the text. -/
def atEnd : Parser Unit := fun cs =>
  if cs.isEmpty then some ((), cs) else none

/-! ## Repetition -/

def optional? (p : Parser α) : Parser (Option α) :=
  some <$> p <|> pure none

/-- As many results as there are, at most `fuel`. -/
def repeated (p : Parser α) : Nat → Parser (List α)
  | 0 => pure []
  | fuel + 1 => (do
      let a ← p
      let rest ← repeated p fuel
      return a :: rest) <|> pure []

/-- As many results as there are, of a parser that takes at least one character. -/
def many (p : Parser α) : Parser (List α) := fun cs =>
  repeated p cs.length cs

/-- Results with separators between them; a separator that no result follows stays. -/
def separated (p : Parser α) (separator : Parser Unit) : Parser (List α) :=
  (do
    let a ← p
    let rest ← many (separator *> p)
    return a :: rest) <|> pure []

/-- The result for a whole text. -/
def run? (p : Parser α) (text : String) : Option α :=
  match p text.toList with
  | some (a, []) => some a
  | _ => none

/-! ## Laws -/

theorem satisfy_eq_some_iff {p : Char → Bool} {cs rest : List Char} {c : Char} :
    satisfy p cs = some (c, rest) ↔ p c ∧ cs = c :: rest := by
  cases cs with
  | nil => simp [satisfy]
  | cons d ds =>
    simp only [satisfy]
    constructor
    · intro h
      split at h <;> simp_all
    · rintro ⟨h, h2⟩
      simp_all

theorem literal_eq_some_iff {s : String} {cs rest : List Char} :
    literal s cs = some ((), rest) ↔ cs = s.toList ++ rest := by
  simp [literal, rest?_eq_some_iff]

theorem run?_eq_some_iff {p : Parser α} {text : String} {a : α} :
    p.run? text = some a ↔ p text.toList = some (a, []) := by
  unfold run?
  split <;> simp_all

end Parser
end SdfShader.Text
