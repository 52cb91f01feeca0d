import SdfShader.Proofs.Shading.Token

/-!
# Syntax — reading tokens of the shading language

The part of the shading language that fragments are written in: declarations and assignments of
registers, and assignments under a condition. An operator stands between two operands only, so that
no rule of precedence is needed.

* `Expression` and `Command`, the syntax, and their `tokens`;
* `readExpression` and `readCommands`, the reader, which has no more steps to go than there are
  tokens to read;
* `readCommands_tokens`, the reader gives back every command from its tokens.
-/

namespace SdfShader
namespace Shading

/-! ## Syntax -/

inductive Expression
  | number (text : String)
  | truth (value : Bool)
  | name (register : String)
  | member (register field : String)
  | negation (e : Expression)
  | call (function : String) (arguments : List Expression)
  | difference (left right : Expression)
  | comparison (left right : Expression)

/-- Gives one field of a register another value. -/
structure Assignment where
  register : String
  field : String
  value : Expression

inductive Command
  | declaration (type register : String) (value : Expression)
  | assignment (a : Assignment)
  | conditional (condition : Expression) (body : List Assignment)

/-- Words that cannot be the name of a register. -/
def reservedWords : List String :=
  ["true", "false", "if", "MaterialDist", "vec3", "min", "op_smooth_min", "sd_sphere", "sd_box"]

/-- Whether the text of a numeral has digits on both sides of a point; without the point it would be
a whole number, which is of another type. -/
def hasPoint (cs : List Char) : Bool :=
  match cs.dropWhile Char.isDigit with
  | '.' :: fraction =>
    cs.head?.any Char.isDigit && !fraction.isEmpty && fraction.all Char.isDigit
  | _ => false

theorem hasPoint_of_isNumeral {cs : List Char} (h : IsNumeral cs) : hasPoint cs = true := by
  rcases h with ⟨first, whole, fraction, rfl, hfirst, hwhole, hfraction, hne⟩
  have hdrop : (first :: (whole ++ '.' :: fraction)).dropWhile Char.isDigit = '.' :: fraction := by
    rw [← List.cons_append, List.dropWhile_append_of_pos]
    · rfl
    · simpa [hfirst] using hwhole
  simp [hasPoint, hdrop, hfirst, hne, List.all_eq_true.2 hfraction]

/-! ## Tokens -/

mutual

def Expression.tokens : Expression → List Token
  | .number text => [.numeral text]
  | .truth value => [.word (if value then "true" else "false")]
  | .name register => [.word register]
  | .member register field => [.word register, .punctuation '.', .word field]
  | .negation e => .operator "-" :: e.tokens
  | .call function arguments =>
    .word function :: .punctuation '(' :: argumentTokens arguments
  | .difference left right => left.tokens ++ .operator "-" :: right.tokens
  | .comparison left right => left.tokens ++ .operator "<" :: right.tokens

/-- The arguments of a call with the commas between and the parenthesis behind them. -/
def argumentTokens : List Expression → List Token
  | [] => []
  | e :: es =>
    e.tokens ++ .punctuation (if es.isEmpty then ')' else ',') :: argumentTokens es

end

def Assignment.tokens (a : Assignment) : List Token :=
  .word a.register :: .punctuation '.' :: .word a.field :: .operator "=" ::
    (a.value.tokens ++ [.punctuation ';'])

def Command.tokens : Command → List Token
  | .declaration type register value =>
    .word type :: .word register :: .operator "=" :: (value.tokens ++ [.punctuation ';'])
  | .assignment a => a.tokens
  | .conditional condition body =>
    .word "if" :: .punctuation '(' :: (condition.tokens ++
      .punctuation ')' :: .punctuation '\x7b' ::
        (body.flatMap Assignment.tokens ++ [.punctuation '\x7d']))

/-! ## Reading -/

mutual

def readExpression : Nat → List Token → Option (Expression × List Token)
  | 0, _ => none
  | fuel + 1, ts => do
    let (left, ts) ← readOperand fuel ts
    match ts with
    | .operator "-" :: ts =>
      let (right, ts) ← readOperand fuel ts
      return (.difference left right, ts)
    | .operator "<" :: ts =>
      let (right, ts) ← readOperand fuel ts
      return (.comparison left right, ts)
    | _ => return (left, ts)

/-- Reads what can stand beside an operator. -/
def readOperand : Nat → List Token → Option (Expression × List Token)
  | 0, _ => none
  | _ + 1, .numeral text :: ts => if hasPoint text.toList then some (.number text, ts) else none
  | fuel + 1, .operator "-" :: ts => do
    let (e, ts) ← readOperand fuel ts
    return (.negation e, ts)
  -- Functions may have the reserved words as names, registers may not.
  | fuel + 1, .word function :: .punctuation '(' :: ts => do
    let (arguments, ts) ← readArguments fuel ts
    return (.call function arguments, ts)
  | _ + 1, .word register :: .punctuation '.' :: .word field :: ts =>
    if reservedWords.contains register then none else some (.member register field, ts)
  | _ + 1, .word word :: ts =>
    if word = "true" then some (.truth true, ts)
    else if word = "false" then some (.truth false, ts)
    else if reservedWords.contains word then none
    else some (.name word, ts)
  | _ + 1, _ => none

def readArguments : Nat → List Token → Option (List Expression × List Token)
  | 0, _ => none
  | fuel + 1, ts => do
    let (e, ts) ← readExpression fuel ts
    match ts with
    | .punctuation ',' :: ts =>
      let (es, ts) ← readArguments fuel ts
      return (e :: es, ts)
    | .punctuation ')' :: ts => return ([e], ts)
    | _ => none

end

def readAssignment (fuel : Nat) : List Token → Option (Assignment × List Token)
  | .word register :: .punctuation '.' :: .word field :: .operator "=" :: ts => do
    if reservedWords.contains register then none
    let (value, ts) ← readExpression fuel ts
    match ts with
    | .punctuation ';' :: ts => return (⟨register, field, value⟩, ts)
    | _ => none
  | _ => none

/-- Reads assignments up to a closing brace. -/
def readBody : Nat → List Token → Option (List Assignment × List Token)
  | 0, _ => none
  | _ + 1, .punctuation '\x7d' :: ts => some ([], ts)
  | fuel + 1, ts => do
    let (a, ts) ← readAssignment fuel ts
    let (body, ts) ← readBody fuel ts
    return (a :: body, ts)

def readCommand (fuel : Nat) : List Token → Option (Command × List Token)
  | .word "if" :: .punctuation '(' :: ts => do
    let (condition, ts) ← readExpression fuel ts
    match ts with
    | .punctuation ')' :: .punctuation '\x7b' :: ts =>
      let (body, ts) ← readBody fuel ts
      return (.conditional condition body, ts)
    | _ => none
  | .word type :: .word register :: .operator "=" :: ts => do
    if reservedWords.contains register then none
    let (value, ts) ← readExpression fuel ts
    match ts with
    | .punctuation ';' :: ts => return (.declaration type register value, ts)
    | _ => none
  | ts => do
    let (a, ts) ← readAssignment fuel ts
    return (.assignment a, ts)

def readCommands : Nat → List Token → Option (List Command)
  | _, [] => some []
  | 0, _ => none
  | fuel + 1, ts => do
    let (c, ts) ← readCommand fuel ts
    let cs ← readCommands fuel ts
    return c :: cs

/-- The commands of a text. -/
def read? (text : String) : Option (List Command) :=
  -- A level of an expression takes two steps, and at least one token.
  let ts := scan [] text.toList
  readCommands (2 * ts.length + 1) ts

/-! ## What can be read -/

/-- Whether an expression can stand beside an operator. -/
def Expression.IsOperand : Expression → Prop
  | .difference _ _ => False
  | .comparison _ _ => False
  | _ => True

mutual

def Expression.Readable : Expression → Prop
  | .number text => hasPoint text.toList = true
  | .truth _ => True
  | .name register => register ∉ reservedWords
  | .member register _ => register ∉ reservedWords
  | .negation e => e.IsOperand ∧ e.Readable
  | .call _ arguments => arguments ≠ [] ∧ AllReadable arguments
  | .difference left right => left.IsOperand ∧ right.IsOperand ∧ left.Readable ∧ right.Readable
  | .comparison left right => left.IsOperand ∧ right.IsOperand ∧ left.Readable ∧ right.Readable

def AllReadable : List Expression → Prop
  | [] => True
  | e :: es => e.Readable ∧ AllReadable es

end

structure Assignment.Readable (a : Assignment) : Prop where
  register : a.register ∉ reservedWords
  value : a.value.Readable

def Command.Readable : Command → Prop
  | .declaration _ register value => register ∉ reservedWords ∧ value.Readable
  | .assignment a => a.Readable
  | .conditional condition body => condition.Readable ∧ ∀ a ∈ body, a.Readable

/-- Whether tokens go on with one that ends an expression. -/
def EndsExpression (ts : List Token) : Prop :=
  ∃ c rest, ts = .punctuation c :: rest ∧ c ∈ [',', ')', ';']

/-- Whether tokens go on with one that ends an operand. -/
def EndsOperand (ts : List Token) : Prop :=
  EndsExpression ts ∨ ∃ text rest, ts = .operator text :: rest

/-! ## The reader gives back what was written -/

theorem readOperand_word {word : String} (h : word ∉ reservedWords) (fuel : Nat) {ts : List Token}
    (hts : EndsOperand ts) :
    readOperand (fuel + 1) (.word word :: ts) = some (.name word, ts) := by
  have hwords : word ≠ "true" ∧ word ≠ "false" := by
    constructor <;> rintro rfl <;> exact h (by decide)
  rcases hts with ⟨c, rest, rfl, hc⟩ | ⟨text, rest, rfl⟩
  · simp only [List.mem_cons, List.not_mem_nil, or_false] at hc
    rcases hc with rfl | rfl | rfl <;> simp [readOperand, hwords, h]
  · simp [readOperand, hwords, h]

theorem readOperand_truth (value : Bool) (fuel : Nat) {ts : List Token} (hts : EndsOperand ts) :
    readOperand (fuel + 1) (.word (if value then "true" else "false") :: ts)
      = some (.truth value, ts) := by
  rcases hts with ⟨c, rest, rfl, hc⟩ | ⟨text, rest, rfl⟩
  · simp only [List.mem_cons, List.not_mem_nil, or_false] at hc
    cases value <;> rcases hc with rfl | rfl | rfl <;> simp [readOperand]
  · cases value <;> simp [readOperand]

theorem tokens_pos (e : Expression) : 0 < e.tokens.length := by
  cases e <;> simp only [Expression.tokens, List.length_append, List.length_cons] <;> omega

theorem argumentTokens_pos {es : List Expression} (h : es ≠ []) :
    0 < (argumentTokens es).length := by
  cases es with
  | nil =>
      exact absurd rfl h
  | cons e es =>
      simp only [argumentTokens, List.length_append, List.length_cons]
      omega

/-- An expression that is an operand ends where the operand does. -/
theorem readExpression_of_readOperand {fuel : Nat} {ts rest : List Token} {e : Expression}
    (h : readOperand fuel ts = some (e, rest)) (hrest : EndsExpression rest) :
    readExpression (fuel + 1) ts = some (e, rest) := by
  rcases hrest with ⟨c, rest, rfl, hc⟩
  simp [readExpression, h]

/-- With steps enough for its tokens, each of the three readers gives back what was written. -/
theorem read_tokens (fuel : Nat) :
    (∀ e rest, e.Readable → e.IsOperand → EndsOperand rest → 2 * e.tokens.length ≤ fuel + 1 →
      readOperand fuel (e.tokens ++ rest) = some (e, rest)) ∧
    (∀ e rest, e.Readable → EndsExpression rest → 2 * e.tokens.length ≤ fuel →
      readExpression fuel (e.tokens ++ rest) = some (e, rest)) ∧
    (∀ es rest, AllReadable es → es ≠ [] → 2 * (argumentTokens es).length ≤ fuel + 1 →
      readArguments fuel (argumentTokens es ++ rest) = some (es, rest)) := by
  -- The readers call each other, so one induction on the steps serves all three. Each level of the
  -- syntax costs two steps and at least one token.
  induction fuel with
  | zero =>
      refine ⟨fun e _ _ _ _ h => ?_, fun e _ _ _ h => ?_, fun es _ _ hne h => ?_⟩
      · have hpos := tokens_pos e
        omega
      · have hpos := tokens_pos e
        omega
      · have hpos := argumentTokens_pos hne
        omega
  | succ fuel ih =>
      rcases ih with ⟨operand, expression, arguments⟩
      refine ⟨?_, ?_, ?_⟩
      · intro e rest hread hop hrest hfuel
        cases e with
        | number text =>
            have hpoint : hasPoint text.toList = true := hread
            simp [Expression.tokens, readOperand, hpoint]
        | truth value =>
            exact readOperand_truth value fuel hrest
        | name register =>
            exact readOperand_word hread fuel hrest
        | member register field =>
            have hword : register ∉ reservedWords := hread
            simp [Expression.tokens, readOperand, hword]
        | negation e =>
            simp only [Expression.tokens, List.length_cons] at hfuel
            rw [Expression.tokens, List.cons_append, readOperand,
              operand e rest hread.2 hread.1 hrest (by omega)]
            rfl
        | call function es =>
            simp only [Expression.tokens, List.length_cons] at hfuel
            rw [Expression.tokens, List.cons_append, List.cons_append, readOperand,
              arguments es rest hread.2 hread.1 (by omega)]
            rfl
        | difference _ _ =>
            exact hop.elim
        | comparison _ _ =>
            exact hop.elim
      · intro e rest hread hrest hfuel
        cases e with
        | difference left right =>
            rcases hread with ⟨hleft, hright, hreadLeft, hreadRight⟩
            simp only [Expression.tokens, List.length_append, List.length_cons] at hfuel
            rw [Expression.tokens, List.append_assoc, List.cons_append, readExpression,
              operand left _ hreadLeft hleft (.inr ⟨_, _, rfl⟩) (by omega)]
            simp [operand right rest hreadRight hright (.inl hrest) (by omega)]
        | comparison left right =>
            rcases hread with ⟨hleft, hright, hreadLeft, hreadRight⟩
            simp only [Expression.tokens, List.length_append, List.length_cons] at hfuel
            rw [Expression.tokens, List.append_assoc, List.cons_append, readExpression,
              operand left _ hreadLeft hleft (.inr ⟨_, _, rfl⟩) (by omega)]
            simp [operand right rest hreadRight hright (.inl hrest) (by omega)]
        | _ =>
            exact readExpression_of_readOperand
              (operand _ rest hread trivial (.inl hrest) (by omega)) hrest
      · intro es rest hread hne hfuel
        cases es with
        | nil =>
            exact absurd rfl hne
        | cons e es =>
            simp only [argumentTokens, List.length_append, List.length_cons] at hfuel
            -- An argument is followed by a comma or, if it is the last one, by a parenthesis.
            have hends : EndsExpression (.punctuation (if es.isEmpty then ')' else ',') ::
                (argumentTokens es ++ rest)) := by
              refine ⟨_, _, rfl, ?_⟩
              split <;> simp
            rw [argumentTokens, List.append_assoc, List.cons_append, readArguments,
              expression e _ hread.1 hends (by omega)]
            cases es with
            | nil =>
                rfl
            | cons e' es =>
                simp [arguments (e' :: es) rest hread.2 (by simp) (by omega)]

theorem readExpression_tokens {e : Expression} (h : e.Readable) {fuel : Nat}
    (hfuel : 2 * e.tokens.length ≤ fuel) (c : Char) (hc : c ∈ [',', ')', ';']) (rest : List Token) :
    readExpression fuel (e.tokens ++ .punctuation c :: rest) = some (e, .punctuation c :: rest) :=
  (read_tokens fuel).2.1 e _ h ⟨c, rest, rfl, hc⟩ hfuel

theorem readAssignment_tokens {a : Assignment} (h : a.Readable) {fuel : Nat}
    (hfuel : 2 * a.tokens.length ≤ fuel) (rest : List Token) :
    readAssignment fuel (a.tokens ++ rest) = some (a, rest) := by
  simp only [Assignment.tokens, List.length_cons, List.length_append] at hfuel
  have hvalue := readExpression_tokens h.value (show 2 * a.value.tokens.length ≤ fuel by omega)
    ';' (by simp) rest
  simp [Assignment.tokens, readAssignment, h.register, hvalue]

/-- A body is read up to its brace. -/
theorem readBody_tokens {body : List Assignment} (h : ∀ a ∈ body, a.Readable) {fuel : Nat}
    (hfuel : 2 * (body.flatMap Assignment.tokens).length < fuel) (rest : List Token) :
    readBody fuel (body.flatMap Assignment.tokens ++ .punctuation '\x7d' :: rest)
      = some (body, rest) := by
  induction body generalizing fuel with
  | nil =>
      cases fuel with
      | zero =>
          exact absurd hfuel (Nat.not_lt_zero _)
      | succ fuel =>
          rfl
  | cons a body ih =>
      cases fuel with
      | zero =>
          exact absurd hfuel (Nat.not_lt_zero _)
      | succ fuel =>
          rw [List.flatMap_cons, List.length_append] at hfuel
          have hpos : 0 < a.tokens.length := by
            simp [Assignment.tokens]
          have hfirst := readAssignment_tokens (h a (by simp))
            (show 2 * a.tokens.length ≤ fuel by omega)
            (body.flatMap Assignment.tokens ++ .punctuation '\x7d' :: rest)
          have hmore := ih (fun b hb => h b (by simp [hb]))
            (show 2 * (body.flatMap Assignment.tokens).length < fuel by omega)
          -- The first token is a word, so the body does not end here.
          have hword : ∃ ts, a.tokens = .word a.register :: ts := ⟨_, rfl⟩
          rcases hword with ⟨ts, hts⟩
          rw [List.flatMap_cons, List.append_assoc]
          simp only [hts, List.cons_append] at hfirst ⊢
          simp [readBody, hfirst, hmore]

theorem readCommand_tokens {c : Command} (h : c.Readable) {fuel : Nat}
    (hfuel : 2 * c.tokens.length ≤ fuel) (rest : List Token) :
    readCommand fuel (c.tokens ++ rest) = some (c, rest) := by
  cases c with
  | declaration type register value =>
      rcases h with ⟨hregister, hvalue⟩
      simp only [Command.tokens, List.length_cons, List.length_append] at hfuel
      have hread := readExpression_tokens hvalue (show 2 * value.tokens.length ≤ fuel by omega)
        ';' (by simp) rest
      simp [Command.tokens, readCommand, hregister, hread]
  | assignment a =>
      have hread := readAssignment_tokens h hfuel rest
      -- A point behind the first word tells an assignment from the other two commands.
      have hword : ∃ ts, a.tokens = .word a.register :: .punctuation '.' :: ts := ⟨_, rfl⟩
      rcases hword with ⟨ts, hts⟩
      simp only [Command.tokens, hts, List.cons_append] at hread ⊢
      simp [readCommand, hread]
  | conditional condition body =>
      rcases h with ⟨hcondition, hbody⟩
      simp only [Command.tokens, List.length_cons, List.length_append] at hfuel
      have hread := readExpression_tokens hcondition
        (show 2 * condition.tokens.length ≤ fuel by omega) ')' (by simp)
        (.punctuation '\x7b' :: (body.flatMap Assignment.tokens ++ .punctuation '\x7d' :: rest))
      have hrest := readBody_tokens hbody
        (show 2 * (body.flatMap Assignment.tokens).length < fuel by omega) rest
      simp [Command.tokens, readCommand, hread, hrest]

/-- The reader gives back every list of commands from its tokens. -/
theorem readCommands_tokens {cs : List Command} (h : ∀ c ∈ cs, c.Readable) {fuel : Nat}
    (hfuel : 2 * (cs.flatMap Command.tokens).length < fuel) :
    readCommands fuel (cs.flatMap Command.tokens) = some cs := by
  induction cs generalizing fuel with
  | nil =>
      cases fuel <;> rfl
  | cons c cs ih =>
      cases fuel with
      | zero =>
          exact absurd hfuel (Nat.not_lt_zero _)
      | succ fuel =>
          rw [List.flatMap_cons, List.length_append] at hfuel
          -- There is at least one token, so the text does not end here.
          have hword : ∃ w ts, c.tokens = .word w :: ts := by
            cases c <;> exact ⟨_, _, rfl⟩
          rcases hword with ⟨w, ts, hts⟩
          have hpos : 0 < c.tokens.length := by
            simp [hts]
          have hfirst := readCommand_tokens (h c (by simp))
            (show 2 * c.tokens.length ≤ fuel by omega) (cs.flatMap Command.tokens)
          have hmore := ih (fun d hd => h d (by simp [hd]))
            (show 2 * (cs.flatMap Command.tokens).length < fuel by omega)
          rw [List.flatMap_cons]
          simp only [hts, List.cons_append] at hfirst ⊢
          simp [readCommands, hfirst, hmore]

end Shading
end SdfShader
