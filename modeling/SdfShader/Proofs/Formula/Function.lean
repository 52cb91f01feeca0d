import SdfShader.Json.Lexer
import SdfShader.Proofs.Decimal.Notation
import SdfShader.Proofs.Shading.Syntax

/-!
# Function — reading and running generated code

The code of a formula is one function of numbers, and a formula has it twice: in the language of the
host and in that of the shader. The two write parameters, local values, early results and the result
differently, and only the host calls a function as a method of its first argument.

* `Term`, `Body` and `Function`, the syntax that both languages share;
* `Function.read?`, the reader for either language, in which products bind more tightly than sums;
* `Function.value?`, what a function computes in exact arithmetic. Nothing is divided by zero: such
  a quotient has no value.
-/

namespace SdfShader.Formula

open Shading (Token scan hasPoint)

/-! ## Syntax -/

inductive Term
  | numeral (n : Numeral)
  | name (name : String)
  | sum (left right : Term)
  | difference (left right : Term)
  | product (left right : Term)
  | quotient (left right : Term)
  | min (left right : Term)
  | clamp (value low high : Term)
  | mix (first second weight : Term)
  deriving DecidableEq

/-- What a function does, up to its result. -/
inductive Body
  | result (value : Term)
  /-- Gives one name a value for the rest. -/
  | bind (name : String) (value : Term) (rest : Body)
  /-- Ends with a value if `left` is at most `right`. -/
  | guard (left right value : Term) (rest : Body)
  deriving DecidableEq

structure Function where
  name : String
  parameters : List String
  body : Body
  deriving DecidableEq

/-! ## Exact arithmetic -/

/-- The value of a term, if nothing is divided by zero and all names have values. -/
@[simp] def Term.value? (vars : List (String × ℚ)) : Term → Option ℚ
  | numeral n => some n.value
  | name x => vars.lookup x
  | sum left right => do
    let x ← left.value? vars
    let y ← right.value? vars
    return x + y
  | difference left right => do
    let x ← left.value? vars
    let y ← right.value? vars
    return x - y
  | product left right => do
    let x ← left.value? vars
    let y ← right.value? vars
    return x * y
  | quotient left right => do
    let x ← left.value? vars
    let y ← right.value? vars
    if y = 0 then none else some (x / y)
  | min left right => do
    let x ← left.value? vars
    let y ← right.value? vars
    return Min.min x y
  | clamp value low high => do
    let x ← value.value? vars
    let least ← low.value? vars
    let greatest ← high.value? vars
    -- Neither language says what is between bounds that are in the wrong order.
    if least ≤ greatest then some (max least (Min.min x greatest)) else none
  | mix first second weight => do
    let x ← first.value? vars
    let y ← second.value? vars
    let h ← weight.value? vars
    return x * (1 - h) + y * h

@[simp] def Body.value? (vars : List (String × ℚ)) : Body → Option ℚ
  | result value => value.value? vars
  | bind name value rest => do
    let x ← value.value? vars
    rest.value? ((name, x) :: vars)
  | guard left right value rest => do
    let x ← left.value? vars
    let y ← right.value? vars
    if x ≤ y then value.value? vars else rest.value? vars

/-- What a function gives for arguments, one for each parameter. -/
def Function.value? (f : Function) (arguments : List ℚ) : Option ℚ :=
  if arguments.length = f.parameters.length then f.body.value? (f.parameters.zip arguments)
  else none

/-! ## Reading terms -/

inductive Language
  | host
  | shader
  deriving DecidableEq

/-- The tokens behind a given one. -/
def expect (t : Token) : List Token → Option (List Token)
  | [] => none
  | other :: ts => if other = t then some ts else none

/-- A numeral with digits on both sides of its point. -/
def Term.ofNumeral? (text : String) : Option Term :=
  if hasPoint text.toList then
    match Json.scanNumeral text.toList with
    | some (n, []) => some (numeral n)
    | _ => none
  else none

/-- The functions of a language that numbers are computed with. -/
def Term.ofCall? : Language → String → List Term → Option Term
  | _, "min", [x, y] => some (min x y)
  | _, "clamp", [x, least, greatest] => some (clamp x least greatest)
  | .shader, "mix", [x, y, h] => some (mix x y h)
  | _, _, _ => none

mutual

def readTerm (l : Language) : Nat → List Token → Option (Term × List Token)
  | 0, _ => none
  | fuel + 1, ts => do
    let (first, ts) ← readProduct l fuel ts
    readSummands l fuel first ts

/-- Goes on with what is added to a term or taken from it. -/
def readSummands (l : Language) : Nat → Term → List Token → Option (Term × List Token)
  | 0, _, _ => none
  | fuel + 1, left, .operator "+" :: ts => do
    let (right, ts) ← readProduct l fuel ts
    readSummands l fuel (.sum left right) ts
  | fuel + 1, left, .operator "-" :: ts => do
    let (right, ts) ← readProduct l fuel ts
    readSummands l fuel (.difference left right) ts
  | _ + 1, left, ts => some (left, ts)

def readProduct (l : Language) : Nat → List Token → Option (Term × List Token)
  | 0, _ => none
  | fuel + 1, ts => do
    let (first, ts) ← readOperand l fuel ts
    readFactors l fuel first ts

/-- Goes on with what a term is multiplied with or divided by. -/
def readFactors (l : Language) : Nat → Term → List Token → Option (Term × List Token)
  | 0, _, _ => none
  | fuel + 1, left, .operator "*" :: ts => do
    let (right, ts) ← readOperand l fuel ts
    readFactors l fuel (.product left right) ts
  | fuel + 1, left, .operator "/" :: ts => do
    let (right, ts) ← readOperand l fuel ts
    readFactors l fuel (.quotient left right) ts
  | _ + 1, left, ts => some (left, ts)

/-- Reads what can stand beside an operator. -/
def readOperand (l : Language) : Nat → List Token → Option (Term × List Token)
  | 0, _ => none
  | fuel + 1, .punctuation '(' :: ts => do
    let (inner, ts) ← readTerm l fuel ts
    let ts ← expect (.punctuation ')') ts
    readMethods l fuel inner ts
  | fuel + 1, .numeral text :: ts => do
    let value ← Term.ofNumeral? text
    readMethods l fuel value ts
  | fuel + 1, .word f :: .punctuation '(' :: ts =>
    match l with
    | .host => none
    | .shader => do
      let (arguments, ts) ← readArguments l fuel ts
      let value ← Term.ofCall? l f arguments
      return (value, ts)
  | fuel + 1, .word x :: ts => readMethods l fuel (.name x) ts
  | _ + 1, _ => none

/-- Goes on with the functions that are called as methods of a term. -/
def readMethods (l : Language) : Nat → Term → List Token → Option (Term × List Token)
  | 0, _, _ => none
  | fuel + 1, object, .punctuation '.' :: .word f :: .punctuation '(' :: ts =>
    match l with
    | .host => do
      let (arguments, ts) ← readArguments l fuel ts
      let value ← Term.ofCall? l f (object :: arguments)
      readMethods l fuel value ts
    | .shader => none
  | _ + 1, object, ts => some (object, ts)

def readArguments (l : Language) : Nat → List Token → Option (List Term × List Token)
  | 0, _ => none
  | fuel + 1, ts => do
    let (first, ts) ← readTerm l fuel ts
    match ts with
    | .punctuation ',' :: ts =>
      let (rest, ts) ← readArguments l fuel ts
      return (first :: rest, ts)
    | .punctuation ')' :: ts => return ([first], ts)
    | _ => none

end

/-! ## Reading functions -/

/-- Reads an early result behind its `if`. The shader puts the condition in parentheses. -/
def readGuard (l : Language) (fuel : Nat) (ts : List Token) :
    Option ((Term × Term × Term) × List Token) := do
  let ts ← if l = .shader then expect (.punctuation '(') ts else some ts
  let (left, ts) ← readTerm l fuel ts
  let ts ← expect (.operator "<=") ts
  let (right, ts) ← readTerm l fuel ts
  let ts ← if l = .shader then expect (.punctuation ')') ts else some ts
  let ts ← expect (.punctuation '\x7b') ts
  let ts ← expect (.word "return") ts
  let (value, ts) ← readTerm l fuel ts
  let ts ← expect (.punctuation ';') ts
  let ts ← expect (.punctuation '\x7d') ts
  return ((left, right, value), ts)

/-- Reads the result up to the closing brace. The host leaves out the word `return`. -/
def readResult (l : Language) (fuel : Nat) (ts : List Token) : Option (Term × List Token) := do
  let ts ← if l = .shader then expect (.word "return") ts else some ts
  let (value, ts) ← readTerm l fuel ts
  let ts ← if l = .shader then expect (.punctuation ';') ts else some ts
  let ts ← expect (.punctuation '\x7d') ts
  return (value, ts)

/-- The word in front of a name that gets a value. -/
def Language.binder : Language → String
  | host => "let"
  | shader => "float"

def readBody (l : Language) : Nat → List Token → Option (Body × List Token)
  | 0, _ => none
  | fuel + 1, .word "if" :: ts => do
    let ((left, right, value), ts) ← readGuard l fuel ts
    let (rest, ts) ← readBody l fuel ts
    return (.guard left right value rest, ts)
  | fuel + 1, .word first :: .word name :: .operator "=" :: ts =>
    if first = l.binder then do
      let (value, ts) ← readTerm l fuel ts
      let ts ← expect (.punctuation ';') ts
      let (rest, ts) ← readBody l fuel ts
      return (.bind name value rest, ts)
    else none
  | fuel + 1, ts => do
    let (value, ts) ← readResult l fuel ts
    return (.result value, ts)

/-- Reads one parameter. The host writes the type behind the name, the shader in front of it. -/
def readParameter : Language → List Token → Option (String × List Token)
  | .host, .word name :: .operator ":" :: .word "f32" :: ts => some (name, ts)
  | .shader, .word "float" :: .word name :: ts => some (name, ts)
  | _, _ => none

def readParameters (l : Language) : Nat → List Token → Option (List String × List Token)
  | 0, _ => none
  | fuel + 1, ts => do
    let (first, ts) ← readParameter l ts
    match ts with
    | .punctuation ',' :: ts =>
      let (rest, ts) ← readParameters l fuel ts
      return (first :: rest, ts)
    | .punctuation ')' :: ts => return ([first], ts)
    | _ => none

/-- Reads what stands in front of the name of a function. -/
def readOpening : Language → List Token → Option (List Token)
  | .host, .operator "#[" :: .word "inline" :: .operator "]" :: .word "pub" :: .word "fn" :: ts =>
    some ts
  | .shader, .word "float" :: ts => some ts
  | _, _ => none

/-- Reads what stands between the parameters and the body. -/
def readResultType : Language → List Token → Option (List Token)
  | .host, .operator "->" :: .word "f32" :: .punctuation '\x7b' :: ts => some ts
  | .shader, .punctuation '\x7b' :: ts => some ts
  | _, _ => none

def readFunction (l : Language) (fuel : Nat) (ts : List Token) : Option Function := do
  let ts ← readOpening l ts
  match ts with
  | .word name :: .punctuation '(' :: ts =>
    let (parameters, ts) ← readParameters l fuel ts
    let ts ← readResultType l ts
    let (body, ts) ← readBody l fuel ts
    if ts.isEmpty then some ⟨name, parameters, body⟩ else none
  | _ => none

/-- The characters outside of comments. A comment begins with two slashes and ends with its line. -/
def uncommented : (inside : Bool) → List Char → List Char
  | _, [] => []
  | true, c :: cs => if c = '\n' then c :: uncommented false cs else uncommented true cs
  | false, '/' :: '/' :: cs => uncommented true cs
  | false, c :: cs => c :: uncommented false cs

/-- The function whose code is made of these characters. -/
def Function.ofChars? (l : Language) (cs : List Char) : Option Function :=
  let ts := scan [] (uncommented false cs)
  -- A level of a term takes six steps, and at least one token.
  readFunction l (6 * ts.length + 6) ts

/-- The function that a text is the code of. -/
def Function.read? (l : Language) (text : String) : Option Function :=
  ofChars? l text.toList

end SdfShader.Formula
