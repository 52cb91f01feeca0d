import SdfShader.Text.Digits
import SdfShader.Text.Parser

/-!
# Strings of TOML

Four kinds of strings: between quotation marks with escapes or between apostrophes without, on one
line or, between three marks, on several. A line end inside a string is a line feed however it is
written; one right behind three opening marks is left out.
-/

namespace SdfShader.Toml

open Text Parser

/-! ## Characters -/

def isWhite (c : Char) : Bool :=
  c = ' ' || c = '\t'

/-- Characters that may stand in a comment or a string as they are. -/
def isPrintable (c : Char) : Bool :=
  c = '\t' || (0x20 ≤ c.toNat && c.toNat ≠ 0x7F)

def apostrophe : Char := '\x27'

def newline : Parser Char :=
  char '\n' <|> (char '\r' *> char '\n')

/-! ## Escapes -/

/-- The character with a code point of exactly `digits` hexadecimal digits. -/
def codePoint (digits : Nat) : Parser Char := do
  let cs ← repeated (satisfy (isDigitIn 16)) digits
  let n := numberOfDigits 16 cs
  if cs.length = digits ∧ n.isValidChar then return Char.ofNat n else failure

def escaped : Parser Char := do
  let _ ← char '\\'
  let c ← satisfy fun _ => true
  match c with
  | 'b' => return '\x08'
  | 't' => return '\t'
  | 'n' => return '\n'
  | 'f' => return '\x0c'
  | 'r' => return '\r'
  | '"' => return '"'
  | '\\' => return '\\'
  | 'u' => codePoint 4
  | 'U' => codePoint 8
  | _ => failure

/-! ## One line -/

def basicString : Parser String := do
  let _ ← char '"'
  let cs ← many (escaped <|> satisfy fun c => isPrintable c && c ≠ '"' && c ≠ '\\')
  let _ ← char '"'
  return String.ofList cs

def literalString : Parser String := do
  let _ ← char apostrophe
  let cs ← takeWhile fun c => isPrintable c && c ≠ apostrophe
  let _ ← char apostrophe
  return String.ofList cs

/-! ## Several lines -/

/-- A backslash at the end of a line, with all blanks and line ends behind it. -/
def joinedLines : Parser (List Char) := do
  let _ ← char '\\'
  let _ ← takeWhile isWhite
  let _ ← newline
  let _ ← many (satisfy isWhite <|> newline)
  return []

/-- One or two marks that a mark does not follow. -/
def innerMarks (mark : Char) : Parser (List Char) := fun cs =>
  let count := (cs.takeWhile (· = mark)).length
  if count = 1 ∨ count = 2 then some (cs.splitAt count) else none

/-- The three closing marks and up to two marks before them, which belong to the string. -/
def closingMarks (mark : Char) : Parser (List Char) := fun cs =>
  let count := min (cs.takeWhile (· = mark)).length 5
  if 3 ≤ count then some (List.replicate (count - 3) mark, cs.drop count) else none

/-- A string between three marks, made of pieces and of marks that do not close it. -/
def multiline (mark : Char) (piece : Parser (List Char)) : Parser String := do
  literal (String.ofList [mark, mark, mark])
  let _ ← optional? newline
  let body ← many (piece <|> innerMarks mark)
  let last ← closingMarks mark
  return String.ofList (body.flatten ++ last)

def multilineBasic : Parser String :=
  multiline '"' ((fun c => [c]) <$> satisfy (fun c => isPrintable c && c ≠ '"' && c ≠ '\\')
    <|> joinedLines <|> (fun c => [c]) <$> escaped <|> (fun c => [c]) <$> newline)

def multilineLiteral : Parser String :=
  multiline apostrophe ((fun c => [c]) <$> satisfy (fun c => isPrintable c && c ≠ apostrophe)
    <|> (fun c => [c]) <$> newline)

def stringValue : Parser String :=
  multilineBasic <|> multilineLiteral <|> basicString <|> literalString

end SdfShader.Toml
