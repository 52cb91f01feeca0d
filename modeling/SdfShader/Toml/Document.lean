import SdfShader.Toml.Number
import SdfShader.Toml.Quoted
import SdfShader.Toml.Tables

/-!
# TOML documents

A document is a list of lines: headers, key-value pairs, comments and blank lines. Values on one
line or, in arrays, on several are read first; the pairs then build the tables.
-/

namespace SdfShader.Toml

open Text Parser

/-! ## Blanks -/

def white : Parser Unit :=
  (fun _ => ()) <$> takeWhile isWhite

def comment : Parser Unit :=
  char '#' *> ((fun _ => ()) <$> takeWhile isPrintable)

/-- The rest of a line behind a header or a value. -/
def lineEnd : Parser Unit := do
  white
  let _ ← optional? comment
  ((fun _ => ()) <$> newline) <|> atEnd

/-- Blanks, line ends and comments between the items of an array. -/
def gap : Parser Unit :=
  (fun _ => ()) <$> many
    (((fun _ => ()) <$> satisfy isWhite) <|> ((fun _ => ()) <$> newline) <|> (comment <* newline))

/-! ## Keys -/

def isBareKeyChar (c : Char) : Bool :=
  c.isAlphanum || c = '_' || c = '-'

def simpleKey : Parser String :=
  basicString <|> literalString <|> do
    let first ← satisfy isBareKeyChar
    let rest ← takeWhile isBareKeyChar
    return String.ofList (first :: rest)

/-- Deepest nesting of values and longest path of a key, exclusive. -/
def nestingLimit : Nat := 80

/-- A path of keys with points between them: the way and its last key. -/
def keyPath : Parser (List String × String) := do
  let keys ← separated (white *> simpleKey <* white) ((fun _ => ()) <$> char '.')
  match keys.getLast? with
  | some last => if keys.length < nestingLimit then return (keys.dropLast, last) else failure
  | none => failure

/-! ## Values -/

def arrayOf (item : Parser Toml) : Parser Toml := do
  let _ ← char '['
  let items ← separated (gap *> item <* gap) ((fun _ => ()) <$> char ',')
  if !items.isEmpty then
    let _ ← optional? (char ',')
  gap
  let _ ← char ']'
  return .array items

/-- A key path with its value, as it stands in an inline table. -/
def inlinePair (item : Parser Toml) : Parser ((List String × String) × Toml) := do
  let key ← keyPath
  let _ ← char '='
  white
  let v ← item
  white
  return (key, v)

def inlineTableOf (item : Parser Toml) : Parser Toml := do
  let _ ← char '\x7b'
  let pairs ← separated (inlinePair item) ((fun _ => ()) <$> char ',')
  white
  let _ ← char '\x7d'
  let define := fun entries ((path, key), v) => Entries.define path key v .header entries
  match pairs.foldlM define [] with
  | some entries => return .table (Item.valuesOf entries)
  | none => failure

def booleanValue : Parser Toml :=
  (literal "true" *> pure (.boolean true)) <|> (literal "false" *> pure (.boolean false))

/-- A value that holds no other values. -/
def scalarValue : Parser Toml :=
  (Toml.string <$> stringValue) <|> booleanValue <|> dateTimeValue <|> floatValue <|> integerValue

/-- A value with at most `depth` levels of arrays and inline tables. -/
def value : Nat → Parser Toml
  | 0 => scalarValue
  | depth + 1 => arrayOf (value depth) <|> inlineTableOf (value depth) <|> scalarValue

/-! ## Lines -/

inductive Line
  | blank
  | table (path : List String) (key : String)
  | element (path : List String) (key : String)
  | pair (path : List String) (key : String) (v : Toml)

def elementHeader : Parser Line := do
  literal "[["
  let (path, key) ← keyPath
  literal "]]"
  lineEnd
  return .element path key

def tableHeader : Parser Line := do
  let _ ← char '['
  let (path, key) ← keyPath
  let _ ← char ']'
  lineEnd
  return .table path key

def pairLine : Parser Line := do
  let (path, key) ← keyPath
  let _ ← char '='
  white
  let v ← value (nestingLimit - 1)
  lineEnd
  return .pair path key v

/-- A line that is not the empty rest of the text. -/
def line : Parser Line := do
  white
  let some _ ← peek? | failure
  elementHeader <|> tableHeader <|> pairLine <|> (lineEnd *> pure .blank)

def byteOrderMark : Char := Char.ofNat 0xFEFF

def lines : Parser (List Line) := do
  let _ ← optional? (char byteOrderMark)
  let found ← many line
  white
  return found

/-! ## Documents -/

/-- The tables so far and the path of the last header. -/
structure Progress where
  root : Entries
  cursor : List String

def Progress.step (p : Progress) : Line → Option Progress
  | .blank => some p
  | .table path key => (p.root.openTable path key).map (⟨·, path ++ [key]⟩)
  | .element path key => (p.root.openElement path key).map (⟨·, path ++ [key]⟩)
  | .pair path key v => (p.root.defineAt p.cursor path key v).map (⟨·, p.cursor⟩)

/-- The table that a document describes. -/
def parse? (text : String) : Option Toml := do
  let found ← lines.run? text
  let progress ← found.foldlM Progress.step ⟨[], []⟩
  return .table (Item.valuesOf progress.root)

end SdfShader.Toml
