import SdfShader.Json.Value

/-!
# Printer for JSON

The layout for people: two blanks of indentation per level, one item or member per line, a colon and
a blank behind a key, no line feed at the end. Empty arrays and objects stay on one line.
-/

namespace SdfShader.Json

/-! ## Strings -/

/-- The `width` last hexadecimal digits of a number. -/
def hexText : Nat → Nat → List Char
  | 0, _ => []
  | width + 1, n => hexText width (n / 16) ++ [Nat.digitChar (n % 16)]

/-- A unit is escaped by its number, a character only where it has to be. -/
def Piece.toChars : Piece → List Char
  | .unit n => '\\' :: 'u' :: hexText 4 n
  | .char '"' => ['\\', '"']
  | .char '\\' => ['\\', '\\']
  | .char '\n' => ['\\', 'n']
  | .char '\r' => ['\\', 'r']
  | .char '\t' => ['\\', 't']
  | .char '\x08' => ['\\', 'b']
  | .char '\x0c' => ['\\', 'f']
  | .char c => if c.toNat < 0x20 then '\\' :: 'u' :: hexText 4 c.toNat else [c]

def Written.quoted (w : Written) : List Char :=
  '"' :: w.flatMap Piece.toChars ++ ['"']

/-! ## Values -/

def indentation (depth : Nat) : List Char :=
  List.replicate (2 * depth) ' '

/-- Lines between two brackets, each but the last with a comma behind it. -/
def bracketed (depth : Nat) (opening closing : Char) (lines : List (List Char)) : List Char :=
  let separator := ',' :: '\n' :: indentation (depth + 1)
  if lines.isEmpty then [opening, closing]
  else opening :: '\n' :: indentation (depth + 1) ++ List.intercalate separator lines
    ++ '\n' :: indentation depth ++ [closing]

mutual

def prettyChars (depth : Nat) : Json → List Char
  | .null => "null".toList
  | .bool b => (if b then "true" else "false").toList
  | .number n => n.toList
  | .string s => s.quoted
  | .array items => bracketed depth '[' ']' (prettyItems (depth + 1) items)
  | .object members => bracketed depth '\x7b' '\x7d' (prettyMembers (depth + 1) members)

def prettyItems (depth : Nat) : List Json → List (List Char)
  | [] => []
  | item :: items => prettyChars depth item :: prettyItems depth items

def prettyMembers (depth : Nat) : List (Written × Json) → List (List Char)
  | [] => []
  | (key, value) :: members =>
    (key.quoted ++ ':' :: ' ' :: prettyChars depth value) :: prettyMembers depth members

end

def pretty (value : Json) : String :=
  String.ofList (prettyChars 0 value)

end SdfShader.Json
