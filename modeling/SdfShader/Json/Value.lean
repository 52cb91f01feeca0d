import SdfShader.Decimal.Numeral

/-!
# JSON values

Values as they are written: numbers keep their numeral, strings keep characters and escaped code
units apart, objects keep all members in their order, repeated ones included. `Written.text?` is the
text of a string, if its escaped units pair up.
-/

namespace SdfShader

namespace Json

/-- One element of a written string: a character or an escaped UTF-16 code unit. -/
inductive Piece
  | char (c : Char)
  | unit (n : Nat)
  deriving DecidableEq, Repr

/-- A string as it is written between its quotes. -/
abbrev Written := List Piece

end Json

inductive Json
  | null
  | bool (b : Bool)
  | number (n : Numeral)
  | string (s : Json.Written)
  | array (items : List Json)
  | object (members : List (Json.Written × Json))
  deriving Repr

namespace Json

/-! ## Text of a string -/

def isLeadingSurrogate (n : Nat) : Bool :=
  0xD800 ≤ n && n < 0xDC00

def isTrailingSurrogate (n : Nat) : Bool :=
  0xDC00 ≤ n && n < 0xE000

/-- The character that two surrogates stand for. -/
def joinSurrogates (leading trailing : Nat) : Char :=
  Char.ofNat (0x10000 + (leading - 0xD800) * 0x400 + (trailing - 0xDC00))

/-- The characters of a string; none if a surrogate has no partner next to it. -/
def Written.chars? : Written → Option (List Char)
  | [] => some []
  | .char c :: rest => (Written.chars? rest).map (c :: ·)
  | [.unit n] =>
    if isLeadingSurrogate n || isTrailingSurrogate n then none else some [Char.ofNat n]
  | .unit n :: next :: rest =>
    match isLeadingSurrogate n, next with
    | true, .unit m =>
      if isTrailingSurrogate m then (Written.chars? rest).map (joinSurrogates n m :: ·) else none
    | true, .char _ => none
    | false, _ =>
      if isTrailingSurrogate n then none
      else (Written.chars? (next :: rest)).map (Char.ofNat n :: ·)

def Written.text? (w : Written) : Option String :=
  (Written.chars? w).map String.ofList

/-- A text written without escaped units. -/
def Written.ofString (s : String) : Written :=
  s.toList.map .char

theorem Written.chars?_map_char (cs : List Char) :
    Written.chars? (cs.map .char) = some cs := by
  induction cs with
  | nil => rfl
  | cons c cs ih => simp [Written.chars?, ih]

theorem Written.text?_ofString (s : String) : (Written.ofString s).text? = some s := by
  simp [Written.text?, Written.ofString, chars?_map_char]

/-! ## Parts of a value -/

def text? : Json → Option String
  | .string s => s.text?
  | _ => none

def items? : Json → Option (List Json)
  | .array items => some items
  | _ => none

def members? : Json → Option (List (Written × Json))
  | .object members => some members
  | _ => none

/-- The last member with the key. -/
def member? (key : String) (members : List (Written × Json)) : Option Json :=
  (members.reverse.find? fun m => m.1.text? = some key).map (·.2)

end Json
end SdfShader
