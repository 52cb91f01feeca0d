import SdfShader.Json.Lexer

/-!
# Parser for JSON

Recursive descent over tokens, for strict JSON: one value, no comments, no trailing commas. The fuel
bounds the depth of the recursion; every second step consumes a token, so that twice their number is
enough.
-/

namespace SdfShader.Json

mutual

/-- One value at the head of the tokens, and the tokens after it. -/
def parseValue : Nat → List Token → Option (Json × List Token)
  | 0, _ => none
  | _ + 1, .null :: rest => some (.null, rest)
  | _ + 1, .bool b :: rest => some (.bool b, rest)
  | _ + 1, .number n :: rest => some (.number n, rest)
  | _ + 1, .string s :: rest => some (.string s, rest)
  | _ + 1, .openArray :: .closeArray :: rest => some (.array [], rest)
  | fuel + 1, .openArray :: rest => (parseItems fuel rest).map fun (items, rest) =>
      (.array items, rest)
  | _ + 1, .openObject :: .closeObject :: rest => some (.object [], rest)
  | fuel + 1, .openObject :: rest => (parseMembers fuel rest).map fun (members, rest) =>
      (.object members, rest)
  | _ + 1, _ => none

/-- One or more items up to the end of the array. -/
def parseItems : Nat → List Token → Option (List Json × List Token)
  | 0, _ => none
  | fuel + 1, tokens =>
    match parseValue fuel tokens with
    | some (item, .closeArray :: rest) => some ([item], rest)
    | some (item, .comma :: rest) => (parseItems fuel rest).map fun (items, rest) =>
        (item :: items, rest)
    | _ => none

/-- One or more members up to the end of the object. -/
def parseMembers : Nat → List Token → Option (List (Written × Json) × List Token)
  | fuel + 1, .string key :: .colon :: tokens =>
    match parseValue fuel tokens with
    | some (value, .closeObject :: rest) => some ([(key, value)], rest)
    | some (value, .comma :: rest) => (parseMembers fuel rest).map fun (members, rest) =>
        ((key, value) :: members, rest)
    | _ => none
  | _, _ => none

end

/-- The value that a whole text stands for. -/
def parse? (text : String) : Option Json := do
  let tokens ← tokens? text.toList
  match parseValue (2 * tokens.length) tokens with
  | some (value, []) => some value
  | _ => none

end SdfShader.Json
