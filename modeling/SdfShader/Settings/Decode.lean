import SdfShader.Json.Number
import SdfShader.Json.Parser
import SdfShader.Shader.Config

/-!
# Settings from JSON

Settings are the default constants with the known members of a JSON object in their places. Unknown
members are left out of account, however often they occur; a known key must occur once and with a
value of its kind. A JSON array gives the fields in their order instead.
-/

namespace SdfShader

namespace Config

/-! ## Values -/

/-- A count is an integer without a sign that fits into 32 bits. -/
def decodeCount : Json → Option UInt32
  | .number n =>
    match n.number? with
    | some (.integer i) =>
      if 0 ≤ i ∧ i < UInt32.size then some (UInt32.ofNat i.toNat) else none
    | _ => none
  | _ => none

/-- A scalar is any number within the range of doubles. -/
def decodeScalar : Json → Option Single
  | .number n => n.number?.map (·.toSingle)
  | _ => none

def decodeVector : Json → Option (Vec3 Single)
  | .array [x, y, z] => return ⟨← decodeScalar x, ← decodeScalar y, ← decodeScalar z⟩
  | _ => none

def decodeValue : (kind : Kind) → Json → Option kind.Value
  | .count => decodeCount
  | .scalar => decodeScalar
  | .vector => decodeVector

/-! ## Members -/

/-- A field with the value it is to have. -/
structure Assignment where
  field : Field
  value : field.kind.Value

def assign (c : Config) (a : Assignment) : Config :=
  c.set a.field a.value

/-- What a member assigns: nothing if its key is unknown. The outer failure is that of a key without
text or of a value of the wrong kind. -/
def assignment? (member : Json.Written × Json) : Option (Option Assignment) := do
  let key ← member.1.text?
  match Field.ofKey? key with
  | none => some none
  | some field => (decodeValue field.kind member.2).map fun value => some ⟨field, value⟩

def ofMembers? (members : List (Json.Written × Json)) : Option Config := do
  let assignments := (← members.mapM assignment?).filterMap id
  if (assignments.map (·.field)).Nodup then some (assignments.foldl assign default) else none

def ofItems? (items : List Json) : Option Config := do
  if Field.all.length < items.length then none
  else
    -- Fields that no item is left for keep their defaults.
    let assignments ← (Field.all.zip items).mapM fun (field, item) =>
      (decodeValue field.kind item).map fun value => (⟨field, value⟩ : Assignment)
    return assignments.foldl assign default

def ofJson? : Json → Option Config
  | .object members => ofMembers? members
  | .array items => ofItems? items
  | _ => none

end Config

/-! ## Texts -/

/-- Why a text holds no settings. -/
inductive ParseError
  | json
  | config (e : ConfigError)
  deriving DecidableEq

def ParseError.message : ParseError → String
  | json => "Invalid settings JSON"
  | config e => s!"Invalid parameter: {e.message}"

/-- Valid settings from a text. -/
def Config.parse (text : String) : Except ParseError Config :=
  match (Json.parse? text).bind ofJson? with
  | none => .error .json
  | some c =>
    match c.validate with
    | .ok _ => .ok c
    | .error e => .error (.config e)

end SdfShader
