import SdfShader.Json.Number
import SdfShader.Json.Value
import SdfShader.Toml.Value

/-!
# Documents of data

The common shape of a specification that is written in JSON or in TOML: texts, numbers, lists and
records. What a specification has no use for is `other`. A structure is read from a record by the
names of its fields, or from a list by their order.
-/

namespace SdfShader.Formula

inductive Document
  | text (s : String)
  | number (x : Double)
  | list (items : List Document)
  | record (members : List (String × Document))
  | other

namespace Document

/-! ## From JSON -/

mutual

/-- The last of several members with one key counts. -/
def ofJson : Json → Document
  | .string s => s.text?.elim .other .text
  | .number n => n.number?.elim .other (.number ·.toDouble)
  | .array items => .list (ofJsonItems items)
  | .object members => .record (ofJsonMembers members).reverse
  | _ => .other

def ofJsonItems : List Json → List Document
  | [] => []
  | item :: items => ofJson item :: ofJsonItems items

def ofJsonMembers : List (Json.Written × Json) → List (String × Document)
  | [] => []
  | (key, value) :: members =>
    match key.text? with
    | some k => (k, ofJson value) :: ofJsonMembers members
    | none => ofJsonMembers members

end

/-! ## From TOML -/

mutual

def ofToml : Toml → Document
  | .string s => .text s
  | .integer n => .number (.ofInt n)
  | .float x => .number x
  | .array items => .list (ofTomlItems items)
  | .table entries => .record (ofTomlEntries entries)
  | .boolean _ => .other
  | .dateTime => .other

def ofTomlItems : List Toml → List Document
  | [] => []
  | item :: items => ofToml item :: ofTomlItems items

def ofTomlEntries : List (String × Toml) → List (String × Document)
  | [] => []
  | (key, value) :: entries => (key, ofToml value) :: ofTomlEntries entries

end

/-! ## Reading -/

def text? : Document → Option String
  | text s => some s
  | _ => none

def number? : Document → Option Double
  | number x => some x
  | _ => none

def items? : Document → Option (List Document)
  | list items => some items
  | _ => none

/-- Reads every item of a list. -/
def listOf? {α : Type} (read : Document → Option α) (d : Document) : Option (List α) := do
  (← d.items?).mapM read

/-- A structure whose parts are looked up by name. A list gives them by position; whether it may be
longer than the structure is for `exact` to say. -/
def structure? (exact : Bool) (names : List String) : Document →
    Option (String → Option Document)
  | record members => some fun name => members.lookup name
  | list items =>
    if exact ∧ names.length < items.length then none
    else some fun name => (names.zip items).lookup name
  | _ => none

end Document
end SdfShader.Formula
