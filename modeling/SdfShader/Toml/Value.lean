import SdfShader.Number.Binary

/-!
# TOML values

Values of a TOML document. Tables keep their keys in the order in which they were defined; no key
occurs twice. Of a date or time only its presence is kept.
-/

namespace SdfShader

inductive Toml
  | string (s : String)
  | integer (n : Int)
  | float (x : Double)
  | boolean (b : Bool)
  | dateTime
  | array (items : List Toml)
  | table (entries : List (String × Toml))

end SdfShader
