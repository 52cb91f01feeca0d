/-!
# Register names

The names under which a shape or an operation can be declared inside the shader's `map` function:
identifiers of the shading language that are not reserved there and do not hide what `map` declares
itself.
-/

namespace SdfShader

/-- The register that `map` returns. -/
def resultRegister : String := "res"

/-- Names that `map` declares itself: the sample point and the result. -/
def declaredNames : List String := ["p", resultRegister]

/-- First character of an identifier. -/
def isNameStart (c : Char) : Bool :=
  c.isAlpha || c = '_'

/-- Further character of an identifier. -/
def isNamePart (c : Char) : Bool :=
  c.isAlphanum || c = '_'

/-- Two underscores next to each other. -/
def hasDoubleUnderscore : List Char → Bool
  | '_' :: '_' :: _ => true
  | _ :: rest => hasDoubleUnderscore rest
  | [] => false

/-- An identifier that is not reserved: reserved ones start with `gl_` or hold two underscores in a
row. -/
def isRegisterName (name : String) : Bool :=
  let cs := name.toList
  cs.head?.any isNameStart && cs.all isNamePart
    && !"gl_".toList.isPrefixOf cs
    && !hasDoubleUnderscore cs
    && !declaredNames.contains name

end SdfShader
