import SdfShader.Json.Printer
import SdfShader.Shader.Config

/-!
# Settings as JSON

All fields in their order. A scalar is written with the fewest digits that read back, a half going
to the even digit: in positional notation with a fraction if its leading digit stands between the
millionths and the twelfth power of ten, else in scientific notation. What is not finite becomes
`null`.
-/

namespace SdfShader

/-- The least and the greatest exponent of the leading digit in positional notation. -/
def positionalExponents : Int × Int := (-6, 12)

/-- The numeral of a finite number in settings. -/
def Binary.settingsNumeral (x : Single) : Numeral :=
  let decimal := Format.single.shortest .toEven x.code
  if positionalExponents.1 ≤ decimal.leading ∧ decimal.leading ≤ positionalExponents.2 then
    (decimal.positional x.negative).withFraction
  else decimal.scientific x.negative

namespace Config

def encodeCount (n : UInt32) : Json :=
  .number ⟨false, Nat.toDigits 10 n.toNat, none, none⟩

def encodeScalar (x : Single) : Json :=
  if x.isFinite then .number x.settingsNumeral else .null

def encodeVector (v : Vec3 Single) : Json :=
  .array (v.toList.map encodeScalar)

def encodeValue : (kind : Kind) → kind.Value → Json
  | .count => encodeCount
  | .scalar => encodeScalar
  | .vector => encodeVector

def toJson (c : Config) : Json :=
  .object (Field.all.map fun field =>
    (Json.Written.ofString field.key, encodeValue field.kind (c.get field)))

/-- The text in which settings are saved. -/
def pretty (c : Config) : String :=
  c.toJson.pretty

end Config
end SdfShader
