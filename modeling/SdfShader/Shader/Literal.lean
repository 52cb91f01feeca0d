import SdfShader.Decimal.Layout
import SdfShader.Geometry.Vector

/-!
# Literals of the shading language

The shading language does not take `2` for a number of type `float`, so every scalar is written with
a decimal point. What is not finite has no literal; asking for one is a defect of the caller.
-/

namespace SdfShader

/-- What makes it impossible to write a piece of shader code. -/
inductive Defect
  | nonFinite (value : Single)
  | missingNode (id : Nat)
  deriving DecidableEq

namespace Defect

/-- The report of a defect; a missing node is met without one. -/
def message? : Defect → Option String
  | nonFinite value => some s!"non-finite value {value.text} in shader code"
  | missingNode _ => none

end Defect

/-- The shortest positional numeral that reads back, with a fraction. -/
def Binary.literal (x : Single) : Except Defect String :=
  if x.isFinite then .ok x.numeral.withFraction.toString else .error (.nonFinite x)

def Vec2.literal (v : Vec2 Single) : Except Defect String := do
  let x ← v.x.literal
  let y ← v.y.literal
  return s!"vec2({x}, {y})"

def Vec3.literal (v : Vec3 Single) : Except Defect String := do
  let x ← v.x.literal
  let y ← v.y.literal
  let z ← v.z.literal
  return s!"vec3({x}, {y}, {z})"

/-! ## Texts in reports -/

/-- The components between brackets. -/
def Vec3.text (v : Vec3 Single) : String :=
  s!"[{v.x.text}, {v.y.text}, {v.z.text}]"

def Vec3.isFinite (v : Vec3 Single) : Bool :=
  v.x.isFinite && v.y.isFinite && v.z.isFinite

/-! ## When there is a literal -/

theorem Binary.literal_eq_ok_iff {x : Single} {text : String} :
    x.literal = .ok text ↔ x.isFinite ∧ text = x.numeral.withFraction.toString := by
  unfold literal
  cases x.isFinite
  · simp
  · simp [eq_comm]

end SdfShader
