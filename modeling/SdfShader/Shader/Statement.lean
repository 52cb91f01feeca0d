import SdfShader.Scene.Node
import SdfShader.Shader.RegisterName

/-!
# Statements of the map function

The part of the shading language that scenes are written in. A register holds a color, a flag for
lighting and a distance. `Statement.render` writes the text; a statement with a number that is not
finite has none.
-/

namespace SdfShader

/-- Distance of the sample point `p` that a register is declared with. -/
inductive DistanceTerm
  | solid (position : Vec3 Single) (s : Solid)
  | constant (value : Single)
  deriving DecidableEq

inductive Statement
  /-- Declares a lit register. -/
  | declare (register : String) (color : Vec3 Single) (distance : DistanceTerm)
  /-- Copies color and lighting of the source into the target if the source is nearer. -/
  | takeCloser (source target : String)
  /-- Joins the distance of the source to that of the target. -/
  | join (how : Join) (target source : String)
  deriving DecidableEq

/-! ## Text -/

def DistanceTerm.render : DistanceTerm → Except Defect String
  | solid position (.sphere radius) => do
    let center ← position.literal
    let r ← radius.literal
    return s!"sd_sphere(p - {center}, {r})"
  | solid position (.box halfExtents) => do
    let center ← position.literal
    let b ← halfExtents.literal
    return s!"sd_box(p - {center}, {b})"
  | constant value => value.literal

def Join.render (target source : String) : Join → Except Defect String
  | sharp => .ok s!"min({target}.dist, {source}.dist)"
  | smooth smoothness => do
    let k ← smoothness.literal
    return s!"op_smooth_min({target}.dist, {source}.dist, {k})"

def Statement.render : Statement → Except Defect String
  | declare register color distance => do
    let d ← distance.render
    let c ← color.literal
    return s!"    MaterialDist {register} = MaterialDist({c}, true, {d});\n"
  | takeCloser source target => .ok (String.join
      [s!"    if ({source}.dist < {target}.dist) \x7b\n",
       s!"        {target}.color = {source}.color;\n",
       s!"        {target}.is_lit = {source}.is_lit;\n",
       "    \x7d\n"])
  | join how target source => do
    let joined ← how.render target source
    return s!"    {target}.dist = {joined};\n"

/-- The texts of the statements one after the other, up to the first that has none. -/
def renderAll (statements : List Statement) : Except Defect String :=
  (statements.mapM Statement.render).map String.join

end SdfShader
