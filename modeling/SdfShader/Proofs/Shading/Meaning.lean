import SdfShader.Proofs.Shading.Syntax
import SdfShader.Shader.Execution

/-!
# Meaning — running text of the shading language

What commands do to the variables in scope. An `Interpretation` says what numbers and vectors are
and what each function of the language computes with them; nothing is assumed about it. A command
does not run if it declares a name that is in scope, uses one that is not, or gives a function or a
field a value of the wrong type.
-/

namespace SdfShader
namespace Shading

/-- Numbers, vectors and what is computed with them. -/
structure Interpretation (Number Vector : Type) where
  numeral : String → Number
  negate : Number → Number
  vector : (x y z : Number) → Vector
  subtract : Vector → Vector → Vector
  less : Number → Number → Bool
  min : Number → Number → Number
  smoothMin : (a b k : Number) → Number
  sphere : (p : Vector) → (radius : Number) → Number
  box : (p halfExtents : Vector) → Number

variable {Number Vector : Type}

/-! ## Values -/

inductive Value (Number Vector : Type)
  | number (x : Number)
  | vector (v : Vector)
  | truth (b : Bool)
  | material (s : Sample Vector Number)

/-- The values of the names in scope. -/
abbrev Variables (Number Vector : Type) := String → Option (Value Number Vector)

namespace Variables

variable {vars : Variables Number Vector} {name other : String} {v : Value Number Vector}

def set (vars : Variables Number Vector) (name : String) (v : Value Number Vector) :
    Variables Number Vector :=
  fun other => if other = name then some v else vars other

def material? (vars : Variables Number Vector) (register : String) :
    Option (Sample Vector Number) :=
  match vars register with
  | some (.material s) => some s
  | _ => none

/-- What is in scope where the body of `map` begins: the sample point and the result. -/
def ofMap (p : Vector) (result : Sample Vector Number) : Variables Number Vector :=
  fun name =>
    if name = "p" then some (.vector p)
    else if name = resultRegister then some (.material result)
    else none

end Variables

/-- What a field of a register holds. -/
def field? (s : Sample Vector Number) (field : String) : Option (Value Number Vector) :=
  if field = "color" then some (.vector s.color)
  else if field = "is_lit" then some (.truth s.isLit)
  else if field = "dist" then some (.number s.distance)
  else none

/-- The register with another value in one field. -/
def setField? (s : Sample Vector Number) (field : String) :
    Value Number Vector → Option (Sample Vector Number)
  | .vector v => if field = "color" then some { s with color := v } else none
  | .truth b => if field = "is_lit" then some { s with isLit := b } else none
  | .number x => if field = "dist" then some { s with distance := x } else none
  | .material _ => none

namespace Interpretation

/-! ## Evaluation -/

/-- The functions of the language. -/
def builtin? (A : Interpretation Number Vector) :
    String → List (Value Number Vector) → Option (Value Number Vector)
  | "vec3", [.number x, .number y, .number z] => some (.vector (A.vector x y z))
  | "MaterialDist", [.vector color, .truth isLit, .number distance] =>
    some (.material ⟨color, isLit, distance⟩)
  | "min", [.number x, .number y] => some (.number (A.min x y))
  | "op_smooth_min", [.number x, .number y, .number k] => some (.number (A.smoothMin x y k))
  | "sd_sphere", [.vector p, .number radius] => some (.number (A.sphere p radius))
  | "sd_box", [.vector p, .vector halfExtents] => some (.number (A.box p halfExtents))
  | _, _ => none

def negate? (A : Interpretation Number Vector) :
    Value Number Vector → Option (Value Number Vector)
  | .number x => some (.number (A.negate x))
  | _ => none

def subtract? (A : Interpretation Number Vector) :
    Value Number Vector → Value Number Vector → Option (Value Number Vector)
  | .vector v, .vector w => some (.vector (A.subtract v w))
  | _, _ => none

def less? (A : Interpretation Number Vector) :
    Value Number Vector → Value Number Vector → Option (Value Number Vector)
  | .number x, .number y => some (.truth (A.less x y))
  | _, _ => none

mutual

def evaluate? (A : Interpretation Number Vector) (vars : Variables Number Vector) :
    Expression → Option (Value Number Vector)
  | .number text => some (.number (A.numeral text))
  | .truth value => some (.truth value)
  | .name register => vars register
  | .member register field => do
    let s ← vars.material? register
    field? s field
  | .negation e => do
    let v ← A.evaluate? vars e
    A.negate? v
  | .call function arguments => do
    let vs ← A.evaluateAll? vars arguments
    A.builtin? function vs
  | .difference left right => do
    let v ← A.evaluate? vars left
    let w ← A.evaluate? vars right
    A.subtract? v w
  | .comparison left right => do
    let v ← A.evaluate? vars left
    let w ← A.evaluate? vars right
    A.less? v w

def evaluateAll? (A : Interpretation Number Vector) (vars : Variables Number Vector) :
    List Expression → Option (List (Value Number Vector))
  | [] => some []
  | e :: es => do
    let v ← A.evaluate? vars e
    let vs ← A.evaluateAll? vars es
    return v :: vs

end

/-! ## Execution -/

def assign? (A : Interpretation Number Vector) (vars : Variables Number Vector) (a : Assignment) :
    Option (Variables Number Vector) := do
  let s ← vars.material? a.register
  let v ← A.evaluate? vars a.value
  let s ← setField? s a.field v
  return vars.set a.register (.material s)

/-- The variables after a command, if it runs. -/
def execute? (A : Interpretation Number Vector) (vars : Variables Number Vector) :
    Command → Option (Variables Number Vector)
  | .declaration type register value =>
    -- A name is declared once only.
    match vars register, A.evaluate? vars value with
    | none, some (.material s) =>
      if type = "MaterialDist" then some (vars.set register (.material s)) else none
    | _, _ => none
  | .assignment a => A.assign? vars a
  | .conditional condition body =>
    match A.evaluate? vars condition with
    | some (.truth true) => body.foldlM A.assign? vars
    | some (.truth false) => some vars
    | _ => none

def executeAll? (A : Interpretation Number Vector) (vars : Variables Number Vector)
    (cs : List Command) : Option (Variables Number Vector) :=
  cs.foldlM A.execute? vars

/-- The variables after a text, if it can be read and runs. -/
def run? (A : Interpretation Number Vector) (vars : Variables Number Vector) (text : String) :
    Option (Variables Number Vector) := do
  let cs ← read? text
  A.executeAll? vars cs

end Interpretation

end Shading
end SdfShader
