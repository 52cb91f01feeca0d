import SdfShader.Shader.Literal

/-!
# Nodes of a scene

A node is a shape or an operation. Shapes are leaves; an operation owns an ordered list of children
and joins their distances. The rules for parameters stand here too: which values a shape or an
operation accepts, and what is reported about the others.
-/

namespace SdfShader

/-- Position of a node in its scene; nodes are numbered in the order of their creation. -/
abbrev NodeId := Nat

/-! ## Kinds -/

/-- What lies around the position of a shape. -/
inductive Solid
  | sphere (radius : Single)
  | box (halfExtents : Vec3 Single)
  deriving DecidableEq

structure Shape where
  position : Vec3 Single
  color : Vec3 Single
  solid : Solid
  deriving DecidableEq

/-- How an operation joins the distances of its children. -/
inductive Join
  | sharp
  | smooth (smoothness : Single)
  deriving DecidableEq

inductive NodeKind
  | shape (s : Shape)
  | operation (join : Join) (children : List NodeId)
  deriving DecidableEq

namespace NodeKind

def label : NodeKind → String
  | shape ⟨_, _, .sphere _⟩ => "sphere"
  | shape ⟨_, _, .box _⟩ => "box"
  | operation .sharp _ => "union"
  | operation (.smooth _) _ => "smooth union"

def isOperation : NodeKind → Bool
  | operation .. => true
  | shape _ => false

def isShape (k : NodeKind) : Bool :=
  !k.isOperation

def children : NodeKind → List NodeId
  | operation _ ids => ids
  | shape _ => []

/-- The kind with another list of children; shapes have none. -/
def mapChildren (g : List NodeId → List NodeId) : NodeKind → NodeKind
  | operation join ids => operation join (g ids)
  | shape s => shape s

end NodeKind

structure Node where
  name : String
  kind : NodeKind
  parent : Option NodeId
  deriving DecidableEq

namespace Node

def children (n : Node) : List NodeId :=
  n.kind.children

def mapChildren (g : List NodeId → List NodeId) (n : Node) : Node :=
  { n with kind := n.kind.mapChildren g }

end Node

/-! ## Parameters -/

/-- Distance that an operation without children reports. -/
def sentinelDistance : Single := 1000

/-- Exclusive upper bound of the smoothness. It stays far below the sentinel distance, so that a
join that starts there leaves every nearer shape as it is. -/
def maxSmoothness : Single := sentinelDistance / 10

/-- A parameter of a shape that is a vector. -/
inductive VectorParameter
  | position
  | color
  | halfExtents
  deriving DecidableEq

def VectorParameter.label : VectorParameter → String
  | position => "position"
  | color => "color"
  | halfExtents => "half extents"

/-- A value that a parameter does not accept. -/
inductive ParameterError
  | nonFiniteVector (parameter : VectorParameter) (value : Vec3 Single)
  | radius (value : Single)
  | halfExtents (value : Vec3 Single)
  | smoothness (value : Single)
  deriving DecidableEq

namespace ParameterError

def message : ParameterError → String
  | nonFiniteVector parameter value => s!"{parameter.label} must be finite, got {value.text}"
  | radius value => s!"radius must be finite and positive, got {value.text}"
  | halfExtents value => s!"half extents must all be positive, got {value.text}"
  | smoothness value => s!"smoothness must be in [0, {maxSmoothness.text}), got {value.text}"

end ParameterError

def checkVector (parameter : VectorParameter) (v : Vec3 Single) : Except ParameterError Unit :=
  if v.isFinite then .ok () else .error (.nonFiniteVector parameter v)

def checkRadius (r : Single) : Except ParameterError Unit :=
  if r.isFinite ∧ 0 < r then .ok () else .error (.radius r)

def checkHalfExtents (v : Vec3 Single) : Except ParameterError Unit := do
  checkVector .halfExtents v
  if 0 < v.x ∧ 0 < v.y ∧ 0 < v.z then .ok () else .error (.halfExtents v)

def checkSmoothness (k : Single) : Except ParameterError Unit :=
  if k.isFinite ∧ 0 ≤ k ∧ k < maxSmoothness then .ok () else .error (.smoothness k)

end SdfShader
