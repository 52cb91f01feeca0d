import SdfShader.Scene.Graph

/-!
# Scenes

A scene is a graph together with the counters that name its nodes: shapes are called `s0`, `s1`, …,
operations `op0`, `op1`, …, the root being `op0`. `Edit` lists everything that can be done to a
scene, `Scene.run` does a list of edits, leaving out those that are refused.
-/

namespace SdfShader

/-- Names of shapes begin with this. -/
def shapeStem : String := "s"

/-- Names of operations begin with this. -/
def operationStem : String := "op"

/-- A graph and the numbers of the next names. Counters of 32 bits do the same as these natural
numbers as long as there are fewer than `2 ^ 32` nodes (`Scene.counters_fit`). -/
structure Scene where
  graph : Graph
  nextShape : Nat
  nextOperation : Nat
  deriving DecidableEq

namespace Scene

/-- The scene with nothing but its root. -/
def empty : Scene :=
  ⟨.ofRoot (operationStem ++ toString 0), 0, 1⟩

instance : Inhabited Scene := ⟨empty⟩

/-! ## New nodes -/

/-- A new shape under the root, and its id. -/
def insertShape (s : Scene) (shape : Shape) : Scene × NodeId :=
  let name := shapeStem ++ toString s.nextShape
  ({ s with
      graph := s.graph.insert rootId name (.shape shape)
      nextShape := s.nextShape + 1 }, s.graph.size)

/-- A new operation without children under the root, and its id. -/
def insertOperation (s : Scene) (join : Join) : Scene × NodeId :=
  let name := operationStem ++ toString s.nextOperation
  ({ s with
      graph := s.graph.insert rootId name (.operation join [])
      nextOperation := s.nextOperation + 1 }, s.graph.size)

def addSphere (s : Scene) (position : Vec3 Single) (radius : Single) (color : Vec3 Single) :
    Except SceneError (Scene × NodeId) := do
  Graph.guardParameter (checkVector .position position)
  Graph.guardParameter (checkVector .color color)
  Graph.guardParameter (checkRadius radius)
  return s.insertShape ⟨position, color, .sphere radius⟩

def addBox (s : Scene) (position halfExtents color : Vec3 Single) :
    Except SceneError (Scene × NodeId) := do
  Graph.guardParameter (checkVector .position position)
  Graph.guardParameter (checkVector .color color)
  Graph.guardParameter (checkHalfExtents halfExtents)
  return s.insertShape ⟨position, color, .box halfExtents⟩

def addUnion (s : Scene) : Scene × NodeId :=
  s.insertOperation .sharp

def addSmoothUnion (s : Scene) (smoothness : Single) : Except SceneError (Scene × NodeId) := do
  Graph.guardParameter (checkSmoothness smoothness)
  return s.insertOperation (.smooth smoothness)

/-! ## Edits -/

inductive Edit
  | addSphere (position : Vec3 Single) (radius : Single) (color : Vec3 Single)
  | addBox (position halfExtents color : Vec3 Single)
  | addUnion
  | addSmoothUnion (smoothness : Single)
  | addChildren (parent : NodeId) (ids : List NodeId)
  | removeChild (parent child : NodeId)
  | setPosition (id : NodeId) (value : Vec3 Single)
  | setColor (id : NodeId) (value : Vec3 Single)
  | setRadius (id : NodeId) (value : Single)
  | setHalfExtents (id : NodeId) (value : Vec3 Single)
  | setSmoothness (id : NodeId) (value : Single)

/-- The scene with an edited graph. -/
def withGraph (s : Scene) (result : Except SceneError Graph) :
    Except SceneError (Scene × Option NodeId) :=
  result.map fun graph => ({ s with graph }, none)

/-- The scene after an edit and the id of the node that the edit creates. -/
def apply (s : Scene) : Edit → Except SceneError (Scene × Option NodeId)
  | .addSphere position radius color => do
    let (s, id) ← s.addSphere position radius color
    return (s, some id)
  | .addBox position halfExtents color => do
    let (s, id) ← s.addBox position halfExtents color
    return (s, some id)
  | .addUnion =>
    let (s, id) := s.addUnion
    .ok (s, some id)
  | .addSmoothUnion smoothness => do
    let (s, id) ← s.addSmoothUnion smoothness
    return (s, some id)
  | .addChildren parent ids => s.withGraph (s.graph.addChildren parent ids)
  | .removeChild parent child => s.withGraph (s.graph.removeChild parent child)
  | .setPosition id value => s.withGraph (s.graph.setPosition id value)
  | .setColor id value => s.withGraph (s.graph.setColor id value)
  | .setRadius id value => s.withGraph (s.graph.setRadius id value)
  | .setHalfExtents id value => s.withGraph (s.graph.setHalfExtents id value)
  | .setSmoothness id value => s.withGraph (s.graph.setSmoothness id value)

/-- The scene after an edit; a refused edit leaves it as it is. -/
def step (s : Scene) (e : Edit) : Scene :=
  match s.apply e with
  | .ok (s, _) => s
  | .error _ => s

def run (s : Scene) (edits : List Edit) : Scene :=
  edits.foldl step s

/-- The scenes that edits can make of the empty one. -/
inductive Reachable : Scene → Prop
  | empty : Reachable empty
  | step {s : Scene} (h : Reachable s) (e : Edit) : Reachable (s.step e)

theorem Reachable.run {s : Scene} (h : Reachable s) (edits : List Edit) :
    Reachable (s.run edits) := by
  induction edits generalizing s with
  | nil => exact h
  | cons e edits ih => exact ih (h.step e)

end Scene
end SdfShader
