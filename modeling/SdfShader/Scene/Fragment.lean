import SdfShader.Scene.Tree
import SdfShader.Shader.Statement

/-!
# Fragments

The statements that a tree stands for. Every node declares a register under its own name. An
operation goes through its children: it takes the color of a child that is nearer than what its
register holds by then, and joins the distance of each to that of the register. Then a node hands
its register on to its owner, the root to the result. `Graph.fragment` is the text for the tree
below a node.
-/

namespace SdfShader

namespace Tree

/-- The declaration of an operation: black, and as far as the sentinel. -/
def opening (name : String) : Statement :=
  .declare name (.splat 0) (.constant sentinelDistance)

mutual

/-- The statements of a tree whose owner collects in the register `target`. -/
def statements (target : String) : Tree → List Statement
  | shape name s =>
    [.declare name s.color (.solid s.position s.solid), .takeCloser name target]
  | operation name join children =>
    opening name :: childStatements name join children ++ [.takeCloser name target]

/-- The statements of the children of the operation `name`, each followed by the join of its
distance. -/
def childStatements (name : String) (join : Join) : List Tree → List Statement
  | [] => []
  | t :: ts => t.statements name ++ .join join name t.name :: childStatements name join ts

end

/-- The whole body: the tree's statements and the join of its distance to the result. -/
def body (t : Tree) : List Statement :=
  t.statements resultRegister ++ [.join .sharp resultRegister t.name]

end Tree

namespace Graph

/-! ## Text below a node -/

/-- The statements of the tree below a node as text, for an owner that collects in `target`. -/
def code (g : Graph) (id : NodeId) (target : String) : Except Defect String :=
  match g.tree? id with
  | some t => renderAll (t.statements target)
  | none => .error (.missingNode id)

/-- The block of one child of the operation `name`. -/
def childCode (g : Graph) (name : String) (join : Join) (id : NodeId) : Except Defect String :=
  match g.tree? id with
  | some t => renderAll (Tree.childStatements name join [t])
  | none => .error (.missingNode id)

/-- The text of an operation that need not be part of the graph, over children that are. -/
def operationCode (g : Graph) (name : String) (join : Join) (ids : List NodeId)
    (target : String) : Except Defect String := do
  let opening ← (Tree.opening name).render
  let blocks ← ids.mapM (g.childCode name join)
  let closing ← (Statement.takeCloser name target).render
  return opening ++ String.join blocks ++ closing

end Graph

/-- The text of a shape that need not be part of a graph. -/
def Shape.code (s : Shape) (name target : String) : Except Defect String :=
  renderAll ((Tree.shape name s).statements target)

/-! ## Fragment of a node -/

/-- Why there is no shader text. -/
inductive FragmentError
  | scene (e : SceneError)
  | defect (d : Defect)
  deriving DecidableEq

namespace Graph

/-- The body of `map` for the tree below a node. -/
def fragment (g : Graph) (id : NodeId) : Except FragmentError String :=
  match g.tree? id with
  | some t => (renderAll t.body).mapError .defect
  | none => .error (.scene (.unknownNode id))

end Graph
end SdfShader
