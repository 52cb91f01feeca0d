import SdfShader.Scene.Graph

/-!
# Trees

The part of a graph below a node, as a tree without links. Names stay, since the shader declares one
register per node under the node's name.
-/

namespace SdfShader

inductive Tree
  | shape (name : String) (s : Shape)
  | operation (name : String) (join : Join) (children : List Tree)

namespace Tree

def name : Tree → String
  | shape name _ => name
  | operation name _ _ => name

mutual

/-- Names of all nodes, owners before their children. -/
def names : Tree → List String
  | shape name _ => [name]
  | operation name _ children => name :: namesList children

def namesList : List Tree → List String
  | [] => []
  | t :: ts => t.names ++ namesList ts

end

theorem name_mem_names (t : Tree) : t.name ∈ t.names := by
  cases t <;> simp [name, names]

end Tree

namespace Graph

/-- The tree below a node, down to a depth of `fuel` nodes. -/
def treeAt (g : Graph) : Nat → NodeId → Option Tree
  | 0, _ => none
  | fuel + 1, id => do
    let n ← g.node? id
    match n.kind with
    | .shape s => some (.shape n.name s)
    | .operation join ids => (ids.mapM (g.treeAt fuel)).map (.operation n.name join)

/-- The tree below a node; no branch of a graph without cycles has more nodes than the graph. -/
def tree? (g : Graph) (id : NodeId) : Option Tree :=
  g.treeAt g.size id

end Graph
end SdfShader
