import SdfShader.Scene.Node

/-!
# Scene graphs

All nodes of a scene, attached or not, with their links: an operation lists its children, and every
node knows the operation that owns it. The root is the first node. Edits give a new graph or the
reason why they are refused; every edit that changes the graph raises the revision by one.
-/

namespace SdfShader

/-- The nodes, whose ids are their places, and the number of changes. Ids and revision are natural
numbers: ids of 32 bits and a revision of 64 bits do the same as long as there are fewer than
`2 ^ 32` nodes and fewer than `2 ^ 64` edits (`Scene.counters_fit`). -/
structure Graph where
  nodes : Array Node
  revision : Nat
  deriving DecidableEq

/-- The node that everything attached hangs from. -/
def rootId : NodeId := 0

/-- What an edit needs a node to be. -/
inductive Role
  | operation
  | shape
  | sphere
  | box
  | smoothUnion
  deriving DecidableEq

def Role.text : Role → String
  | operation => "an operation"
  | shape => "a shape"
  | sphere => "a sphere"
  | box => "a box"
  | smoothUnion => "a smooth union"

inductive SceneError
  | unknownNode (id : NodeId)
  | wrongKind (name : String) (expected : Role)
  | cycle (parent child : String)
  | rootReparent (name : String)
  | invalidParameter (cause : ParameterError)
  deriving DecidableEq

namespace SceneError

def message : SceneError → String
  | unknownNode id => s!"Unknown node: #{id}"
  | wrongKind name expected => s!"Node '{name}' is not {expected.text}"
  | cycle parent child => s!"Attaching '{child}' under '{parent}' would create a cycle"
  | rootReparent name => s!"Root node '{name}' cannot be attached to another operation"
  | invalidParameter cause => s!"Invalid parameter: {cause.message}"

end SceneError

namespace Graph

/-! ## Reading -/

/-- The graph whose only node is an empty union. -/
def ofRoot (name : String) : Graph :=
  ⟨#[⟨name, .operation .sharp [], none⟩], 0⟩

def size (g : Graph) : Nat :=
  g.nodes.size

def isEmpty (g : Graph) : Bool :=
  g.nodes.isEmpty

def node? (g : Graph) (id : NodeId) : Option Node :=
  g.nodes[id]?

/-- The node with an id, or the report that there is none. -/
def node (g : Graph) (id : NodeId) : Except SceneError Node :=
  match g.node? id with
  | some n => .ok n
  | none => .error (.unknownNode id)

/-- Children of a node; none if there is no such node. -/
def children (g : Graph) (id : NodeId) : List NodeId :=
  (g.node? id).elim [] Node.children

/-- Owner of a node, if there is one. -/
def parent? (g : Graph) (id : NodeId) : Option NodeId :=
  (g.node? id).bind Node.parent

/-- The first node with a name. -/
def find? (g : Graph) (name : String) : Option NodeId :=
  g.nodes.findIdx? fun n => n.name = name

/-! ## Walking -/

/-- At most `fuel` owners, from the given one upwards. -/
def climb (g : Graph) : Nat → Option NodeId → List NodeId
  | fuel + 1, some id => id :: g.climb fuel (g.parent? id)
  | _, _ => []

/-- Owners of a node, nearest first. -/
def ancestors (g : Graph) (id : NodeId) : List NodeId :=
  g.climb g.size (g.parent? id)

/-- Takes at most `fuel` nodes from a stack, each making room for its children. -/
def walk (g : Graph) : Nat → List NodeId → List NodeId
  | fuel + 1, id :: stack => id :: g.walk fuel (g.children id ++ stack)
  | _, _ => []

/-- A node and all below it, owners before their children, children in their order. -/
def descendants (g : Graph) (id : NodeId) : List NodeId :=
  g.walk g.size [id]

/-- Whether a node can be reached from the root. -/
def isAttached (g : Graph) (id : NodeId) : Bool :=
  id = rootId || (g.ancestors id).contains rootId

/-! ## Links -/

def modify (g : Graph) (id : NodeId) (h : Node → Node) : Graph :=
  { g with nodes := g.nodes.modify id h }

/-- Takes a node out of its owner's list. -/
def unlink (g : Graph) (child : NodeId) : Graph :=
  match g.parent? child with
  | none => g
  | some owner =>
    (g.modify owner (Node.mapChildren (·.filter (· ≠ child)))).modify child
      ({ · with parent := none })

/-- Puts a node without owner at the end of an operation's list. -/
def link (g : Graph) (parent child : NodeId) : Graph :=
  (g.modify parent (Node.mapChildren (· ++ [child]))).modify child
    ({ · with parent := some parent })

/-- Moves a node to the end of an operation's list; one that is already there keeps its place. -/
def attach (g : Graph) (parent child : NodeId) : Graph :=
  if g.parent? child = some parent then g else (g.unlink child).link parent child

/-- Counts one change. -/
def bump (g : Graph) : Graph :=
  { g with revision := g.revision + 1 }

/-! ## Structural edits -/

/-- Why a node cannot be moved under `parent`. -/
def attachError? (g : Graph) (parent : NodeId) (owner : Node) (child : NodeId) :
    Option SceneError :=
  match g.node? child with
  | none => some (.unknownNode child)
  | some n =>
    -- Neither the target itself nor an owner of it may move under the target.
    if child = parent ∨ child ∈ g.ancestors parent then some (.cycle owner.name n.name)
    else if child = rootId then some (.rootReparent n.name)
    else none

/-- Moves nodes under an operation, in the given order, unless one of them cannot be moved. -/
def addChildren (g : Graph) (parent : NodeId) (ids : List NodeId) : Except SceneError Graph := do
  let owner ← g.node parent
  if !owner.kind.isOperation then throw (.wrongKind owner.name .operation)
  -- All nodes are checked, in the graph as it is, before the first one is moved.
  match ids.findSome? (g.attachError? parent owner) with
  | some e => throw e
  | none =>
    let moved := ids.foldl (·.attach parent ·) g
    -- Nothing is counted if every node was in its place already.
    return if ids.all (g.parent? · = some parent) then moved else moved.bump

/-- Detaches a node from an operation; without effect if the operation does not own it. -/
def removeChild (g : Graph) (parent child : NodeId) : Except SceneError Graph := do
  -- Both nodes have to exist, also if there is no link between them.
  let _ ← g.node parent
  let _ ← g.node child
  return if g.parent? child = some parent then (g.unlink child).bump else g

/-- Appends a node under an operation. -/
def insert (g : Graph) (parent : NodeId) (name : String) (kind : NodeKind) : Graph :=
  let extended := { g with nodes := g.nodes.push ⟨name, kind, none⟩ }
  (extended.link parent g.size).bump

/-! ## Parameter edits -/

/-- Changes the kind of a node by a function that refuses the kinds it cannot change. -/
def editKind (g : Graph) (id : NodeId) (role : Role) (h : NodeKind → Option NodeKind) :
    Except SceneError Graph := do
  let n ← g.node id
  match h n.kind with
  | some kind => return (g.modify id ({ · with kind })).bump
  | none => throw (.wrongKind n.name role)

/-- The outcome of a check as the outcome of an edit. -/
def guardParameter (check : Except ParameterError Unit) : Except SceneError Unit :=
  check.mapError .invalidParameter

def setPosition (g : Graph) (id : NodeId) (value : Vec3 Single) : Except SceneError Graph := do
  guardParameter (checkVector .position value)
  g.editKind id .shape fun
    | .shape s => some (.shape { s with position := value })
    | _ => none

def setColor (g : Graph) (id : NodeId) (value : Vec3 Single) : Except SceneError Graph := do
  guardParameter (checkVector .color value)
  g.editKind id .shape fun
    | .shape s => some (.shape { s with color := value })
    | _ => none

def setRadius (g : Graph) (id : NodeId) (value : Single) : Except SceneError Graph := do
  guardParameter (checkRadius value)
  g.editKind id .sphere fun
    | .shape ⟨position, color, .sphere _⟩ => some (.shape ⟨position, color, .sphere value⟩)
    | _ => none

def setHalfExtents (g : Graph) (id : NodeId) (value : Vec3 Single) : Except SceneError Graph := do
  guardParameter (checkHalfExtents value)
  g.editKind id .box fun
    | .shape ⟨position, color, .box _⟩ => some (.shape ⟨position, color, .box value⟩)
    | _ => none

def setSmoothness (g : Graph) (id : NodeId) (value : Single) : Except SceneError Graph := do
  guardParameter (checkSmoothness value)
  g.editKind id .smoothUnion fun
    | .operation (.smooth _) children => some (.operation (.smooth value) children)
    | _ => none

end Graph
end SdfShader
