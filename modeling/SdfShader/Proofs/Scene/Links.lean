import Mathlib.Logic.Relation
import SdfShader.Scene.Graph

/-!
# Links — what the elementary changes of a graph do to its links

Every edit of a graph is put together from `modify`, `unlink`, `link` and from appending a node.
This module reads their results through four views of a graph:

* `children` and `parent?`, the two places where a link is stored;
* `content?`, a node without its links;
* `IsOperation`, which is all that a link asks of its owner.

There is one equation for each change and each view. Later modules use these equations and never
look into the array of nodes again.
-/

namespace SdfShader

/-! ## Kinds without links -/

namespace NodeKind

/-- The kind without the list of children. -/
def bare (k : NodeKind) : NodeKind :=
  k.mapChildren fun _ => []

@[simp] theorem bare_mapChildren (g : List NodeId → List NodeId) (k : NodeKind) :
    (k.mapChildren g).bare = k.bare := by
  cases k <;> rfl

theorem isOperation_bare (k : NodeKind) : k.bare.isOperation = k.isOperation := by
  cases k <;> rfl

theorem children_mapChildren_of_isOperation {k : NodeKind} (hk : k.isOperation = true)
    (g : List NodeId → List NodeId) :
    (k.mapChildren g).children = g k.children := by
  cases k with
  | shape s =>
      simp [isOperation] at hk
  | operation join ids =>
      rfl

/-- A function that keeps the empty list acts on the children of every kind. -/
theorem children_mapChildren_of_nil {g : List NodeId → List NodeId} (hg : g [] = [])
    (k : NodeKind) :
    (k.mapChildren g).children = g k.children := by
  cases k with
  | shape s =>
      exact hg.symm
  | operation join ids =>
      rfl

end NodeKind

namespace Graph

variable {g : Graph} {id other owner child parent : NodeId}

/-! ## Views -/

/-- Name and kind of a node, without its links. -/
def content? (g : Graph) (id : NodeId) : Option (String × NodeKind) :=
  (g.node? id).map fun n => (n.name, n.kind.bare)

/-- The name of a node. -/
def nameOf (g : Graph) (id : NodeId) : String :=
  (g.node? id).elim "" Node.name

/-- Whether a node exists and is an operation. -/
def IsOperation (g : Graph) (id : NodeId) : Prop :=
  ∃ n, g.node? id = some n ∧ n.kind.isOperation = true

theorem node?_eq_none_iff : g.node? id = none ↔ g.size ≤ id := by
  simp [node?, size]

theorem exists_node?_iff : (∃ n, g.node? id = some n) ↔ id < g.size := by
  rw [← Option.isSome_iff_exists]
  simp [node?, size]

theorem lt_size_of_node? {n : Node} (h : g.node? id = some n) : id < g.size :=
  exists_node?_iff.1 ⟨n, h⟩

theorem children_of_node? {n : Node} (h : g.node? id = some n) : g.children id = n.children := by
  simp [children, h]

theorem children_of_shape {n : Node} {s : Shape} (h : g.node? id = some n)
    (hk : n.kind = .shape s) : g.children id = [] := by
  rw [children_of_node? h, Node.children, hk, NodeKind.children]

theorem children_of_operation {n : Node} {join : Join} {ids : List NodeId}
    (h : g.node? id = some n) (hk : n.kind = .operation join ids) : g.children id = ids := by
  rw [children_of_node? h, Node.children, hk, NodeKind.children]

theorem parent?_of_node? {n : Node} (h : g.node? id = some n) : g.parent? id = n.parent := by
  simp [parent?, h]

theorem nameOf_of_node? {n : Node} (h : g.node? id = some n) : g.nameOf id = n.name := by
  simp [nameOf, h]

theorem lt_size_of_parent? (h : g.parent? child = some owner) : child < g.size := by
  cases hn : g.node? child with
  | none =>
      simp [parent?, hn] at h
  | some n =>
      exact lt_size_of_node? hn

theorem lt_size_of_mem_children (h : child ∈ g.children owner) : owner < g.size := by
  cases hn : g.node? owner with
  | none =>
      simp [children, hn] at h
  | some n =>
      exact lt_size_of_node? hn

theorem IsOperation.lt_size (h : g.IsOperation id) : id < g.size := by
  rcases h with ⟨n, hn, _⟩
  exact lt_size_of_node? hn

/-- Whether a node is an operation is part of its content. -/
theorem isOperation_iff_content? :
    g.IsOperation id ↔ ∃ c, g.content? id = some c ∧ c.2.isOperation = true := by
  constructor
  · rintro ⟨n, hn, hop⟩
    exact ⟨(n.name, n.kind.bare), by simp [content?, hn],
      by rw [NodeKind.isOperation_bare, hop]⟩
  · rintro ⟨c, hc, hop⟩
    rcases Option.map_eq_some_iff.1 hc with ⟨n, hn, rfl⟩
    exact ⟨n, hn, by rw [← NodeKind.isOperation_bare, hop]⟩

theorem isOperation_congr {g' : Graph} (h : g'.content? id = g.content? id) :
    g'.IsOperation id ↔ g.IsOperation id := by
  rw [isOperation_iff_content?, isOperation_iff_content?, h]

/-- Only operations have children. -/
theorem isOperation_of_mem_children (h : child ∈ g.children owner) : g.IsOperation owner := by
  rcases exists_node?_iff.2 (lt_size_of_mem_children h) with ⟨n, hn⟩
  refine ⟨n, hn, ?_⟩
  cases hk : n.kind with
  | shape s =>
      rw [children_of_shape hn hk] at h
      cases h
  | operation join ids =>
      rfl

/-! ## One node changed -/

@[simp] theorem size_modify (h : Node → Node) : (g.modify id h).size = g.size := by
  simp [modify, size]

@[simp] theorem revision_modify (h : Node → Node) :
    (g.modify id h).revision = g.revision := rfl

theorem node?_modify (h : Node → Node) :
    (g.modify id h).node? other = if id = other then (g.node? other).map h else g.node? other := by
  simp [modify, node?, Array.getElem?_modify]

theorem node?_modify_of_ne (h : Node → Node) (hne : id ≠ other) :
    (g.modify id h).node? other = g.node? other := by
  rw [node?_modify, if_neg hne]

/-- A view that a change of one node keeps there is kept everywhere. -/
theorem map_node?_modify {α : Type} {view : Node → α} {h : Node → Node}
    (hview : ∀ n, view (h n) = view n) :
    ((g.modify id h).node? other).map view = (g.node? other).map view := by
  rw [node?_modify]
  split
  · simp [Function.comp_def, hview]
  · rfl

theorem content?_modify {h : Node → Node}
    (hh : ∀ n, (h n).name = n.name ∧ (h n).kind.bare = n.kind.bare) :
    (g.modify id h).content? other = g.content? other :=
  map_node?_modify fun n => by rw [(hh n).1, (hh n).2]

theorem children_eq_map (id : NodeId) :
    g.children id = ((g.node? id).map Node.children).getD [] := by
  cases hn : g.node? id <;> simp [children, hn]

theorem parent?_eq_map (id : NodeId) :
    g.parent? id = ((g.node? id).map Node.parent).join := by
  cases hn : g.node? id <;> simp [parent?, hn]

theorem children_modify_of_kept {h : Node → Node} (hh : ∀ n, (h n).children = n.children) :
    (g.modify id h).children other = g.children other := by
  rw [children_eq_map, children_eq_map, map_node?_modify hh]

theorem parent?_modify_of_kept {h : Node → Node} (hh : ∀ n, (h n).parent = n.parent) :
    (g.modify id h).parent? other = g.parent? other := by
  rw [parent?_eq_map, parent?_eq_map, map_node?_modify hh]

/-! ## New owner of a node, new list of an operation -/

/-- The graph where a node names another owner. -/
def setParent (g : Graph) (id : NodeId) (owner : Option NodeId) : Graph :=
  g.modify id ({ · with parent := owner })

/-- The graph where an operation has another list of children. -/
def mapChildren (g : Graph) (id : NodeId) (f : List NodeId → List NodeId) : Graph :=
  g.modify id (Node.mapChildren f)

section Steps

variable {newOwner : Option NodeId} {f : List NodeId → List NodeId}

@[simp] theorem size_setParent : (g.setParent id newOwner).size = g.size := size_modify _

@[simp] theorem size_mapChildren : (g.mapChildren id f).size = g.size := size_modify _

@[simp] theorem content?_setParent :
    (g.setParent id newOwner).content? other = g.content? other :=
  content?_modify fun _ => ⟨rfl, rfl⟩

@[simp] theorem content?_mapChildren :
    (g.mapChildren id f).content? other = g.content? other :=
  content?_modify fun n => ⟨rfl, NodeKind.bare_mapChildren f n.kind⟩

@[simp] theorem children_setParent :
    (g.setParent id newOwner).children other = g.children other :=
  children_modify_of_kept fun _ => rfl

@[simp] theorem parent?_mapChildren :
    (g.mapChildren id f).parent? other = g.parent? other :=
  parent?_modify_of_kept fun _ => rfl

theorem parent?_setParent (known : id < g.size) :
    (g.setParent id newOwner).parent? other
      = if other = id then newOwner else g.parent? other := by
  rcases exists_node?_iff.2 known with ⟨n, hn⟩
  by_cases h : other = id
  · subst h
    simp [setParent, parent?, node?_modify, hn]
  · simp [setParent, parent?, node?_modify, h, Ne.symm h]

theorem children_mapChildren_of_ne (hne : other ≠ id) :
    (g.mapChildren id f).children other = g.children other := by
  simp [mapChildren, children, node?_modify, Ne.symm hne]

theorem children_mapChildren_self (op : g.IsOperation id) :
    (g.mapChildren id f).children id = f (g.children id) := by
  rcases op with ⟨n, hn, hop⟩
  simp [mapChildren, children, node?_modify, hn, Node.children, Node.mapChildren,
    NodeKind.children_mapChildren_of_isOperation hop]

/-- A function that keeps the empty list needs no operation. -/
theorem children_mapChildren_self_of_nil (hf : f [] = []) :
    (g.mapChildren id f).children id = f (g.children id) := by
  cases hn : g.node? id with
  | none =>
      simp [mapChildren, children, node?_modify, hn, hf]
  | some n =>
      simp [mapChildren, children, node?_modify, hn, Node.children, Node.mapChildren,
        NodeKind.children_mapChildren_of_nil hf]

end Steps

/-! ## Linking and unlinking -/

theorem link_eq : g.link parent child
    = (g.mapChildren parent (· ++ [child])).setParent child (some parent) := rfl

@[simp] theorem size_link : (g.link parent child).size = g.size := by
  simp [link_eq]

@[simp] theorem revision_link : (g.link parent child).revision = g.revision := rfl

@[simp] theorem content?_link : (g.link parent child).content? id = g.content? id := by
  simp [link_eq]

theorem parent?_link (known : child < g.size) :
    (g.link parent child).parent? id = if id = child then some parent else g.parent? id := by
  rw [link_eq, parent?_setParent (by simpa using known), parent?_mapChildren]

theorem children_link (op : g.IsOperation parent) :
    (g.link parent child).children id
      = if id = parent then g.children parent ++ [child] else g.children id := by
  rw [link_eq, children_setParent]
  split
  · next h => rw [h, children_mapChildren_self op]
  · next h => rw [children_mapChildren_of_ne h]

theorem unlink_of_parent? (h : g.parent? child = some owner) :
    g.unlink child
      = (g.mapChildren owner (·.filter (· ≠ child))).setParent child none := by
  simp [unlink, h, mapChildren, setParent]

theorem unlink_of_parent?_eq_none (h : g.parent? child = none) : g.unlink child = g := by
  simp [unlink, h]

@[simp] theorem size_unlink : (g.unlink child).size = g.size := by
  cases h : g.parent? child with
  | none =>
      rw [unlink_of_parent?_eq_none h]
  | some owner =>
      simp [unlink_of_parent? h]

@[simp] theorem revision_unlink : (g.unlink child).revision = g.revision := by
  cases h : g.parent? child with
  | none =>
      rw [unlink_of_parent?_eq_none h]
  | some owner =>
      rw [unlink_of_parent? h]
      rfl

@[simp] theorem content?_unlink : (g.unlink child).content? id = g.content? id := by
  cases h : g.parent? child with
  | none =>
      rw [unlink_of_parent?_eq_none h]
  | some owner =>
      simp [unlink_of_parent? h]

theorem parent?_unlink :
    (g.unlink child).parent? id = if id = child then none else g.parent? id := by
  cases h : g.parent? child with
  | none =>
      rw [unlink_of_parent?_eq_none h]
      split
      · next hid => rw [hid, h]
      · rfl
  | some owner =>
      rw [unlink_of_parent? h, parent?_setParent (by simpa using lt_size_of_parent? h),
        parent?_mapChildren]

/-- Of all lists only the owner's changes. -/
theorem children_unlink :
    (g.unlink child).children id
      = if g.parent? child = some id then (g.children id).filter (· ≠ child)
        else g.children id := by
  cases h : g.parent? child with
  | none =>
      simp [unlink_of_parent?_eq_none h]
  | some owner =>
      -- The owner loses the child even if it is no operation: then its list is empty.
      rw [unlink_of_parent? h, children_setParent]
      by_cases hid : id = owner
      · subst hid
        rw [if_pos rfl, children_mapChildren_self_of_nil rfl]
      · have hne : ¬ some owner = some id := fun h => hid (Option.some.inj h).symm
        rw [if_neg hne, children_mapChildren_of_ne hid]

/-! ## Attaching -/

theorem attach_of_parent? (h : g.parent? child = some parent) : g.attach parent child = g := by
  simp [attach, h]

theorem attach_of_parent?_ne (h : g.parent? child ≠ some parent) :
    g.attach parent child = (g.unlink child).link parent child := by
  simp [attach, h]

@[simp] theorem size_attach : (g.attach parent child).size = g.size := by
  by_cases h : g.parent? child = some parent
  · rw [attach_of_parent? h]
  · simp [attach_of_parent?_ne h]

@[simp] theorem content?_attach : (g.attach parent child).content? id = g.content? id := by
  by_cases h : g.parent? child = some parent
  · rw [attach_of_parent? h]
  · simp [attach_of_parent?_ne h]

@[simp] theorem revision_attach : (g.attach parent child).revision = g.revision := by
  by_cases h : g.parent? child = some parent
  · rw [attach_of_parent? h]
  · simp [attach_of_parent?_ne h]

theorem parent?_attach (known : child < g.size) :
    (g.attach parent child).parent? id = if id = child then some parent else g.parent? id := by
  by_cases h : g.parent? child = some parent
  · rw [attach_of_parent? h]
    split
    · next hid => rw [hid, h]
    · rfl
  · rw [attach_of_parent?_ne h, parent?_link (by simpa using known), parent?_unlink]
    split <;> rfl

/-! ## A node appended -/

/-- The graph with one node more. -/
def push (g : Graph) (n : Node) : Graph :=
  { g with nodes := g.nodes.push n }

@[simp] theorem size_push (n : Node) : (g.push n).size = g.size + 1 := by
  simp [push, size]

theorem node?_push (n : Node) :
    (g.push n).node? id = if id = g.size then some n else g.node? id :=
  Array.getElem?_push

theorem node?_push_of_lt (n : Node) (known : id < g.size) :
    (g.push n).node? id = g.node? id := by
  rw [node?_push, if_neg (Nat.ne_of_lt known)]

theorem insert_eq (name : String) (kind : NodeKind) :
    g.insert parent name kind = ((g.push ⟨name, kind, none⟩).link parent g.size).bump := rfl

/-! ## Counting a change -/

@[simp] theorem node?_bump : g.bump.node? id = g.node? id := rfl

@[simp] theorem size_bump : g.bump.size = g.size := rfl

@[simp] theorem children_bump : g.bump.children id = g.children id := rfl

@[simp] theorem parent?_bump : g.bump.parent? id = g.parent? id := rfl

@[simp] theorem content?_bump : g.bump.content? id = g.content? id := rfl

@[simp] theorem revision_bump : g.bump.revision = g.revision + 1 := rfl

end Graph
end SdfShader
