import Mathlib.Data.List.Nodup
import SdfShader.Proofs.Scene.Forest
import SdfShader.Scene.Tree

/-!
# Subtree — walking down a forest

Everything that walks down a graph is written with fuel, one unit for each level. In a forest the
fuel does not matter as soon as it covers the levels that are left: a node has fewer ancestors than
there are nodes, and a child has one more than its owner. So

1. `Forest.level_induction` is induction from the children to their owner,
2. `Forest.tree?_operation` and `Forest.subtree_eq` unfold a walk by one level without any fuel,
3. `Forest.tree?_isSome` gives the tree below every node, and `Forest.tree?_induction` is induction
   over these trees,
4. `Forest.nodup_subtree` says that the listing of a subtree meets no node twice,
5. `Forest.names_tree?` compares the names in a tree with that listing.
-/

namespace SdfShader

/-! ## Lists of results -/

theorem mapM_cons_eq_some_iff {α β : Type} {f : α → Option β} {x : α} {xs : List α}
    {ys : List β} :
    (x :: xs).mapM f = some ys ↔ ∃ z zs, f x = some z ∧ xs.mapM f = some zs ∧ ys = z :: zs := by
  rw [List.mapM_cons]
  cases f x with
  | none =>
      simp
  | some z =>
      cases xs.mapM f <;> simp [eq_comm]

/-- Lists that agree at each pair of an element and its result agree put together. -/
theorem flatMap_of_mapM {α β γ : Type} {f : α → Option β} {p : β → List γ} {q : α → List γ}
    {xs : List α} {ys : List β} (h : xs.mapM f = some ys)
    (hpq : ∀ x ∈ xs, ∀ y, f x = some y → p y = q x) : ys.flatMap p = xs.flatMap q := by
  induction xs generalizing ys with
  | nil =>
      cases h
      rfl
  | cons x xs ih =>
      rcases mapM_cons_eq_some_iff.1 h with ⟨z, zs, hz, hzs, rfl⟩
      rw [List.flatMap_cons, List.flatMap_cons, hpq x List.mem_cons_self z hz,
        ih hzs fun y hy => hpq y (List.mem_cons_of_mem _ hy)]

theorem exists_of_mem_mapM {α β : Type} {f : α → Option β} {xs : List α} {ys : List β}
    (h : xs.mapM f = some ys) {y : β} (hy : y ∈ ys) : ∃ x ∈ xs, f x = some y := by
  induction xs generalizing ys with
  | nil =>
      cases h
      cases hy
  | cons x xs ih =>
      rcases mapM_cons_eq_some_iff.1 h with ⟨z, zs, hz, hzs, rfl⟩
      rcases List.mem_cons.1 hy with rfl | hy
      · exact ⟨x, by simp, hz⟩
      · rcases ih hzs hy with ⟨w, hw, hwy⟩
        exact ⟨w, by simp [hw], hwy⟩

theorem mapM_congr {α β : Type} {f f' : α → Option β} {xs : List α} (h : ∀ x ∈ xs, f x = f' x) :
    xs.mapM f = xs.mapM f' := by
  induction xs with
  | nil =>
      rfl
  | cons x xs ih =>
      rw [List.mapM_cons, List.mapM_cons, h x List.mem_cons_self,
        ih fun y hy => h y (List.mem_cons_of_mem _ hy)]

theorem exists_mapM_eq_some {α β : Type} {f : α → Option β} {xs : List α}
    (h : ∀ x ∈ xs, ∃ y, f x = some y) : ∃ ys, xs.mapM f = some ys := by
  induction xs with
  | nil =>
      exact ⟨[], rfl⟩
  | cons x xs ih =>
      rcases h x List.mem_cons_self with ⟨y, hy⟩
      rcases ih fun z hz => h z (List.mem_cons_of_mem _ hz) with ⟨ys, hys⟩
      exact ⟨y :: ys, by simp [List.mapM_cons, hy, hys]⟩

namespace Graph

variable {g : Graph} {a b id owner child : NodeId}

/-! ## Levels -/

/-- A node and all below it, owners before their children, down to a depth of `fuel` nodes. -/
def subtreeAt (g : Graph) : Nat → NodeId → List NodeId
  | 0, _ => []
  | fuel + 1, id => id :: (g.children id).flatMap (g.subtreeAt fuel)

/-- A node and all below it, owners before their children, children in their order. -/
def subtree (g : Graph) (id : NodeId) : List NodeId :=
  g.subtreeAt g.size id

/-- The number of nodes above a node. -/
def level (g : Graph) (id : NodeId) : Nat :=
  (g.ancestors id).length

namespace Forest

theorem level_of_owns (f : g.Forest) (h : g.Owns owner child) :
    g.level child = g.level owner + 1 := by
  rw [level, f.ancestors_of_owns h, List.length_cons, level]

theorem level_lt (f : g.Forest) (known : id < g.size) : g.level id < g.size :=
  f.length_ancestors_lt known

theorem lt_size_of_mem_children (f : g.Forest) (h : child ∈ g.children owner) : child < g.size :=
  (f.mem_children_iff.1 h).lt_size

/-- Induction from the children to their owner. -/
theorem level_induction (f : g.Forest) {P : NodeId → Prop}
    (step : ∀ id, id < g.size → (∀ c ∈ g.children id, P c) → P id) :
    ∀ id, id < g.size → P id := by
  -- The levels that are left below a node become fewer from a node to its child.
  have hleft : ∀ left id, id < g.size → g.size ≤ left + g.level id → P id := by
    intro left
    induction left with
    | zero =>
        intro id known hle
        have hlt := f.level_lt known
        omega
    | succ left ih =>
        intro id known hle
        apply step id known
        intro c hc
        apply ih c (f.lt_size_of_mem_children hc)
        rw [f.level_of_owns (f.mem_children_iff.1 hc)]
        omega
  exact fun id known => hleft g.size id known (Nat.le_add_right _ _)

/-- A walk that goes down with fuel gives the same for every fuel that covers the levels left. -/
theorem fuel_irrelevant {α : Type} (f : g.Forest) {walk : Nat → NodeId → α}
    (hwalk : ∀ fuel fuel' id, (∀ c ∈ g.children id, walk fuel c = walk fuel' c) →
      walk (fuel + 1) id = walk (fuel' + 1) id)
    {fuel fuel' : Nat} (known : id < g.size) (hfuel : g.size ≤ fuel + g.level id)
    (hfuel' : g.size ≤ fuel' + g.level id) :
    walk fuel id = walk fuel' id := by
  induction fuel generalizing id fuel' with
  | zero =>
      have hlt := f.level_lt known
      omega
  | succ fuel ih =>
      cases fuel' with
      | zero =>
          have hlt := f.level_lt known
          omega
      | succ fuel' =>
          -- One level down both fuels are one less, and the level is one more.
          apply hwalk fuel fuel' id
          intro c hc
          have hlevel := f.level_of_owns (f.mem_children_iff.1 hc)
          exact ih (f.lt_size_of_mem_children hc) (by omega) (by omega)

/-! ## Unfolding by one level -/

/-- With one unit of fuel less, what a walk gives for a child is still complete. -/
theorem walk_child {α : Type} (f : g.Forest) {walk : Nat → NodeId → α}
    (hwalk : ∀ fuel fuel' id, (∀ c ∈ g.children id, walk fuel c = walk fuel' c) →
      walk (fuel + 1) id = walk (fuel' + 1) id)
    {fuel : Nat} (hfuel : g.size = fuel + 1) (hchild : child ∈ g.children id) :
    walk fuel child = walk g.size child := by
  have hlevel := f.level_of_owns (f.mem_children_iff.1 hchild)
  refine f.fuel_irrelevant hwalk (f.lt_size_of_mem_children hchild) ?_ (Nat.le_add_right _ _)
  omega

theorem exists_size_eq (known : id < g.size) : ∃ fuel, g.size = fuel + 1 :=
  Nat.exists_eq_add_one.2 (Nat.zero_lt_of_lt known)

theorem subtreeAt_congr (fuel fuel' : Nat) (id : NodeId)
    (h : ∀ c ∈ g.children id, g.subtreeAt fuel c = g.subtreeAt fuel' c) :
    g.subtreeAt (fuel + 1) id = g.subtreeAt (fuel' + 1) id := by
  rw [subtreeAt, subtreeAt, List.flatMap_congr h]

theorem treeAt_congr (fuel fuel' : Nat) (id : NodeId)
    (h : ∀ c ∈ g.children id, g.treeAt fuel c = g.treeAt fuel' c) :
    g.treeAt (fuel + 1) id = g.treeAt (fuel' + 1) id := by
  cases hn : g.node? id with
  | none =>
      simp [treeAt, hn]
  | some n =>
      cases hk : n.kind with
      | shape s =>
          simp [treeAt, hn, hk]
      | operation join ids =>
          have hids : g.children id = ids := children_of_operation hn hk
          simp [treeAt, hn, hk, mapM_congr (hids ▸ h)]

/-- The listing of a subtree is the node and the listings of its children. -/
theorem subtree_eq (f : g.Forest) (known : id < g.size) :
    g.subtree id = id :: (g.children id).flatMap g.subtree := by
  rcases exists_size_eq known with ⟨fuel, hfuel⟩
  -- With one unit of fuel less the listings of the children are still complete.
  have hchild : ∀ c ∈ g.children id, g.subtreeAt fuel c = g.subtree c := by
    intro c hc
    exact f.walk_child subtreeAt_congr hfuel hc
  calc g.subtree id
      = id :: (g.children id).flatMap (g.subtreeAt fuel) := by
        rw [subtree, hfuel, subtreeAt]
    _ = id :: (g.children id).flatMap g.subtree := by
        rw [List.flatMap_congr hchild]

theorem tree?_shape {n : Node} {s : Shape} (hn : g.node? id = some n) (hk : n.kind = .shape s) :
    g.tree? id = some (.shape n.name s) := by
  rcases exists_size_eq (lt_size_of_node? hn) with ⟨fuel, hfuel⟩
  simp [tree?, hfuel, treeAt, hn, hk]

/-- The tree at an operation is made of the trees at its children. -/
theorem tree?_operation (f : g.Forest) {n : Node} {join : Join} {ids : List NodeId}
    (hn : g.node? id = some n) (hk : n.kind = .operation join ids) :
    g.tree? id = (ids.mapM g.tree?).map (.operation n.name join) := by
  rcases exists_size_eq (lt_size_of_node? hn) with ⟨fuel, hfuel⟩
  have hids : g.children id = ids := children_of_operation hn hk
  have hchild : ∀ c ∈ ids, g.treeAt fuel c = g.tree? c := by
    intro c hc
    exact f.walk_child treeAt_congr hfuel (hids ▸ hc)
  calc g.tree? id
      = (ids.mapM (g.treeAt fuel)).map (.operation n.name join) := by
        simp [tree?, hfuel, treeAt, hn, hk]
    _ = (ids.mapM g.tree?).map (.operation n.name join) := by
        rw [mapM_congr hchild]

/-! ## The tree below a node -/

theorem tree?_isSome (f : g.Forest) : ∀ id, id < g.size → ∃ t, g.tree? id = some t := by
  refine f.level_induction ?_
  intro id known ih
  rcases exists_node?_iff.2 known with ⟨n, hn⟩
  cases hk : n.kind with
  | shape s =>
      exact ⟨_, tree?_shape hn hk⟩
  | operation join ids =>
      have hids : g.children id = ids := children_of_operation hn hk
      rcases exists_mapM_eq_some fun c hc => ih c (hids ▸ hc) with ⟨ts, hts⟩
      exact ⟨_, by rw [f.tree?_operation hn hk, hts, Option.map_some]⟩

/-- Induction over the trees of a graph: each node with the tree below it. -/
theorem tree?_induction (f : g.Forest) {P : NodeId → Tree → Prop}
    (shape : ∀ id n s, g.node? id = some n → n.kind = .shape s → P id (.shape n.name s))
    (operation : ∀ id n join ids ts, g.node? id = some n → n.kind = .operation join ids →
      ids.mapM g.tree? = some ts → (∀ c ∈ ids, ∀ t, g.tree? c = some t → P c t) →
        P id (.operation n.name join ts)) :
    ∀ id, id < g.size → ∀ t, g.tree? id = some t → P id t := by
  refine f.level_induction ?_
  intro id known ih t ht
  rcases exists_node?_iff.2 known with ⟨n, hn⟩
  cases hk : n.kind with
  | shape s =>
      rw [tree?_shape hn hk] at ht
      cases ht
      exact shape id n s hn hk
  | operation join ids =>
      have hids : g.children id = ids := children_of_operation hn hk
      rw [f.tree?_operation hn hk] at ht
      rcases Option.map_eq_some_iff.1 ht with ⟨ts, hts, rfl⟩
      exact operation id n join ids ts hn hk hts fun c hc => ih c (hids ▸ hc)

/-! ## The listing of a subtree -/

theorem mem_subtree_iff (f : g.Forest) :
    ∀ id, id < g.size → (a ∈ g.subtree id ↔ a = id ∨ g.Above id a) := by
  refine f.level_induction ?_
  intro id known ih
  rw [f.subtree_eq known, List.mem_cons, List.mem_flatMap]
  apply or_congr_right
  rw [Above, Relation.TransGen.head'_iff]
  constructor
  · rintro ⟨c, hc, ha⟩
    refine ⟨c, f.mem_children_iff.1 hc, ?_⟩
    exact Relation.reflTransGen_iff_eq_or_transGen.2 ((ih c hc).1 ha)
  · rintro ⟨c, hc, ha⟩
    have hc' := f.mem_children_iff.2 hc
    exact ⟨c, hc', (ih c hc').2 (Relation.reflTransGen_iff_eq_or_transGen.1 ha)⟩

theorem lt_size_of_mem_subtree (f : g.Forest) (known : id < g.size) (h : a ∈ g.subtree id) :
    a < g.size := by
  rcases (f.mem_subtree_iff id known).1 h with rfl | habove
  · exact known
  · exact Above.lt_size habove

/-- No node is below two children of the same owner. -/
theorem disjoint_subtree_of_owns (f : g.Forest) (ha : g.Owns owner a) (hb : g.Owns owner b)
    (hne : a ≠ b) : List.Disjoint (g.subtree a) (g.subtree b) := by
  intro x hxa hxb
  -- Above `a` means above its owner or being it, and `b` is neither.
  have hnot : ∀ {c d : NodeId}, g.Owns owner c → g.Owns owner d → ¬ g.Above c d := by
    intro c d hc hd h
    rcases h.eq_or_above_of_owns hd with rfl | habove
    · exact f.irrefl_above (.single hc)
    · exact f.not_above_of_owns hc habove
  rcases (f.mem_subtree_iff a ha.lt_size).1 hxa with rfl | hax
  · rcases (f.mem_subtree_iff b hb.lt_size).1 hxb with rfl | hbx
    · exact hne rfl
    · exact hnot hb ha hbx
  · rcases (f.mem_subtree_iff b hb.lt_size).1 hxb with rfl | hbx
    · exact hnot ha hb hax
    · rcases hax.total hbx with rfl | hab | hba
      · exact hne rfl
      · exact hnot ha hb hab
      · exact hnot hb ha hba

theorem nodup_subtree (f : g.Forest) : ∀ id, id < g.size → (g.subtree id).Nodup := by
  refine f.level_induction ?_
  intro id known ih
  rw [f.subtree_eq known, List.nodup_cons, List.nodup_flatMap]
  refine ⟨?_, ih, ?_⟩
  · -- The node is not below its own child.
    intro hmem
    rcases List.mem_flatMap.1 hmem with ⟨c, hc, hid⟩
    have howns := f.mem_children_iff.1 hc
    rcases (f.mem_subtree_iff c howns.lt_size).1 hid with rfl | habove
    · exact f.irrefl_above (.single howns)
    · exact f.not_above_of_owns howns habove
  · apply (f.nodup_children id).pairwise_of_forall_ne
    intro a ha b hb hne
    exact f.disjoint_subtree_of_owns (f.mem_children_iff.1 ha) (f.mem_children_iff.1 hb) hne

end Forest
end Graph

/-! ## Names of a tree -/

namespace Tree

theorem namesList_eq_flatMap (ts : List Tree) : namesList ts = ts.flatMap names := by
  induction ts with
  | nil =>
      rfl
  | cons t ts ih =>
      rw [namesList, ih, List.flatMap_cons]

end Tree

namespace Graph.Forest

variable {g : Graph}

/-- The names in a tree are those of the listing, in its order. -/
theorem names_tree? (f : g.Forest) :
    ∀ id, id < g.size → ∀ t, g.tree? id = some t → t.names = (g.subtree id).map g.nameOf := by
  refine f.tree?_induction ?_ ?_
  · intro id n s hn hk
    have hnil : g.children id = [] := children_of_shape hn hk
    rw [f.subtree_eq (lt_size_of_node? hn), hnil]
    simp [Tree.names, nameOf_of_node? hn]
  · intro id n join ids ts hn hk hts ih
    have hids : g.children id = ids := children_of_operation hn hk
    have hchildren : ts.flatMap Tree.names = ids.flatMap fun c => (g.subtree c).map g.nameOf :=
      flatMap_of_mapM hts ih
    calc (Tree.operation n.name join ts).names
        = n.name :: ids.flatMap fun c => (g.subtree c).map g.nameOf := by
          rw [Tree.names, Tree.namesList_eq_flatMap, hchildren]
      _ = (id :: (g.children id).flatMap g.subtree).map g.nameOf := by
          rw [hids, List.map_cons, nameOf_of_node? hn, List.map_flatMap]
      _ = (g.subtree id).map g.nameOf := by
          rw [f.subtree_eq (lt_size_of_node? hn)]

theorem name_tree? (f : g.Forest) {id : NodeId} (known : id < g.size) {t : Tree}
    (ht : g.tree? id = some t) : t.name = g.nameOf id := by
  have hnames := f.names_tree? id known t ht
  rw [f.subtree_eq known] at hnames
  cases t <;> simp_all [Tree.names, Tree.name]

end Graph.Forest
end SdfShader
