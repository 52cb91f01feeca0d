import SdfShader.Proofs.Scene.Moves
import SdfShader.Proofs.Scene.Traversal
import SdfShader.Scene.Fragment

/-!
# Locality — an edit changes the text of the trees that it reaches

All nodes are kept in one array, and every edit writes to it. The text of a node depends on less: on
name, kind and list of children of the node and of all below it, and not on owners. So it stays as
it is under an edit that writes to other nodes only. Main statements:

* `Graph.SameAt`: a node that two graphs store alike, whatever owner it has;
* `Forest.tree?_eq_of_sameAt`: the tree below a node depends on the nodes below it;
* `Scene.Edit.Touches`: the trees that an edit reaches;
* `fragment_step_of_not_touches`: the text of every other tree is the same before and after.
-/

namespace SdfShader

/-- A kind is its form and its children. -/
theorem NodeKind.eq_of_bare_eq {k l : NodeKind} (hbare : k.bare = l.bare)
    (hchildren : k.children = l.children) : k = l := by
  cases k with
  | shape s =>
      cases l with
      | shape t =>
          exact hbare
      | operation join ids =>
          cases hbare
  | operation join ids =>
      cases l with
      | shape t =>
          cases hbare
      | operation join' ids' =>
          have hjoin : join = join' := by
            simpa [bare, mapChildren] using hbare
          rw [hjoin, show ids = ids' from hchildren]

namespace Graph

variable {g g' : Graph} {a id top parent child owner : NodeId} {ids : List NodeId}

/-! ## Trees that two graphs share -/

/-- Whether a node has the same name, kind and children in two graphs. -/
structure SameAt (g g' : Graph) (a : NodeId) : Prop where
  content : g'.content? a = g.content? a
  children : g'.children a = g.children a

theorem SameAt.refl (g : Graph) (a : NodeId) : g.SameAt g a :=
  ⟨rfl, rfl⟩

theorem sameAt_of_node?_eq (h : g'.node? a = g.node? a) : g.SameAt g' a :=
  ⟨by rw [content?, h, content?], by rw [Graph.children, h, Graph.children]⟩

theorem SameAt.exists_node? (h : g.SameAt g' a) {n : Node} (hn : g.node? a = some n) :
    ∃ m, g'.node? a = some m ∧ m.name = n.name ∧ m.kind = n.kind := by
  have hcontent : g'.content? a = some (n.name, n.kind.bare) := by
    rw [h.content, content?, hn, Option.map_some]
  rcases Option.map_eq_some_iff.1 hcontent with ⟨m, hm, hsame⟩
  rcases Prod.mk.inj hsame with ⟨hname, hbare⟩
  refine ⟨m, hm, hname, NodeKind.eq_of_bare_eq hbare ?_⟩
  have hchildren := h.children
  rwa [children_of_node? hm, children_of_node? hn] at hchildren

namespace Forest

/-- The tree below a node depends on the nodes below it. -/
theorem tree?_eq_of_sameAt (f : g.Forest) (f' : g'.Forest) :
    ∀ top, top < g.size → (∀ a ∈ g.descendants top, g.SameAt g' a) →
      g'.tree? top = g.tree? top := by
  -- By induction over the forest before the edit; it is the one whose listing is given.
  refine f.level_induction ?_
  intro top known ih hsame
  rw [f.isPreorder_descendants top known] at hsame
  rcases exists_node?_iff.2 known with ⟨n, hn⟩
  rcases (hsame top List.mem_cons_self).exists_node? hn with ⟨m, hm, hname, hkind⟩
  cases hk : n.kind with
  | shape s =>
      rw [tree?_shape hn hk, tree?_shape hm (hkind.trans hk), hname]
  | operation join ids =>
      have hids : g.children top = ids := children_of_operation hn hk
      -- What is below a child is below the node.
      have hchild : ∀ c ∈ ids, g'.tree? c = g.tree? c := by
        intro c hc
        rw [← hids] at hc
        refine ih c hc fun a ha => hsame a ?_
        exact List.mem_cons_of_mem _ (List.mem_flatMap.2 ⟨c, hc, ha⟩)
      rw [f.tree?_operation hn hk, f'.tree?_operation hm (hkind.trans hk), mapM_congr hchild, hname]

theorem fragment_eq_of_sameAt (f : g.Forest) (f' : g'.Forest) (known : top < g.size)
    (h : ∀ a ∈ g.descendants top, g.SameAt g' a) : g'.fragment top = g.fragment top := by
  rw [fragment, fragment, f.tree?_eq_of_sameAt f' top known h]

/-- The root is below no other node. -/
theorem root_mem_descendants_iff (f : g.Forest) (known : top < g.size) :
    rootId ∈ g.descendants top ↔ top = rootId := by
  rw [f.mem_descendants_iff known]
  constructor
  · rintro (heq | habove)
    · exact heq.symm
    · rcases Relation.TransGen.tail'_iff.1 habove with ⟨owner, _, howns⟩
      cases f.root_orphan.symm.trans howns
  · rintro rfl
    exact .inl rfl

end Forest

/-! ## What the elementary changes write to -/

theorem SameAt.bump (h : g.SameAt g' a) : g.SameAt g'.bump a :=
  ⟨h.content, h.children⟩

/-- A new node is listed by its owner, and all other nodes stay as they are. -/
theorem sameAt_insert (op : g.IsOperation parent) (known : a < g.size) (hne : a ≠ parent)
    (name : String) (kind : NodeKind) : g.SameAt (g.insert parent name kind) a := by
  have hpush : g.SameAt (g.push ⟨name, kind, none⟩) a :=
    sameAt_of_node?_eq (node?_push_of_lt _ known)
  have hop : (g.push ⟨name, kind, none⟩).IsOperation parent := by
    rcases op with ⟨n, hn, hop⟩
    exact ⟨n, by rw [node?_push_of_lt _ (lt_size_of_node? hn), hn], hop⟩
  rw [insert_eq]
  refine SameAt.bump ⟨?_, ?_⟩
  · rw [content?_link, hpush.content]
  · rw [children_link hop, if_neg hne, hpush.children]

theorem sameAt_unlink (h : g.parent? child ≠ some a) : g.SameAt (g.unlink child) a :=
  ⟨content?_unlink, by rw [children_unlink, if_neg h]⟩

/-- Moves write to the lists of the target and of the owners that the nodes had. -/
theorem Forest.sameAt_foldl_attach (f : g.Forest) (op : g.IsOperation parent)
    (hmov : ∀ c ∈ ids, g.Movable parent c) (hne : a ≠ parent)
    (howners : ∀ c ∈ g.arrivals parent ids, ¬ g.Owns a c) :
    g.SameAt (ids.foldl (·.attach parent ·) g) a := by
  refine ⟨content?_foldl_attach ids, ?_⟩
  rw [(f.links_foldl_attach op hmov).2.1 a hne, List.filter_eq_self]
  intro c hc
  simpa using fun hmoved => howners c hmoved (f.mem_children_iff.1 hc)

theorem sameAt_of_editKind {role : Role} {h : NodeKind → Option NodeKind}
    {check : Except ParameterError Unit}
    (hok : (do guardParameter check; g.editKind id role h) = .ok g') (hne : a ≠ id) :
    g.SameAt g' a := by
  rcases editKind_eq_ok_iff.1 (guardParameter_bind_eq_ok_iff.1 hok).2 with ⟨_, _, _, _, rfl⟩
  exact SameAt.bump (sameAt_of_node?_eq (node?_modify_of_ne _ hne.symm))

end Graph

/-! ## The trees that an edit reaches -/

namespace Scene

/-- Whether an edit creates a node. -/
def Edit.Creates : Edit → Prop
  | .addSphere .. => True
  | .addBox .. => True
  | .addUnion => True
  | .addSmoothUnion _ => True
  | _ => False

/-- The node whose parameters an edit sets. -/
def Edit.tuned? : Edit → Option NodeId
  | .setPosition id _ => some id
  | .setColor id _ => some id
  | .setRadius id _ => some id
  | .setHalfExtents id _ => some id
  | .setSmoothness id _ => some id
  | _ => none

/-- Whether an edit reaches the tree below `top`: a new node comes under the root, parameters belong
to their node, and a move concerns the target and the owners that the nodes had before. -/
inductive Edit.Touches (g : Graph) : Edit → (top : NodeId) → Prop
  | creation {e : Edit} (creates : e.Creates) : Touches g e rootId
  | parameter {e : Edit} {id top : NodeId} (tuned : e.tuned? = some id)
      (below : id ∈ g.descendants top) : Touches g e top
  | detach {parent child top : NodeId} (below : parent ∈ g.descendants top) :
      Touches g (.removeChild parent child) top
  | arrive {parent top : NodeId} {ids : List NodeId} (below : parent ∈ g.descendants top) :
      Touches g (.addChildren parent ids) top
  | depart {parent owner child top : NodeId} {ids : List NodeId}
      (moved : child ∈ g.arrivals parent ids) (owned : g.parent? child = some owner)
      (below : owner ∈ g.descendants top) : Touches g (.addChildren parent ids) top

variable {s : Scene} {e : Edit} {top : NodeId}

/-- The graph after an edit of the graph alone. -/
theorem graph_of_withGraph {result : Except SceneError Graph} {r : Scene × Option NodeId}
    (h : s.withGraph result = .ok r) : result = .ok r.1.graph := by
  rcases withGraph_eq_ok_iff.1 h with ⟨g, hg, rfl⟩
  exact hg

/-- An edit that creates a node puts it under the root. -/
theorem Edit.Creates.exists_insert (hcreates : e.Creates) {r : Scene × Option NodeId}
    (hr : s.apply e = .ok r) : ∃ name kind, r.1.graph = s.graph.insert rootId name kind := by
  cases e with
  | addSphere position radius color =>
      rcases creation_eq_ok_iff.1 hr with ⟨t, ht, rfl⟩
      rcases addSphere_eq_ok_iff.1 ht with ⟨-, rfl⟩
      exact ⟨_, _, rfl⟩
  | addBox position halfExtents color =>
      rcases creation_eq_ok_iff.1 hr with ⟨t, ht, rfl⟩
      rcases addBox_eq_ok_iff.1 ht with ⟨-, rfl⟩
      exact ⟨_, _, rfl⟩
  | addUnion =>
      cases hr
      exact ⟨_, _, rfl⟩
  | addSmoothUnion smoothness =>
      rcases creation_eq_ok_iff.1 hr with ⟨t, ht, rfl⟩
      rcases addSmoothUnion_eq_ok_iff.1 ht with ⟨-, rfl⟩
      exact ⟨_, _, rfl⟩
  | _ =>
      exact hcreates.elim

/-- An edit writes to no node of a tree that it does not reach. -/
theorem sameAt_of_not_touches (f : s.graph.Forest) (known : top < s.graph.size)
    {r : Scene × Option NodeId} (hr : s.apply e = .ok r) (hnot : ¬ e.Touches s.graph top)
    {a : NodeId} (ha : a ∈ s.graph.descendants top) : s.graph.SameAt r.1.graph a := by
  have hknown : a < s.graph.size := by
    rw [f.descendants_eq_subtree known] at ha
    exact f.lt_size_of_mem_subtree known ha
  have hroot : s.graph.IsOperation rootId := by
    rcases f.root_content with ⟨name, h⟩
    exact Graph.isOperation_iff_content?.2 ⟨_, h, rfl⟩
  -- A tree with the root in it is that of the root.
  have hcreated : e.Creates → s.graph.SameAt r.1.graph a := by
    intro hcreates
    rcases hcreates.exists_insert hr with ⟨name, kind, hgraph⟩
    rw [hgraph]
    refine Graph.sameAt_insert hroot hknown ?_ name kind
    rintro rfl
    rw [(f.root_mem_descendants_iff known).1 ha] at hnot
    exact hnot (.creation hcreates)
  have htuned : ∀ id, e.tuned? = some id → a ≠ id := by
    rintro id hid rfl
    exact hnot (.parameter hid ha)
  cases e with
  | addSphere position radius color =>
      exact hcreated trivial
  | addBox position halfExtents color =>
      exact hcreated trivial
  | addUnion =>
      exact hcreated trivial
  | addSmoothUnion smoothness =>
      exact hcreated trivial
  | addChildren parent ids =>
      rcases Graph.addChildren_eq_ok_iff.1 (graph_of_withGraph hr) with ⟨op, hmov, hgraph⟩
      rw [hgraph]
      split
      · exact .refl _ _
      · refine (f.sameAt_foldl_attach op hmov ?_ ?_).bump
        · rintro rfl
          exact hnot (.arrive ha)
        · intro c hc howns
          exact hnot (.depart hc howns ha)
  | removeChild parent child =>
      rcases Graph.removeChild_eq_ok_iff.1 (graph_of_withGraph hr) with ⟨-, -, hgraph⟩
      rw [hgraph]
      split
      case isFalse =>
          exact .refl _ _
      case isTrue howned =>
          refine (Graph.sameAt_unlink ?_).bump
          rw [howned]
          rintro ⟨⟩
          exact hnot (.detach ha)
  | setPosition id value =>
      exact Graph.sameAt_of_editKind (graph_of_withGraph hr) (htuned id rfl)
  | setColor id value =>
      exact Graph.sameAt_of_editKind (graph_of_withGraph hr) (htuned id rfl)
  | setRadius id value =>
      exact Graph.sameAt_of_editKind (graph_of_withGraph hr) (htuned id rfl)
  | setHalfExtents id value =>
      exact Graph.sameAt_of_editKind (graph_of_withGraph hr) (htuned id rfl)
  | setSmoothness id value =>
      exact Graph.sameAt_of_editKind (graph_of_withGraph hr) (htuned id rfl)

theorem Reachable.fragment_step (h : s.Reachable) (known : top < s.graph.size)
    (hnot : ¬ e.Touches s.graph top) :
    (s.step e).graph.fragment top = s.graph.fragment top := by
  have f' : (s.step e).graph.Forest := (h.step e).forest
  cases hr : s.apply e with
  | error cause =>
      -- An edit that is refused leaves the whole scene.
      rw [step_of_apply_eq_error hr]
  | ok r =>
      rw [step_of_apply_eq_ok hr] at f' ⊢
      exact h.forest.fragment_eq_of_sameAt f' known fun a ha =>
        sameAt_of_not_touches h.forest known hr hnot ha

/-! ## Trees that move as a whole -/

/-- What is taken out of an operation is not above the operation. -/
theorem Reachable.not_touches_removeChild (h : s.Reachable) {parent child : NodeId}
    (hcounts : s.Counts (.removeChild parent child)) :
    child < s.graph.size ∧ ¬ Edit.Touches s.graph (.removeChild parent child) child := by
  have f := h.forest
  have howned : s.graph.Owns parent child := not_not.1 hcounts.2
  have known : child < s.graph.size := howned.lt_size
  refine ⟨known, ?_⟩
  rintro (⟨⟨⟩⟩ | ⟨⟨⟩⟩ | ⟨below⟩)
  rcases (f.mem_descendants_iff known).1 below with rfl | habove
  · exact f.irrefl_above (.single howned)
  · exact f.not_above_of_owns howned habove

/-- Neither the target of a move nor the old owner is below the node that moves. -/
theorem Reachable.not_touches_addChildren (h : s.Reachable) {parent child : NodeId}
    (hcounts : s.Counts (.addChildren parent [child])) :
    child < s.graph.size ∧ ¬ Edit.Touches s.graph (.addChildren parent [child]) child := by
  have f := h.forest
  rcases hcounts.1 with ⟨r, hr⟩
  rcases Graph.addChildren_eq_ok_iff.1 (graph_of_withGraph hr) with ⟨-, hmov, -⟩
  rcases f.movable_iff.1 (hmov child List.mem_cons_self) with ⟨known, hne, hnot, -⟩
  refine ⟨known, ?_⟩
  rintro (⟨⟨⟩⟩ | ⟨⟨⟩⟩ | _ | ⟨below⟩ | ⟨moved, owned, below⟩)
  · rcases (f.mem_descendants_iff known).1 below with heq | habove
    · exact hne heq.symm
    · exact hnot habove
  · obtain rfl : _ = child := List.mem_singleton.1 (Graph.mem_arrivals_iff.1 moved).1
    rcases (f.mem_descendants_iff known).1 below with rfl | habove
    · exact f.irrefl_above (.single owned)
    · exact f.not_above_of_owns owned habove

/-! ## Main result -/

/-- Whatever edits have made the scene, a further edit leaves the text of every known node as it is,
byte for byte, unless it reaches the tree below the node. So parameters of a node that is not
attached never change the text of the root, and taking a node out of an operation or moving it under
another one never changes the text of the node itself. -/
theorem fragment_step_of_not_touches (edits : List Edit) (e : Edit) {top : NodeId}
    (known : top < (Scene.empty.run edits).graph.size) :
    let s := Scene.empty.run edits
    (¬ e.Touches s.graph top → (s.step e).graph.fragment top = s.graph.fragment top) ∧
    (∀ id, e.tuned? = some id → s.graph.isAttached id = false →
      (s.step e).graph.fragment rootId = s.graph.fragment rootId) ∧
    (∀ parent id, (s.step (.removeChild parent id)).graph.fragment id = s.graph.fragment id) ∧
    ∀ parent id, (s.step (.addChildren parent [id])).graph.fragment id = s.graph.fragment id := by
  intro s
  have h : s.Reachable := Reachable.empty.run edits
  refine ⟨h.fragment_step known, ?_, ?_, ?_⟩
  · intro id htuned hdetached
    refine h.fragment_step h.forest.root_lt_size ?_
    rintro (hcreates | ⟨htuned', below⟩ | _ | _ | _)
    · -- No edit both creates a node and sets parameters.
      cases e <;> first | exact hcreates.elim | cases htuned
    · obtain rfl : id = _ := Option.some.inj (htuned.symm.trans htuned')
      rw [h.forest.isAttached_iff_mem_descendants.2 below] at hdetached
      cases hdetached
    all_goals cases htuned
  · intro parent id
    by_cases hcounts : s.Counts (.removeChild parent id)
    · rcases h.not_touches_removeChild hcounts with ⟨hid, hnot⟩
      exact h.fragment_step hid hnot
    · rw [step_of_not_counts hcounts]
  · intro parent id
    by_cases hcounts : s.Counts (.addChildren parent [id])
    · rcases h.not_touches_addChildren hcounts with ⟨hid, hnot⟩
      exact h.fragment_step hid hnot
    · rw [step_of_not_counts hcounts]

/-- Two unions under the root, a ball in the first of them, and a ball that is not attached. -/
def twoUnions : List Edit :=
  [.addUnion, .addUnion, .addSphere (.splat 0) 1 (.splat 1), .addChildren 1 [3],
   .addSphere (.splat 1) 1 (.splat 1), .removeChild rootId 4]

/-- The ball moves from one union to the other: its own text stays, that of the root does not. The
other ball grows, and the text of the root stays. -/
theorem fragment_step_of_not_touches_twoUnions :
    let s := Scene.empty.run twoUnions
    let move : Edit := .addChildren 2 [3]
    let grow : Edit := .setRadius 4 2
    3 < s.graph.size ∧ ¬ move.Touches s.graph 3 ∧
    (s.step move).graph.fragment 3 = s.graph.fragment 3 ∧
    (s.step move).graph.fragment rootId ≠ s.graph.fragment rootId ∧
    grow.tuned? = some 4 ∧ s.graph.isAttached 4 = false ∧
    (s.step grow).graph.fragment rootId = s.graph.fragment rootId ∧
    (s.step grow).graph.fragment 4 ≠ s.graph.fragment 4 := by
  intro s move grow
  have known : 3 < s.graph.size := by decide +kernel
  have hdetached : s.graph.isAttached 4 = false := by decide +kernel
  have hmoved : ¬ Edit.Touches s.graph (.addChildren 2 [3]) 3 := by
    rintro (⟨⟨⟩⟩ | ⟨⟨⟩⟩ | _ | ⟨below⟩ | ⟨moved, owned, below⟩)
    · exact absurd below (by decide +kernel)
    · obtain rfl : _ = 3 := List.mem_singleton.1 (Graph.mem_arrivals_iff.1 moved).1
      have howner : s.graph.parent? 3 = some 1 := by decide +kernel
      obtain rfl : 1 = _ := Option.some.inj (howner.symm.trans owned)
      exact absurd below (by decide +kernel)
  exact ⟨known, hmoved, (fragment_step_of_not_touches twoUnions move known).1 hmoved,
    by decide +kernel, rfl, hdetached,
    (fragment_step_of_not_touches twoUnions grow known).2.1 4 rfl hdetached, by decide +kernel⟩

end Scene
end SdfShader
