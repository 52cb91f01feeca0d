import SdfShader.Proofs.Scene.ForestRuns
import SdfShader.Proofs.Scene.Walk

/-!
# Traversal — walking up and walking down agree

`descendants` follows the lists of children with a stack, and `ancestors` follows the owners, which
are stored in another place. Neither loop keeps a record of the nodes that it has met, and both are
written with a bound on their steps. Here they are stated without the bound, so that it can be said
that they end. Main statements:

* `Graph.Visits`, `Graph.Climbs`: the two loops, which give a list only if they end;
* `Forest.visits_iff`, `Forest.climbs_iff`: in a forest they end, with `descendants` and `ancestors`;
* `Forest.mem_ancestors_iff_mem_descendants`: what lies above a node in one of them lies above it in
  the other;
* `walks_agree`: all of this after any edits.
-/

namespace SdfShader

namespace Graph

variable {g : Graph} {a b id : NodeId} {order order' stack : List NodeId} {fuel : Nat}

/-! ## Loops without a bound -/

/-- Taking nodes from a stack until it is empty, and putting the children of each in its place,
meets the nodes of the second list in turn. -/
inductive Visits (g : Graph) : List NodeId → List NodeId → Prop
  | done : Visits g [] []
  | visit {id : NodeId} {stack order : List NodeId} (rest : Visits g (g.children id ++ stack) order) :
      Visits g (id :: stack) (id :: order)

/-- Going from a node to its owner until there is none meets the nodes of the list in turn. -/
inductive Climbs (g : Graph) : Option NodeId → List NodeId → Prop
  | done : Climbs g none []
  | climb {id : NodeId} {order : List NodeId} (rest : Climbs g (g.parent? id) order) :
      Climbs g (some id) (id :: order)

theorem Visits.unique (h : g.Visits stack order) (h' : g.Visits stack order') : order = order' := by
  induction h generalizing order' with
  | done =>
      cases h'
      rfl
  | visit _ ih =>
      cases h' with
      | visit rest =>
          rw [ih rest]

theorem Climbs.unique {start : Option NodeId} (h : g.Climbs start order)
    (h' : g.Climbs start order') : order = order' := by
  induction h generalizing order' with
  | done =>
      cases h'
      rfl
  | climb _ ih =>
      cases h' with
      | climb rest =>
          rw [ih rest]

/-- A walk that leaves steps over is the whole loop. -/
theorem visits_walk (h : (g.walk fuel stack).length < fuel) : g.Visits stack (g.walk fuel stack) := by
  induction fuel generalizing stack with
  | zero =>
      exact absurd h (Nat.not_lt_zero _)
  | succ fuel ih =>
      cases stack with
      | nil =>
          exact .done
      | cons id stack =>
          have hrest : (g.walk fuel (g.children id ++ stack)).length < fuel := by
            simpa [walk] using h
          exact .visit (ih hrest)

/-- So is a climb. -/
theorem climbs_climb {start : Option NodeId} (h : (g.climb fuel start).length < fuel) :
    g.Climbs start (g.climb fuel start) := by
  induction fuel generalizing start with
  | zero =>
      exact absurd h (Nat.not_lt_zero _)
  | succ fuel ih =>
      cases start with
      | none =>
          exact .done
      | some id =>
          have hrest : (g.climb fuel (g.parent? id)).length < fuel := by
            simpa [climb] using h
          exact .climb (ih hrest)

/-! ## Order of the walk down -/

/-- Whether a function lists each node and all below it in pre-order: first the node, then what it
lists for the children, one after the other. -/
def IsPreorder (g : Graph) (listing : NodeId → List NodeId) : Prop :=
  ∀ id < g.size, listing id = id :: (g.children id).flatMap listing

namespace Forest

theorem isPreorder_descendants (f : g.Forest) : g.IsPreorder g.descendants := by
  intro id known
  have hchildren : (g.children id).flatMap g.subtree = (g.children id).flatMap g.descendants := by
    refine List.flatMap_congr fun c hc => ?_
    exact (f.descendants_eq_subtree (f.lt_size_of_mem_children hc)).symm
  rw [f.descendants_eq_subtree known, f.subtree_eq known, hchildren]

/-- There is one way only to list a forest in pre-order. -/
theorem eq_descendants_of_isPreorder (f : g.Forest) {listing : NodeId → List NodeId}
    (h : g.IsPreorder listing) : ∀ id, id < g.size → listing id = g.descendants id := by
  refine f.level_induction ?_
  intro id known ih
  rw [h id known, f.isPreorder_descendants id known, List.flatMap_congr ih]

theorem visits_iff (f : g.Forest) (known : a < g.size) :
    g.Visits [a] order ↔ order = g.descendants a := by
  have hone : [a].flatMap g.subtree = g.descendants a := by
    rw [List.flatMap_singleton, f.descendants_eq_subtree known]
  -- One step more than there are nodes, so that a step is left over in any case.
  have hwalk : g.walk (g.size + 1) [a] = g.descendants a := by
    rw [f.walk_eq_flatMap (by simpa using known), hone]
    rw [List.flatMap_singleton]
    exact Nat.le_succ_of_le (f.length_subtree_le known)
  have hends : g.Visits [a] (g.descendants a) := by
    rw [← hwalk]
    apply visits_walk
    rw [hwalk, f.descendants_eq_subtree known]
    exact Nat.lt_succ_of_le (f.length_subtree_le known)
  constructor
  · intro h
    exact h.unique hends
  · rintro rfl
    exact hends

theorem climbs_iff (f : g.Forest) (known : b < g.size) :
    g.Climbs (g.parent? b) order ↔ order = g.ancestors b := by
  have hends : g.Climbs (g.parent? b) (g.ancestors b) := climbs_climb (f.length_ancestors_lt known)
  constructor
  · intro h
    exact h.unique hends
  · rintro rfl
    exact hends

/-! ## Up and down -/

theorem mem_descendants_iff (f : g.Forest) (known : a < g.size) :
    b ∈ g.descendants a ↔ b = a ∨ g.Above a b := by
  rw [f.descendants_eq_subtree known, f.mem_subtree_iff a known]

theorem mem_ancestors_iff_mem_descendants (f : g.Forest) (known : a < g.size) :
    a ∈ g.ancestors b ↔ b ∈ g.descendants a ∧ b ≠ a := by
  rw [f.mem_ancestors_iff, f.mem_descendants_iff known]
  constructor
  · intro habove
    refine ⟨.inr habove, ?_⟩
    rintro rfl
    exact f.irrefl_above habove
  · rintro ⟨rfl | habove, hne⟩
    · exact absurd rfl hne
    · exact habove

theorem isAttached_iff_mem_descendants (f : g.Forest) :
    g.isAttached b = true ↔ b ∈ g.descendants rootId := by
  rw [f.mem_descendants_iff f.root_lt_size, ← f.mem_ancestors_iff]
  simp [isAttached]

/-- A way up ends at a node without owner that it passes. -/
theorem getLast?_ancestors (f : g.Forest) (horphan : g.parent? a = none) (h : a ∈ g.ancestors b) :
    (g.ancestors b).getLast? = some a := by
  rw [f.mem_ancestors_iff] at h
  induction h with
  | single howns =>
      rw [f.ancestors_of_owns howns, ancestors_of_orphan horphan]
      rfl
  | tail _ howns ih =>
      rw [f.ancestors_of_owns howns, List.getLast?_cons, ih, Option.getD_some]

theorem getLast?_ancestors_eq_root_iff (f : g.Forest) :
    (g.ancestors b).getLast? = some rootId ↔ g.isAttached b = true ∧ b ≠ rootId := by
  rw [f.isAttached_iff_mem_descendants, ← f.mem_ancestors_iff_mem_descendants f.root_lt_size]
  constructor
  · intro h
    exact List.mem_of_getLast? h
  · intro h
    exact f.getLast?_ancestors f.root_orphan h

end Forest
end Graph

/-! ## Main result -/

namespace Scene

/-- Whatever edits have made the graph, for any two nodes of it: the walk down from the first ends
and is the only listing in pre-order, without repetition; the walk up from the second ends, without
repetition, and at the root if and only if the node is attached and not the root; the first is met
on the way up from the second if and only if the second is another node that is met on the way down
from the first; and the attached nodes are those that are met on the way down from the root. -/
theorem walks_agree (edits : List Edit) {a b : NodeId}
    (known : a < (Scene.empty.run edits).graph.size)
    (known' : b < (Scene.empty.run edits).graph.size) :
    let g := (Scene.empty.run edits).graph
    (∀ order, g.Visits [a] order ↔ order = g.descendants a) ∧
    g.IsPreorder g.descendants ∧
    (∀ listing, g.IsPreorder listing → listing a = g.descendants a) ∧
    (g.descendants a).Nodup ∧
    (∀ order, g.Climbs (g.parent? b) order ↔ order = g.ancestors b) ∧
    (g.ancestors b).Nodup ∧
    ((g.ancestors b).getLast? = some rootId ↔ g.isAttached b = true ∧ b ≠ rootId) ∧
    (a ∈ g.ancestors b ↔ b ∈ g.descendants a ∧ b ≠ a) ∧
    (g.isAttached b = true ↔ b ∈ g.descendants rootId) := by
  intro g
  have f : g.Forest := (Reachable.empty.run edits).forest
  have hnodup : (g.descendants a).Nodup := by
    rw [f.descendants_eq_subtree known]
    exact f.nodup_subtree a known
  exact ⟨fun _ => f.visits_iff known, f.isPreorder_descendants,
    fun _ h => f.eq_descendants_of_isPreorder h a known, hnodup, fun _ => f.climbs_iff known',
    f.nodup_climb _ _, f.getLast?_ancestors_eq_root_iff,
    f.mem_ancestors_iff_mem_descendants known, f.isAttached_iff_mem_descendants⟩

/-- A union with a ball in it, taken out of the scene. -/
def detachedBall : List Edit :=
  [.addUnion, .addSphere (.splat 0) 1 (.splat 1), .addChildren 1 [2], .removeChild rootId 1]

/-- Both walks know the ball below its union, and neither knows it below the root. -/
theorem walks_agree_detachedBall :
    let g := (Scene.empty.run detachedBall).graph
    g.size = 3 ∧ g.ancestors 2 = [1] ∧ g.descendants 1 = [1, 2] ∧ g.isAttached 2 = false ∧
    g.Visits [1] [1, 2] ∧ g.Climbs (some 1) [1] ∧ 2 ∉ g.descendants rootId := by
  intro g
  have hsize : g.size = 3 := by decide +kernel
  have hup : g.ancestors 2 = [1] := by decide +kernel
  have hdown : g.descendants 1 = [1, 2] := by decide +kernel
  have howner : g.parent? 2 = some 1 := by decide +kernel
  have hattached : g.isAttached 2 = false := by decide +kernel
  rcases walks_agree detachedBall (a := 1) (b := 2) (by decide +kernel) (by decide +kernel) with
    ⟨hvisits, -, -, -, hclimbs, -, -, -, hroot⟩
  refine ⟨hsize, hup, hdown, hattached, (hvisits _).2 hdown.symm, ?_, ?_⟩
  · have hclimb : g.Climbs (g.parent? 2) [1] := (hclimbs _).2 hup.symm
    rwa [howner] at hclimb
  · intro hmem
    have htrue : g.isAttached 2 = true := hroot.2 hmem
    rw [hattached] at htrue
    cases htrue

end Scene
end SdfShader
