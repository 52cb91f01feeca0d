import SdfShader.Proofs.Scene.Subtree

/-!
# Walk — ways down end, and the walk with a stack lists the subtree

Going down from a node to a child, to a child of that and so on meets known nodes only and ends
after fewer steps than there are nodes (`Forest.length_way_down_le`).

`descendants` takes one node after the other from a stack and puts its children there in its place.
In a forest this lists the subtree of the node, owners before their children and children in their
order. Each node of the subtree takes one step, and a subtree has no more nodes than the graph
(`Forest.length_subtree_le`), so the steps suffice.
-/

namespace SdfShader
namespace Graph

variable {g : Graph} {id : NodeId}

namespace Forest

/-! ## Ways down -/

theorem wellFounded_children (f : g.Forest) :
    WellFounded fun child owner => child ∈ g.children owner := by
  -- A child has fewer levels below it than its owner.
  refine Subrelation.wf ?_ (measure fun id => g.size - g.level id).wf
  intro child owner hchild
  have howns := f.mem_children_iff.1 hchild
  have hlevel := f.level_of_owns howns
  have hlt := f.level_lt howns.lt_size
  show g.size - g.level child < g.size - g.level owner
  omega

/-- Every step of a way down leads one level further, and there are fewer levels than nodes. -/
theorem length_way_down_le (f : g.Forest) (known : id < g.size) {path : List NodeId}
    (h : List.IsChain (fun owner child => child ∈ g.children owner) (id :: path)) :
    (∀ a ∈ id :: path, a < g.size) ∧ (id :: path).length ≤ g.size := by
  have hlevel : (∀ a ∈ id :: path, a < g.size) ∧ g.level id + path.length < g.size := by
    induction path generalizing id with
    | nil =>
        exact ⟨by simpa using known, f.level_lt known⟩
    | cons child path ih =>
        rcases List.isChain_cons_cons.1 h with ⟨hchild, hrest⟩
        have howns := f.mem_children_iff.1 hchild
        rcases ih howns.lt_size hrest with ⟨hknown, hlength⟩
        rw [f.level_of_owns howns] at hlength
        refine ⟨?_, by rw [List.length_cons]; omega⟩
        intro a ha
        rcases List.mem_cons.1 ha with rfl | ha
        · exact known
        · exact hknown a ha
  refine ⟨hlevel.1, ?_⟩
  rw [List.length_cons]
  omega

/-! ## The walk -/

theorem length_subtree_le (f : g.Forest) (known : id < g.size) :
    (g.subtree id).length ≤ g.size :=
  length_le_size (f.nodup_subtree id known) fun _ ha => f.lt_size_of_mem_subtree known ha

/-- The walk lists the subtrees of the stack, from the top down. -/
theorem walk_eq_flatMap (f : g.Forest) {fuel : Nat} {stack : List NodeId}
    (known : ∀ id ∈ stack, id < g.size) (hfuel : (stack.flatMap g.subtree).length ≤ fuel) :
    g.walk fuel stack = stack.flatMap g.subtree := by
  induction fuel generalizing stack with
  | zero =>
      exact (List.eq_nil_of_length_eq_zero (Nat.le_zero.1 hfuel)).symm
  | succ fuel ih =>
      cases stack with
      | nil =>
          rfl
      | cons id stack =>
          have hid : id < g.size := known id List.mem_cons_self
          -- The children stand on the stack in the place of their owner.
          have hopened : (id :: stack).flatMap g.subtree
              = id :: (g.children id ++ stack).flatMap g.subtree := by
            rw [List.flatMap_cons, f.subtree_eq hid, List.flatMap_append, List.cons_append]
          have hknown : ∀ a ∈ g.children id ++ stack, a < g.size := by
            intro a ha
            rcases List.mem_append.1 ha with ha | ha
            · exact f.lt_size_of_mem_children ha
            · exact known a (List.mem_cons_of_mem id ha)
          rw [hopened, List.length_cons] at hfuel
          rw [hopened, walk, ih hknown (Nat.le_of_succ_le_succ hfuel)]

theorem descendants_eq_subtree (f : g.Forest) (known : id < g.size) :
    g.descendants id = g.subtree id := by
  have hone : [id].flatMap g.subtree = g.subtree id := by
    simp
  rw [descendants, f.walk_eq_flatMap (by simpa using known), hone]
  rw [hone]
  exact f.length_subtree_le known

end Forest
end Graph
end SdfShader
