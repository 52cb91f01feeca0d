import SdfShader.Proofs.Scene.Moves

/-!
# Reordering — children that are removed and added again

A child that is taken out of an operation and put back under it comes to stand behind the others, and
nothing else changes. Done with one child after the other, this gives every order that there is. Main
statements:

* `Graph.Reordered`: graphs that differ in the order of the children of one node;
* `Reachable.reordered_readd`: one child moves to the end;
* `Reachable.reordered_reorder`: any order can be made.
-/

namespace SdfShader

namespace Graph

variable {g g' g'' : Graph} {owner child id : NodeId}

/-- Whether two graphs differ in the order of the children of one node at most. -/
structure Reordered (g g' : Graph) (owner : NodeId) : Prop where
  size : g'.size = g.size
  content : ∀ id, g'.content? id = g.content? id
  children : ∀ id, id ≠ owner → g'.children id = g.children id
  perm : (g'.children owner).Perm (g.children owner)

namespace Reordered

theorem refl (g : Graph) (owner : NodeId) : g.Reordered g owner :=
  ⟨rfl, fun _ => rfl, fun _ _ => rfl, .refl _⟩

theorem trans (h : g.Reordered g' owner) (h' : g'.Reordered g'' owner) : g.Reordered g'' owner where
  size := h'.size.trans h.size
  content id := (h'.content id).trans (h.content id)
  children id hne := (h'.children id hne).trans (h.children id hne)
  perm := h'.perm.trans h.perm

end Reordered

/-! ## One child -/

namespace Forest

/-- A node that has been taken out may be put back. -/
theorem movable_unlink (f : g.Forest) (howns : g.Owns owner child) :
    (g.unlink child).bump.Movable owner child := by
  -- Nothing is above a node that was not above it before.
  have hfewer : ∀ a b, (g.unlink child).bump.Owns a b → g.Owns a b := by
    intro a b h
    rw [Owns, parent?_bump, parent?_unlink] at h
    split at h
    · cases h
    · exact h
  refine ⟨by simpa using howns.lt_size, ?_, ?_, ?_⟩
  · rintro rfl
    exact f.irrefl_above (.single howns)
  · rw [(f.unlink child).bump.mem_ancestors_iff]
    intro habove
    exact f.not_above_of_owns howns (Relation.TransGen.mono hfewer _ _ habove)
  · rintro rfl
    cases f.root_orphan.symm.trans howns

/-- Put back, it stands behind its siblings, and no other list has changed. -/
theorem children_attach_unlink (f : g.Forest) (howns : g.Owns owner child) :
    let after := (g.unlink child).bump.attach owner child
    after.children owner = (g.children owner).filter (· ≠ child) ++ [child] ∧
      ∀ id, id ≠ owner → after.children id = g.children id := by
  intro after
  have hparent : g.parent? child = some owner := howns
  have f' : (g.unlink child).bump.Forest := (f.unlink child).bump
  have op : (g.unlink child).bump.IsOperation owner :=
    (isOperation_congr (by simp)).2 (f.operation_of_owns howns)
  -- In between no list has the child.
  have hout : ∀ id, child ∉ (g.unlink child).bump.children id := by
    intro id hmem
    have howns' := f'.mem_children_iff.1 hmem
    rw [Owns, parent?_bump, parent?_unlink, if_pos rfl] at howns'
    cases howns'
  constructor
  · rw [f'.children_attach_self op, if_neg (hout owner), children_bump, children_unlink,
      if_pos hparent]
  · intro id hne
    rw [f'.children_attach_of_ne op hne, List.filter_eq_self.2, children_bump, children_unlink,
      if_neg]
    · intro hother
      exact hne (Owns.unique hother howns)
    · intro c hc
      simpa using ne_of_mem_of_not_mem hc (hout id)

end Forest
end Graph

namespace Scene

variable {s : Scene} {owner child : NodeId}

/-- Takes a child out and puts it back. -/
def readd (owner child : NodeId) : List Edit :=
  [.removeChild owner child, .addChildren owner [child]]

/-- A child that is removed and added again moves to the end, and that is all. -/
theorem Reachable.reordered_readd (h : s.Reachable) (hchild : child ∈ s.graph.children owner) :
    let after := (s.run (readd owner child)).graph
    s.graph.Reordered after owner ∧
      after.children owner = (s.graph.children owner).filter (· ≠ child) ++ [child] := by
  intro after
  have f := h.forest
  have howns : s.graph.Owns owner child := f.mem_children_iff.1 hchild
  have op : (s.graph.unlink child).bump.IsOperation owner :=
    (Graph.isOperation_congr (by simp)).2 (f.operation_of_owns howns)
  have hremove : s.graph.removeChild owner child = .ok (s.graph.unlink child).bump :=
    Graph.removeChild_eq_ok_iff.2
      ⟨(f.operation_of_owns howns).lt_size, howns.lt_size, (if_pos howns).symm⟩
  have hadd : (s.graph.unlink child).bump.addChildren owner [child]
      = .ok ((s.graph.unlink child).bump.attach owner child).bump := by
    rw [Graph.addChildren_of_movable op (by simpa using f.movable_unlink howns), if_neg]
    · rfl
    · simp [Graph.parent?_unlink]
  have hafter : after = ((s.graph.unlink child).bump.attach owner child).bump := by
    simp [after, readd, Scene.run, Scene.step, apply, withGraph, hremove, hadd, Except.map]
  rcases f.children_attach_unlink howns with ⟨hself, hothers⟩
  rw [hafter]
  refine ⟨⟨by simp, by simp, hothers, ?_⟩, hself⟩
  have hfilter : (s.graph.children owner).filter (· ≠ child)
      = (s.graph.children owner).erase child := by
    rw [(f.nodup_children owner).erase_eq_filter]
    refine List.filter_congr fun c _ => ?_
    rw [Bool.eq_iff_iff, decide_eq_true_iff, bne_iff_ne]
  rw [Graph.children_bump, hself, hfilter]
  exact List.perm_append_comm.trans (List.perm_cons_erase hchild).symm

/-! ## Any order -/

/-- Takes children out and puts them back, one after the other. -/
def reorder (owner : NodeId) (ids : List NodeId) : List Edit :=
  ids.flatMap (readd owner)

/-- The children that are listed come to stand behind the others, in the order of the list. -/
theorem Reachable.reordered_reorder (h : s.Reachable) {ids : List NodeId} (hnodup : ids.Nodup)
    (hids : ∀ c ∈ ids, c ∈ s.graph.children owner) :
    let after := (s.run (reorder owner ids)).graph
    s.graph.Reordered after owner ∧
      after.children owner = (s.graph.children owner).filter (· ∉ ids) ++ ids := by
  induction ids generalizing s with
  | nil =>
      exact ⟨.refl _ _, by simp [reorder, Scene.run]⟩
  | cons c ids ih =>
      rcases List.nodup_cons.1 hnodup with ⟨hc, hnodup⟩
      rcases h.reordered_readd (hids c List.mem_cons_self) with ⟨hmoved, hend⟩
      have hrest : ∀ c' ∈ ids, c' ∈ (s.run (readd owner c)).graph.children owner := fun c' hc' =>
        hmoved.perm.mem_iff.2 (hids c' (List.mem_cons_of_mem c hc'))
      rcases ih (h.run (readd owner c)) hnodup hrest with ⟨hreordered, hchildren⟩
      have hrun : s.run (reorder owner (c :: ids))
          = (s.run (readd owner c)).run (reorder owner ids) := run_append _ _ _
      rw [hrun]
      refine ⟨hmoved.trans hreordered, ?_⟩
      -- The child moved first stands behind those that stay and before those moved after it.
      rw [hchildren, hend, List.filter_append, List.filter_filter,
        List.filter_cons_of_pos (by simpa using hc), List.filter_nil, List.append_assoc,
        List.singleton_append]
      congr 1
      refine List.filter_congr fun d _ => ?_
      by_cases hd : d = c <;> simp [hd]

/-- Every order of the children can be made. -/
theorem Reachable.children_reorder (h : s.Reachable) {ids : List NodeId}
    (hids : ids.Perm (s.graph.children owner)) :
    let after := (s.run (reorder owner ids)).graph
    s.graph.Reordered after owner ∧ after.children owner = ids := by
  have hnodup : ids.Nodup := hids.nodup_iff.2 (h.forest.nodup_children owner)
  rcases h.reordered_reorder hnodup fun c hc => hids.mem_iff.1 hc with ⟨hreordered, hchildren⟩
  refine ⟨hreordered, hchildren.trans ?_⟩
  rw [List.filter_eq_nil_iff.2, List.nil_append]
  intro c hc
  simpa using hids.mem_iff.2 hc

end Scene
end SdfShader
