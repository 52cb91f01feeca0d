import Mathlib.Data.List.Perm.Subperm
import Mathlib.Order.WellFounded
import SdfShader.Proofs.Scene.Links

/-!
# Forest — graphs whose links agree and have no cycle

A link is stored twice, in the list of the owner and in the child. `Graph.Forest` says that the two
places agree, that only operations own nodes, that the root is a union without owner, and that no
node is its own ancestor. The last point is stated as well-foundedness of ownership, which is what
inductions along the way to the top need.

From it we derive:

* `ancestors` never runs out of steps (`Forest.ancestors_of_owns`), so it lists exactly the nodes
  above (`Forest.mem_ancestors_iff`);
* a way up is shorter than the number of nodes (`Forest.length_ancestors_lt`) and ends at a node
  without owner (`Forest.exists_ascend`).
-/

namespace SdfShader

namespace Graph

variable {g : Graph} {a b id owner child : NodeId}

/-! ## Ownership -/

/-- `owner` is the owner that `child` names. -/
def Owns (g : Graph) (owner child : NodeId) : Prop :=
  g.parent? child = some owner

/-- The way up from the owner of `b` passes `a`. -/
def Above (g : Graph) : NodeId → NodeId → Prop :=
  Relation.TransGen g.Owns

/-- The links of a graph agree and have no cycle. -/
structure Forest (g : Graph) : Prop where
  operation_of_owns : ∀ {owner child}, g.Owns owner child → g.IsOperation owner
  mem_children_iff : ∀ {owner child}, child ∈ g.children owner ↔ g.Owns owner child
  nodup_children : ∀ id, (g.children id).Nodup
  root_content : ∃ name, g.content? rootId = some (name, .operation .sharp [])
  root_orphan : g.parent? rootId = none
  wellFounded : WellFounded g.Owns

theorem Owns.lt_size (h : g.Owns owner child) : child < g.size :=
  lt_size_of_parent? h

theorem Owns.unique {owner' : NodeId} (h : g.Owns owner child) (h' : g.Owns owner' child) :
    owner = owner' :=
  Option.some.inj (h.symm.trans h')

theorem Above.lt_size (h : g.Above a id) : id < g.size := by
  cases h with
  | single howns =>
      exact howns.lt_size
  | tail _ howns =>
      exact howns.lt_size

/-- What is above a node is above its owner or is the owner. -/
theorem Above.eq_or_above_of_owns (h : g.Above a child) (howns : g.Owns owner child) :
    a = owner ∨ g.Above a owner := by
  rcases Relation.TransGen.tail'_iff.1 h with ⟨mid, hmid, hlast⟩
  rcases hlast.unique howns with rfl
  exact (Relation.reflTransGen_iff_eq_or_transGen.1 hmid).imp Eq.symm id

/-- Two nodes above the same one are above each other or equal. -/
theorem Above.total (ha : g.Above a id) (hb : g.Above b id) :
    a = b ∨ g.Above a b ∨ g.Above b a := by
  induction ha using Relation.TransGen.head_induction_on with
  | single howns =>
      rcases hb.eq_or_above_of_owns howns with rfl | h
      · exact .inl rfl
      · exact .inr (.inr h)
  | head howns _ ih =>
      -- The next node on the way is `b`, or above `b`, or below it; then `a` may still be `b`.
      rcases ih with rfl | h | h
      · exact .inr (.inl (.single howns))
      · exact .inr (.inl (.head howns h))
      · rcases h.eq_or_above_of_owns howns with rfl | h
        · exact .inl rfl
        · exact .inr (.inr h)

/-! ## Climbing -/

/-- A list of different nodes is no longer than that of all nodes. -/
theorem length_le_size {ids : List NodeId} (hnodup : ids.Nodup) (known : ∀ a ∈ ids, a < g.size) :
    ids.length ≤ g.size := by
  have hsub : ids ⊆ List.range g.size := fun a ha => List.mem_range.2 (known a ha)
  have hle := (List.subperm_of_subset hnodup hsub).length_le
  rwa [List.length_range] at hle

/-- The nodes of a climb are the first one and nodes above it. -/
theorem above_of_mem_climb {fuel : Nat} {start : Option NodeId} (h : a ∈ g.climb fuel start) :
    ∃ b, start = some b ∧ Relation.ReflTransGen g.Owns a b := by
  induction fuel generalizing start with
  | zero =>
      cases start <;> simp [climb] at h
  | succ fuel ih =>
      cases start with
      | none =>
          simp [climb] at h
      | some b =>
          refine ⟨b, rfl, ?_⟩
          rcases List.mem_cons.1 h with rfl | h
          · exact .refl
          · rcases ih h with ⟨c, hc, hac⟩
            exact hac.tail hc

/-- A climb that ends early does not change with more fuel. -/
theorem climb_succ_of_length_lt {fuel : Nat} {start : Option NodeId}
    (h : (g.climb fuel start).length < fuel) :
    g.climb (fuel + 1) start = g.climb fuel start := by
  induction fuel generalizing start with
  | zero =>
      simp at h
  | succ fuel ih =>
      cases start with
      | none =>
          rfl
      | some b =>
          have hrest : (g.climb fuel (g.parent? b)).length < fuel := by
            simpa [climb] using h
          rw [climb, climb, ih hrest]

namespace Forest

theorem irrefl_above (f : g.Forest) : ¬ g.Above a a :=
  fun h => f.wellFounded.transGen.asymmetric a a h h

theorem not_above_of_owns (f : g.Forest) (h : g.Owns owner child) : ¬ g.Above child owner :=
  fun habove => f.irrefl_above (habove.tail h)

theorem lt_size_of_above (f : g.Forest) (h : g.Above a b) : a < g.size := by
  induction h using Relation.TransGen.head_induction_on with
  | single howns =>
      exact (f.operation_of_owns howns).lt_size
  | head howns _ _ =>
      exact (f.operation_of_owns howns).lt_size

theorem nodup_climb (f : g.Forest) (fuel : Nat) (start : Option NodeId) :
    (g.climb fuel start).Nodup := by
  induction fuel generalizing start with
  | zero =>
      cases start <;> simp [climb]
  | succ fuel ih =>
      cases start with
      | none =>
          simp [climb]
      | some b =>
          -- A node met again would be above itself.
          have hnotMem : b ∉ g.climb fuel (g.parent? b) := by
            intro hmem
            rcases above_of_mem_climb hmem with ⟨c, hc, hbc⟩
            exact f.irrefl_above (Relation.TransGen.tail' hbc hc)
          exact List.nodup_cons.2 ⟨hnotMem, ih _⟩

/-- No way up visits all nodes: the first node is not above itself. -/
theorem length_climb_lt (f : g.Forest) (known : id < g.size) (fuel : Nat) :
    (g.climb fuel (g.parent? id)).length < g.size := by
  have hlt : ∀ a ∈ g.climb (fuel + 1) (some id), a < g.size := by
    intro a ha
    rcases above_of_mem_climb ha with ⟨b, hb, hab⟩
    cases hb
    rcases Relation.reflTransGen_iff_eq_or_transGen.1 hab with rfl | h
    · exact known
    · exact f.lt_size_of_above h
  exact length_le_size (f.nodup_climb (fuel + 1) (some id)) hlt

/-! ## Ancestors -/

theorem ancestors_of_orphan (h : g.parent? id = none) : g.ancestors id = [] := by
  unfold ancestors
  rw [h]
  cases g.size <;> rfl

/-- The fuel of `ancestors` suffices. -/
theorem ancestors_of_owns (f : g.Forest) (h : g.Owns owner child) :
    g.ancestors child = owner :: g.ancestors owner := by
  have hlt : (g.climb g.size (g.parent? child)).length < g.size :=
    f.length_climb_lt h.lt_size _
  calc
    g.ancestors child = g.climb (g.size + 1) (g.parent? child) :=
      (climb_succ_of_length_lt hlt).symm
    _ = owner :: g.ancestors owner := by
      rw [h]
      rfl

theorem length_ancestors_lt (f : g.Forest) (known : id < g.size) :
    (g.ancestors id).length < g.size :=
  f.length_climb_lt known _

theorem mem_ancestors_iff (f : g.Forest) : a ∈ g.ancestors b ↔ g.Above a b := by
  constructor
  · intro h
    rcases above_of_mem_climb h with ⟨c, hc, hac⟩
    exact .tail' hac hc
  · intro h
    induction h with
    | single howns =>
        rw [f.ancestors_of_owns howns]
        exact List.mem_cons_self
    | tail _ howns ih =>
        rw [f.ancestors_of_owns howns]
        exact List.mem_cons_of_mem _ ih

end Forest

/-! ## The way to the top -/

/-- The node a number of links above another one. -/
def ascend (g : Graph) : Nat → NodeId → Option NodeId
  | 0, id => some id
  | steps + 1, id => (g.parent? id).bind (g.ascend steps)

/-- Following the owners ends, after fewer steps than there are nodes. -/
theorem Forest.exists_ascend (f : g.Forest) (known : id < g.size) :
    ∃ steps < g.size, ∃ top, g.ascend steps id = some top ∧ g.parent? top = none := by
  refine ⟨(g.ancestors id).length, f.length_ancestors_lt known, ?_⟩
  clear known
  -- Each owner has one ancestor less.
  induction id using f.wellFounded.induction with
  | _ id ih =>
      cases h : g.parent? id with
      | none =>
          exact ⟨id, by rw [ancestors_of_orphan h]; rfl, h⟩
      | some owner =>
          rcases ih owner h with ⟨top, htop, horphan⟩
          refine ⟨top, ?_, horphan⟩
          rw [f.ancestors_of_owns h, List.length_cons, ascend, h]
          exact htop

end Graph
end SdfShader
