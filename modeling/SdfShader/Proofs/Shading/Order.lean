import Mathlib.Algebra.Order.Group.Unbundled.Abs
import Mathlib.Data.List.Permutation
import SdfShader.Proofs.Scene.Reordering
import SdfShader.Proofs.Shading.Blending

/-!
# Order — how far the order of children shows in a distance

The smooth minimum of two distances does not depend on which one comes first, but that of three
does. So the order in which a smooth union takes in its children shows in its distance, by no more
than its smoothness however many children there are, and by no more than that it shows in the
result, whatever lies between. Main statements:

* `abs_distance_foldl_sub_le_of_perm`: two orders differ by the smoothness at most;
* `distance_foldl_eq_of_spaced`, `distance_foldl_eq_of_pair`: where they do not differ;
* `Forest.abs_distance_sub_le`: a difference does not grow on its way to the top;
* `reordered_within_smoothness`: two scenes that differ in the order of the children of one node;
* `reordered_differs`: a scene where it shows.
-/

namespace SdfShader

open Shading

variable {Color : Type}

/-! ## Two orders of one fold -/

section Fold

variable {d : Device Color ℚ} {join : Join} {value value' : NodeId → Sample Color ℚ}
  {ids ids' : List NodeId}

/-- A fold lies within one smoothness below the least of all distances. -/
theorem distance_foldl_mem (hd : d.Exact) (h : join.Accepted) (s : Sample Color ℚ) {least : ℚ}
    (hleast : IsLeast {x | x = s.distance ∨ ∃ c ∈ ids, (value c).distance = x} least) :
    least - join.smoothness ≤ (ids.foldl (fun s c => d.takeIn join (value c) s) s).distance ∧
      (ids.foldl (fun s c => d.takeIn join (value c) s) s).distance ≤ least := by
  constructor
  · refine sub_le_distance_foldl hd h (fun c hc => hleast.2 (.inr ⟨c, hc, rfl⟩)) s ?_
    linarith [hleast.2 (.inl rfl), h.smoothness_nonneg]
  · rcases hleast.1 with hstart | ⟨c, hc, hchild⟩
    · rw [hstart]
      exact distance_foldl_le hd h s
    · rw [← hchild]
      exact distance_foldl_le_of_mem hd h s hc

/-- Two orders of the same children give distances that differ by the smoothness at most. -/
theorem abs_distance_foldl_sub_le_of_perm (hd : d.Exact) (h : join.Accepted)
    (hperm : ids'.Perm ids) (s : Sample Color ℚ) :
    |(ids'.foldl (fun s c => d.takeIn join (value c) s) s).distance
        - (ids.foldl (fun s c => d.takeIn join (value c) s) s).distance| ≤ join.smoothness := by
  rcases Graph.exists_isLeast_distance (fun c => (value c).distance) s.distance ids with
    ⟨least, hleast⟩
  -- The least of all distances is the same in both orders.
  have hleast' : IsLeast {x | x = s.distance ∨ ∃ c ∈ ids', (value c).distance = x} least := by
    simpa only [hperm.mem_iff] using hleast
  rcases distance_foldl_mem hd h s hleast with ⟨hlow, hhigh⟩
  rcases distance_foldl_mem hd h s hleast' with ⟨hlow', hhigh'⟩
  refine (abs_sub_le_of_le_of_le hlow' hhigh' hlow hhigh).trans ?_
  rw [sub_sub_cancel]

/-- Whether no two distances of a list are closer together than the smoothness. -/
def Spaced (smoothness : ℚ) (distances : List ℚ) : Prop :=
  distances.Pairwise fun x y => smoothness ≤ |x - y|

theorem Spaced.perm {k : ℚ} {l l' : List ℚ} (h : Spaced k l) (hperm : l'.Perm l) : Spaced k l' :=
  (hperm.pairwise_iff fun {x y} hxy => by rwa [abs_sub_comm]).2 h

/-- Spaced distances do not blend: what is left is the least of them. -/
theorem distance_foldl_of_spaced (hd : d.Exact) (h : join.Accepted) (s : Sample Color ℚ)
    (hspaced : Spaced join.smoothness (s.distance :: ids.map fun c => (value c).distance)) :
    (ids.foldl (fun s c => d.takeIn join (value c) s) s).distance
      = (ids.map fun c => (value c).distance).foldl min s.distance := by
  induction ids generalizing s with
  | nil =>
      rfl
  | cons c ids ih =>
      rcases List.pairwise_cons.1 hspaced with ⟨hstart, hrest⟩
      rcases List.pairwise_cons.1 hrest with ⟨hchild, hids⟩
      have hturn : (d.takeIn join (value c) s).distance = min s.distance (value c).distance := by
        rw [distance_takeIn hd h]
        exact smoothMin_eq_min h.smoothness_nonneg (hstart _ List.mem_cons_self)
      rw [List.foldl_cons, ih, hturn, List.map_cons, List.foldl_cons]
      -- The lesser of the two is as far from the others as each of them.
      refine List.pairwise_cons.2 ⟨fun x hx => ?_, hids⟩
      rw [hturn]
      rcases min_choice s.distance (value c).distance with hmin | hmin
      · rw [hmin]
        exact hstart x (List.mem_cons_of_mem _ hx)
      · rw [hmin]
        exact hchild x hx

theorem distance_foldl_eq_of_spaced (hd : d.Exact) (h : join.Accepted) (hperm : ids'.Perm ids)
    (s : Sample Color ℚ)
    (hspaced : Spaced join.smoothness (s.distance :: ids.map fun c => (value c).distance)) :
    (ids'.foldl (fun s c => d.takeIn join (value c) s) s).distance
      = (ids.foldl (fun s c => d.takeIn join (value c) s) s).distance := by
  have hmap := hperm.map fun c => (value c).distance
  rw [distance_foldl_of_spaced hd h s hspaced,
    distance_foldl_of_spaced hd h s (hspaced.perm (hmap.cons _)), hmap.foldl_eq]

/-- Two children that start from a distance out of their reach may be exchanged. -/
theorem distance_foldl_eq_of_pair (hd : d.Exact) (h : join.Accepted) (hperm : ids'.Perm ids)
    (s : Sample Color ℚ) (hlength : ids.length ≤ 2)
    (hreach : ∀ c ∈ ids, (value c).distance + join.smoothness ≤ s.distance) :
    (ids'.foldl (fun s c => d.takeIn join (value c) s) s).distance
      = (ids.foldl (fun s c => d.takeIn join (value c) s) s).distance := by
  -- Whichever comes first, the start does not blend with it.
  have hfirst : ∀ c ∈ ids, smoothMin s.distance (value c).distance join.smoothness
      = (value c).distance := fun c hc => smoothMin_eq_right h.smoothness_nonneg (hreach c hc)
  rcases ids with _ | ⟨a, _ | ⟨b, _ | ⟨c, rest⟩⟩⟩
  · rw [hperm.eq_nil]
  · rw [hperm.eq_singleton]
  · rcases List.perm_pair.1 hperm with rfl | rfl
    · rfl
    · simp only [List.foldl_cons, List.foldl_nil, distance_takeIn hd h, hfirst a (by simp),
        hfirst b (by simp)]
      exact smoothMin_comm _ _ _
  · simp at hlength

/-- Distances that give the same in any order: there is no smoothness, or none of them is within
reach of another one, or there are no more than two. -/
inductive Orderless (smoothness far : ℚ) (distances : List ℚ) : Prop
  | sharp (sharp : smoothness = 0)
  | spaced (spaced : Spaced smoothness (far :: distances))
  | pair (pair : distances.length ≤ 2) (reach : ∀ x ∈ distances, x + smoothness ≤ far)

theorem distance_foldl_eq_of_orderless (hd : d.Exact) (h : join.Accepted) (hperm : ids'.Perm ids)
    (s : Sample Color ℚ)
    (horder : Orderless join.smoothness s.distance (ids.map fun c => (value c).distance)) :
    (ids'.foldl (fun s c => d.takeIn join (value c) s) s).distance
      = (ids.foldl (fun s c => d.takeIn join (value c) s) s).distance := by
  cases horder with
  | sharp hsharp =>
      refine sub_eq_zero.1 (abs_nonpos_iff.1 ?_)
      rw [← hsharp]
      exact abs_distance_foldl_sub_le_of_perm hd h hperm s
  | spaced hspaced =>
      exact distance_foldl_eq_of_spaced hd h hperm s hspaced
  | pair hlength hreach =>
      exact distance_foldl_eq_of_pair hd h hperm s (by simpa using hlength) (by simpa using hreach)

theorem abs_distance_takeIn_sub_le (hd : d.Exact) (h : join.Accepted) {e : ℚ}
    {s s' t t' : Sample Color ℚ} (hs : |s'.distance - s.distance| ≤ e)
    (ht : |t'.distance - t.distance| ≤ e) :
    |(d.takeIn join s' t').distance - (d.takeIn join s t).distance| ≤ e := by
  rw [distance_takeIn hd h, distance_takeIn hd h]
  exact abs_smoothMin_sub_le ht hs

/-- A fold changes no more than what it starts from and what it takes in. -/
theorem abs_distance_foldl_sub_le (hd : d.Exact) (h : join.Accepted) {e : ℚ}
    (hids : ∀ c ∈ ids, |(value' c).distance - (value c).distance| ≤ e) (s s' : Sample Color ℚ)
    (hs : |s'.distance - s.distance| ≤ e) :
    |(ids.foldl (fun s c => d.takeIn join (value' c) s) s').distance
      - (ids.foldl (fun s c => d.takeIn join (value c) s) s).distance| ≤ e := by
  induction ids generalizing s s' with
  | nil =>
      exact hs
  | cons c ids ih =>
      refine ih (fun c' hc' => hids c' (List.mem_cons_of_mem c hc')) _ _ ?_
      exact abs_distance_takeIn_sub_le hd h (hids c List.mem_cons_self) hs

end Fold

namespace Graph

variable {g g' : Graph} {owner id : NodeId}

/-! ## Reordered graphs -/

namespace Reordered

variable {n : Node}

theorem node? (h : g.Reordered g' owner) (hn : g.node? id = some n) :
    ∃ n', g'.node? id = some n' ∧ n'.kind.bare = n.kind.bare := by
  have hcontent := (h.content id).trans (content?_of_node? hn)
  rcases Option.map_eq_some_iff.1 hcontent with ⟨n', hn', hsame⟩
  exact ⟨n', hn', congrArg Prod.snd hsame⟩

/-- Shapes are the same. -/
theorem shape (h : g.Reordered g' owner) {s : Shape} (hn : g.node? id = some n)
    (hk : n.kind = .shape s) : ∃ n', g'.node? id = some n' ∧ n'.kind = .shape s := by
  rcases h.node? hn with ⟨n', hn', hbare⟩
  refine ⟨n', hn', ?_⟩
  rw [hk] at hbare
  cases hk' : n'.kind with
  | shape s' =>
      rw [hk'] at hbare
      exact hbare
  | operation join ids =>
      rw [hk'] at hbare
      exact nomatch hbare

/-- Operations join their children as before. -/
theorem operation (h : g.Reordered g' owner) {join : Join} {ids : List NodeId}
    (hn : g.node? id = some n) (hk : n.kind = .operation join ids) :
    ∃ n', g'.node? id = some n' ∧ n'.kind = .operation join (g'.children id) := by
  rcases h.node? hn with ⟨n', hn', hbare⟩
  refine ⟨n', hn', ?_⟩
  rw [hk] at hbare
  cases hk' : n'.kind with
  | shape s =>
      rw [hk'] at hbare
      exact nomatch hbare
  | operation join' ids' =>
      have hjoin : join' = join := by
        rw [hk'] at hbare
        simpa [NodeKind.bare, NodeKind.mapChildren] using hbare
      rw [hjoin, children_of_operation hn' hk']

theorem shape? (h : g.Reordered g' owner) (id : NodeId) : g'.shape? id = g.shape? id := by
  cases hn : g.node? id with
  | none =>
      have hn' : g'.node? id = none := by
        rw [node?_eq_none_iff, h.size]
        exact node?_eq_none_iff.1 hn
      rw [Graph.shape?, Graph.shape?, hn, hn']
  | some n =>
      cases hk : n.kind with
      | shape s =>
          rcases h.shape hn hk with ⟨n', hn', hk'⟩
          rw [shape?_of_node? hn, shape?_of_node? hn', hk, hk']
      | operation join ids =>
          rcases h.operation hn hk with ⟨n', hn', hk'⟩
          rw [shape?_of_node? hn, shape?_of_node? hn', hk, hk']
          rfl

/-- The shapes have the same distances from the sample point. -/
theorem measured {Color Distance : Type} (h : g.Reordered g' owner) (d : Device Color Distance) :
    g'.measured d = g.measured d := by
  funext id
  rw [Graph.measured, Graph.measured, h.shape?]

end Reordered

/-! ## Values -/

variable {d : Device Color ℚ} {distance : NodeId → ℚ} {value value' : NodeId → Sample Color ℚ}

theorem smoothness_nonneg (haccepted : ∀ id n, g.node? id = some n → n.kind.Accepted) :
    0 ≤ g.smoothness id := by
  cases hn : g.node? id with
  | none =>
      simp [smoothness, smoothness?, hn]
  | some n =>
      cases hk : n.kind with
      | shape s =>
          rw [smoothness_of_shape hn hk]
      | operation join ids =>
          rw [smoothness_of_operation hn hk]
          exact (accepted_join haccepted hn hk).smoothness_nonneg

namespace Forest

/-- What is neither the node nor above it gives what it gave. -/
theorem value_eq_of_not_above (f : g.Forest) (h : g.Reordered g' owner)
    (hvalue : g.EvaluationAt d distance value) (hvalue' : g'.EvaluationAt d distance value') :
    ∀ id, id < g.size → id ≠ owner → ¬ g.Above id owner → value' id = value id := by
  refine f.level_induction ?_
  intro id known ih hne habove
  rcases exists_node?_iff.2 known with ⟨n, hn⟩
  cases hk : n.kind with
  | shape s =>
      rcases h.shape hn hk with ⟨n', hn', hk'⟩
      rw [hvalue.shape hn hk, hvalue'.shape hn' hk']
  | operation join ids =>
      rcases h.operation hn hk with ⟨n', hn', hk'⟩
      have hids : g.children id = ids := children_of_operation hn hk
      rw [hvalue.operation hn hk, hvalue'.operation hn' hk', h.children id hne, hids]
      refine List.foldl_ext _ _ _ fun collected c hc => ?_
      have howns : g.Owns id c := f.mem_children_iff.1 (hids ▸ hc)
      -- If a child were that node or above it, its owner would be above it, too.
      rw [ih c (hids ▸ hc)]
      · rintro rfl
        exact habove (.single howns)
      · exact fun hc => habove (.head howns hc)

/-- Its children are below the node, so they give what they gave. -/
theorem value_eq_of_mem_children (f : g.Forest) (h : g.Reordered g' owner)
    (hvalue : g.EvaluationAt d distance value) (hvalue' : g'.EvaluationAt d distance value') :
    ∀ c ∈ g.children owner, value' c = value c := by
  intro c hc
  have howns : g.Owns owner c := f.mem_children_iff.1 hc
  refine f.value_eq_of_not_above h hvalue hvalue' c howns.lt_size ?_ (f.not_above_of_owns howns)
  rintro rfl
  exact f.irrefl_above (.single howns)

/-- The node itself takes in the same samples in another order. -/
theorem value_owner_eq (f : g.Forest) (h : g.Reordered g' owner)
    (hvalue : g.EvaluationAt d distance value) (hvalue' : g'.EvaluationAt d distance value')
    {n : Node} {join : Join} {ids : List NodeId} (hn : g.node? owner = some n)
    (hk : n.kind = .operation join ids) :
    value' owner
      = (g'.children owner).foldl (fun s c => d.takeIn join (value c) s) d.background := by
  rcases h.operation hn hk with ⟨n', hn', hk'⟩
  rw [hvalue'.operation hn' hk']
  refine List.foldl_ext _ _ _ fun collected c hc => ?_
  rw [f.value_eq_of_mem_children h hvalue hvalue' c (h.perm.mem_iff.1 hc)]

/-- The distance of the node changes by its smoothness at most. -/
theorem distance_owner (f : g.Forest) (hd : d.Exact)
    (haccepted : ∀ id n, g.node? id = some n → n.kind.Accepted) (h : g.Reordered g' owner)
    (hvalue : g.EvaluationAt d distance value) (hvalue' : g'.EvaluationAt d distance value')
    (known : owner < g.size) :
    |(value' owner).distance - (value owner).distance| ≤ g.smoothness owner ∧
      (Orderless (g.smoothness owner) 1000 ((g.children owner).map fun c => (value c).distance) →
        (value' owner).distance = (value owner).distance) := by
  rcases exists_node?_iff.2 known with ⟨n, hn⟩
  cases hk : n.kind with
  | shape s =>
      have hsmooth : g.smoothness owner = 0 := smoothness_of_shape hn hk
      rcases h.shape hn hk with ⟨n', hn', hk'⟩
      rw [hvalue.shape hn hk, hvalue'.shape hn' hk', hsmooth]
      simp
  | operation join ids =>
      have hjoin : join.Accepted := accepted_join haccepted hn hk
      have hids : g.children owner = ids := children_of_operation hn hk
      have hperm : (g'.children owner).Perm ids := hids ▸ h.perm
      rw [hvalue.operation hn hk, f.value_owner_eq h hvalue hvalue' hn hk,
        smoothness_of_operation hn hk, hids, ← hd.distance_background]
      exact ⟨abs_distance_foldl_sub_le_of_perm hd hjoin hperm _,
        distance_foldl_eq_of_orderless hd hjoin hperm _⟩

/-- A difference at the node does not grow on the way to the top. -/
theorem abs_distance_sub_le (f : g.Forest) (hd : d.Exact)
    (haccepted : ∀ id n, g.node? id = some n → n.kind.Accepted) (h : g.Reordered g' owner)
    (hvalue : g.EvaluationAt d distance value) (hvalue' : g'.EvaluationAt d distance value')
    {e : ℚ} (he : 0 ≤ e)
    (howner : owner < g.size → |(value' owner).distance - (value owner).distance| ≤ e) :
    ∀ id, id < g.size → |(value' id).distance - (value id).distance| ≤ e := by
  refine f.level_induction ?_
  intro id known ih
  by_cases hid : id = owner
  · subst hid
    exact howner known
  · rcases exists_node?_iff.2 known with ⟨n, hn⟩
    cases hk : n.kind with
    | shape s =>
        rcases h.shape hn hk with ⟨n', hn', hk'⟩
        rwa [hvalue.shape hn hk, hvalue'.shape hn' hk', sub_self, abs_zero]
    | operation join ids =>
        have hjoin : join.Accepted := accepted_join haccepted hn hk
        have hids : g.children id = ids := children_of_operation hn hk
        rcases h.operation hn hk with ⟨n', hn', hk'⟩
        rw [hvalue.operation hn hk, hvalue'.operation hn' hk', h.children id hid, hids]
        refine abs_distance_foldl_sub_le hd hjoin (fun c hc => ih c (hids ▸ hc)) _ _ ?_
        rwa [sub_self, abs_zero]

end Forest
end Graph

/-! ## Main results -/

namespace Scene

/-- The order of children shows by no more than the smoothness of the node that lists them. Every
order can be made by edits of the scene. In two scenes that differ in the order of the children of
one node, any node has a fragment whose text leaves in the result what the node gives, taken in.
Whatever distances the shapes have, the distances left by the two texts differ by the smoothness of
the node with the reordered children at most. They are equal if that is a hard union or has
smoothness zero, if no two distances among its children and the background are closer together than
the smoothness, and if it has no more than two children, away from the background. -/
theorem reordered_within_smoothness {Vector : Type} (edits : List Edit)
    (A : Interpretation ℚ Vector) (p : Vector) (exact : (A.device p).Exact)
    (result : Sample Vector ℚ) (owner : NodeId) :
    let s := Scene.empty.run edits
    let g := s.graph
    let d := A.device p
    (∀ ids, ids.Perm (g.children owner) →
      let made := (s.run (reorder owner ids)).graph
      g.Reordered made owner ∧ made.children owner = ids) ∧
    ∀ edits', let g' := (Scene.empty.run edits').graph
      g.Reordered g' owner → ∀ root < g.size,
        (∀ h ∈ [g, g'], ∃ text after, h.fragment root = .ok text ∧
          A.run? (.ofMap p result) text = some after ∧
          ∀ value, h.EvaluationAt d (g.measured d) value →
            after resultRegister = some (.material (d.takeIn .sharp (value root) result))) ∧
        ∀ distance : NodeId → ℚ, (∀ h ∈ [g, g'], ∃ value, h.EvaluationAt d distance value) ∧
          ∀ value value' : NodeId → Sample Vector ℚ,
            g.EvaluationAt d distance value → g'.EvaluationAt d distance value' →
            let before := (d.takeIn .sharp (value root) result).distance
            let after := (d.takeIn .sharp (value' root) result).distance
            |after - before| ≤ g.smoothness owner ∧
            (Orderless (g.smoothness owner) 1000
                ((g.children owner).map fun c => (value c).distance) → after = before) := by
  intro s g d
  have h : s.Reachable := Reachable.empty.run edits
  have f : g.Forest := h.forest
  have haccepted : ∀ id n, g.node? id = some n → n.kind.Accepted := fun _ _ hn =>
    h.accepted.kind hn
  refine ⟨fun ids hids => h.children_reorder hids, ?_⟩
  intro edits' g' hreordered root known
  have h' : (Scene.empty.run edits').Reachable := Reachable.empty.run edits'
  have f' : g'.Forest := h'.forest
  constructor
  · have known' : root < g'.size := hreordered.size.symm ▸ known
    rcases h.run_measured known A p result with ⟨text, vars, htext, hrun, hvars⟩
    rcases h'.run_measured known' A p result with ⟨text', vars', htext', hrun', hvars'⟩
    rw [hreordered.measured] at hvars'
    rw [List.forall_mem_cons, List.forall_mem_singleton]
    exact ⟨⟨text, vars, htext, hrun, fun value hvalue => (hvars value hvalue).2⟩,
      ⟨text', vars', htext', hrun', fun value hvalue => (hvars' value hvalue).2⟩⟩
  · intro distance
    constructor
    · rw [List.forall_mem_cons, List.forall_mem_singleton]
      exact ⟨f.exists_evaluationAt d distance, f'.exists_evaluationAt d distance⟩
    · intro value value' hvalue hvalue' before after
      have howner := f.distance_owner exact haccepted hreordered hvalue hvalue'
      -- What bounds the change of the node bounds that of the result.
      have hroot : ∀ e : ℚ, 0 ≤ e →
          (owner < g.size → |(value' owner).distance - (value owner).distance| ≤ e) →
          |after - before| ≤ e := by
        intro e he howner
        have hnode : |(value' root).distance - (value root).distance| ≤ e :=
          f.abs_distance_sub_le exact haccepted hreordered hvalue hvalue' he howner root known
        have hsharp : Join.sharp.Accepted := trivial
        exact abs_distance_takeIn_sub_le exact hsharp hnode (by simpa using he)
      refine ⟨hroot _ (Graph.smoothness_nonneg haccepted) fun known => (howner known).1, ?_⟩
      intro horder
      have hsame : |after - before| ≤ 0 := by
        refine hroot 0 le_rfl fun known => ?_
        rw [(howner known).2 horder, sub_self, abs_zero]
      exact sub_eq_zero.1 (abs_nonpos_iff.1 hsame)

/-- Two spheres at distance 0 and one at distance 2, under a smoothness of 4. -/
def trio : List Edit :=
  [.addSmoothUnion 4, .addSphere ⟨1, 0, 0⟩ 1 Demo.red, .addSphere ⟨0, 1, 0⟩ 1 Demo.green,
   .addSphere ⟨0, 0, 3⟩ 1 Demo.blue, .addChildren 1 [2, 3, 4]]

/-- The first sphere to the end. -/
theorem reordered_within_smoothness_trio :
    let g := (Scene.empty.run trio).graph
    let g' := (Scene.empty.run (trio ++ reorder 1 [3, 4, 2])).graph
    let d := exactInterpretation.device (0, 0, 0)
    d.Exact ∧ [3, 4, 2].Perm (g.children 1) ∧ g.Reordered g' 1 ∧ rootId < g.size ∧
      ∀ (distance : NodeId → ℚ) (value value' : NodeId → Sample (ℚ × ℚ × ℚ) ℚ),
        g.EvaluationAt d distance value → g'.EvaluationAt d distance value' →
          |(d.takeIn .sharp (value' rootId) d.background).distance
            - (d.takeIn .sharp (value rootId) d.background).distance| ≤ 4 := by
  intro g g' d
  have exact : d.Exact := exact_exactInterpretation _
  have hperm : [3, 4, 2].Perm (g.children 1) := by decide +kernel
  have known : rootId < g.size := by decide +kernel
  have hsmooth : g.smoothness 1 = 4 := by decide +kernel
  rcases reordered_within_smoothness trio exactInterpretation (0, 0, 0) exact d.background 1 with
    ⟨hmade, hbound⟩
  have hreordered : g.Reordered g' 1 := by
    have hrun : g' = ((Scene.empty.run trio).run (reorder 1 [3, 4, 2])).graph :=
      congrArg Scene.graph (run_append _ _ _)
    rw [hrun]
    exact (hmade [3, 4, 2] hperm).1
  refine ⟨exact, hperm, hreordered, known, fun distance value value' hvalue hvalue' => ?_⟩
  rcases hbound _ hreordered rootId known with ⟨-, hdistances⟩
  exact hsmooth ▸ ((hdistances distance).2 value value' hvalue hvalue').1

/-- The two spheres at distance 0 are lowered to -1 before the third is taken in; if one of them is
taken out and put back, it comes to the others when they have been lowered by a quarter only. The
texts of the two scenes leave different distances. -/
theorem reordered_differs :
    let g := (Scene.empty.run trio).graph
    let g' := (Scene.empty.run (trio ++ readd 1 2)).graph
    let d := exactDevice
    let e := exactInterpretation.device (0, 0, 0)
    d.Exact ∧ e.Exact ∧ g.Reordered g' 1 ∧ g.children 1 = [2, 3, 4] ∧ g'.children 1 = [3, 4, 2] ∧
      (∃ value value', g.Evaluation d value ∧ g'.Evaluation d value' ∧
        (d.takeIn .sharp (value rootId) d.background).distance = -17 / 16 ∧
        (d.takeIn .sharp (value' rootId) d.background).distance = -289 / 256) ∧
      ∀ left ∈ [(g, (-17 / 16 : ℚ)), (g', -289 / 256)],
        ∃ text after, left.1.fragment rootId = .ok text ∧
          exactInterpretation.run? (.ofMap (0, 0, 0) e.background) text = some after ∧
          (after.material? resultRegister).map Sample.distance = some left.2 := by
  intro g g' d e
  have hreachable : (Scene.empty.run trio).Reachable := Reachable.empty.run trio
  have hreachable' : (Scene.empty.run (trio ++ readd 1 2)).Reachable := Reachable.empty.run _
  have f : g.Forest := hreachable.forest
  have f' : g'.Forest := hreachable'.forest
  have hlinks : g.children 1 = [2, 3, 4] ∧ g'.children 1 = [3, 4, 2] := by decide +kernel
  have hreordered : g.Reordered g' 1 := by
    have hrun : g' = ((Scene.empty.run trio).run (readd 1 2)).graph :=
      congrArg Scene.graph (run_append _ _ _)
    rw [hrun]
    refine (hreachable.reordered_readd ?_).1
    rw [hlinks.1]
    exact List.mem_cons_self
  refine ⟨exact_exactDevice, exact_exactInterpretation _, hreordered, hlinks.1, hlinks.2, ?_, ?_⟩
  · refine ⟨_, _, Graph.evaluation_iff.2 (f.evaluationAt_sampleAt d _),
      Graph.evaluation_iff.2 (f'.evaluationAt_sampleAt d _), ?_, ?_⟩
    · decide +kernel
    · decide +kernel
  · rw [List.forall_mem_cons, List.forall_mem_singleton]
    rcases hreachable.run_sampleAt f.root_lt_size exactInterpretation (0, 0, 0) e.background with
      ⟨text, after, hfragment, hrun, -, hresult⟩
    rcases hreachable'.run_sampleAt f'.root_lt_size exactInterpretation (0, 0, 0) e.background with
      ⟨text', after', hfragment', hrun', -, hresult'⟩
    refine ⟨⟨text, after, hfragment, hrun, ?_⟩, ⟨text', after', hfragment', hrun', ?_⟩⟩
    · rw [hresult]
      decide +kernel
    · rw [hresult']
      decide +kernel

end Scene
end SdfShader
