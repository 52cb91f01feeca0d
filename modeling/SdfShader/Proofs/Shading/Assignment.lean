import SdfShader.Proofs.Scene.Walk
import SdfShader.Proofs.Shading.Fragment

/-!
# Assignment — evaluation where the shapes have given distances

An evaluation does not depend on how distances are measured, only on what they are. So shapes may be
assigned any distances, also such as no sample point has; the distances measured at a sample point
are one assignment (`Graph.evaluation_iff`). Main statements:

* `Forest.exists_evaluationAt`, `EvaluationAt.eq`: with every assignment a node of a forest gives
  something, and one thing only;
* `Reachable.run_measured`: with the measured distances this is what the text of its fragment leaves.
-/

namespace SdfShader

open Shading

variable {Color Distance : Type}

/-! ## Views of a graph -/

namespace NodeKind

/-- The shape of a node that is one. -/
def shape? : NodeKind → Option Shape
  | shape s => some s
  | operation .. => none

/-- The smoothness of a smooth union. -/
def smoothness? : NodeKind → Option Single
  | operation (.smooth k) _ => some k
  | _ => none

end NodeKind

namespace Graph

def shape? (g : Graph) (id : NodeId) : Option Shape :=
  (g.node? id).bind (·.kind.shape?)

def smoothness? (g : Graph) (id : NodeId) : Option Single :=
  (g.node? id).bind (·.kind.smoothness?)

/-- The shapes at or below a node, in the order in which its fragment declares them. -/
def shapes (g : Graph) (id : NodeId) : List NodeId :=
  (g.descendants id).filter fun a => (g.shape? a).isSome

/-- Whether none of the operations at or below a node is a smooth union. -/
def Sharp (g : Graph) (id : NodeId) : Prop :=
  ∀ a ∈ g.descendants id, g.smoothness? a = none

instance (g : Graph) (id : NodeId) : Decidable (g.Sharp id) :=
  inferInstanceAs (Decidable (∀ a ∈ g.descendants id, g.smoothness? a = none))

/-- The distances of the shapes from the sample point; other nodes have none, and are given that of
the background. -/
def measured (g : Graph) (d : Device Color Distance) (id : NodeId) : Distance :=
  (g.shape? id).elim (d.constant sentinelDistance) fun s => d.measure s.position s.solid

variable {g : Graph} {id : NodeId} {n : Node}

theorem shape?_of_node? (hn : g.node? id = some n) : g.shape? id = n.kind.shape? := by
  rw [shape?, hn, Option.bind_some]

theorem smoothness?_of_node? (hn : g.node? id = some n) :
    g.smoothness? id = n.kind.smoothness? := by
  rw [smoothness?, hn, Option.bind_some]

end Graph

/-! ## Evaluation -/

/-- What a node gives if it has the given distance, being a shape, or if `value` says what its
children give. -/
def NodeKind.sampleAt (d : Device Color Distance) (distance : Distance)
    (value : NodeId → Sample Color Distance) : NodeKind → Sample Color Distance
  | .shape s => ⟨d.color s.color, true, distance⟩
  | .operation join ids =>
    ids.foldl (fun collected child => d.takeIn join (value child) collected) d.background

/-- Whether `value` says of every node what it gives where `distance` says how far the shapes are. -/
def Graph.EvaluationAt (g : Graph) (d : Device Color Distance) (distance : NodeId → Distance)
    (value : NodeId → Sample Color Distance) : Prop :=
  ∀ id n, g.node? id = some n → value id = n.kind.sampleAt d (distance id) value

variable {g : Graph} {d : Device Color Distance} {distance : NodeId → Distance}
  {value value' : NodeId → Sample Color Distance} {id : NodeId} {n : Node}

/-- Only what is said of the children counts. -/
theorem NodeKind.sampleAt_congr {far : Distance} (k : NodeKind)
    (h : ∀ c ∈ k.children, value c = value' c) :
    k.sampleAt d far value = k.sampleAt d far value' := by
  cases k with
  | shape s =>
      rfl
  | operation join ids =>
      exact List.foldl_ext _ _ _ fun collected c hc => by rw [h c hc]

namespace Graph

/-- An evaluation at the sample point is one where the shapes have the distances measured there. -/
theorem evaluation_iff : g.Evaluation d value ↔ g.EvaluationAt d (g.measured d) value := by
  refine forall_congr' fun id => forall_congr' fun n => imp_congr_right fun hn => ?_
  have hsample : n.kind.sampleAt d (g.measured d id) value = n.kind.sample d value := by
    cases hk : n.kind with
    | shape s =>
        have hshape : g.shape? id = some s := by
          rw [shape?_of_node? hn, hk]
          rfl
        simp [NodeKind.sampleAt, NodeKind.sample, measured, hshape]
    | operation join ids =>
        rfl
  rw [hsample]

theorem EvaluationAt.shape (h : g.EvaluationAt d distance value) {s : Shape}
    (hn : g.node? id = some n) (hk : n.kind = .shape s) :
    value id = ⟨d.color s.color, true, distance id⟩ := by
  rw [h id n hn, hk, NodeKind.sampleAt]

theorem EvaluationAt.operation (h : g.EvaluationAt d distance value) {join : Join}
    {ids : List NodeId} (hn : g.node? id = some n) (hk : n.kind = .operation join ids) :
    value id
      = ids.foldl (fun collected child => d.takeIn join (value child) collected)
          d.background := by
  rw [h id n hn, hk, NodeKind.sampleAt]

/-- Two evaluations agree, from the children to their owner. -/
theorem EvaluationAt.eq (f : g.Forest) (h : g.EvaluationAt d distance value)
    (h' : g.EvaluationAt d distance value') : ∀ id, id < g.size → value id = value' id := by
  refine f.level_induction ?_
  intro id known ih
  rcases exists_node?_iff.2 known with ⟨n, hn⟩
  have hchildren : ∀ c ∈ n.kind.children, value c = value' c := by
    intro c hc
    apply ih c
    rwa [children_of_node? hn]
  rw [h id n hn, h' id n hn, NodeKind.sampleAt_congr n.kind hchildren]

/-- What a node gives, found by going down at most `fuel` levels. -/
def sampleAt (g : Graph) (d : Device Color Distance) (distance : NodeId → Distance) :
    Nat → NodeId → Sample Color Distance
  | 0, _ => d.background
  | fuel + 1, id =>
    (g.node? id).elim d.background fun n =>
      n.kind.sampleAt d (distance id) (g.sampleAt d distance fuel)

/-- As many levels as there are nodes are enough. -/
theorem Forest.evaluationAt_sampleAt (f : g.Forest) (d : Device Color Distance)
    (distance : NodeId → Distance) :
    g.EvaluationAt d distance (g.sampleAt d distance g.size) := by
  have hwalk : ∀ fuel fuel' id,
      (∀ c ∈ g.children id, g.sampleAt d distance fuel c = g.sampleAt d distance fuel' c) →
      g.sampleAt d distance (fuel + 1) id = g.sampleAt d distance (fuel' + 1) id := by
    intro fuel fuel' id h
    cases hn : g.node? id with
    | none =>
        simp [sampleAt, hn]
    | some n =>
        rw [children_of_node? hn] at h
        simp [sampleAt, hn, NodeKind.sampleAt_congr n.kind h]
  intro id n hn
  rcases Forest.exists_size_eq (lt_size_of_node? hn) with ⟨fuel, hfuel⟩
  -- With one unit of fuel less, what the children give is still complete.
  have hchildren : ∀ c ∈ n.kind.children,
      g.sampleAt d distance fuel c = g.sampleAt d distance g.size c := by
    intro c hc
    apply f.walk_child hwalk hfuel
    rwa [children_of_node? hn]
  calc g.sampleAt d distance g.size id
      = n.kind.sampleAt d (distance id) (g.sampleAt d distance fuel) := by
        rw [hfuel, sampleAt, hn, Option.elim_some]
    _ = n.kind.sampleAt d (distance id) (g.sampleAt d distance g.size) :=
        NodeKind.sampleAt_congr n.kind hchildren

theorem Forest.exists_evaluationAt (f : g.Forest) (d : Device Color Distance)
    (distance : NodeId → Distance) : ∃ value, g.EvaluationAt d distance value :=
  ⟨_, f.evaluationAt_sampleAt d distance⟩

end Graph

/-! ## Shapes below a node -/

namespace Graph.Forest

variable {s : Shape} {join : Join} {ids : List NodeId}

theorem descendants_shape (f : g.Forest) (hn : g.node? id = some n) (hk : n.kind = .shape s) :
    g.descendants id = [id] := by
  rw [f.descendants_eq_subtree (lt_size_of_node? hn), f.subtree_eq (lt_size_of_node? hn),
    children_of_shape hn hk, List.flatMap_nil]

theorem descendants_operation (f : g.Forest) (hn : g.node? id = some n)
    (hk : n.kind = .operation join ids) :
    g.descendants id = id :: ids.flatMap g.descendants := by
  have hids : g.children id = ids := children_of_operation hn hk
  have hchildren : ∀ c ∈ ids, g.descendants c = g.subtree c := by
    intro c hc
    exact f.descendants_eq_subtree (f.lt_size_of_mem_children (hids ▸ hc))
  rw [f.descendants_eq_subtree (lt_size_of_node? hn), f.subtree_eq (lt_size_of_node? hn), hids,
    List.flatMap_congr hchildren]

theorem shapes_shape (f : g.Forest) (hn : g.node? id = some n) (hk : n.kind = .shape s) :
    g.shapes id = [id] := by
  have hshape : (g.shape? id).isSome = true := by
    rw [shape?_of_node? hn, hk]
    rfl
  simp [shapes, f.descendants_shape hn hk, hshape]

theorem shapes_operation (f : g.Forest) (hn : g.node? id = some n)
    (hk : n.kind = .operation join ids) : g.shapes id = ids.flatMap g.shapes := by
  have hshape : (g.shape? id).isSome = false := by
    rw [shape?_of_node? hn, hk]
    rfl
  rw [shapes, f.descendants_operation hn hk,
    List.filter_cons_of_neg (by simp [hshape]), List.filter_flatMap]
  rfl

end Graph.Forest

namespace Graph

theorem exists_shape_of_mem_shapes {id a : NodeId} (h : a ∈ g.shapes id) :
    ∃ n s, g.node? a = some n ∧ n.kind = .shape s ∧ g.shape? a = some s := by
  have hsome := (List.mem_filter.1 h).2
  rcases Option.isSome_iff_exists.1 hsome with ⟨s, hs⟩
  rcases Option.bind_eq_some_iff.1 hs with ⟨n, hn, hshape⟩
  refine ⟨n, s, hn, ?_, hs⟩
  cases hk : n.kind with
  | shape figure =>
      rw [hk] at hshape
      rw [Option.some.inj hshape]
  | operation join ids =>
      rw [hk] at hshape
      exact nomatch hshape

/-- What a shape gives follows from its color and its distance. -/
def shapeSample (d : Device Color Distance) (shape : Option (Vec3 Single) × Distance) :
    Sample Color Distance :=
  ⟨d.color (shape.1.getD (.splat 0)), true, shape.2⟩

/-- Colors and distances of the shapes at or below a node, in the order of the shapes. -/
def painted (g : Graph) (distance : NodeId → Distance) (id : NodeId) :
    List (Option (Vec3 Single) × Distance) :=
  (g.shapes id).map fun a => ((g.shape? a).map (·.color), distance a)

theorem EvaluationAt.of_mem_shapes (h : g.EvaluationAt d distance value) {id a : NodeId}
    (ha : a ∈ g.shapes id) :
    value a = shapeSample d ((g.shape? a).map (·.color), distance a) := by
  rcases exists_shape_of_mem_shapes ha with ⟨n, s, hn, hk, hs⟩
  rw [h.shape hn hk, hs]
  rfl

theorem EvaluationAt.distance_of_mem_shapes (h : g.EvaluationAt d distance value) {id a : NodeId}
    (ha : a ∈ g.shapes id) : (value a).distance = distance a := by
  rw [h.of_mem_shapes ha]
  rfl

theorem EvaluationAt.map_shapes (h : g.EvaluationAt d distance value) (id : NodeId) :
    (g.shapes id).map value = (g.painted distance id).map (shapeSample d) := by
  rw [painted, List.map_map]
  exact List.map_congr_left fun a ha => h.of_mem_shapes ha

end Graph

/-! ## Text of a fragment -/

/-- The text of a node's fragment runs. It leaves in the register of the node what the node gives
where the shapes have the distances measured at the sample point, and takes it into the result. -/
theorem Scene.Reachable.run_measured {s : Scene} (h : s.Reachable) {id : NodeId}
    (known : id < s.graph.size) {Number Vector : Type} (A : Interpretation Number Vector)
    (p : Vector) (result : Sample Vector Number) :
    ∃ text after, s.graph.fragment id = .ok text ∧
      A.run? (.ofMap p result) text = some after ∧
      ∀ value, s.graph.EvaluationAt (A.device p) (s.graph.measured (A.device p)) value →
        after (s.graph.nameOf id) = some (.material (value id)) ∧
        after resultRegister
          = some (.material ((A.device p).takeIn .sharp (value id) result)) := by
  rcases h.run_node known A p result with ⟨text, after, hfragment, hrun, hleaves⟩
  exact ⟨text, after, hfragment, hrun, fun value hvalue =>
    hleaves value (Graph.evaluation_iff.2 hvalue)⟩

/-- What the text leaves can be computed without running it. -/
theorem Scene.Reachable.run_sampleAt {s : Scene} (h : s.Reachable) {id : NodeId}
    (known : id < s.graph.size) {Number Vector : Type} (A : Interpretation Number Vector)
    (p : Vector) (result : Sample Vector Number) :
    let d := A.device p
    let own := s.graph.sampleAt d (s.graph.measured d) s.graph.size id
    ∃ text after, s.graph.fragment id = .ok text ∧
      A.run? (.ofMap p result) text = some after ∧
      after.material? (s.graph.nameOf id) = some own ∧
      after.material? resultRegister = some (d.takeIn .sharp own result) := by
  intro d own
  rcases h.run_measured known A p result with ⟨text, after, hfragment, hrun, hleaves⟩
  rcases hleaves _ (h.forest.evaluationAt_sampleAt d _) with ⟨hown, hresult⟩
  refine ⟨text, after, hfragment, hrun, ?_, ?_⟩
  · rw [Variables.material?, hown]
  · rw [Variables.material?, hresult]

end SdfShader
