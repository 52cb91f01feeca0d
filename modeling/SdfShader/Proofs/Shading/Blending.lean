import Mathlib.Algebra.BigOperators.Group.List.Basic
import Mathlib.Algebra.Order.Group.Unbundled.Basic
import Mathlib.Tactic.NormNum
import SdfShader.Proofs.Shading.Assignment
import SdfShader.Proofs.Shading.Exact
import SdfShader.Scene.Demo

/-!
# Blending — how far smooth unions lower a distance

In exact arithmetic an operation folds its children's distances into its own with the smooth minimum
of its smoothness, which is zero for a hard union. One fold lowers the distance by no more than the
smoothness, whatever the number of children, and below a node the folds that can add up are those
along one way down. Main statements:

* `Forest.exists_isGreatest_waySums`: some way down from a node has the greatest sum of smoothness;
* `Forest.sub_le_distance`, `Forest.distance_le`: bounds of the distance of a node;
* `blending_bounded`: an operation reports the least distance, lowered by that greatest sum at most.
-/

namespace SdfShader

open Shading

variable {Color : Type}

/-! ## Folds -/

section Fold

variable {d : Device Color ℚ} {join : Join} {value : NodeId → Sample Color ℚ} {ids : List NodeId}

/-- The color that is taken in does not matter for the distance. -/
theorem distance_takeIn (hd : d.Exact) (h : join.Accepted) (s t : Sample Color ℚ) :
    (d.takeIn join s t).distance = smoothMin t.distance s.distance join.smoothness := by
  have hkept : (d.takeCloser s t).distance = t.distance := by
    unfold Device.takeCloser
    split <;> rfl
  rw [Device.takeIn, Device.joinDistance, hkept, hd.join_eq h]

/-- Folding children lowers the distance by no more than the smoothness, below what bounds the
children. -/
theorem sub_le_distance_foldl (hd : d.Exact) (h : join.Accepted) {least : ℚ}
    (hids : ∀ c ∈ ids, least ≤ (value c).distance) (s : Sample Color ℚ)
    (hs : least - join.smoothness ≤ s.distance) :
    least - join.smoothness
      ≤ (ids.foldl (fun s c => d.takeIn join (value c) s) s).distance := by
  induction ids generalizing s with
  | nil =>
      exact hs
  | cons c ids ih =>
      refine ih (fun c' hc' => hids c' (List.mem_cons_of_mem c hc')) _ ?_
      rw [distance_takeIn hd h]
      exact sub_le_smoothMin h.smoothness_nonneg hs (hids c List.mem_cons_self)

theorem distance_foldl_le (hd : d.Exact) (h : join.Accepted) (s : Sample Color ℚ) :
    (ids.foldl (fun s c => d.takeIn join (value c) s) s).distance ≤ s.distance := by
  induction ids generalizing s with
  | nil =>
      exact le_rfl
  | cons c ids ih =>
      refine (ih _).trans ?_
      rw [distance_takeIn hd h]
      exact smoothMin_le_left _ _ _

/-- Folding children gives no more than any of them. -/
theorem distance_foldl_le_of_mem (hd : d.Exact) (h : join.Accepted) (s : Sample Color ℚ)
    {child : NodeId} (hchild : child ∈ ids) :
    (ids.foldl (fun s c => d.takeIn join (value c) s) s).distance ≤ (value child).distance := by
  induction ids generalizing s with
  | nil =>
      exact nomatch hchild
  | cons c ids ih =>
      rcases List.mem_cons.1 hchild with rfl | hrest
      · rw [List.foldl_cons]
        refine (distance_foldl_le hd h _).trans ?_
        rw [distance_takeIn hd h]
        exact smoothMin_le_right _ _ _
      · exact ih _ hrest

end Fold

namespace Graph

variable {g : Graph} {id : NodeId}

/-! ## Ways down -/

/-- The smoothness of a node, none if it is not a smooth union. -/
def smoothness (g : Graph) (id : NodeId) : ℚ :=
  (g.smoothness? id).elim 0 Binary.value

/-- Whether a list of nodes leads down from a node, from owners to their children. -/
def IsWayDown (g : Graph) (id : NodeId) (path : List NodeId) : Prop :=
  path.head? = some id ∧ path.IsChain fun owner child => child ∈ g.children owner

/-- The sums of smoothness along the ways down from a node. -/
def waySums (g : Graph) (id : NodeId) : Set ℚ :=
  {sum | ∃ path, g.IsWayDown id path ∧ (path.map g.smoothness).sum = sum}

theorem smoothness_of_operation {n : Node} {join : Join} {ids : List NodeId}
    (hn : g.node? id = some n) (hk : n.kind = .operation join ids) :
    g.smoothness id = join.smoothness := by
  rw [smoothness, smoothness?_of_node? hn, hk]
  cases join <;> rfl

theorem smoothness_of_shape {n : Node} {s : Shape} (hn : g.node? id = some n)
    (hk : n.kind = .shape s) : g.smoothness id = 0 := by
  rw [smoothness, smoothness?_of_node? hn, hk]
  rfl

/-- A join of a graph is accepted where its nodes are. -/
theorem accepted_join (haccepted : ∀ id n, g.node? id = some n → n.kind.Accepted) {n : Node}
    {join : Join} {ids : List NodeId} (hn : g.node? id = some n)
    (hk : n.kind = .operation join ids) : join.Accepted := by
  have haccept := haccepted id n hn
  rwa [hk] at haccept

/-- A way down is the node alone, or the node and a way down from one of its children. -/
theorem mem_waySums_iff {sum : ℚ} : sum ∈ g.waySums id ↔
    sum = g.smoothness id ∨
      ∃ c ∈ g.children id, ∃ rest ∈ g.waySums c, sum = g.smoothness id + rest := by
  constructor
  · rintro ⟨path, ⟨hhead, hchain⟩, rfl⟩
    rcases path with _ | ⟨a, _ | ⟨c, path⟩⟩
    · exact nomatch hhead
    · rcases Option.some.inj hhead with rfl
      exact .inl (by simp)
    · rcases Option.some.inj hhead with rfl
      rcases List.isChain_cons_cons.1 hchain with ⟨hc, hrest⟩
      exact .inr ⟨c, hc, _, ⟨c :: path, ⟨rfl, hrest⟩, rfl⟩, by simp⟩
  · rintro (rfl | ⟨c, hc, rest, ⟨path, ⟨hhead, hchain⟩, rfl⟩, rfl⟩)
    · exact ⟨[id], ⟨rfl, List.isChain_singleton _⟩, by simp⟩
    · rcases path with _ | ⟨a, path⟩
      · exact nomatch hhead
      · rcases Option.some.inj hhead with rfl
        exact ⟨id :: a :: path, ⟨rfl, List.isChain_cons_cons.2 ⟨hc, hchain⟩⟩, by simp⟩

/-- Of finitely many sets with a greatest element, and a number, some element is the greatest. -/
theorem exists_isGreatest_of_forall {sums : NodeId → Set ℚ} (base : ℚ) (ids : List NodeId)
    (h : ∀ c ∈ ids, ∃ greatest, IsGreatest (sums c) greatest) :
    ∃ greatest, IsGreatest {x | x = base ∨ ∃ c ∈ ids, x ∈ sums c} greatest := by
  induction ids with
  | nil =>
      exact ⟨base, .inl rfl, by simp [upperBounds]⟩
  | cons c ids ih =>
      rcases h c List.mem_cons_self with ⟨first, hfirst⟩
      rcases ih fun c' hc' => h c' (List.mem_cons_of_mem c hc') with ⟨rest, hrest⟩
      have hunion : {x | x = base ∨ ∃ c' ∈ c :: ids, x ∈ sums c'}
          = sums c ∪ {x | x = base ∨ ∃ c' ∈ ids, x ∈ sums c'} := by
        ext x
        simp only [List.mem_cons, exists_eq_or_imp, Set.mem_ofPred_eq, Set.mem_union]
        exact or_left_comm
      exact ⟨_, hunion ▸ hfirst.union hrest⟩

namespace Forest

theorem exists_isGreatest_waySums (f : g.Forest) :
    ∀ id, id < g.size → ∃ greatest, IsGreatest (g.waySums id) greatest := by
  refine f.level_induction ?_
  intro id known ih
  rcases exists_isGreatest_of_forall 0 (g.children id) ih with ⟨rest, hmem, hrest⟩
  refine ⟨g.smoothness id + rest, mem_waySums_iff.2 ?_, ?_⟩
  · rcases hmem with hzero | ⟨c, hc, hsum⟩
    · exact .inl (by rw [hzero, add_zero])
    · exact .inr ⟨c, hc, rest, hsum, rfl⟩
  · intro sum hsum
    rcases mem_waySums_iff.1 hsum with rfl | ⟨c, hc, below, hbelow, rfl⟩
    · exact le_add_of_nonneg_right (hrest (.inl rfl))
    · exact add_le_add_right (hrest (.inr ⟨c, hc, hbelow⟩)) _

/-- Where no node has any smoothness, no way down has. -/
theorem waySums_eq_zero (f : g.Forest) :
    ∀ id, id < g.size → (∀ a ∈ g.descendants id, g.smoothness a = 0) →
      ∀ sum ∈ g.waySums id, sum = 0 := by
  refine f.level_induction ?_
  intro id known ih hzero sum hsum
  have hdescendants : g.descendants id = id :: (g.children id).flatMap g.subtree := by
    rw [f.descendants_eq_subtree known, f.subtree_eq known]
  rw [hdescendants] at hzero
  have hself : g.smoothness id = 0 := hzero id List.mem_cons_self
  rcases mem_waySums_iff.1 hsum with rfl | ⟨c, hc, below, hbelow, rfl⟩
  · exact hself
  · have hrest : below = 0 := by
      refine ih c hc (fun a ha => hzero a ?_) below hbelow
      rw [f.descendants_eq_subtree (f.lt_size_of_mem_children hc)] at ha
      exact List.mem_cons_of_mem id (List.mem_flatMap.2 ⟨c, hc, ha⟩)
    rw [hself, hrest, add_zero]

/-! ## Bounds of a node -/

variable {d : Device Color ℚ} {distance : NodeId → ℚ} {value : NodeId → Sample Color ℚ}

/-- What bounds the background and all shapes below a node bounds the node, lowered by the sums of
smoothness on the ways down. -/
theorem sub_le_distance (f : g.Forest) (hd : d.Exact)
    (haccepted : ∀ id n, g.node? id = some n → n.kind.Accepted)
    (h : g.EvaluationAt d distance value) :
    ∀ id, id < g.size → ∀ least depth : ℚ, least ≤ 1000 →
      (∀ a ∈ g.shapes id, least ≤ distance a) → depth ∈ upperBounds (g.waySums id) →
        least - depth ≤ (value id).distance := by
  refine f.level_induction ?_
  intro id known ih least depth hfar hshapes hdepth
  rcases exists_node?_iff.2 known with ⟨n, hn⟩
  have hself : g.smoothness id ≤ depth := hdepth (mem_waySums_iff.2 (.inl rfl))
  cases hk : n.kind with
  | shape s =>
      have hmem : id ∈ g.shapes id := by simp [f.shapes_shape hn hk]
      have hnone : g.smoothness id = 0 := smoothness_of_shape hn hk
      rw [h.shape hn hk]
      have hleast := hshapes id hmem
      dsimp only
      linarith
  | operation join ids =>
      have hjoin : join.Accepted := accepted_join haccepted hn hk
      have hids : g.children id = ids := children_of_operation hn hk
      have hsmooth : g.smoothness id = join.smoothness := smoothness_of_operation hn hk
      -- What is left of the depth bounds the ways down from the children.
      have hchildren : ∀ c ∈ ids, least - (depth - join.smoothness) ≤ (value c).distance := by
        intro c hc
        refine ih c (hids ▸ hc) least _ hfar ?_ ?_
        · intro a ha
          apply hshapes a
          rw [f.shapes_operation hn hk]
          exact List.mem_flatMap.2 ⟨c, hc, ha⟩
        · intro sum hsum
          have hway := hdepth (mem_waySums_iff.2 (.inr ⟨c, hids ▸ hc, sum, hsum, rfl⟩))
          linarith
      have hstart : least - (depth - join.smoothness) - join.smoothness
          ≤ d.background.distance := by
        rw [hd.distance_background]
        linarith [hjoin.smoothness_nonneg]
      have hfold := sub_le_distance_foldl hd hjoin hchildren d.background hstart
      rw [h.operation hn hk]
      linarith

theorem operation_distance_le (hd : d.Exact)
    (haccepted : ∀ id n, g.node? id = some n → n.kind.Accepted)
    (h : g.EvaluationAt d distance value) {n : Node} {join : Join} {ids : List NodeId}
    (hn : g.node? id = some n) (hk : n.kind = .operation join ids) :
    (value id).distance ≤ 1000 ∧ ∀ c ∈ ids, (value id).distance ≤ (value c).distance := by
  have hjoin : join.Accepted := accepted_join haccepted hn hk
  rw [h.operation hn hk, ← hd.distance_background]
  exact ⟨distance_foldl_le hd hjoin _, fun c hc => distance_foldl_le_of_mem hd hjoin _ hc⟩

/-- No operation is farther than the background that it starts from. -/
theorem distance_le_of_isOperation (hd : d.Exact)
    (haccepted : ∀ id n, g.node? id = some n → n.kind.Accepted)
    (h : g.EvaluationAt d distance value) (operation : g.IsOperation id) :
    (value id).distance ≤ 1000 := by
  rcases operation with ⟨n, hn, hop⟩
  cases hk : n.kind with
  | shape s =>
      simp [hk, NodeKind.isOperation] at hop
  | operation join ids =>
      exact (operation_distance_le hd haccepted h hn hk).1

/-- No node is farther than a shape below it. -/
theorem distance_le (f : g.Forest) (hd : d.Exact)
    (haccepted : ∀ id n, g.node? id = some n → n.kind.Accepted)
    (h : g.EvaluationAt d distance value) :
    ∀ id, id < g.size → ∀ a ∈ g.shapes id, (value id).distance ≤ distance a := by
  refine f.level_induction ?_
  intro id known ih a ha
  rcases exists_node?_iff.2 known with ⟨n, hn⟩
  cases hk : n.kind with
  | shape s =>
      rw [f.shapes_shape hn hk, List.mem_singleton] at ha
      rw [ha, h.shape hn hk]
  | operation join ids =>
      rw [f.shapes_operation hn hk] at ha
      rcases List.mem_flatMap.1 ha with ⟨c, hc, ha⟩
      have hids : g.children id = ids := children_of_operation hn hk
      exact ((operation_distance_le hd haccepted h hn hk).2 c hc).trans (ih c (hids ▸ hc) a ha)

end Forest

theorem exists_isLeast_distance (distance : NodeId → ℚ) (far : ℚ) (ids : List NodeId) :
    ∃ least, IsLeast {x | x = far ∨ ∃ a ∈ ids, distance a = x} least := by
  induction ids with
  | nil =>
      exact ⟨far, .inl rfl, by simp [lowerBounds]⟩
  | cons a ids ih =>
      rcases ih with ⟨least, hleast⟩
      have hunion : {x | x = far ∨ ∃ b ∈ a :: ids, distance b = x}
          = {distance a} ∪ {x | x = far ∨ ∃ b ∈ ids, distance b = x} := by
        ext x
        simp only [List.mem_cons, exists_eq_or_imp, Set.mem_ofPred_eq, Set.mem_union,
          Set.mem_singleton_iff, eq_comm (a := x) (b := distance a)]
        exact or_left_comm
      exact ⟨_, hunion ▸ isLeast_singleton.union hleast⟩

end Graph

/-! ## Main results -/

namespace Scene

/-- In exact arithmetic the distance that an operation reports is at most the least of 1000 and the
distances of the shapes below it, and at least that less the greatest sum of smoothness that a way
down from the operation has. Without smoothness below it, it is that least distance. On the device
of an interpretation, the text of the operation's fragment runs, and what it leaves in the register
of the operation and takes into the result is what is reported for the distances measured there. -/
theorem blending_bounded (edits : List Edit) (d : Device Color ℚ) (exact : d.Exact) (id : NodeId)
    (operation : (Scene.empty.run edits).graph.IsOperation id) :
    let g := (Scene.empty.run edits).graph
    (∀ (A : Interpretation ℚ Color) (p : Color) (result : Sample Color ℚ), A.device p = d →
      ∃ text after, g.fragment id = .ok text ∧ A.run? (.ofMap p result) text = some after ∧
        ∀ value, g.EvaluationAt d (g.measured d) value →
          after (g.nameOf id) = some (.material (value id)) ∧
          after resultRegister = some (.material (d.takeIn .sharp (value id) result))) ∧
    (∃ depth, IsGreatest (g.waySums id) depth) ∧
    ∀ distance : NodeId → ℚ,
      (∃ value, g.EvaluationAt d distance value) ∧
      (∃ least, IsLeast {x | x = 1000 ∨ ∃ a ∈ g.shapes id, distance a = x} least) ∧
      ∀ value depth least, g.EvaluationAt d distance value → IsGreatest (g.waySums id) depth →
        IsLeast {x | x = 1000 ∨ ∃ a ∈ g.shapes id, distance a = x} least →
          least - depth ≤ (value id).distance ∧ (value id).distance ≤ least ∧
          ((∀ a ∈ g.descendants id, g.smoothness a = 0) → (value id).distance = least) := by
  intro g
  have h : (Scene.empty.run edits).Reachable := Reachable.empty.run edits
  have f : g.Forest := h.forest
  have haccepted : ∀ id n, g.node? id = some n → n.kind.Accepted := fun _ _ hn =>
    h.accepted.kind hn
  have known : id < g.size := operation.lt_size
  refine ⟨?_, f.exists_isGreatest_waySums id known, fun distance => ?_⟩
  · rintro A p result rfl
    exact h.run_measured known A p result
  refine ⟨f.exists_evaluationAt d distance, Graph.exists_isLeast_distance distance 1000 _, ?_⟩
  intro value depth least hvalue hdepth hleast
  have hfar : least ≤ 1000 := hleast.2 (.inl rfl)
  have hshapes : ∀ a ∈ g.shapes id, least ≤ distance a := fun a ha => hleast.2 (.inr ⟨a, ha, rfl⟩)
  have hlower : ∀ depth ∈ upperBounds (g.waySums id), least - depth ≤ (value id).distance :=
    fun depth hdepth => f.sub_le_distance exact haccepted hvalue id known least depth hfar hshapes
      hdepth
  have hupper : (value id).distance ≤ least := by
    rcases hleast.1 with hsentinel | ⟨a, ha, hdistance⟩
    · rw [hsentinel]
      exact Graph.Forest.distance_le_of_isOperation exact haccepted hvalue operation
    · rw [← hdistance]
      exact f.distance_le exact haccepted hvalue id known a ha
  refine ⟨hlower depth hdepth.2, hupper, fun hzero => le_antisymm hupper ?_⟩
  have hnone : (0 : ℚ) ∈ upperBounds (g.waySums id) := fun sum hsum =>
    (f.waySums_eq_zero id known hzero sum hsum).le
  simpa using hlower 0 hnone

/-- Three shapes at distance 3 under a smoothness of one half. -/
theorem blending_bounded_blend :
    let g := (Scene.empty.run Demo.blend.edits).graph
    let d := exactInterpretation.device (0, 0, 0)
    d.Exact ∧ g.IsOperation 1 ∧
      (∃ text after, g.fragment 1 = .ok text ∧
        exactInterpretation.run? (.ofMap (0, 0, 0) d.background) text = some after) ∧
      ∀ value, g.EvaluationAt d (fun _ => 3) value →
        5 / 2 ≤ (value 1).distance ∧ (value 1).distance ≤ 3 := by
  intro g d
  have exact : d.Exact := exact_exactInterpretation _
  have hnode : (g.node? 1).map (·.kind.isOperation) = some true := by decide +kernel
  have hshapes : g.shapes 1 = [2, 3, 4] := by decide +kernel
  have hsmooth : ∀ a ∈ [1, 2, 3, 4], g.smoothness a = if a = 1 then 1 / 2 else 0 := by
    decide +kernel
  have hchildren : g.children 1 = [2, 3, 4] ∧ ∀ a ∈ [2, 3, 4], g.children a = [] := by
    decide +kernel
  rcases Option.map_eq_some_iff.1 hnode with ⟨n, hn, hop⟩
  have operation : g.IsOperation 1 := ⟨n, hn, hop⟩
  rcases blending_bounded Demo.blend.edits d exact 1 operation with
    ⟨htext, ⟨depth, hdepth⟩, hdistance⟩
  rcases htext exactInterpretation (0, 0, 0) d.background rfl with ⟨text, after, hfragment, hrun, -⟩
  refine ⟨exact, operation, ⟨text, after, hfragment, hrun⟩, fun value hvalue => ?_⟩
  rcases hdistance fun _ => 3 with ⟨-, ⟨least, hleast⟩, hbounds⟩
  rcases hbounds value depth least hvalue hdepth hleast with ⟨hlower, hupper, -⟩
  have hleast : least = 3 := by
    refine hleast.unique ⟨.inr ⟨2, by simp [g, hshapes], rfl⟩, ?_⟩
    rintro x (rfl | ⟨a, -, rfl⟩) <;> norm_num
  have hdepth : depth ≤ 1 / 2 := by
    rcases Graph.mem_waySums_iff.1 hdepth.1 with hsum | ⟨c, hc, below, hbelow, hsum⟩
    · rw [hsum, hsmooth 1 (by simp), if_pos rfl]
    · rw [hchildren.1] at hc
      rcases Graph.mem_waySums_iff.1 hbelow with hlast | ⟨c', hc', -⟩
      · have hnone : g.smoothness c = 0 := by
          rw [hsmooth c (List.mem_cons_of_mem 1 hc), if_neg]
          rintro rfl
          exact absurd hc (by decide)
        rw [hsum, hlast, hnone, hsmooth 1 (by simp), if_pos rfl, add_zero]
      · rw [hchildren.2 c hc] at hc'
        exact nomatch hc'
  constructor <;> linarith

end Scene
end SdfShader
