import Mathlib.Tactic.NormNum
import SdfShader.Proofs.Shading.Blending

/-!
# Shapeless — operations without a shape below them

Such an operation reports at most the sentinel distance, lowered by the smoothness along one way down
at most (`shapeless_distance`). So it stays at 900 or above as long as no way down has more smoothness
than 100 in all, which holds where smooth unions are not nested. Where they are nested the sums have
no bound, and the distances follow them: `shapelessTree` takes it to 880 with 32 empty operations.
-/

namespace SdfShader
namespace Scene

open Shading

variable {Color : Type}

/-- An operation without shapes is at most as far as the sentinel, and lowered by no more than the
greatest sum of smoothness on a way down from it. If that is 100 or less, it stays at 900 or above,
and everything nearer than 900 is nearer. On the device of an interpretation the text of its fragment
runs and leaves what it gives. -/
theorem shapeless_distance (edits : List Edit) (d : Device Color ℚ) (exact : d.Exact) (id : NodeId)
    (operation : (Scene.empty.run edits).graph.IsOperation id)
    (shapeless : (Scene.empty.run edits).graph.shapes id = []) :
    let g := (Scene.empty.run edits).graph
    (∀ (A : Interpretation ℚ Color) (p : Color) (result : Sample Color ℚ), A.device p = d →
      ∃ text after, g.fragment id = .ok text ∧ A.run? (.ofMap p result) text = some after ∧
        ∀ value, g.EvaluationAt d (g.measured d) value →
          after (g.nameOf id) = some (.material (value id)) ∧
          after resultRegister = some (.material (d.takeIn .sharp (value id) result))) ∧
    ∃ depth, IsGreatest (g.waySums id) depth ∧
      ∀ (distance : NodeId → ℚ) value, g.EvaluationAt d distance value →
        1000 - depth ≤ (value id).distance ∧ (value id).distance ≤ 1000 ∧
        (depth ≤ 100 → 900 ≤ (value id).distance ∧
          ∀ near < 900, d.less near (value id).distance = true) := by
  intro g
  have h : (Scene.empty.run edits).Reachable := Reachable.empty.run edits
  have f : g.Forest := h.forest
  have haccepted : ∀ id n, g.node? id = some n → n.kind.Accepted := fun _ _ hn =>
    h.accepted.kind hn
  rcases f.exists_isGreatest_waySums id operation.lt_size with ⟨depth, hdepth⟩
  refine ⟨?_, depth, hdepth, fun distance value hvalue => ?_⟩
  · rintro A p result rfl
    exact h.run_measured operation.lt_size A p result
  have hlower : 1000 - depth ≤ (value id).distance :=
    f.sub_le_distance exact haccepted hvalue id operation.lt_size 1000 depth le_rfl
      (by simp [g, shapeless]) hdepth.2
  have hupper : (value id).distance ≤ 1000 :=
    Graph.Forest.distance_le_of_isOperation exact haccepted hvalue operation
  refine ⟨hlower, hupper, fun hshallow => ?_⟩
  have hfar : 900 ≤ (value id).distance := by linarith
  refine ⟨hfar, fun near hnear => ?_⟩
  rw [exact.less]
  exact decide_eq_true (hnear.trans_le hfar)

/-- Two smooth unions, one in the other, whose smoothness adds up to 100. -/
theorem shapeless_distance_nested :
    let edits : List Edit := [.addSmoothUnion 60, .addSmoothUnion 40, .addChildren 1 [2]]
    let g := (Scene.empty.run edits).graph
    let d := exactInterpretation.device (0, 0, 0)
    d.Exact ∧ g.IsOperation 1 ∧ g.shapes 1 = [] ∧
      (∀ value, g.Evaluation d value → 900 ≤ (value 1).distance) ∧
      ∃ text after own, g.fragment 1 = .ok text ∧
        exactInterpretation.run? (.ofMap (0, 0, 0) d.background) text = some after ∧
        after (g.nameOf 1) = some (.material own) ∧ 900 ≤ own.distance := by
  intro edits g d
  have exact : d.Exact := exact_exactInterpretation _
  have hnode : (g.node? 1).map (·.kind.isOperation) = some true := by decide +kernel
  have hshapes : g.shapes 1 = [] := by decide +kernel
  have hinner : g.children 1 = [2] ∧ g.children 2 = [] := by decide +kernel
  have hsmooth : g.smoothness 1 = 60 ∧ g.smoothness 2 = 40 := by decide +kernel
  rcases Option.map_eq_some_iff.1 hnode with ⟨n, hn, hop⟩
  have operation : g.IsOperation 1 := ⟨n, hn, hop⟩
  rcases shapeless_distance edits d exact 1 operation hshapes with
    ⟨htext, depth, hdepth, hbounds⟩
  have hshallow : depth ≤ 100 := by
    rcases Graph.mem_waySums_iff.1 hdepth.1 with hsum | ⟨c, hc, below, hbelow, hsum⟩
    · rw [hsum, hsmooth.1]
      norm_num
    · rw [hinner.1, List.mem_singleton] at hc
      rw [hc] at hbelow
      rcases Graph.mem_waySums_iff.1 hbelow with hlast | ⟨c', hc', -⟩
      · rw [hsum, hlast, hsmooth.1, hsmooth.2]
        norm_num
      · rw [hinner.2] at hc'
        exact nomatch hc'
  have hfar : ∀ value, g.Evaluation d value → 900 ≤ (value 1).distance := fun value hvalue =>
    ((hbounds _ value (Graph.evaluation_iff.1 hvalue)).2.2 hshallow).1
  refine ⟨exact, operation, hshapes, hfar, ?_⟩
  rcases htext exactInterpretation (0, 0, 0) d.background rfl with
    ⟨text, after, hfragment, hrun, hleaves⟩
  rcases (Reachable.empty.run edits).forest.exists_evaluation d with ⟨value, hvalue⟩
  have hown := (hleaves value (Graph.evaluation_iff.1 hvalue)).1
  exact ⟨text, after, value 1, hfragment, hrun, hown, hfar value hvalue⟩

/-! ## Nested smooth unions -/

/-- A tree of 32 smooth unions without a shape. The numbers below 32 are its nodes, and a number
with a one in front of trailing zeros is below that with a zero in its place; each node has one
child of every smaller order. -/
def shapelessTree : List Edit :=
  List.replicate 32 (.addSmoothUnion 96) ++
    (List.range 32).map fun node =>
      .addChildren (node + 1)
        (((List.range 5).filter fun bit => node % 2 ^ (bit + 1) = 0).map fun bit =>
          node + 2 ^ bit + 1)

/-- The background meets the first child, and then two equal distances meet at every further child,
so each of five children takes off a quarter of 96. This is what the text leaves, in the register of
the operation and in a result that starts from the background. -/
theorem shapelessTree_below_nine_hundred :
    let g := (Scene.empty.run shapelessTree).graph
    let d := exactInterpretation.device (0, 0, 0)
    g.IsOperation 1 ∧ g.shapes 1 = [] ∧ exactDevice.Exact ∧ d.Exact ∧
      (∀ value, g.Evaluation exactDevice value →
        (value 1).distance = 880 ∧ exactDevice.less 890 (value 1).distance = false) ∧
      ∃ text after, g.fragment 1 = .ok text ∧
        exactInterpretation.run? (.ofMap (0, 0, 0) d.background) text = some after ∧
        ∀ register ∈ [g.nameOf 1, resultRegister],
          (after.material? register).map Sample.distance = some 880 := by
  intro g d
  have h : (Scene.empty.run shapelessTree).Reachable := Reachable.empty.run shapelessTree
  have known : 1 < g.size := by decide +kernel
  have hnode : (g.node? 1).map (·.kind.isOperation) = some true := by decide +kernel
  have hshapes : g.shapes 1 = [] := by decide +kernel
  have hsample : (g.sampleAt exactDevice (g.measured exactDevice) g.size 1).distance = 880 := by
    decide +kernel
  have hown : (g.sampleAt d (g.measured d) g.size 1).distance = 880 := by
    decide +kernel
  rcases Option.map_eq_some_iff.1 hnode with ⟨n, hn, hop⟩
  refine ⟨⟨n, hn, hop⟩, hshapes, exact_exactDevice, exact_exactInterpretation _, ?_, ?_⟩
  · intro value hvalue
    have hdistance : (value 1).distance = 880 := by
      rw [Graph.EvaluationAt.eq h.forest (Graph.evaluation_iff.1 hvalue)
        (h.forest.evaluationAt_sampleAt exactDevice _) 1 known, hsample]
    rw [hdistance]
    exact ⟨rfl, by decide⟩
  · rcases h.run_sampleAt known exactInterpretation (0, 0, 0) d.background with
      ⟨text, after, hfragment, hrun, hregister, hresult⟩
    have hleft : (d.takeIn .sharp (g.sampleAt d (g.measured d) g.size 1) d.background).distance
        = 880 := by
      have hsharp : Join.sharp.Accepted := trivial
      rw [distance_takeIn (exact_exactInterpretation _) hsharp, hown]
      decide +kernel
    refine ⟨text, after, hfragment, hrun, ?_⟩
    rw [List.forall_mem_cons, List.forall_mem_singleton, hregister, hresult]
    exact ⟨congrArg some hown, congrArg some hleft⟩

end Scene
end SdfShader
