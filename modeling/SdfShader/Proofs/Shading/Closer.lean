import SdfShader.Proofs.Shading.Blending
import SdfShader.Proofs.Shading.Registers

/-!
# Closer — which child gives an operation its color

A child is compared with what the operation has collected from the children before it. Under a hard
union that is the least of their distances, but a smooth union has lowered it further by then, and
so a child that is nearer than every other one may come too late: it loses to a seam between two
others. Where it does not, no child behind it takes the color away again. Main statements:

* `color_foldl_of_le`: children that are no nearer than what was collected leave the color;
* `lt_distance_foldl`: what is collected stays above a bound that all children exceed by the
  smoothness;
* `nearest_child_wins_in_time`: the nearest child against the children before it;
* `nearest_child_too_late`: a nearest child that loses to two others.
-/

namespace SdfShader

open Shading

variable {Color : Type}

/-! ## Taking in one child -/

section Fold

variable {d : Device Color ℚ} {join : Join} {value : NodeId → Sample Color ℚ} {ids : List NodeId}

theorem color_takeIn (hd : d.Exact) (join : Join) (s t : Sample Color ℚ) :
    (d.takeIn join s t).color = (if s.distance < t.distance then s else t).color ∧
      (d.takeIn join s t).isLit = (if s.distance < t.distance then s else t).isLit := by
  have hless : d.less s.distance t.distance = decide (s.distance < t.distance) := hd.less _ _
  rw [Device.takeIn, Device.joinDistance, Device.takeCloser, hless]
  by_cases h : s.distance < t.distance
  · simp [h]
  · simp [h]

/-- Children that are no nearer than what has been collected leave color and lighting as they are. -/
theorem color_foldl_of_le (hd : d.Exact) (h : join.Accepted) (s : Sample Color ℚ)
    (hids : ∀ c ∈ ids, s.distance ≤ (value c).distance) :
    let after := ids.foldl (fun s c => d.takeIn join (value c) s) s
    after.color = s.color ∧ after.isLit = s.isLit := by
  induction ids generalizing s with
  | nil =>
      exact ⟨rfl, rfl⟩
  | cons c ids ih =>
      have hfirst := color_takeIn hd join (value c) s
      rw [if_neg (not_lt.2 (hids c List.mem_cons_self))] at hfirst
      have hrest : ∀ c' ∈ ids, (d.takeIn join (value c) s).distance ≤ (value c').distance := by
        intro c' hc'
        refine le_trans ?_ (hids c' (List.mem_cons_of_mem c hc'))
        rw [distance_takeIn hd h]
        exact smoothMin_le_left _ _ _
      rcases ih _ hrest with ⟨hcolor, hlit⟩
      exact ⟨hcolor.trans hfirst.1, hlit.trans hfirst.2⟩

/-- Collecting children that exceed a bound by the smoothness does not lead down to the bound. -/
theorem lt_distance_foldl (hd : d.Exact) (h : join.Accepted) {bound : ℚ}
    (hids : ∀ c ∈ ids, bound + join.smoothness < (value c).distance) (s : Sample Color ℚ)
    (hs : bound < s.distance) :
    bound < (ids.foldl (fun s c => d.takeIn join (value c) s) s).distance := by
  induction ids generalizing s with
  | nil =>
      exact hs
  | cons c ids ih =>
      refine ih (fun c' hc' => hids c' (List.mem_cons_of_mem c hc')) _ ?_
      have hlower := sub_lt_smoothMin h.smoothness_nonneg
        (by rwa [add_sub_cancel_right]) (hids c List.mem_cons_self)
      rwa [distance_takeIn hd h, ← add_sub_cancel_right bound join.smoothness]

/-- Where one child is nearer than all behind it, color and lighting are decided at its turn. -/
theorem color_foldl_split (hd : d.Exact) (h : join.Accepted) (before : List NodeId)
    {later : List NodeId} {child : NodeId}
    (hlater : ∀ c ∈ later, (value child).distance ≤ (value c).distance) (s : Sample Color ℚ) :
    let running := before.foldl (fun s c => d.takeIn join (value c) s) s
    let after := (before ++ child :: later).foldl (fun s c => d.takeIn join (value c) s) s
    let winner := if (value child).distance < running.distance then value child else running
    after.color = winner.color ∧ after.isLit = winner.isLit := by
  intro running after winner
  have hturn := color_takeIn hd join (value child) running
  have hrest : ∀ c ∈ later, (d.takeIn join (value child) running).distance ≤ (value c).distance := by
    intro c hc
    refine le_trans ?_ (hlater c hc)
    rw [distance_takeIn hd h]
    exact smoothMin_le_right _ _ _
  have hafter : after = later.foldl (fun s c => d.takeIn join (value c) s)
      (d.takeIn join (value child) running) := by
    simp only [after, running, List.foldl_append, List.foldl_cons]
  rcases color_foldl_of_le hd h _ hrest with ⟨hcolor, hlit⟩
  rw [hafter]
  exact ⟨hcolor.trans hturn.1, hlit.trans hturn.2⟩

end Fold

/-! ## Main results -/

namespace Scene

/-- In exact arithmetic the nearest child of an operation gives color and lighting if it comes in
time. When a fragment that contains the operation has run, the register of the operation holds what
its kind makes of its children's samples. Whatever these are: if one child is nearer than all others
and nearer than 1000, then the register holds its color and lighting if the child is nearer than
what the children before it leave, and else those of what they leave. In time is every child of a
hard union or of one with smoothness zero, the first child, and every child that is nearer than all
before it by more than the smoothness. -/
theorem nearest_child_wins_in_time {Vector : Type} (edits : List Edit)
    (A : Interpretation ℚ Vector) (p : Vector) (exact : (A.device p).Exact)
    (result : Sample Vector ℚ) {root id : NodeId} {n : Node} {join : Join}
    {before later : List NodeId} {child : NodeId}
    (known : root < (Scene.empty.run edits).graph.size)
    (below : id ∈ (Scene.empty.run edits).graph.descendants root)
    (node : (Scene.empty.run edits).graph.node? id = some n)
    (kind : n.kind = .operation join (before ++ child :: later)) :
    let g := (Scene.empty.run edits).graph
    let d := A.device p
    (∃ text vars, g.fragment root = .ok text ∧ A.run? (.ofMap p result) text = some vars ∧
      ∀ value, g.EvaluationAt d (g.measured d) value →
        vars n.name = some (.material (value id)) ∧ value id = n.kind.sampleAt d 1000 value) ∧
    ∀ value : NodeId → Sample Vector ℚ,
      (∀ sibling ∈ before ++ later, (value child).distance < (value sibling).distance) →
      (value child).distance < 1000 →
        let register := n.kind.sampleAt d 1000 value
        let running := (NodeKind.operation join before).sampleAt d 1000 value
        let winner := if (value child).distance < running.distance then value child else running
        register.color = winner.color ∧ register.isLit = winner.isLit ∧
        (join.smoothness = 0 ∨ (∀ sibling ∈ before,
            (value child).distance + join.smoothness < (value sibling).distance) →
          (value child).distance < running.distance) := by
  intro g d
  have h : (Scene.empty.run edits).Reachable := Reachable.empty.run edits
  have hjoin : join.Accepted := by
    have haccepted := h.accepted.kind node
    rwa [kind] at haccepted
  constructor
  · rcases h.run_registers known A p result with ⟨text, vars, htext, hrun, hvars⟩
    refine ⟨text, vars, htext, hrun, fun value hvalue => ⟨?_, ?_⟩⟩
    · rw [← Graph.nameOf_of_node? node]
      exact hvars value hvalue id below
    · rw [kind]
      exact hvalue.operation node kind
  · intro value hnearest hfar register running winner
    have hlater : ∀ c ∈ later, (value child).distance ≤ (value c).distance := fun c hc =>
      (hnearest c (List.mem_append_right before hc)).le
    have hregister : register = (before ++ child :: later).foldl
        (fun s c => d.takeIn join (value c) s) d.background := by
      simp only [register, kind, NodeKind.sampleAt]
    rcases color_foldl_split exact hjoin before hlater d.background with ⟨hcolor, hlit⟩
    rw [hregister]
    refine ⟨hcolor, hlit, fun htime => ?_⟩
    have hmargin : ∀ c ∈ before, (value child).distance + join.smoothness < (value c).distance := by
      rcases htime with hzero | hmargin
      · intro c hc
        rw [hzero, add_zero]
        exact hnearest c (List.mem_append_left later hc)
      · exact hmargin
    have hbackground : d.background.distance = 1000 := exact.distance_background
    exact lt_distance_foldl exact hjoin hmargin _ (hbackground ▸ hfar)

/-- Nearer than the child before it by 10, with a smoothness of 4. -/
theorem nearest_child_wins_in_time_four :
    let edits : List Edit := [.addSmoothUnion 4, .addSphere ⟨20, 0, 0⟩ 1 Demo.red,
      .addSphere ⟨0, 10, 0⟩ 1 Demo.green, .addChildren 1 [2, 3]]
    let g := (Scene.empty.run edits).graph
    let d := exactInterpretation.device (0, 0, 0)
    d.Exact ∧ rootId < g.size ∧ 1 ∈ g.descendants rootId ∧
      ∃ n, g.node? 1 = some n ∧ n.kind = .operation (.smooth 4) [2, 3] ∧
        ∀ value, g.EvaluationAt d (fun id => if id = 3 then 9 else 19) value →
          (value 3).distance < (value 2).distance ∧ (value 3).distance < 1000 ∧
          (value 1).color = (value 3).color := by
  intro edits g d
  have exact : d.Exact := exact_exactInterpretation _
  have known : rootId < g.size := by decide +kernel
  have below : 1 ∈ g.descendants rootId := by decide +kernel
  have node : g.node? 1 = some ⟨"op1", .operation (.smooth 4) [2, 3], some 0⟩ := by decide +kernel
  have hshapes : 2 ∈ g.shapes 1 ∧ 3 ∈ g.shapes 1 := by decide +kernel
  have hsmooth : (Join.smooth 4).smoothness = 4 := by decide +kernel
  refine ⟨exact, known, below, _, node, rfl, fun value hvalue => ?_⟩
  have htwo : (value 2).distance = 19 := hvalue.distance_of_mem_shapes hshapes.1
  have hthree : (value 3).distance = 9 := hvalue.distance_of_mem_shapes hshapes.2
  have hnearest : (value 3).distance < (value 2).distance := by
    rw [htwo, hthree]
    norm_num
  have hfar : (value 3).distance < 1000 := by
    rw [hthree]
    norm_num
  have kind : (⟨"op1", .operation (.smooth 4) [2, 3], some 0⟩ : Node).kind
      = .operation (.smooth 4) ([2] ++ 3 :: []) := rfl
  rcases (nearest_child_wins_in_time edits exactInterpretation (0, 0, 0) exact
    ⟨(0, 0, 0), false, 0⟩ known below node kind).2 value (by simpa using hnearest) hfar with
    ⟨hcolor, -, htime⟩
  have hmargin : (value 3).distance + (Join.smooth 4).smoothness < (value 2).distance := by
    rw [htwo, hthree, hsmooth]
    norm_num
  rw [if_pos (htime (.inr (by simpa using hmargin)))] at hcolor
  refine ⟨hnearest, hfar, ?_⟩
  rw [hvalue.operation node rfl]
  exact hcolor

/-- Two spheres at distance 32 and one at distance 17 behind them, under a smoothness of 64. -/
def seam : List Edit :=
  [.addSmoothUnion 64, .addSphere ⟨33, 0, 0⟩ 1 Demo.red, .addSphere ⟨0, 33, 0⟩ 1 Demo.green,
   .addSphere ⟨0, 0, 18⟩ 1 Demo.blue, .addChildren 1 [2, 3, 4]]

/-- Two equal distances are lowered by a quarter of the smoothness, here to 16, and so the third
sphere loses its color to the first one although it is the nearest. The text leaves the color of the
first one in the register of the smooth union. -/
theorem nearest_child_too_late :
    let g := (Scene.empty.run seam).graph
    let d := exactInterpretation.device (0, 0, 0)
    exactDevice.Exact ∧ g.children 1 = [2, 3, 4] ∧ g.smoothness? 1 = some 64 ∧
      (∀ value, g.Evaluation exactDevice value →
        (∀ sibling ∈ [2, 3], (value 4).distance < (value sibling).distance) ∧
        (value 4).distance < 1000 ∧ (value 4).color = Demo.blue ∧
        (value 1).color = Demo.red) ∧
      ∃ text after, g.fragment 1 = .ok text ∧
        exactInterpretation.run? (.ofMap (0, 0, 0) d.background) text = some after ∧
        (after.material? (g.nameOf 1)).map Sample.color = some (d.color Demo.red) := by
  intro g d
  have h : (Scene.empty.run seam).Reachable := Reachable.empty.run seam
  have f : g.Forest := h.forest
  have known : ∀ id ∈ [1, 2, 3, 4], id < g.size := by decide +kernel
  have hlinks : g.children 1 = [2, 3, 4] ∧ g.smoothness? 1 = some 64 := by decide +kernel
  have hsamples : [1, 2, 3, 4].map (g.sampleAt exactDevice (g.measured exactDevice) g.size)
      = [⟨Demo.red, true, 127 / 256⟩, ⟨Demo.red, true, 32⟩, ⟨Demo.green, true, 32⟩,
         ⟨Demo.blue, true, 17⟩] := by
    decide +kernel
  refine ⟨exact_exactDevice, hlinks.1, hlinks.2, fun value hvalue => ?_, ?_⟩
  · have hvalues : ∀ id ∈ [1, 2, 3, 4],
        value id = g.sampleAt exactDevice (g.measured exactDevice) g.size id := fun id hid =>
      Graph.EvaluationAt.eq f (Graph.evaluation_iff.1 hvalue)
        (f.evaluationAt_sampleAt exactDevice _) id (known id hid)
    rw [← List.map_congr_left hvalues] at hsamples
    simp only [List.map_cons, List.map_nil, List.cons.injEq, and_true] at hsamples
    rcases hsamples with ⟨hone, htwo, hthree, hfour⟩
    simp only [hone, htwo, hthree, hfour, List.forall_mem_cons, and_true]
    norm_num
  · rcases h.run_sampleAt (known 1 List.mem_cons_self) exactInterpretation (0, 0, 0)
      d.background with ⟨text, after, hfragment, hrun, hregister, -⟩
    refine ⟨text, after, hfragment, hrun, ?_⟩
    rw [hregister]
    decide +kernel

end Scene
end SdfShader
