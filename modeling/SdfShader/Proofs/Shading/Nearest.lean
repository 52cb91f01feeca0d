import Mathlib.Order.Bounds.Basic
import Mathlib.Order.MinMax
import SdfShader.Proofs.Shading.Assignment
import SdfShader.Text.Digits

/-!
# Nearest — hard unions give the nearest shape

Where distances are compared and joined as a linear order says, taking in a sample means keeping the
nearer one of two, the first of two that are equally near. This is associative, so a nested union
gives what its shapes give one after the other, in the order of their declarations:

1. `Forest.nearer_eq_foldl` flattens the evaluation of a tree of hard unions;
2. `foldl_nearer_of_find?` says which sample is left of a list, `distance_foldl_nearer` how far it is;
3. `Forest.takeIn_root_of_isLeast` and `Forest.takeIn_root_of_le` say it of the shapes of a scene;
4. `nearest_shape_wins` puts all together, `nearest_shape_wins_spheres` is a scene of three spheres.
-/

namespace SdfShader

open Shading

variable {Color Distance : Type} [LinearOrder Distance]

/-! ## The nearer of two samples -/

/-- Whether a device compares and joins distances as their order says. -/
structure Device.Ordered (d : Device Color Distance) : Prop where
  less : ∀ x y, d.less x y = decide (x < y)
  min : ∀ x y, d.min x y = Min.min x y

namespace Sample

/-- The nearer one of two samples, the first one if they are equally near. -/
def nearer (s t : Sample Color Distance) : Sample Color Distance :=
  if t.distance < s.distance then t else s

variable {r s t : Sample Color Distance}

theorem nearer_of_lt (h : t.distance < s.distance) : s.nearer t = t :=
  if_pos h

theorem nearer_of_le (h : s.distance ≤ t.distance) : s.nearer t = s :=
  if_neg (not_lt.2 h)

theorem distance_nearer : (s.nearer t).distance = min s.distance t.distance := by
  rcases lt_or_ge t.distance s.distance with h | h
  · rw [nearer_of_lt h, min_eq_right h.le]
  · rw [nearer_of_le h, min_eq_left h]

theorem nearer_assoc : (r.nearer s).nearer t = r.nearer (s.nearer t) := by
  rcases lt_or_ge t.distance s.distance with hts | hst
  · -- The third is nearer than the second, so the second does not count.
    rw [nearer_of_lt hts]
    rcases lt_or_ge s.distance r.distance with hsr | hrs
    · rw [nearer_of_lt hsr, nearer_of_lt hts, nearer_of_lt (hts.trans hsr)]
    · rw [nearer_of_le hrs]
  · rw [nearer_of_le hst, nearer_of_le]
    rw [distance_nearer]
    exact (min_le_right _ _).trans hst

theorem nearer_foldl (s t : Sample Color Distance) (l : List (Sample Color Distance)) :
    s.nearer (l.foldl nearer t) = l.foldl nearer (s.nearer t) := by
  induction l generalizing t with
  | nil =>
      rfl
  | cons u l ih =>
      rw [List.foldl_cons, List.foldl_cons, ih, nearer_assoc]

/-! ## The nearest of a list -/

theorem distance_foldl_nearer (s : Sample Color Distance) (l : List (Sample Color Distance)) :
    (l.foldl nearer s).distance = (l.map (·.distance)).foldl min s.distance := by
  induction l generalizing s with
  | nil =>
      rfl
  | cons t l ih =>
      rw [List.foldl_cons, ih, distance_nearer, List.map_cons, List.foldl_cons]

/-- What is at least as near as all others is kept. -/
theorem foldl_nearer_of_le {l : List (Sample Color Distance)}
    (h : ∀ t ∈ l, s.distance ≤ t.distance) : l.foldl nearer s = s := by
  induction l with
  | nil =>
      rfl
  | cons t l ih =>
      rw [List.foldl_cons, nearer_of_le (h t List.mem_cons_self)]
      exact ih fun u hu => h u (List.mem_cons_of_mem t hu)

/-- What is left is the first with the least distance, if that is less than the distance there was
before. -/
theorem foldl_nearer_of_find? {l : List (Sample Color Distance)} {least : Distance}
    (hleast : ∀ u ∈ l, least ≤ u.distance) (hlt : least < s.distance)
    (hfind : l.find? (·.distance = least) = some t) : l.foldl nearer s = t := by
  induction l generalizing s with
  | nil =>
      exact nomatch hfind
  | cons u l ih =>
      have hrest : ∀ v ∈ l, least ≤ v.distance := fun v hv => hleast v (List.mem_cons_of_mem u hv)
      rw [List.foldl_cons]
      by_cases hu : u.distance = least
      · -- The first one is taken, and nothing behind it is nearer.
        rw [List.find?_cons_of_pos (by simpa using hu)] at hfind
        rw [← Option.some.inj hfind, nearer_of_lt (hu ▸ hlt)]
        exact foldl_nearer_of_le (hu ▸ hrest)
      · rw [List.find?_cons_of_neg (by simpa using hu)] at hfind
        have hfar : least < u.distance :=
          lt_of_le_of_ne (hleast u List.mem_cons_self) (Ne.symm hu)
        refine ih hrest ?_ hfind
        rw [distance_nearer]
        exact lt_min hlt hfar

end Sample

/-! ## Flattening -/

variable {d : Device Color Distance}

theorem Device.Ordered.takeIn_sharp (hd : d.Ordered) (s t : Sample Color Distance) :
    d.takeIn .sharp s t = t.nearer s := by
  rcases lt_or_ge s.distance t.distance with h | h
  · have hless : d.less s.distance t.distance = true := by simp [hd.less, h]
    have hmin : Min.min t.distance s.distance = s.distance := min_eq_right h.le
    rw [Sample.nearer_of_lt h]
    simp [Device.takeIn, Device.takeCloser, Device.joinDistance, Device.join, hless, hd.min, hmin]
  · have hless : d.less s.distance t.distance = false := by simp [hd.less, h]
    have hmin : Min.min t.distance s.distance = t.distance := min_eq_left h
    rw [Sample.nearer_of_le h]
    simp [Device.takeIn, Device.takeCloser, Device.joinDistance, Device.join, hless, hd.min, hmin]

namespace Graph

variable {g : Graph} {distance : NodeId → Distance} {value : NodeId → Sample Color Distance}

theorem EvaluationAt.foldl_sharp (hd : d.Ordered) (h : g.EvaluationAt d distance value)
    {id : NodeId} {n : Node} {ids : List NodeId} (hn : g.node? id = some n)
    (hk : n.kind = .operation .sharp ids) :
    value id = (ids.map value).foldl Sample.nearer d.background := by
  rw [h.operation hn hk, List.foldl_map]
  exact List.foldl_ext _ _ _ fun s c _ => hd.takeIn_sharp (value c) s

theorem sharp_child {id child : NodeId} {n : Node} {join : Join} {ids : List NodeId}
    (f : g.Forest) (hn : g.node? id = some n) (hk : n.kind = .operation join ids)
    (hsharp : g.Sharp id) (hc : child ∈ ids) : g.Sharp child := by
  intro a ha
  apply hsharp a
  rw [f.descendants_operation hn hk]
  exact List.mem_cons_of_mem _ (List.mem_flatMap.2 ⟨child, hc, ha⟩)

theorem join_eq_sharp {id : NodeId} {n : Node} {join : Join} {ids : List NodeId}
    (f : g.Forest) (hn : g.node? id = some n) (hk : n.kind = .operation join ids)
    (hsharp : g.Sharp id) : join = .sharp := by
  have hself : id ∈ g.descendants id := by
    rw [f.descendants_operation hn hk]
    exact List.mem_cons_self
  have hnone := hsharp id hself
  rw [smoothness?_of_node? hn, hk] at hnone
  cases join with
  | sharp =>
      rfl
  | smooth k =>
      exact nomatch hnone

/-- To a sample that is no farther than the background, a tree of hard unions adds what its shapes
add one after the other: the backgrounds of its unions do not count. -/
theorem Forest.nearer_eq_foldl (f : g.Forest) (hd : d.Ordered)
    (h : g.EvaluationAt d distance value) : ∀ id, id < g.size → g.Sharp id →
      ∀ s : Sample Color Distance, s.distance ≤ d.constant sentinelDistance →
        s.nearer (value id) = ((g.shapes id).map value).foldl Sample.nearer s := by
  refine f.level_induction ?_
  intro id known ih hsharp s hs
  rcases exists_node?_iff.2 known with ⟨n, hn⟩
  cases hk : n.kind with
  | shape figure =>
      rw [f.shapes_shape hn hk]
      rfl
  | operation join ids =>
      rcases join_eq_sharp f hn hk hsharp with rfl
      have hids : g.children id = ids := children_of_operation hn hk
      have hchild : ∀ c ∈ ids, ∀ t : Sample Color Distance,
          t.distance ≤ d.constant sentinelDistance →
          t.nearer (value c) = ((g.shapes c).map value).foldl Sample.nearer t := fun c hc =>
        ih c (hids ▸ hc) (sharp_child f hn hk hsharp hc)
      rw [h.foldl_sharp hd hn hk, Sample.nearer_foldl, Sample.nearer_of_le hs,
        f.shapes_operation hn hk]
      -- One child after the other, the sample staying no farther than the background.
      clear hk hids
      induction ids generalizing s with
      | nil =>
          rfl
      | cons c ids ihids =>
          have hnear : (s.nearer (value c)).distance ≤ d.constant sentinelDistance := by
            rw [Sample.distance_nearer]
            exact (min_le_left _ _).trans hs
          rw [List.map_cons, List.foldl_cons, List.flatMap_cons, List.map_append,
            List.foldl_append, ← hchild c List.mem_cons_self s hs]
          exact ihids _ hnear fun c' hc' => hchild c' (List.mem_cons_of_mem c hc')

/-- The root of hard unions, taken in: the background and the shapes, one after the other. -/
theorem Forest.takeIn_root (f : g.Forest) (hd : d.Ordered)
    (h : g.EvaluationAt d distance value) (hsharp : g.Sharp rootId)
    (result : Sample Color Distance) :
    d.takeIn .sharp (value rootId) result
      = ((g.shapes rootId).map value).foldl Sample.nearer (result.nearer d.background) := by
  rcases f.root_content with ⟨name, hcontent⟩
  have hroot : rootId < g.size := f.root_lt_size
  rcases exists_node?_iff.2 hroot with ⟨n, hn⟩
  -- The root is an operation, so it starts from the background itself.
  have hvalue : d.background.nearer (value rootId) = value rootId := by
    cases hk : n.kind with
    | shape s =>
        have hsame := (content?_of_node? hn).symm.trans hcontent
        simp [hk, NodeKind.bare, NodeKind.mapChildren] at hsame
    | operation join ids =>
        rcases join_eq_sharp f hn hk hsharp with rfl
        rw [h.foldl_sharp hd hn hk, Sample.nearer_foldl, Sample.nearer_of_le le_rfl]
  have hnear : (result.nearer d.background).distance ≤ d.constant sentinelDistance := by
    rw [Sample.distance_nearer]
    exact min_le_right _ _
  rw [hd.takeIn_sharp, ← hvalue, ← Sample.nearer_assoc]
  exact f.nearer_eq_foldl hd h rootId hroot hsharp _ hnear

/-! ## What is left in the end -/

theorem EvaluationAt.find?_shapes (h : g.EvaluationAt d distance value) (id : NodeId)
    (least : Distance) :
    ((g.shapes id).map value).find? (·.distance = least)
      = ((g.shapes id).find? (distance · = least)).map value := by
  rw [List.find?_map, ← List.head?_filter, ← List.head?_filter]
  refine congrArg (fun found => Option.map value (List.head? found)) (List.filter_congr ?_)
  intro a ha
  rw [Function.comp_apply, h.distance_of_mem_shapes ha]

theorem Forest.distance_takeIn_root (f : g.Forest) (hd : d.Ordered)
    (h : g.EvaluationAt d distance value) (hsharp : g.Sharp rootId)
    (result : Sample Color Distance) :
    (d.takeIn .sharp (value rootId) result).distance
      = ((g.shapes rootId).map distance).foldl min
          (min result.distance (d.constant sentinelDistance)) := by
  -- The distances alone are joined by their minimum.
  have hdistances : (g.shapes rootId).map (fun a => (value a).distance)
      = (g.shapes rootId).map distance :=
    List.map_congr_left fun a ha => h.distance_of_mem_shapes ha
  rw [f.takeIn_root hd h hsharp, Sample.distance_foldl_nearer, List.map_map,
    Sample.distance_nearer]
  exact congrArg (List.foldl min _) hdistances

/-- A shape that is nearer than what was there is left, the first of the nearest ones. -/
theorem Forest.takeIn_root_of_isLeast (f : g.Forest) (hd : d.Ordered)
    (h : g.EvaluationAt d distance value) (hsharp : g.Sharp rootId)
    {result : Sample Color Distance} {least : Distance}
    (hleast : IsLeast {x | ∃ a ∈ g.shapes rootId, distance a = x} least)
    (hlt : least < (result.nearer d.background).distance) :
    ∃ a s, (g.shapes rootId).find? (distance · = least) = some a ∧ g.shape? a = some s ∧
      d.takeIn .sharp (value rootId) result = ⟨d.color s.color, true, distance a⟩ := by
  rcases hleast.1 with ⟨b, hb, hbleast⟩
  -- There is a shape with the least distance, so there is a first one.
  have hfound : ((g.shapes rootId).find? (distance · = least)).isSome = true :=
    List.find?_isSome.2 ⟨b, hb, by simpa using hbleast⟩
  rcases Option.isSome_iff_exists.1 hfound with ⟨a, ha⟩
  rcases exists_shape_of_mem_shapes (List.mem_of_find?_eq_some ha) with ⟨n, s, hn, hk, hs⟩
  have hfirst : ((g.shapes rootId).map value).find? (·.distance = least) = some (value a) := by
    rw [h.find?_shapes, ha, Option.map_some]
  have hnone : ∀ t ∈ (g.shapes rootId).map value, least ≤ t.distance := by
    intro t ht
    rcases List.mem_map.1 ht with ⟨c, hc, rfl⟩
    rw [h.distance_of_mem_shapes hc]
    exact hleast.2 ⟨c, hc, rfl⟩
  refine ⟨a, s, ha, hs, ?_⟩
  rw [f.takeIn_root hd h hsharp, Sample.foldl_nearer_of_find? hnone hlt hfirst, h.shape hn hk]

/-- Shapes that are no nearer than what was there count for nothing. -/
theorem Forest.takeIn_root_of_le (f : g.Forest) (hd : d.Ordered)
    (h : g.EvaluationAt d distance value) (hsharp : g.Sharp rootId)
    {result : Sample Color Distance}
    (hle : ∀ a ∈ g.shapes rootId, (result.nearer d.background).distance ≤ distance a) :
    d.takeIn .sharp (value rootId) result = result.nearer d.background := by
  rw [f.takeIn_root hd h hsharp]
  refine Sample.foldl_nearer_of_le ?_
  intro t ht
  rcases List.mem_map.1 ht with ⟨c, hc, rfl⟩
  rw [h.distance_of_mem_shapes hc]
  exact hle c hc

end Graph

/-! ## Main result -/

namespace Scene

variable {Number Vector : Type} [LinearOrder Number]

/-- In a scene of hard unions the nearest shape wins, however deeply it is nested. The text of the
root's fragment leaves in the result what the root gives, taken in. For all distances that the shapes
may have, this ends with the least of the distance before, the sentinel and those of the shapes. If a
shape is nearer than both, the first of the nearest ones gives the color; else the black background
does if it is nearer than what was there, and otherwise all stays as it was. So only colors and
distances of the shapes in their order matter, not the unions they are grouped in. -/
theorem nearest_shape_wins (edits : List Edit) (A : Interpretation Number Vector) (p : Vector)
    (ordered : (A.device p).Ordered) (sharp : (Scene.empty.run edits).graph.Sharp rootId)
    (result : Sample Vector Number) :
    let g := (Scene.empty.run edits).graph
    let d := A.device p
    let far := d.constant sentinelDistance
    (∃ text after, g.fragment rootId = .ok text ∧ A.run? (.ofMap p result) text = some after ∧
      ∀ value, g.EvaluationAt d (g.measured d) value →
        after resultRegister = some (.material (d.takeIn .sharp (value rootId) result))) ∧
    ∀ distance : NodeId → Number, (∃ value, g.EvaluationAt d distance value) ∧
      ∀ value, g.EvaluationAt d distance value →
        let after := d.takeIn .sharp (value rootId) result
        after.distance
          = ((g.shapes rootId).map distance).foldl min (min result.distance far) ∧
        (∀ least, IsLeast {x | ∃ a ∈ g.shapes rootId, distance a = x} least →
          least < far → least < result.distance →
            ∃ a s, (g.shapes rootId).find? (distance · = least) = some a ∧
              g.shape? a = some s ∧ after.color = d.color s.color ∧ after.isLit = true) ∧
        ((∀ a ∈ g.shapes rootId, ¬ (distance a < far ∧ distance a < result.distance)) →
          if far < result.distance then after.color = d.color (.splat 0) ∧ after.isLit = true
          else after.color = result.color ∧ after.isLit = result.isLit) ∧
        ∀ (edits' : List Edit) (distance' : NodeId → Number)
          (value' : NodeId → Sample Vector Number),
          (Scene.empty.run edits').graph.Sharp rootId →
          (Scene.empty.run edits').graph.EvaluationAt d distance' value' →
          (Scene.empty.run edits').graph.painted distance' rootId = g.painted distance rootId →
          d.takeIn .sharp (value' rootId) result = after := by
  intro g d far
  have h : (Scene.empty.run edits).Reachable := Reachable.empty.run edits
  have f : g.Forest := h.forest
  rcases h.run_measured f.root_lt_size A p result with ⟨text, vars, htext, hrun, hvars⟩
  refine ⟨⟨text, vars, htext, hrun, fun value hvalue => (hvars value hvalue).2⟩,
    fun distance => ?_⟩
  refine ⟨f.exists_evaluationAt d distance, fun value hvalue => ?_⟩
  intro after
  have hbefore : (result.nearer d.background).distance = min result.distance far :=
    Sample.distance_nearer
  refine ⟨f.distance_takeIn_root ordered hvalue sharp result, ?_, ?_, ?_⟩
  · intro least hleast hfar hresult
    rcases f.takeIn_root_of_isLeast ordered hvalue sharp hleast (hbefore ▸ lt_min hresult hfar) with
      ⟨a, s, ha, hs, hwins⟩
    exact ⟨a, s, ha, hs, congrArg Sample.color hwins, congrArg Sample.isLit hwins⟩
  · intro hfarther
    have hkept : after = result.nearer d.background := by
      refine f.takeIn_root_of_le ordered hvalue sharp fun a ha => ?_
      rw [hbefore]
      by_contra hlt
      rw [not_le, lt_min_iff] at hlt
      exact hfarther a ha hlt.symm
    rw [hkept]
    split
    · next hlt =>
        rw [Sample.nearer_of_lt hlt]
        exact ⟨rfl, rfl⟩
    · next hle =>
        rw [Sample.nearer_of_le (not_lt.1 hle)]
        exact ⟨rfl, rfl⟩
  · intro edits' distance' value' hsharp' hvalue' hpainted
    -- Only colors and distances of the shapes go into what is left.
    have f' := (Reachable.empty.run edits').forest
    have hafter : after = _ := f.takeIn_root ordered hvalue sharp result
    rw [f'.takeIn_root ordered hvalue' hsharp', hafter, hvalue'.map_shapes, hvalue.map_shapes,
      hpainted]

/-- The interpretation that counts whole steps, also along diagonals, and knows no fractions. -/
def chessboard : Interpretation ℤ (ℤ × ℤ × ℤ) where
  numeral text := Text.numberOfDigits 10 (text.toList.takeWhile (· ≠ '.'))
  negate x := -x
  vector x y z := (x, y, z)
  subtract v w := (v.1 - w.1, v.2.1 - w.2.1, v.2.2 - w.2.2)
  less x y := x < y
  min x y := min x y
  smoothMin x y _ := min x y
  sphere p radius := max p.1.natAbs (max p.2.1.natAbs p.2.2.natAbs) - radius
  box p b := max (p.1.natAbs - b.1) (max (p.2.1.natAbs - b.2.1) (p.2.2.natAbs - b.2.2))

/-- Of a blue sphere at distance 5 and two others at distance 3 the first of the two wins: red. -/
theorem nearest_shape_wins_spheres :
    let g := (Scene.empty.run Demo.spheres.edits).graph
    let d := chessboard.device (0, 0, 0)
    d.Ordered ∧ g.Sharp rootId ∧
      ∀ value, g.EvaluationAt d (fun id => if id = 1 then 5 else 3) value →
        d.takeIn .sharp (value rootId) ⟨(9, 9, 9), false, 7⟩ = ⟨d.color Demo.red, true, 3⟩ := by
  intro g d
  have ordered : d.Ordered := ⟨fun _ _ => rfl, fun _ _ => rfl⟩
  have sharp : g.Sharp rootId := by decide +kernel
  have hfar : d.constant sentinelDistance = 1000 := by decide +kernel
  have hshapes : g.shapes rootId = [1, 2, 3] := by decide +kernel
  have hred : (g.shape? 2).map (·.color) = some Demo.red := by decide +kernel
  refine ⟨ordered, sharp, fun value hvalue => ?_⟩
  rcases (nearest_shape_wins Demo.spheres.edits chessboard (0, 0, 0) ordered sharp
    ⟨(9, 9, 9), false, 7⟩).2 _ with ⟨-, hwins⟩
  rcases hwins value hvalue with ⟨hdistance, hnearest, -, -⟩
  have hleast : IsLeast {x | ∃ a ∈ g.shapes rootId, (if a = 1 then (5 : ℤ) else 3) = x} 3 := by
    rw [hshapes]
    constructor
    · exact ⟨2, by simp, rfl⟩
    · rintro x ⟨a, -, rfl⟩
      split <;> decide
  rcases hnearest 3 hleast (by rw [hfar]; decide) (by decide) with ⟨a, s, ha, hs, hcolor, hlit⟩
  have htwo : a = 2 := by
    rw [hshapes] at ha
    exact (Option.some.inj ha).symm
  have hsred : s.color = Demo.red := by
    rw [htwo] at hs
    rw [hs] at hred
    exact Option.some.inj hred
  rw [hfar, hshapes] at hdistance
  rw [hsred] at hcolor
  generalize d.takeIn .sharp (value rootId) ⟨(9, 9, 9), false, 7⟩ = after at *
  obtain ⟨color, isLit, distance⟩ := after
  simp only at hdistance hcolor hlit
  rw [hdistance, hcolor, hlit]
  rfl

end Scene
end SdfShader
