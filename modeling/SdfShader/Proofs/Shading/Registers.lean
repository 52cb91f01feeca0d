import SdfShader.Proofs.Shading.Assignment

/-!
# Registers — what a fragment leaves in the registers of its nodes

The block of a node touches the registers of the nodes at or below it and that of its owner, and no
others. So a register keeps what its own block has left in it, and when a fragment ends, each of them
holds what its node gives (`Reachable.run_registers`).
-/

namespace SdfShader

open Shading

variable {Color Distance : Type} {g : Graph} {d : Device Color Distance}
  {value : NodeId → Sample Color Distance}

theorem Registers.ne_of_fresh {r : Registers Color Distance} {name fresh : String}
    {s : Sample Color Distance} (own : r name = some s) (hfresh : r fresh = none) : fresh ≠ name := by
  rintro rfl
  rw [own] at hfresh
  cases hfresh

namespace Graph

/-! ## Blocks -/

/-- Whether the block of a tree leaves in the registers of nodes what the nodes give. -/
def Leaves (g : Graph) (d : Device Color Distance) (value : NodeId → Sample Color Distance)
    (nodes : List NodeId) (t : Tree) : Prop :=
  ∀ (r after : Registers Color Distance) (target : String) (s : Sample Color Distance),
    r target = some s → (∀ n ∈ t.names, r n = none) → t.names.Nodup →
      runAll? d r (t.statements target) = some after →
        ∀ a ∈ nodes, after (g.nameOf a) = some (value a)

namespace Forest

variable {id a : NodeId} {n : Node} {t : Tree} {join : Join} {ids : List NodeId} {ts : List Tree}

theorem nameOf_mem_names (f : g.Forest) (known : id < g.size) (ht : g.tree? id = some t)
    (ha : a ∈ g.subtree id) : g.nameOf a ∈ t.names := by
  rw [f.names_tree? id known t ht]
  exact List.mem_map_of_mem ha

/-- A node that has run holds its sample. -/
theorem leaves_self (f : g.Forest) (hvalue : g.Evaluation d value) (known : id < g.size)
    (ht : g.tree? id = some t) : g.Leaves d value [id] t := by
  intro r after target s htarget hfresh hnodup hrun a ha
  obtain rfl := List.mem_singleton.1 ha
  rcases Tree.runAll?_statements (d := d) t htarget hfresh hnodup with
    ⟨r₁, hblock, hchild, -, -⟩
  obtain rfl : r₁ = after := Option.some.inj (hblock.symm.trans hrun)
  rw [← f.name_tree? known ht, hchild, f.sample_tree? hvalue a known t ht]

/-- What the block of one child has left stays when the other children follow. -/
theorem register_of_mem_children (f : g.Forest) (known : ∀ c ∈ ids, c < g.size)
    (hts : ids.mapM g.tree? = some ts)
    (hleaves : ∀ c ∈ ids, ∀ t, g.tree? c = some t → g.Leaves d value (g.subtree c) t)
    {r after : Registers Color Distance} {name : String} {s : Sample Color Distance}
    (own : r name = some s) (fresh : ∀ n ∈ Tree.namesList ts, r n = none)
    (nodup : (Tree.namesList ts).Nodup)
    (hrun : runAll? d r (Tree.childStatements name join ts) = some after) :
    ∀ a ∈ ids.flatMap g.subtree, after (g.nameOf a) = some (value a) := by
  induction ids generalizing ts r s with
  | nil =>
      simp
  | cons c ids ih =>
      rcases mapM_cons_eq_some_iff.1 hts with ⟨t, rest, ht, hrest, rfl⟩
      rw [Tree.namesList] at fresh nodup
      rcases List.nodup_append.1 nodup with ⟨hfirst, hmore, hdisjoint⟩
      have hfresh : ∀ n ∈ t.names, r n = none := fun n hn => fresh n (List.mem_append_left _ hn)
      rcases Tree.runAll?_statements (d := d) t own hfresh hfirst with
        ⟨r₁, hblock, hchild, htarget, houtside⟩
      have hjoined : (Statement.join join name t.name).run? d r₁
          = some (r₁.set name (d.takeIn join (t.sample d) s)) := run?_join join hchild htarget
      have hfresh₂ : ∀ n ∈ Tree.namesList rest,
          (r₁.set name (d.takeIn join (t.sample d) s)) n = none := by
        intro n hn
        have hnone : r n = none := fresh n (List.mem_append_right _ hn)
        have hne : n ≠ name := Registers.ne_of_fresh own hnone
        rw [Registers.set_of_ne hne, houtside n (fun h => hdisjoint n h n hn rfl) hne, hnone]
      rw [Tree.childStatements, runAll?_append hblock, runAll?_cons hjoined] at hrun
      intro a ha
      rcases List.mem_append.1 ha with hmem | hmem
      · -- The name is none of the owner's and of the other children's.
        have hname : g.nameOf a ∈ t.names :=
          f.nameOf_mem_names (known c List.mem_cons_self) ht hmem
        have hne : g.nameOf a ≠ name := Registers.ne_of_fresh own (hfresh _ hname)
        rcases Tree.runAll?_childStatements (d := d) join rest Registers.set_self hfresh₂ hmore with
          ⟨r₃, hrun₃, -, houtside₃⟩
        obtain rfl : r₃ = after := Option.some.inj (hrun₃.symm.trans hrun)
        rw [houtside₃ _ (fun h => hdisjoint _ hname _ h rfl) hne, Registers.set_of_ne hne]
        exact hleaves c List.mem_cons_self t ht r r₁ name s own hfresh hfirst hblock a hmem
      · exact ih (fun c' hc' => known c' (List.mem_cons_of_mem c hc')) hrest
          (fun c' hc' => hleaves c' (List.mem_cons_of_mem c hc')) Registers.set_self hfresh₂ hmore
          hrun a hmem

/-- An operation that hands its register on leaves those of the nodes below it alone. -/
theorem leaves_below (f : g.Forest) (hn : g.node? id = some n) (hk : n.kind = .operation join ids)
    (hts : ids.mapM g.tree? = some ts)
    (hleaves : ∀ c ∈ ids, ∀ t, g.tree? c = some t → g.Leaves d value (g.subtree c) t) :
    g.Leaves d value (ids.flatMap g.subtree) (.operation n.name join ts) := by
  intro r after target s htarget hfresh hnodup hrun a ha
  have hids : g.children id = ids := children_of_operation hn hk
  have hne : ∀ m ∈ (Tree.operation n.name join ts).names, m ≠ target := fun m hm =>
    Registers.ne_of_fresh htarget (hfresh m hm)
  have hname : g.nameOf a ∈ (Tree.operation n.name join ts).names := by
    refine f.nameOf_mem_names (lt_size_of_node? hn) ?_ ?_
    · rw [f.tree?_operation hn hk, hts]
      rfl
    · rw [f.subtree_eq (lt_size_of_node? hn), hids]
      exact List.mem_cons_of_mem id ha
  rcases List.nodup_cons.1 hnodup with ⟨hself, hnodup⟩
  -- The children start from the register that the operation has declared.
  have hdeclared : (Tree.opening n.name).run? d r = some (r.set n.name d.background) :=
    run?_declare (hfresh n.name List.mem_cons_self) _ _
  have hfresh' : ∀ m ∈ Tree.namesList ts, (r.set n.name d.background) m = none := by
    intro m hm
    rw [Registers.set_of_ne (ne_of_mem_of_not_mem hm hself)]
    exact hfresh m (List.mem_cons_of_mem _ hm)
  rcases Tree.runAll?_childStatements (d := d) join ts Registers.set_self hfresh' hnodup with
    ⟨r₁, hblock, hcollected, houtside⟩
  have hchildren : r₁ (g.nameOf a) = some (value a) :=
    f.register_of_mem_children (fun c hc => f.lt_size_of_mem_children (hids ▸ hc)) hts hleaves
      Registers.set_self hfresh' hnodup hblock a ha
  have huntouched : r₁ target = some s := by
    have hself' := hne n.name List.mem_cons_self
    rw [houtside target (fun h => hne target (List.mem_cons_of_mem _ h) rfl) hself'.symm,
      Registers.set_of_ne hself'.symm, htarget]
  have hmerged := run?_takeCloser (d := d) hcollected huntouched
  have hwhole : runAll? d r ((Tree.operation n.name join ts).statements target) = some _ :=
    (runAll?_append ((runAll?_cons hdeclared _).trans hblock) _).trans (runAll?_cons hmerged [])
  rw [← Option.some.inj (hwhole.symm.trans hrun), Registers.set_of_ne (hne _ hname),
    hchildren]

/-- The block of a node leaves in the registers of all nodes at or below it what they give. -/
theorem leaves_subtree (f : g.Forest) (hvalue : g.Evaluation d value) :
    ∀ id, id < g.size → ∀ t, g.tree? id = some t → g.Leaves d value (g.subtree id) t := by
  refine f.level_induction ?_
  intro id known ih t ht
  rcases exists_node?_iff.2 known with ⟨n, hn⟩
  have hself : g.Leaves d value [id] t := f.leaves_self hvalue known ht
  rw [f.subtree_eq known]
  cases hk : n.kind with
  | shape s =>
      rw [children_of_shape hn hk, List.flatMap_nil]
      exact hself
  | operation join ids =>
      have hids : g.children id = ids := children_of_operation hn hk
      rw [f.tree?_operation hn hk] at ht
      rcases Option.map_eq_some_iff.1 ht with ⟨ts, hts, rfl⟩
      rw [hids] at ih ⊢
      have hbelow : g.Leaves d value (ids.flatMap g.subtree) (.operation n.name join ts) :=
        f.leaves_below hn hk hts ih
      intro r after target s htarget hfresh hnodup hrun a ha
      rcases List.mem_cons.1 ha with rfl | hmem
      · exact hself r after target s htarget hfresh hnodup hrun a List.mem_cons_self
      · exact hbelow r after target s htarget hfresh hnodup hrun a hmem

end Forest
end Graph

/-! ## Text of a fragment -/

/-- The text of a node's fragment runs, and in the end the register of every node at or below it
holds what that node gives where the shapes have the distances measured at the sample point. -/
theorem Scene.Reachable.run_registers {s : Scene} (h : s.Reachable) {id : NodeId}
    (known : id < s.graph.size) {Number Vector : Type} (A : Interpretation Number Vector)
    (p : Vector) (result : Sample Vector Number) :
    ∃ text after, s.graph.fragment id = .ok text ∧
      A.run? (.ofMap p result) text = some after ∧
      ∀ value, s.graph.EvaluationAt (A.device p) (s.graph.measured (A.device p)) value →
        ∀ a ∈ s.graph.descendants id, after (s.graph.nameOf a) = some (.material (value a)) := by
  rcases h.exists_body known A p result with ⟨t, text, ht, hfragment, hnodup, hfresh, htext⟩
  rcases Tree.runAll?_statements (d := A.device p) t Registers.set_self hfresh hnodup with
    ⟨registers, hblock, hown, hmerged, -⟩
  have hrun : runAll? (A.device p) _ t.body = some _ :=
    (runAll?_append hblock _).trans (runAll?_cons (run?_join .sharp hown hmerged) [])
  refine ⟨text, _, hfragment, htext _ hrun, ?_⟩
  intro value hvalue a ha
  rw [h.forest.descendants_eq_subtree known] at ha
  have hkept : registers (s.graph.nameOf a) = some (value a) :=
    h.forest.leaves_subtree (Graph.evaluation_iff.2 hvalue) id known t ht _ _ _ _
      Registers.set_self hfresh hnodup hblock a ha
  rcases Graph.exists_node?_iff.2 (h.forest.lt_size_of_mem_subtree known ha) with ⟨n, hn⟩
  have hname := h.isNodeName hn
  rw [Graph.nameOf_of_node? hn] at hkept ⊢
  simp [scope, hname.isRegister.ne_point, Registers.set_of_ne hname.ne_result, hkept]

end SdfShader
