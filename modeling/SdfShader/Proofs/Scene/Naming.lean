import SdfShader.Proofs.Scene.Contents

/-!
# Naming — names are given in order and stay

A node is named when it is created. Three things follow for every run of edits:

* `Reachable.numbered`: the name is the stem of the node's sort with the number of nodes of that
  sort that there were before, so no name is left out, however many edits are refused;
* `title?_run`: the name and the label of a node stay as they are for the rest of the run;
* `Reachable.find?_eq`: a node is found by its name, since no other node has it.
-/

namespace SdfShader

/-! ## Labels -/

namespace NodeKind

theorem label_bare (k : NodeKind) : k.bare.label = k.label := by
  cases k with
  | shape s =>
      rfl
  | operation join ids =>
      cases join <;> rfl

/-- The label tells shapes from operations. -/
theorem isOperation_of_label_eq {k l : NodeKind} (h : k.label = l.label) :
    k.isOperation = l.isOperation := by
  have hshape : ∀ s : Shape, (shape s).label ∈ ["sphere", "box"] := by
    rintro ⟨_, _, solid⟩
    cases solid <;> simp [label]
  have hoperation : ∀ join ids, (operation join ids).label ∉ ["sphere", "box"] := by
    intro join ids
    cases join <;> simp [label]
  cases k with
  | shape s =>
      cases l with
      | shape t =>
          rfl
      | operation join ids =>
          exact absurd (h ▸ hshape s) (hoperation join ids)
  | operation join ids =>
      cases l with
      | shape t =>
          exact absurd (h.symm ▸ hshape t) (hoperation join ids)
      | operation join' ids' =>
          rfl

end NodeKind

namespace Graph

variable {g h : Graph} {id parent : NodeId}

/-- Name and label of a node, which no edit changes. -/
def title? (g : Graph) (id : NodeId) : Option (String × String) :=
  (g.node? id).map fun n => (n.name, n.kind.label)

theorem title?_eq_map_content? :
    g.title? id = (g.content? id).map fun c => (c.1, c.2.label) := by
  cases hn : g.node? id <;> simp [title?, content?, hn, NodeKind.label_bare]

/-- How many of the nodes before `id` are of the sort of `kind`. -/
def countBefore (g : Graph) (kind : NodeKind) (id : NodeId) : Nat :=
  (List.range id).countP fun i => (g.node? i).any (·.kind.isOperation = kind.isOperation)

theorem countBefore_succ {n : Node} (hn : g.node? id = some n) (kind : NodeKind) :
    g.countBefore kind (id + 1)
      = g.countBefore kind id + if n.kind.isOperation = kind.isOperation then 1 else 0 := by
  simp [countBefore, List.range_succ, hn, List.countP_cons]

theorem countBefore_congr (hsame : ∀ i < id, g.title? i = h.title? i) (kind : NodeKind) :
    g.countBefore kind id = h.countBefore kind id := by
  apply List.countP_congr
  intro i hi
  have htitle := hsame i (List.mem_range.1 hi)
  cases hm : g.node? i with
  | none =>
      have hnone : h.node? i = none := by
        rw [title?, hm, Option.map_none] at htitle
        exact Option.map_eq_none_iff.1 htitle.symm
      rw [hnone]
  | some m =>
      have hsome : ∃ n, h.node? i = some n ∧ n.kind.label = m.kind.label := by
        simp only [title?, hm, Option.map_some] at htitle
        rcases Option.map_eq_some_iff.1 htitle.symm with ⟨n, hn, heq⟩
        exact ⟨n, hn, congrArg Prod.snd heq⟩
      rcases hsome with ⟨n, hn, hlabel⟩
      simp [hn, NodeKind.isOperation_of_label_eq hlabel]

theorem size_insert (name : String) (kind : NodeKind) :
    (g.insert parent name kind).size = g.size + 1 := by
  simp [insert_eq]

@[simp] theorem size_foldl_attach (ids : List NodeId) :
    (ids.foldl (·.attach parent ·) g).size = g.size := by
  induction ids generalizing g with
  | nil =>
      rfl
  | cons c cs ih =>
      rw [List.foldl_cons, ih, size_attach]

/-- The first node with a name is the only one. -/
theorem find?_eq_some {n : Node} (hn : g.node? id = some n)
    (hunique : ∀ i m, g.node? i = some m → m.name = n.name → i = id) :
    g.find? n.name = some id := by
  have hlt : id < g.nodes.size := lt_size_of_node? hn
  have hget : g.nodes[id] = n := by
    simpa [node?, hlt] using hn
  refine Array.findIdx?_eq_some_iff_getElem.2 ⟨hlt, by simp [hget], ?_⟩
  intro i hi
  have hlt' : i < g.nodes.size := Nat.lt_trans hi hlt
  have hi' : g.node? i = some g.nodes[i] := Array.getElem?_eq_getElem hlt'
  simpa using fun hname => (Nat.ne_of_lt hi) (hunique i _ hi' hname)

end Graph

namespace Scene

variable {s t : Scene} {id : NodeId}

/-! ## One change -/

/-- No change gives a node another name or label. -/
theorem Change.title?_eq (h : Change s t) (known : id < s.graph.size) :
    t.graph.title? id = s.graph.title? id := by
  have hne : id ≠ s.graph.size := Nat.ne_of_lt known
  cases h with
  | shape _ =>
      simp [insertShape, Graph.title?_eq_map_content?, Graph.content?_insert, hne]
  | operation _ =>
      simp [insertOperation, Graph.title?_eq_map_content?, Graph.content?_insert, hne]
  | move _ _ _ =>
      simp [Graph.title?_eq_map_content?]
  | detach _ =>
      simp [Graph.title?_eq_map_content?]
  | @retune other n kind hn retuned =>
      -- New parameters keep the label.
      rw [Graph.title?_eq_map_content?, Graph.title?_eq_map_content?, Graph.content?_bump,
        Graph.content?_retune hn]
      by_cases hid : id = other
      · rw [if_pos hid, hid, Graph.content?_of_node? hn]
        simp [NodeKind.label_bare, retuned.label]
      · rw [if_neg hid]

/-- A change either creates no node and leaves the counters alone, or it creates one with the next
name of its sort. -/
theorem Change.creation (h : Change s t) :
    (t.graph.size = s.graph.size ∧ ∀ k, t.counter k = s.counter k) ∨
    (t.graph.size = s.graph.size + 1 ∧ ∃ n, t.graph.node? s.graph.size = some n ∧
      n.name = n.kind.stem ++ toString (s.counter n.kind) ∧
      ∀ k, t.counter k
        = s.counter k + if n.kind.isOperation = k.isOperation then 1 else 0) := by
  -- The new node has the kind that was asked for, but for links.
  have hnew : ∀ (name : String) (kind : NodeKind), name = kind.stem ++ toString (s.counter kind) →
      ∃ n, (s.graph.insert rootId name kind).node? s.graph.size = some n ∧
        n.name = n.kind.stem ++ toString (s.counter n.kind) ∧
        n.kind.isOperation = kind.isOperation := by
    intro name kind hname
    have hcontent : (s.graph.insert rootId name kind).content? s.graph.size
        = some (name, kind.bare) := by
      rw [Graph.content?_insert, if_pos rfl]
    rcases Option.map_eq_some_iff.1 hcontent with ⟨n, hn, heq⟩
    have hbare : n.kind.bare = kind.bare := congrArg Prod.snd heq
    have hsort : n.kind.isOperation = kind.isOperation := by
      rw [← NodeKind.isOperation_bare n.kind, hbare, NodeKind.isOperation_bare]
    refine ⟨n, hn, ?_, hsort⟩
    rw [NodeKind.stem_congr hsort, counter_congr hsort, ← hname]
    exact congrArg Prod.fst heq
  cases h with
  | @shape figure _ =>
      rcases hnew (shapeStem ++ toString s.nextShape) (.shape figure) rfl with
        ⟨n, hn, hname, hsort⟩
      refine .inr ⟨Graph.size_insert _ _, n, hn, hname, ?_⟩
      intro k
      rw [hsort]
      cases k <;> rfl
  | @operation join _ =>
      rcases hnew (operationStem ++ toString s.nextOperation) (.operation join []) rfl with
        ⟨n, hn, hname, hsort⟩
      refine .inr ⟨Graph.size_insert _ _, n, hn, hname, ?_⟩
      intro k
      rw [hsort]
      cases k <;> rfl
  | move _ _ _ =>
      exact .inl ⟨by simp, fun k => by cases k <;> rfl⟩
  | detach _ =>
      exact .inl ⟨by simp, fun k => by cases k <;> rfl⟩
  | retune _ _ =>
      exact .inl ⟨by simp, fun k => by cases k <;> rfl⟩

theorem Change.size_le (h : Change s t) : s.graph.size ≤ t.graph.size := by
  rcases h.creation with ⟨hsize, _⟩ | ⟨hsize, _⟩
  · exact Nat.le_of_eq hsize.symm
  · rw [hsize]
    exact Nat.le_succ _

/-! ## Runs -/

/-- Name and label of a node stay for the rest of the run. -/
theorem title?_run (edits : List Edit) (known : id < s.graph.size) :
    (s.run edits).graph.title? id = s.graph.title? id := by
  induction edits generalizing s with
  | nil =>
      rfl
  | cons e edits ih =>
      rcases s.step_eq_or_change e with heq | hchange
      · rw [run, List.foldl_cons, heq]
        exact ih known
      · rw [← hchange.title?_eq known]
        exact ih (Nat.lt_of_lt_of_le known hchange.size_le)

/-- Names carry the number of nodes of the same sort that there were before, and the counters that
of all nodes of their sort. -/
structure Numbered (s : Scene) : Prop where
  name : ∀ id n, s.graph.node? id = some n →
    n.name = n.kind.stem ++ toString (s.graph.countBefore n.kind id)
  counter : ∀ kind, s.counter kind = s.graph.countBefore kind s.graph.size

theorem Change.numbered (h : Change s t) (hs : s.Numbered) : t.Numbered := by
  have hcount : ∀ {i} (kind : NodeKind), i ≤ s.graph.size →
      t.graph.countBefore kind i = s.graph.countBefore kind i := by
    intro i kind hi
    apply Graph.countBefore_congr
    intro j hj
    exact h.title?_eq (Nat.lt_of_lt_of_le hj hi)
  have hold : ∀ i n, i < s.graph.size → t.graph.node? i = some n →
      n.name = n.kind.stem ++ toString (t.graph.countBefore n.kind i) := by
    intro i n known hn
    -- The node was there before, with the same name and a kind of the same sort.
    have htitle : s.graph.title? i = some (n.name, n.kind.label) := by
      rw [← h.title?_eq known, Graph.title?, hn, Option.map_some]
    rcases Option.map_eq_some_iff.1 htitle with ⟨m, hm, heq⟩
    have hname : m.name = n.name := congrArg Prod.fst heq
    have hsort : m.kind.isOperation = n.kind.isOperation :=
      NodeKind.isOperation_of_label_eq (congrArg Prod.snd heq)
    have hnumber : s.graph.countBefore m.kind i = s.graph.countBefore n.kind i := by
      simp [Graph.countBefore, hsort]
    rw [hcount _ (Nat.le_of_lt known), ← hname, hs.name i m hm, hnumber, NodeKind.stem_congr hsort]
  rcases h.creation with ⟨hsize, hcounter⟩ | ⟨hsize, n, hn, hname, hcounter⟩
  · constructor
    · intro i m hm
      exact hold i m (hsize ▸ Graph.lt_size_of_node? hm) hm
    · intro kind
      rw [hcounter, hs.counter, hsize, hcount kind (Nat.le_refl _)]
  · constructor
    · intro i m hm
      rcases Nat.lt_or_eq_of_le (Nat.lt_succ_iff.1 (hsize ▸ Graph.lt_size_of_node? hm)) with
        known | rfl
      · exact hold i m known hm
      · rcases Option.some.inj (hn.symm.trans hm) with rfl
        rw [hname, hs.counter, hcount _ (Nat.le_refl _)]
    · intro kind
      rw [hcounter, hs.counter, hsize, Graph.countBefore_succ hn, hcount kind (Nat.le_refl _)]

theorem numbered_empty : Scene.empty.Numbered := by
  constructor
  · rintro (_ | id) n hn
    · cases hn
      rfl
    · cases hn
  · intro kind
    cases kind <;> rfl

theorem Reachable.numbered (h : Reachable s) : s.Numbered :=
  h.invariant (P := Numbered) numbered_empty Change.numbered

theorem Reachable.find?_eq (h : Reachable s) {n : Node} (hn : s.graph.node? id = some n) :
    s.graph.find? n.name = some id := by
  apply Graph.find?_eq_some hn
  intro i m hm hname
  exact h.named.injective (Graph.content?_of_node? hm) (Graph.content?_of_node? hn) hname

end Scene
end SdfShader
