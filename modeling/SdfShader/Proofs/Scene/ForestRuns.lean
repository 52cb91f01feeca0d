import Mathlib.Data.List.Nodup
import SdfShader.Proofs.Scene.Edits
import SdfShader.Proofs.Scene.Forest

/-!
# ForestRuns — every run of edits keeps the forest

The changes of `Scene.Change` are taken apart into four elementary ones, each of which keeps a graph
a forest: views that stay as they are (`Forest.of_views`), a node without owner linked under an
operation that it is not above (`Forest.link`), a node unlinked (`Forest.unlink`), and a node
appended.

Moving a list of nodes needs one thing more. All nodes are checked before the first is moved, so
the checks have to stay valid while the others are moved: a move changes the owner of one node that
is not above the target, and therefore leaves the whole way up from the target as it was
(`above_of_relinked`).
-/

namespace SdfShader

namespace Graph

variable {g g' : Graph} {a id owner parent child : NodeId}

/-! ## One owner replaced -/

/-- The way up from `b` is the same in a graph where only `child` has another owner, if it does not
pass `child`. -/
theorem above_of_relinked {b : NodeId} (child : NodeId)
    (hkept : ∀ x, x ≠ child → g'.parent? x = g.parent? x)
    (hne : child ≠ b) (hnot : ¬ g.Above child b) (h : g'.Above a b) :
    g.Above a b := by
  have howns : ∀ {o x : NodeId}, x ≠ child → g'.Owns o x → g.Owns o x := by
    intro o x hx ho
    rwa [Owns, ← hkept _ hx]
  -- Along the way up: no node on it is `child`, so its owner is still the old one.
  induction h with
  | single ho =>
      exact .single (howns hne.symm ho)
  | tail _ ho ih =>
      have ho' := howns hne.symm ho
      refine .tail (ih ?_ ?_) ho'
      · rintro rfl
        exact hnot (.single ho')
      · intro habove
        exact hnot (.tail habove ho')

/-- Another owner for one node makes no cycle if the node is not above it. -/
theorem wellFounded_owns_of_relinked {newOwner : Option NodeId} (hwf : WellFounded g.Owns)
    (hparent : ∀ x, g'.parent? x = if x = child then newOwner else g.parent? x)
    (hapart : ∀ o, newOwner = some o → child ≠ o ∧ ¬ g.Above child o) :
    WellFounded g'.Owns := by
  -- Nodes that `child` is not above have the ways up they had, so these end.
  have haway : ∀ x, child ≠ x → ¬ g.Above child x → Acc g'.Owns x := by
    intro x
    induction x using hwf.induction with
    | _ x ih =>
        intro hne hnot
        constructor
        intro o ho
        have ho' : g.Owns o x := by
          rwa [Owns, hparent, if_neg hne.symm] at ho
        apply ih o ho'
        · rintro rfl
          exact hnot (.single ho')
        · intro habove
          exact hnot (.tail habove ho')
  -- The new owner is such a node.
  have hchild : Acc g'.Owns child := by
    constructor
    intro o ho
    rw [Owns, hparent, if_pos rfl] at ho
    rcases hapart o ho with ⟨hne, hnot⟩
    exact haway o hne hnot
  -- Every other way up either stays the old one or comes to `child`.
  constructor
  intro x
  induction x using hwf.induction with
  | _ x ih =>
      by_cases hx : x = child
      · rw [hx]
        exact hchild
      · constructor
        intro o ho
        apply ih o
        rwa [Owns, hparent, if_neg hx] at ho

namespace Forest

/-! ## Elementary changes -/

theorem of_views (f : g.Forest) (hchildren : ∀ i, g'.children i = g.children i)
    (hparent : ∀ i, g'.parent? i = g.parent? i)
    (hoperation : ∀ i, g.IsOperation i → g'.IsOperation i)
    (hroot : g'.content? rootId = g.content? rootId) : g'.Forest where
  operation_of_owns h := hoperation _ (f.operation_of_owns (by rwa [Owns, ← hparent]))
  mem_children_iff {o c} := by rw [hchildren, Owns, hparent, f.mem_children_iff, Owns]
  nodup_children i := by rw [hchildren]; exact f.nodup_children i
  root_content := by rw [hroot]; exact f.root_content
  root_orphan := by rw [hparent, f.root_orphan]
  wellFounded := by
    have : g'.Owns = g.Owns := by
      funext o c
      rw [Owns, hparent, Owns]
    rw [this]
    exact f.wellFounded

theorem bump (f : g.Forest) : g.bump.Forest :=
  f.of_views (fun _ => rfl) (fun _ => rfl) (fun _ h => h) rfl

theorem unlink (f : g.Forest) (child : NodeId) : (g.unlink child).Forest where
  operation_of_owns {o c} h := by
    rw [Owns, parent?_unlink] at h
    split at h
    · cases h
    · exact (isOperation_congr content?_unlink).2 (f.operation_of_owns h)
  mem_children_iff {o c} := by
    rw [children_unlink, Owns, parent?_unlink]
    by_cases hc : c = child
    · subst hc
      by_cases ho : g.parent? c = some o
      · simp [ho]
      · simpa [ho] using mt f.mem_children_iff.1 ho
    · by_cases ho : g.parent? child = some o
      · simp [ho, hc, f.mem_children_iff, Owns]
      · simp [ho, hc, f.mem_children_iff, Owns]
  nodup_children i := by
    rw [children_unlink]
    split
    · exact (f.nodup_children i).filter _
    · exact f.nodup_children i
  root_content := by rw [content?_unlink]; exact f.root_content
  root_orphan := by rw [parent?_unlink, f.root_orphan, ite_self]
  wellFounded :=
    wellFounded_owns_of_relinked f.wellFounded (fun _ => parent?_unlink) (fun _ h => by cases h)

theorem link (f : g.Forest) (op : g.IsOperation parent) (known : child < g.size)
    (orphan : g.parent? child = none) (ne_root : child ≠ rootId) (ne_parent : child ≠ parent)
    (not_above : ¬ g.Above child parent) : (g.link parent child).Forest where
  operation_of_owns {o c} h := by
    rw [Owns, parent?_link known] at h
    refine (isOperation_congr content?_link).2 ?_
    split at h
    · rwa [← Option.some.inj h]
    · exact f.operation_of_owns h
  mem_children_iff {o c} := by
    have hnone : child ∉ g.children o := by
      simp [f.mem_children_iff, Owns, orphan]
    rw [children_link op, Owns, parent?_link known]
    by_cases hc : c = child
    · subst hc
      by_cases ho : o = parent
      · simp [ho]
      · simp [ho, hnone, Ne.symm ho]
    · by_cases ho : o = parent
      · simp [ho, hc, f.mem_children_iff, Owns]
      · simp [ho, hc, f.mem_children_iff, Owns]
  nodup_children i := by
    rw [children_link op]
    split
    · have hnone : child ∉ g.children parent := by
        simp [f.mem_children_iff, Owns, orphan]
      refine List.nodup_append.2 ⟨f.nodup_children parent, List.nodup_singleton child, ?_⟩
      rintro c hc d hd rfl
      exact hnone (List.mem_singleton.1 hd ▸ hc)
    · exact f.nodup_children i
  root_content := by rw [content?_link]; exact f.root_content
  root_orphan := by rw [parent?_link known, if_neg ne_root.symm, f.root_orphan]
  wellFounded := by
    refine wellFounded_owns_of_relinked f.wellFounded (fun _ => parent?_link known) ?_
    rintro o ⟨⟩
    exact ⟨ne_parent, not_above⟩

/-! ## Moving nodes -/

/-- A node that may be moved is not above the target, nor gets there if only another node that may
be moved has a new owner. -/
theorem not_above_of_relinked {other : NodeId} (f : g.Forest) (hmov : g.Movable parent child)
    (hother : g.Movable parent other) (hkept : ∀ x, x ≠ child → g'.parent? x = g.parent? x) :
    ¬ g'.Above other parent := by
  intro habove
  have hnot : ¬ g.Above child parent := mt f.mem_ancestors_iff.2 hmov.not_above
  have hbefore : g.Above other parent :=
    above_of_relinked child hkept hmov.ne_parent hnot habove
  exact hother.not_above (f.mem_ancestors_iff.2 hbefore)

theorem attach (f : g.Forest) (op : g.IsOperation parent) (hmov : g.Movable parent child) :
    (g.attach parent child).Forest := by
  by_cases h : g.parent? child = some parent
  · rwa [attach_of_parent? h]
  · rw [attach_of_parent?_ne h]
    refine (f.unlink child).link ((isOperation_congr content?_unlink).2 op)
      (by simpa using hmov.known) (by rw [parent?_unlink, if_pos rfl]) hmov.ne_root
      hmov.ne_parent ?_
    apply f.not_above_of_relinked hmov hmov
    intro x hx
    rw [parent?_unlink, if_neg hx]

/-- What may be moved may still be moved after another node has been. -/
theorem movable_attach {other : NodeId} (f : g.Forest) (op : g.IsOperation parent)
    (hmov : g.Movable parent child) (hother : g.Movable parent other) :
    (g.attach parent child).Movable parent other where
  known := by simpa using hother.known
  ne_parent := hother.ne_parent
  not_above := by
    rw [(f.attach op hmov).mem_ancestors_iff]
    apply f.not_above_of_relinked hmov hother
    intro x hx
    rw [parent?_attach hmov.known, if_neg hx]
  ne_root := hother.ne_root

theorem foldl_attach {ids : List NodeId} (f : g.Forest) (op : g.IsOperation parent)
    (hmov : ∀ c ∈ ids, g.Movable parent c) :
    (ids.foldl (·.attach parent ·) g).Forest := by
  induction ids generalizing g with
  | nil =>
      exact f
  | cons c cs ih =>
      -- The nodes that wait may still be moved when their turn comes.
      have hc : g.Movable parent c := hmov c List.mem_cons_self
      have hrest : ∀ d ∈ cs, (g.attach parent c).Movable parent d := by
        intro d hd
        exact f.movable_attach op hc (hmov d (List.mem_cons_of_mem c hd))
      exact ih (f.attach op hc) ((isOperation_congr content?_attach).2 op) hrest

/-! ## New nodes and new parameters -/

theorem root_lt_size (f : g.Forest) : rootId < g.size := by
  rcases f.root_content with ⟨_, h⟩
  rcases Option.map_eq_some_iff.1 h with ⟨n, hn, _⟩
  exact lt_size_of_node? hn

/-- A new node without children and owner leaves all links as they are. -/
theorem push (f : g.Forest) (name : String) {kind : NodeKind} (hkind : kind.children = []) :
    (g.push ⟨name, kind, none⟩).Forest := by
  have hunknown : g.node? g.size = none := node?_eq_none_iff.2 (Nat.le_refl _)
  apply f.of_views
  · intro i
    by_cases hi : i = g.size
    · simp [Graph.children, node?_push, hi, hunknown, Node.children, hkind]
    · simp [Graph.children, node?_push, hi]
  · intro i
    by_cases hi : i = g.size
    · simp [parent?, node?_push, hi, hunknown]
    · simp [parent?, node?_push, hi]
  · rintro i ⟨n, hn, hop⟩
    exact ⟨n, by rw [node?_push_of_lt _ (lt_size_of_node? hn), hn], hop⟩
  · rw [content?, node?_push_of_lt _ f.root_lt_size, content?]

theorem insert (f : g.Forest) (name : String) {kind : NodeKind} (hkind : kind.children = []) :
    (g.insert rootId name kind).Forest := by
  have hpush := f.push name hkind
  have hparent : (g.push ⟨name, kind, none⟩).parent? g.size = none := by
    simp [parent?, node?_push]
  have hop : (g.push ⟨name, kind, none⟩).IsOperation rootId := by
    rcases hpush.root_content with ⟨name', h⟩
    exact isOperation_iff_content?.2 ⟨_, h, rfl⟩
  have hne : g.size ≠ rootId := (Nat.ne_of_lt f.root_lt_size).symm
  rw [insert_eq]
  refine (hpush.link hop (by simp) hparent hne hne ?_).bump
  -- Nothing is above the root.
  intro habove
  rcases Relation.TransGen.tail'_iff.1 habove with ⟨o, _, ho⟩
  rw [Owns, hpush.root_orphan] at ho
  cases ho

theorem retune (f : g.Forest) {n : Node} {kind : NodeKind} (hn : g.node? id = some n)
    (hkind : n.kind.Retuned kind) : (g.modify id ({ · with kind })).Forest := by
  apply f.of_views
  · intro i
    by_cases hi : id = i
    · subst hi
      simp [Graph.children, node?_modify, hn, Node.children, hkind.children]
    · simp [Graph.children, node?_modify, hi]
  · intro i
    by_cases hi : id = i
    · subst hi
      simp [parent?, node?_modify, hn]
    · simp [parent?, node?_modify, hi]
  · rintro i ⟨m, hm, hop⟩
    by_cases hid : id = i
    · subst hid
      rcases Option.some.inj (hn.symm.trans hm) with rfl
      exact ⟨{ n with kind }, by simp [node?_modify, hn], by rw [hkind.isOperation, hop]⟩
    · exact ⟨m, by rw [node?_modify_of_ne _ hid, hm], hop⟩
  · -- The root is sharp, and only shapes and smooth operations have parameters.
    have hid : id ≠ rootId := by
      rintro rfl
      rcases f.root_content with ⟨name, h⟩
      simp only [content?, hn, Option.map_some, Option.some.injEq, Prod.mk.injEq] at h
      exact hkind.bare_ne_sharp h.2
    rw [content?, node?_modify_of_ne _ hid, content?]

end Forest

theorem forest_ofRoot (name : String) : (ofRoot name).Forest := by
  have hnone : ∀ i, (ofRoot name).parent? i = none := by
    rintro (_ | i) <;> rfl
  have hnil : ∀ i, (ofRoot name).children i = [] := by
    rintro (_ | i) <;> rfl
  exact {
    operation_of_owns := fun h => by simp [Owns, hnone] at h
    mem_children_iff := by simp [Owns, hnone, hnil]
    nodup_children := fun i => by simp [hnil]
    root_content := ⟨name, rfl⟩
    root_orphan := hnone _
    wellFounded := ⟨fun i => ⟨_, fun o h => by simp [Owns, hnone] at h⟩⟩ }

end Graph

/-! ## Runs -/

namespace Scene

variable {s t : Scene}

theorem Change.forest (h : Change s t) (f : s.graph.Forest) : t.graph.Forest := by
  cases h with
  | shape _ =>
      exact f.insert _ rfl
  | operation _ =>
      exact f.insert _ rfl
  | move operation movable _ =>
      exact (f.foldl_attach operation movable).bump
  | detach _ =>
      exact (f.unlink _).bump
  | retune known retuned =>
      exact (f.retune known retuned).bump

theorem Reachable.forest (h : Reachable s) : s.graph.Forest :=
  h.invariant (P := fun s => s.graph.Forest) (Graph.forest_ofRoot _) Change.forest

/-- Whatever edits are tried on the empty scene, with whatever arguments and in whatever order: ids
in links exist, lists and owners agree, no list has an id twice, shapes own nothing, the root is a
union without owner, and every way up ends before it has visited all nodes. -/
theorem consistent_links_run (edits : List Edit) :
    let g := (Scene.empty.run edits).graph
    (∀ owner child, child ∈ g.children owner → owner < g.size ∧ child < g.size) ∧
    (∀ owner child, g.parent? child = some owner → owner < g.size ∧ child < g.size) ∧
    (∀ owner child, child ∈ g.children owner ↔ g.parent? child = some owner) ∧
    (∀ id, (g.children id).Nodup) ∧
    (∀ id n, g.node? id = some n → n.kind.isShape = true →
      g.children id = [] ∧ ∀ child, g.parent? child ≠ some id) ∧
    (∃ n ids, g.node? rootId = some n ∧ n.kind = .operation .sharp ids ∧ n.parent = none) ∧
    ∀ id < g.size, ∃ steps < g.size, ∃ top,
      g.ascend steps id = some top ∧ g.parent? top = none := by
  intro g
  have f : g.Forest := (Reachable.empty.run edits).forest
  have howned : ∀ owner child, g.parent? child = some owner →
      owner < g.size ∧ child < g.size := by
    intro owner child h
    exact ⟨(f.operation_of_owns h).lt_size, Graph.lt_size_of_parent? h⟩
  have hlisted : ∀ owner child, child ∈ g.children owner → owner < g.size ∧ child < g.size := by
    intro owner child h
    exact howned owner child (f.mem_children_iff.1 h)
  refine ⟨hlisted, howned, fun _ _ => f.mem_children_iff, f.nodup_children, ?_, ?_,
    fun _ h => f.exists_ascend h⟩
  · -- Only operations own nodes, in either of the two places.
    intro id n hn hshape
    have hnot : ¬ g.IsOperation id := by
      rintro ⟨m, hm, hop⟩
      rcases Option.some.inj (hn.symm.trans hm) with rfl
      simp [NodeKind.isShape, hop] at hshape
    constructor
    · apply List.eq_nil_iff_forall_not_mem.2
      intro c hc
      exact hnot (Graph.isOperation_of_mem_children hc)
    · intro c hc
      exact hnot (f.operation_of_owns hc)
  · rcases f.root_content with ⟨name, hcontent⟩
    rcases Option.map_eq_some_iff.1 hcontent with ⟨n, hn, hbare⟩
    have hparent : n.parent = none := by
      rw [← Graph.parent?_of_node? hn, f.root_orphan]
    cases hk : n.kind with
    | shape s =>
        simp [hk, NodeKind.bare, NodeKind.mapChildren] at hbare
    | operation join ids =>
        have hjoin : join = .sharp := by
          simpa [hk, NodeKind.bare, NodeKind.mapChildren] using congrArg Prod.snd hbare
        exact ⟨n, ids, hn, by rw [hk, hjoin], hparent⟩

end Scene
end SdfShader
