import SdfShader.Proofs.Scene.ForestRuns
import SdfShader.Proofs.Scene.Naming
import SdfShader.Proofs.Scene.Revision

/-!
# Moves — what moving nodes under an operation does

All nodes of a list are checked in the graph as it is, and then they are moved one after the other.
The list may hold a node twice, nodes that are in their place already, and a node together with
nodes below it. None of this matters in the end, since a move neither puts another node of the list
into its place nor takes it away from there. So the outcome is said by one list, that of the nodes
that arrive. Main statements:

* `Graph.Refused`, `Graph.Failure`: why a node or the whole call is refused, the first check first;
* `Forest.addChildren_eq_error_iff`: a call fails with that report and with no other;
* `Forest.links_foldl_attach`: the links after all moves;
* `addChildren_moves_or_refuses`: the whole call on a scene.
-/

namespace SdfShader

namespace Graph

variable {g : Graph} {parent child id : NodeId} {ids : List NodeId} {e : SceneError}

/-! ## Nodes that are refused -/

/-- The report about a node that may not be moved under `parent`. -/
inductive Refused (g : Graph) (parent : NodeId) : NodeId → SceneError → Prop
  | unknown {child : NodeId} (unknown : g.size ≤ child) :
      Refused g parent child (.unknownNode child)
  | cycle {child : NodeId} (known : child < g.size) (cyclic : child = parent ∨ g.Above child parent) :
      Refused g parent child (.cycle (g.nameOf parent) (g.nameOf child))
  | root (apart : rootId ≠ parent) (not_above : ¬ g.Above rootId parent) :
      Refused g parent rootId (.rootReparent (g.nameOf rootId))

/-- The report about a call that moves nothing: the parent comes first, then the first of the nodes
that is refused. -/
inductive Failure (g : Graph) (parent : NodeId) (ids : List NodeId) : SceneError → Prop
  | unknown (unknown : g.size ≤ parent) : Failure g parent ids (.unknownNode parent)
  | shape (known : parent < g.size) (shape : ¬ g.IsOperation parent) :
      Failure g parent ids (.wrongKind (g.nameOf parent) .operation)
  | node {before after : List NodeId} {child : NodeId} {e : SceneError}
      (operation : g.IsOperation parent) (split : ids = before ++ child :: after)
      (first : ∀ c ∈ before, ∀ e, ¬ Refused g parent c e) (refused : Refused g parent child e) :
      Failure g parent ids e

theorem Forest.movable_iff (f : g.Forest) : g.Movable parent child ↔
    child < g.size ∧ child ≠ parent ∧ ¬ g.Above child parent ∧ child ≠ rootId := by
  constructor
  · intro h
    exact ⟨h.known, h.ne_parent, mt f.mem_ancestors_iff.2 h.not_above, h.ne_root⟩
  · rintro ⟨known, ne_parent, not_above, ne_root⟩
    exact ⟨known, ne_parent, mt f.mem_ancestors_iff.1 not_above, ne_root⟩

theorem Forest.attachError?_eq_some_iff (f : g.Forest) {owner : Node}
    (howner : g.node? parent = some owner) :
    g.attachError? parent owner child = some e ↔ g.Refused parent child e := by
  cases hn : g.node? child with
  | none =>
      have hunknown : g.size ≤ child := node?_eq_none_iff.1 hn
      simp only [attachError?, hn, Option.some.injEq]
      constructor
      · rintro rfl
        exact .unknown hunknown
      · rintro (_ | ⟨known, -⟩ | _)
        · rfl
        · exact absurd known (Nat.not_lt.2 hunknown)
        · exact absurd f.root_lt_size (Nat.not_lt.2 hunknown)
  | some n =>
      have known : child < g.size := lt_size_of_node? hn
      have hname : g.nameOf child = n.name := nameOf_of_node? hn
      have hparent : g.nameOf parent = owner.name := nameOf_of_node? howner
      have habove : (child = parent ∨ child ∈ g.ancestors parent)
          ↔ (child = parent ∨ g.Above child parent) := or_congr_right f.mem_ancestors_iff
      -- The checks in their order: cycle, then root.
      simp only [attachError?, hn]
      by_cases hcycle : child = parent ∨ g.Above child parent
      · rw [if_pos (habove.2 hcycle), Option.some.injEq]
        constructor
        · rintro rfl
          rw [← hname, ← hparent]
          exact .cycle known hcycle
        · rintro (hunknown | _ | ⟨apart, not_above⟩)
          · exact absurd known (Nat.not_lt.2 ‹_›)
          · rw [hname, hparent]
          · exact absurd hcycle (not_or.2 ⟨apart, not_above⟩)
      · rw [if_neg (mt habove.1 hcycle)]
        by_cases hroot : child = rootId
        · rw [if_pos hroot, Option.some.injEq]
          subst hroot
          constructor
          · rintro rfl
            rw [← hname]
            exact .root (not_or.1 hcycle).1 (not_or.1 hcycle).2
          · rintro (hunknown | ⟨-, hcycle'⟩ | _)
            · exact absurd known (Nat.not_lt.2 ‹_›)
            · exact absurd hcycle' hcycle
            · rw [hname]
        · rw [if_neg hroot]
          refine iff_of_false (by simp) ?_
          rintro (hunknown | ⟨-, hcycle'⟩ | _)
          · exact absurd known (Nat.not_lt.2 ‹_›)
          · exact hcycle hcycle'
          · exact hroot rfl

/-- What may be moved is what is not refused. -/
theorem Forest.movable_iff_not_refused (f : g.Forest) (op : g.IsOperation parent) :
    g.Movable parent child ↔ ∀ e, ¬ g.Refused parent child e := by
  rcases op with ⟨owner, howner, -⟩
  have hchecks : g.attachError? parent owner child = none ↔ g.Movable parent child :=
    attachError?_eq_none_iff
  rw [← hchecks, Option.eq_none_iff_forall_ne_some]
  exact forall_congr' fun e => not_congr (f.attachError?_eq_some_iff howner)

/-- A call that fails returns the report of the first check that fails. -/
theorem Forest.addChildren_eq_error_iff (f : g.Forest) :
    g.addChildren parent ids = .error e ↔ g.Failure parent ids e := by
  cases hn : g.node? parent with
  | none =>
      have hunknown : g.size ≤ parent := node?_eq_none_iff.1 hn
      have hres : g.addChildren parent ids = .error (.unknownNode parent) := by
        simp [addChildren, node, hn, bind, Except.bind]
      rw [hres, Except.error.injEq]
      constructor
      · rintro rfl
        exact .unknown hunknown
      · rintro (_ | ⟨known, -⟩ | ⟨op, -, -, -⟩)
        · rfl
        · exact absurd known (Nat.not_lt.2 hunknown)
        · exact absurd op.lt_size (Nat.not_lt.2 hunknown)
  | some n =>
      have known : parent < g.size := lt_size_of_node? hn
      by_cases hop : n.kind.isOperation = true
      · have op : g.IsOperation parent := ⟨n, hn, hop⟩
        have hres : g.addChildren parent ids = .error e ↔
            ids.findSome? (g.attachError? parent n) = some e := by
          cases herr : ids.findSome? (g.attachError? parent n) with
          | none =>
              simp [addChildren, node, hn, hop, herr, bind, Except.bind, pure, Except.pure]
          | some e' =>
              simp [addChildren, node, hn, hop, herr, bind, Except.bind, throw, throwThe,
                MonadExceptOf.throw]
        rw [hres, List.findSome?_eq_some_iff]
        constructor
        · rintro ⟨before, c, after, hsplit, hc, hbefore⟩
          refine .node op hsplit (fun b hb => ?_) ((f.attachError?_eq_some_iff hn).1 hc)
          exact (f.movable_iff_not_refused op).1 (attachError?_eq_none_iff.1 (hbefore b hb))
        · rintro (hunknown | ⟨-, hshape⟩ | ⟨-, hsplit, hbefore, hc⟩)
          · exact absurd known (Nat.not_lt.2 ‹_›)
          · exact absurd op hshape
          · refine ⟨_, _, _, hsplit, (f.attachError?_eq_some_iff hn).2 hc, fun b hb => ?_⟩
            exact attachError?_eq_none_iff.2 ((f.movable_iff_not_refused op).2 (hbefore b hb))
      · have hshape : ¬ g.IsOperation parent := by
          rintro ⟨m, hm, hop'⟩
          rw [Option.some.inj (hn.symm.trans hm)] at hop
          exact hop hop'
        have hres : g.addChildren parent ids = .error (.wrongKind n.name .operation) := by
          simp [addChildren, node, hn, hop, bind, Except.bind, throw, throwThe,
            MonadExceptOf.throw]
        rw [hres, Except.error.injEq, ← nameOf_of_node? hn]
        constructor
        · rintro rfl
          exact .shape known hshape
        · rintro (hunknown | _ | ⟨op, -, -, -⟩)
          · exact absurd known (Nat.not_lt.2 ‹_›)
          · rfl
          · exact absurd op hshape

/-! ## Nodes that arrive -/

/-- The nodes of a list that are not children of `parent` yet, each once, in the order in which they
first occur. -/
def arrivals (g : Graph) (parent : NodeId) (ids : List NodeId) : List NodeId :=
  (ids.filter (· ∉ g.children parent)).eraseDups

theorem mem_arrivals_iff : id ∈ g.arrivals parent ids ↔ id ∈ ids ∧ id ∉ g.children parent := by
  simp [arrivals]

theorem arrivals_nil : g.arrivals parent [] = [] := by
  simp [arrivals]

/-- A node that is in its place does not arrive. -/
theorem arrivals_cons_of_mem (h : child ∈ g.children parent) :
    g.arrivals parent (child :: ids) = g.arrivals parent ids := by
  simp [arrivals, h]

/-- The first node of the list arrives behind the children that were there, and from then on it is
one of them. -/
theorem arrivals_cons_of_notMem {g' : Graph} (h : child ∉ g.children parent)
    (hafter : g'.children parent = g.children parent ++ [child]) :
    g.arrivals parent (child :: ids) = child :: g'.arrivals parent ids := by
  have hrest : ids.filter (· ∉ g'.children parent)
      = (ids.filter (· ∉ g.children parent)).filter fun b => !b == child := by
    rw [List.filter_filter, hafter]
    refine List.filter_congr fun b _ => ?_
    by_cases hb : b = child <;> simp [hb]
  rw [arrivals, List.filter_cons_of_pos (by simpa using h), List.eraseDups_cons, ← hrest, arrivals]

theorem Forest.arrivals_eq_nil_iff (f : g.Forest) :
    g.arrivals parent ids = [] ↔ ∀ c ∈ ids, g.parent? c = some parent := by
  rw [List.eq_nil_iff_forall_not_mem]
  refine forall_congr' fun c => ?_
  rw [mem_arrivals_iff, f.mem_children_iff, not_and_not_right, Owns]

/-! ## Links after the moves -/

/-- The list of the target after one move. -/
theorem Forest.children_attach_self (f : g.Forest) (op : g.IsOperation parent) :
    (g.attach parent child).children parent
      = if child ∈ g.children parent then g.children parent
        else g.children parent ++ [child] := by
  by_cases h : g.parent? child = some parent
  · rw [attach_of_parent? h, if_pos (f.mem_children_iff.2 h)]
  · rw [attach_of_parent?_ne h, children_link ((isOperation_congr content?_unlink).2 op),
      if_pos rfl, children_unlink, if_neg h, if_neg (mt f.mem_children_iff.1 h)]

/-- Every other list loses the node that is moved. -/
theorem Forest.children_attach_of_ne (f : g.Forest) (op : g.IsOperation parent) (hne : id ≠ parent) :
    (g.attach parent child).children id = (g.children id).filter (· ≠ child) := by
  have hkept : g.parent? child ≠ some id → g.children id = (g.children id).filter (· ≠ child) := by
    intro h
    have hnot : child ∉ g.children id := mt f.mem_children_iff.1 h
    rw [List.filter_eq_self.2]
    intro c hc
    simpa using ne_of_mem_of_not_mem hc hnot
  by_cases h : g.parent? child = some parent
  · rw [attach_of_parent? h]
    apply hkept
    rw [h]
    exact fun heq => hne (Option.some.inj heq).symm
  · rw [attach_of_parent?_ne h, children_link ((isOperation_congr content?_unlink).2 op),
      if_neg hne, children_unlink]
    split
    · rfl
    · next howner => exact hkept howner

/-- The links after all moves, read off the list of arrivals. -/
theorem Forest.links_foldl_attach (f : g.Forest) (op : g.IsOperation parent)
    (hmov : ∀ c ∈ ids, g.Movable parent c) :
    let after := ids.foldl (·.attach parent ·) g
    let moved := g.arrivals parent ids
    after.children parent = g.children parent ++ moved ∧
      (∀ owner, owner ≠ parent → after.children owner = (g.children owner).filter (· ∉ moved)) ∧
      ∀ id, after.parent? id = if id ∈ moved then some parent else g.parent? id := by
  intro after moved
  induction ids generalizing g with
  | nil =>
      simp [after, moved, arrivals_nil]
  | cons c cs ih =>
      have hc : g.Movable parent c := hmov c List.mem_cons_self
      have hrest : ∀ d ∈ cs, (g.attach parent c).Movable parent d := fun d hd =>
        f.movable_attach op hc (hmov d (List.mem_cons_of_mem c hd))
      rcases ih (f.attach op hc) ((isOperation_congr content?_attach).2 op) hrest with
        ⟨hself, hothers, hparents⟩
      by_cases hplace : c ∈ g.children parent
      · -- Nothing is done, and the node is not among the arrivals.
        have hsame : g.attach parent c = g := attach_of_parent? (f.mem_children_iff.1 hplace)
        have hmoved : moved = g.arrivals parent cs := arrivals_cons_of_mem hplace
        rw [hsame, ← hmoved] at hself hothers hparents
        have hafter : after = cs.foldl (·.attach parent ·) g := by
          rw [← hsame]
          rfl
        rw [hafter]
        exact ⟨hself, hothers, hparents⟩
      · have hnext : (g.attach parent c).children parent = g.children parent ++ [c] := by
          rw [f.children_attach_self op, if_neg hplace]
        have hmoved : moved = c :: (g.attach parent c).arrivals parent cs :=
          arrivals_cons_of_notMem hplace hnext
        rw [hmoved]
        refine ⟨?_, fun owner howner => ?_, fun id => ?_⟩
        · refine hself.trans ?_
          rw [hnext, List.append_assoc, List.singleton_append]
        · refine (hothers owner howner).trans ?_
          rw [f.children_attach_of_ne op howner, List.filter_filter]
          refine List.filter_congr fun d _ => ?_
          by_cases hd : d = c <;> simp [hd]
        · refine (hparents id).trans ?_
          rw [parent?_attach hc.known]
          by_cases hid : id = c <;> simp [hid]

end Graph

/-! ## Main result -/

namespace Scene

/-- Moving nodes under an operation does what it says or nothing. It succeeds if and only if the
parent is an operation and every listed node exists, is neither the parent nor above it, and is not
the root; otherwise it returns the report of the first check that fails, and the scene stays as it
is. After a success the arrivals stand behind the children that the parent had, they have left all
other lists, and they name the parent as their owner; nothing else has changed but the revision,
which counts one change if there is an arrival. -/
theorem addChildren_moves_or_refuses (edits : List Edit) (parent : NodeId) (ids : List NodeId) :
    let s := Scene.empty.run edits
    let g := s.graph
    let moved := g.arrivals parent ids
    ((∃ g', g.addChildren parent ids = .ok g') ↔ g.IsOperation parent ∧
      ∀ c ∈ ids, c < g.size ∧ c ≠ parent ∧ ¬ g.Above c parent ∧ c ≠ rootId) ∧
    (∀ e, g.addChildren parent ids = .error e ↔ g.Failure parent ids e) ∧
    (∀ e, g.addChildren parent ids = .error e → s.step (.addChildren parent ids) = s) ∧
    ∀ g', g.addChildren parent ids = .ok g' →
      s.step (.addChildren parent ids) = { s with graph := g' } ∧
      g'.children parent = g.children parent ++ moved ∧
      (∀ owner, owner ≠ parent → g'.children owner = (g.children owner).filter (· ∉ moved)) ∧
      (∀ id, g'.parent? id = if id ∈ moved then some parent else g.parent? id) ∧
      g'.size = g.size ∧ (∀ id, g'.content? id = g.content? id) ∧
      g'.revision = if moved = [] then g.revision else g.revision + 1 := by
  intro s g moved
  have f : g.Forest := (Reachable.empty.run edits).forest
  refine ⟨?_, fun e => f.addChildren_eq_error_iff, ?_, ?_⟩
  · constructor
    · rintro ⟨g', hok⟩
      rcases Graph.addChildren_eq_ok_iff.1 hok with ⟨op, hmov, -⟩
      exact ⟨op, fun c hc => f.movable_iff.1 (hmov c hc)⟩
    · rintro ⟨op, hids⟩
      exact ⟨_, Graph.addChildren_of_movable op fun c hc => f.movable_iff.2 (hids c hc)⟩
  · intro e herror
    have hrefused : s.graph.addChildren parent ids = .error e := herror
    simp [step, apply, withGraph, hrefused, Except.map]
  · intro g' hok
    have hdone : s.graph.addChildren parent ids = .ok g' := hok
    rcases Graph.addChildren_eq_ok_iff.1 hok with ⟨op, hmov, hg'⟩
    rcases f.links_foldl_attach op hmov with ⟨hself, hothers, hparents⟩
    refine ⟨by simp [step, apply, withGraph, hdone, Except.map], ?_⟩
    by_cases hplace : ∀ c ∈ ids, g.parent? c = some parent
    · have hmoved : moved = [] := f.arrivals_eq_nil_iff.2 hplace
      rw [if_pos hplace] at hg'
      simp [hg', hmoved]
    · have hmoved : moved ≠ [] := mt f.arrivals_eq_nil_iff.1 hplace
      rw [if_neg hplace] at hg'
      rw [hg', if_neg hmoved]
      refine ⟨hself, hothers, hparents, ?_, ?_, ?_⟩
      · rw [Graph.size_bump, Graph.size_foldl_attach]
      · intro id
        rw [Graph.content?_bump, Graph.content?_foldl_attach]
      · rw [Graph.revision_bump, revision_foldl_attach]

end Scene
end SdfShader
