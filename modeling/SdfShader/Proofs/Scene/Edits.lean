import SdfShader.Proofs.Scene.Links
import SdfShader.Scene.Basic

/-!
# Edits — everything that one edit can do to a scene

An edit either leaves the scene alone or makes one of five changes: a new shape, a new operation,
nodes moved under an operation, a node detached, the parameters of one node replaced.
`Scene.Change` lists them together with what the checks have established by then.
`Scene.outcome_apply` says that an edit that is accepted makes one of them unless it asks for what is
there already, so `Scene.step_eq_or_change` holds of every edit. What holds along every run of edits
is proved with `Scene.Reachable.invariant`, with one case for each change.
-/

namespace SdfShader

/-! ## Accepted parameters -/

/-- What the checks ask of a solid. -/
def Solid.Accepted : Solid → Prop
  | .sphere radius => radius.isFinite = true ∧ 0 < radius
  | .box halfExtents =>
      halfExtents.isFinite = true ∧ 0 < halfExtents.x ∧ 0 < halfExtents.y ∧ 0 < halfExtents.z

/-- What the checks ask of a shape. -/
structure Shape.Accepted (s : Shape) : Prop where
  position : s.position.isFinite = true
  color : s.color.isFinite = true
  solid : s.solid.Accepted

/-- What the checks ask of an operation. -/
def Join.Accepted : Join → Prop
  | .sharp => True
  | .smooth smoothness => smoothness.isFinite = true ∧ 0 ≤ smoothness ∧ smoothness < maxSmoothness

/-- What the checks ask of a node. -/
def NodeKind.Accepted : NodeKind → Prop
  | .shape s => s.Accepted
  | .operation join _ => join.Accepted

theorem NodeKind.accepted_bare (k : NodeKind) : k.bare.Accepted ↔ k.Accepted := by
  cases k <;> exact Iff.rfl

section Checks

variable {parameter : VectorParameter} {v : Vec3 Single} {x : Single}

theorem checkVector_eq_ok_iff : checkVector parameter v = .ok () ↔ v.isFinite = true := by
  by_cases h : v.isFinite <;> simp [checkVector, h]

theorem checkRadius_eq_ok_iff : checkRadius x = .ok () ↔ (Solid.sphere x).Accepted := by
  by_cases h : x.isFinite ∧ 0 < x <;> simp [checkRadius, Solid.Accepted, h]

theorem checkSmoothness_eq_ok_iff : checkSmoothness x = .ok () ↔ (Join.smooth x).Accepted := by
  by_cases h : x.isFinite ∧ 0 ≤ x ∧ x < maxSmoothness <;>
    simp [checkSmoothness, Join.Accepted, h]

theorem checkHalfExtents_eq_ok_iff : checkHalfExtents v = .ok () ↔ (Solid.box v).Accepted := by
  by_cases h : v.isFinite
  · by_cases hp : 0 < v.x ∧ 0 < v.y ∧ 0 < v.z <;>
      simp [checkHalfExtents, checkVector, Solid.Accepted, h, hp, bind, Except.bind]
  · simp [checkHalfExtents, checkVector, Solid.Accepted, h, bind, Except.bind]

end Checks

/-- The label of a shape is that of its solid. -/
theorem NodeKind.label_shape_congr {s t : Shape} (h : t.solid = s.solid) :
    (NodeKind.shape t).label = (NodeKind.shape s).label := by
  rcases s with ⟨_, _, solid⟩
  rcases t with ⟨_, _, solid'⟩
  obtain rfl : solid' = solid := h
  cases solid' <;> rfl

/-- A kind of the same form as another one: the same label and children, and parameters that are
accepted if the old ones were. -/
inductive NodeKind.Retuned : NodeKind → NodeKind → Prop
  | shape {s t : Shape} : (NodeKind.shape t).label = (NodeKind.shape s).label →
      (s.Accepted → t.Accepted) → Retuned (.shape s) (.shape t)
  | smooth {j k : Single} {ids : List NodeId} :
      (Join.smooth k).Accepted → Retuned (.operation (.smooth j) ids) (.operation (.smooth k) ids)

namespace NodeKind.Retuned

variable {k l : NodeKind}

theorem children (h : k.Retuned l) : l.children = k.children := by
  cases h <;> rfl

theorem isOperation (h : k.Retuned l) : l.isOperation = k.isOperation := by
  cases h <;> rfl

theorem label (h : k.Retuned l) : l.label = k.label := by
  cases h with
  | shape hlabel _ =>
      exact hlabel
  | smooth _ =>
      rfl

/-- A sharp operation has no parameters. -/
theorem bare_ne_sharp (h : k.Retuned l) : k.bare ≠ .operation .sharp [] := by
  cases h <;> simp [bare, mapChildren]

theorem accepted (h : k.Retuned l) (hk : k.Accepted) : l.Accepted := by
  cases h with
  | shape _ ht =>
      exact ht hk
  | smooth hl =>
      exact hl

end NodeKind.Retuned

namespace Graph

variable {g g' : Graph} {parent child id : NodeId} {ids : List NodeId} {owner : Node}

/-! ## Structural edits -/

/-- A node that may be moved under `parent`. -/
structure Movable (g : Graph) (parent child : NodeId) : Prop where
  known : child < g.size
  ne_parent : child ≠ parent
  not_above : child ∉ g.ancestors parent
  ne_root : child ≠ rootId

theorem attachError?_eq_none_iff :
    g.attachError? parent owner child = none ↔ g.Movable parent child := by
  cases hn : g.node? child with
  | none =>
      have hsize : ¬ child < g.size := Nat.not_lt.2 (node?_eq_none_iff.1 hn)
      refine iff_of_false (by simp [attachError?, hn]) fun h => hsize h.known
  | some n =>
      have known : child < g.size := lt_size_of_node? hn
      -- The checks in their order: cycle, then root.
      by_cases hcycle : child = parent ∨ child ∈ g.ancestors parent
      · refine iff_of_false (by simp [attachError?, hn, hcycle]) fun h => ?_
        exact hcycle.elim h.ne_parent h.not_above
      · by_cases hroot : child = rootId
        · refine iff_of_false ?_ fun h => h.ne_root hroot
          simp only [attachError?, hn, if_neg hcycle, if_pos hroot]
          simp
        · refine iff_of_true ?_ ⟨known, fun h => hcycle (.inl h), fun h => hcycle (.inr h), hroot⟩
          simp only [attachError?, hn, if_neg hcycle, if_neg hroot]

/-- Nodes that are all in place stay there. -/
theorem foldl_attach_of_forall_parent? (h : ∀ c ∈ ids, g.parent? c = some parent) :
    ids.foldl (·.attach parent ·) g = g := by
  induction ids with
  | nil =>
      rfl
  | cons c cs ih =>
      rw [List.foldl_cons, attach_of_parent? (h c List.mem_cons_self)]
      exact ih fun d hd => h d (List.mem_cons_of_mem c hd)

/-- The result where nothing stands against the move. -/
theorem addChildren_of_movable (op : g.IsOperation parent) (hmov : ∀ c ∈ ids, g.Movable parent c) :
    g.addChildren parent ids
      = .ok (if ∀ c ∈ ids, g.parent? c = some parent then g
          else (ids.foldl (·.attach parent ·) g).bump) := by
  rcases op with ⟨n, hn, hop⟩
  have hnone : ids.findSome? (g.attachError? parent n) = none :=
    List.findSome?_eq_none_iff.2 fun c hc => attachError?_eq_none_iff.2 (hmov c hc)
  have hres : g.addChildren parent ids
      = .ok (if ids.all (g.parent? · = some parent)
          then ids.foldl (·.attach parent ·) g
          else (ids.foldl (·.attach parent ·) g).bump) := by
    simp [addChildren, node, hn, hop, hnone, bind, Except.bind, pure, Except.pure]
  rw [hres]
  by_cases hall : ∀ c ∈ ids, g.parent? c = some parent
  · rw [if_pos (by simpa using hall), if_pos hall, foldl_attach_of_forall_parent? hall]
  · rw [if_neg (by simpa using hall), if_neg hall]

/-- Nodes are moved under an operation exactly if every one of them may be moved; the change is
counted if one of them was elsewhere. -/
theorem addChildren_eq_ok_iff :
    g.addChildren parent ids = .ok g' ↔
      g.IsOperation parent ∧ (∀ c ∈ ids, g.Movable parent c) ∧
        g' = if ∀ c ∈ ids, g.parent? c = some parent then g
          else (ids.foldl (·.attach parent ·) g).bump := by
  constructor
  · intro h
    -- A failed check would have been returned in place of a graph.
    have hmov : g.IsOperation parent ∧ ∀ c ∈ ids, g.Movable parent c := by
      cases hn : g.node? parent with
      | none =>
          simp [addChildren, node, hn, bind, Except.bind] at h
      | some n =>
          by_cases hop : n.kind.isOperation = true
          · refine ⟨⟨n, hn, hop⟩, ?_⟩
            intro c hc
            suffices h : g.attachError? parent n c = none from attachError?_eq_none_iff.1 h
            cases herr : ids.findSome? (g.attachError? parent n) with
            | none =>
                exact List.findSome?_eq_none_iff.1 herr c hc
            | some e =>
                simp [addChildren, node, hn, hop, herr, bind, Except.bind, throw, throwThe,
                  MonadExceptOf.throw] at h
          · simp [addChildren, node, hn, hop, bind, Except.bind, throw, throwThe,
              MonadExceptOf.throw] at h
    rw [addChildren_of_movable hmov.1 hmov.2] at h
    exact ⟨hmov.1, hmov.2, (Except.ok.inj h).symm⟩
  · rintro ⟨op, hmov, rfl⟩
    exact addChildren_of_movable op hmov

/-- A node is detached from an operation that owns it; any other known pair changes nothing. -/
theorem removeChild_eq_ok_iff :
    g.removeChild parent child = .ok g' ↔
      parent < g.size ∧ child < g.size ∧
        g' = if g.parent? child = some parent then (g.unlink child).bump else g := by
  cases hp : g.node? parent with
  | none =>
      refine iff_of_false ?_ fun h => ?_
      · simp [removeChild, node, hp, bind, Except.bind]
      · exact Nat.not_lt.2 (node?_eq_none_iff.1 hp) h.1
  | some n =>
      cases hc : g.node? child with
      | none =>
          refine iff_of_false ?_ fun h => ?_
          · simp [removeChild, node, hp, hc, bind, Except.bind]
          · exact Nat.not_lt.2 (node?_eq_none_iff.1 hc) h.2.1
      | some m =>
          have hres : g.removeChild parent child
              = .ok (if g.parent? child = some parent then (g.unlink child).bump else g) := by
            simp [removeChild, node, hp, hc, bind, Except.bind, pure, Except.pure]
          rw [hres]
          simp only [Except.ok.injEq, lt_size_of_node? hp, lt_size_of_node? hc, true_and]
          exact eq_comm

/-! ## Parameter edits -/

/-- A kind is edited exactly where the node exists and has a kind that can be changed. -/
theorem editKind_eq_ok_iff {role : Role} {h : NodeKind → Option NodeKind} :
    g.editKind id role h = .ok g' ↔
      ∃ n kind, g.node? id = some n ∧ h n.kind = some kind ∧
        g' = (g.modify id ({ · with kind })).bump := by
  cases hn : g.node? id with
  | none =>
      simp [editKind, node, hn, bind, Except.bind]
  | some n =>
      cases hk : h n.kind with
      | none =>
          simp [editKind, node, hn, hk, bind, Except.bind, throw, throwThe, MonadExceptOf.throw]
      | some kind =>
          simp [editKind, node, hn, hk, bind, Except.bind, pure, Except.pure, eq_comm]

/-- A check in front of an edit. -/
theorem guardParameter_bind_eq_ok_iff {α : Type} {check : Except ParameterError Unit}
    {next : Except SceneError α} {a : α} :
    (guardParameter check >>= fun _ => next) = .ok a ↔ check = .ok () ∧ next = .ok a := by
  cases check with
  | error e =>
      have herror : guardParameter (.error e) = .error (.invalidParameter e) := rfl
      simp [herror, bind, Except.bind]
  | ok _ =>
      have hok : guardParameter (.ok ()) = .ok () := rfl
      simp [hok, bind, Except.bind]

end Graph

/-! ## The five changes -/

namespace Scene

variable {s t : Scene}

/-- A scene and what one edit can make of it, with all that the checks of the edit establish. -/
inductive Change (s : Scene) : Scene → Prop
  | shape {figure : Shape} (accepted : figure.Accepted) :
      Change s (s.insertShape figure).1
  | operation {join : Join} (accepted : join.Accepted) :
      Change s (s.insertOperation join).1
  | move {parent : NodeId} {ids : List NodeId} (operation : s.graph.IsOperation parent)
      (movable : ∀ c ∈ ids, s.graph.Movable parent c)
      (elsewhere : ∃ c ∈ ids, s.graph.parent? c ≠ some parent) :
      Change s { s with graph := (ids.foldl (·.attach parent ·) s.graph).bump }
  | detach {parent child : NodeId} (owned : s.graph.parent? child = some parent) :
      Change s { s with graph := (s.graph.unlink child).bump }
  | retune {id : NodeId} {n : Node} {kind : NodeKind} (known : s.graph.node? id = some n)
      (retuned : n.kind.Retuned kind) :
      Change s { s with graph := (s.graph.modify id ({ · with kind })).bump }

/-- Whether an edit asks for what is there already. -/
def Idle (s : Scene) : Edit → Prop
  | .addChildren parent ids => ∀ c ∈ ids, s.graph.parent? c = some parent
  | .removeChild parent child => s.graph.parent? child ≠ some parent
  | _ => False

/-- Whether `t` can be the scene after an edit that is accepted: it is a change of the old one, and
the old one itself if the edit asks for what is there already. -/
def Outcome (s : Scene) (e : Edit) (t : Scene) : Prop :=
  (s.Idle e ∧ t = s) ∨ (¬ s.Idle e ∧ Change s t)

theorem step_of_apply_eq_ok {e : Edit} {r : Scene × Option NodeId} (h : s.apply e = .ok r) :
    s.step e = r.1 := by
  simp [step, h]

theorem step_of_apply_eq_error {e : Edit} {cause : SceneError} (h : s.apply e = .error cause) :
    s.step e = s := by
  simp [step, h]

/-- The result of an edit of the graph alone. -/
theorem withGraph_eq_ok_iff {result : Except SceneError Graph} {r : Scene × Option NodeId} :
    s.withGraph result = .ok r ↔ ∃ g, result = .ok g ∧ r = ({ s with graph := g }, none) := by
  cases result <;> simp [withGraph, Except.map, eq_comm]

/-- The result of an edit that creates a node. -/
theorem creation_eq_ok_iff {result : Except SceneError (Scene × NodeId)}
    {r : Scene × Option NodeId} :
    (do let (s, id) ← result; return (s, some id)) = (.ok r : Except SceneError _) ↔
      ∃ t, result = .ok t ∧ r = (t.1, some t.2) := by
  cases result <;> simp [bind, Except.bind, pure, Except.pure, eq_comm]

/-- The scene after an edit of the graph alone. -/
theorem outcome_of_withGraph {e : Edit} {r : Scene × Option NodeId}
    (result : Except SceneError Graph) (h : s.withGraph result = .ok r)
    (hresult : ∀ g, result = .ok g → s.Outcome e { s with graph := g }) : s.Outcome e r.1 := by
  rcases withGraph_eq_ok_iff.1 h with ⟨g, hg, rfl⟩
  exact hresult g hg

/-- An edit of parameters replaces a kind by a retuned one. -/
theorem change_of_checked_editKind {check : Except ParameterError Unit} {id : NodeId} {role : Role}
    {h : NodeKind → Option NodeKind} {g : Graph}
    (hretuned : check = .ok () → ∀ k l, h k = some l → k.Retuned l)
    (hok : (do Graph.guardParameter check; s.graph.editKind id role h) = .ok g) :
    Change s { s with graph := g } := by
  rcases Graph.guardParameter_bind_eq_ok_iff.1 hok with ⟨hcheck, hedit⟩
  rcases Graph.editKind_eq_ok_iff.1 hedit with ⟨n, kind, hn, hkind, rfl⟩
  exact .retune hn (hretuned hcheck _ _ hkind)

/-- The scene after an edit that creates a node. -/
theorem outcome_of_creation {e : Edit} {r : Scene × Option NodeId}
    (result : Except SceneError (Scene × NodeId))
    (h : (do let (s, id) ← result; return (s, some id)) = .ok r)
    (hresult : ∀ t, result = .ok t → s.Outcome e t.1) : s.Outcome e r.1 := by
  rcases creation_eq_ok_iff.1 h with ⟨t, ht, rfl⟩
  exact hresult t ht

theorem addSphere_eq_ok_iff {position color : Vec3 Single} {radius : Single}
    {r : Scene × NodeId} :
    s.addSphere position radius color = .ok r ↔
      (⟨position, color, .sphere radius⟩ : Shape).Accepted ∧
        r = s.insertShape ⟨position, color, .sphere radius⟩ := by
  simp only [addSphere, Graph.guardParameter_bind_eq_ok_iff, checkVector_eq_ok_iff,
    checkRadius_eq_ok_iff, pure, Except.pure, Except.ok.injEq]
  constructor
  · rintro ⟨hp, hc, hr, rfl⟩
    exact ⟨⟨hp, hc, hr⟩, rfl⟩
  · rintro ⟨⟨hp, hc, hr⟩, rfl⟩
    exact ⟨hp, hc, hr, rfl⟩

theorem addBox_eq_ok_iff {position halfExtents color : Vec3 Single} {r : Scene × NodeId} :
    s.addBox position halfExtents color = .ok r ↔
      (⟨position, color, .box halfExtents⟩ : Shape).Accepted ∧
        r = s.insertShape ⟨position, color, .box halfExtents⟩ := by
  simp only [addBox, Graph.guardParameter_bind_eq_ok_iff, checkVector_eq_ok_iff,
    checkHalfExtents_eq_ok_iff, pure, Except.pure, Except.ok.injEq]
  constructor
  · rintro ⟨hp, hc, hh, rfl⟩
    exact ⟨⟨hp, hc, hh⟩, rfl⟩
  · rintro ⟨⟨hp, hc, hh⟩, rfl⟩
    exact ⟨hp, hc, hh, rfl⟩

theorem addSmoothUnion_eq_ok_iff {smoothness : Single} {r : Scene × NodeId} :
    s.addSmoothUnion smoothness = .ok r ↔
      (Join.smooth smoothness).Accepted ∧ r = s.insertOperation (.smooth smoothness) := by
  simp only [addSmoothUnion, Graph.guardParameter_bind_eq_ok_iff, checkSmoothness_eq_ok_iff, pure,
    Except.pure, Except.ok.injEq]
  exact and_congr_right fun _ => eq_comm

/-- Every edit that is accepted has one of the outcomes. -/
theorem outcome_apply {e : Edit} {r : Scene × Option NodeId} (h : s.apply e = .ok r) :
    s.Outcome e r.1 := by
  cases e with
  | addSphere position radius color =>
      refine outcome_of_creation _ h fun t ht => .inr ⟨id, ?_⟩
      rcases addSphere_eq_ok_iff.1 ht with ⟨haccepted, rfl⟩
      exact .shape haccepted
  | addBox position halfExtents color =>
      refine outcome_of_creation _ h fun t ht => .inr ⟨id, ?_⟩
      rcases addBox_eq_ok_iff.1 ht with ⟨haccepted, rfl⟩
      exact .shape haccepted
  | addUnion =>
      cases h
      exact .inr ⟨id, .operation (show Join.sharp.Accepted from trivial)⟩
  | addSmoothUnion smoothness =>
      refine outcome_of_creation _ h fun t ht => .inr ⟨id, ?_⟩
      rcases addSmoothUnion_eq_ok_iff.1 ht with ⟨haccepted, rfl⟩
      exact .operation haccepted
  | addChildren parent ids =>
      refine outcome_of_withGraph _ h fun g hg => ?_
      rcases Graph.addChildren_eq_ok_iff.1 hg with ⟨op, hmov, rfl⟩
      by_cases hall : ∀ c ∈ ids, s.graph.parent? c = some parent
      · rw [if_pos hall]
        exact .inl ⟨hall, rfl⟩
      · rw [if_neg hall]
        exact .inr ⟨hall, .move op hmov (by simpa using hall)⟩
  | removeChild parent child =>
      refine outcome_of_withGraph _ h fun g hg => ?_
      rcases Graph.removeChild_eq_ok_iff.1 hg with ⟨_, _, rfl⟩
      by_cases howned : s.graph.parent? child = some parent
      · rw [if_pos howned]
        exact .inr ⟨fun hnot => hnot howned, .detach howned⟩
      · rw [if_neg howned]
        exact .inl ⟨howned, rfl⟩
  | setPosition id value =>
      refine outcome_of_withGraph _ h fun g hg => .inr ⟨fun h => h, ?_⟩
      refine change_of_checked_editKind (fun hcheck k l hkl => ?_) hg
      split at hkl
      · cases hkl
        exact .shape (NodeKind.label_shape_congr rfl)
          fun hs => { hs with position := checkVector_eq_ok_iff.1 hcheck }
      · cases hkl
  | setColor id value =>
      refine outcome_of_withGraph _ h fun g hg => .inr ⟨fun h => h, ?_⟩
      refine change_of_checked_editKind (fun hcheck k l hkl => ?_) hg
      split at hkl
      · cases hkl
        exact .shape (NodeKind.label_shape_congr rfl)
          fun hs => { hs with color := checkVector_eq_ok_iff.1 hcheck }
      · cases hkl
  | setRadius id value =>
      refine outcome_of_withGraph _ h fun g hg => .inr ⟨fun h => h, ?_⟩
      refine change_of_checked_editKind (fun hcheck k l hkl => ?_) hg
      split at hkl
      · cases hkl
        exact .shape rfl fun hs => ⟨hs.position, hs.color, checkRadius_eq_ok_iff.1 hcheck⟩
      · cases hkl
  | setHalfExtents id value =>
      refine outcome_of_withGraph _ h fun g hg => .inr ⟨fun h => h, ?_⟩
      refine change_of_checked_editKind (fun hcheck k l hkl => ?_) hg
      split at hkl
      · cases hkl
        exact .shape rfl fun hs => ⟨hs.position, hs.color, checkHalfExtents_eq_ok_iff.1 hcheck⟩
      · cases hkl
  | setSmoothness id value =>
      refine outcome_of_withGraph _ h fun g hg => .inr ⟨fun h => h, ?_⟩
      refine change_of_checked_editKind (fun hcheck k l hkl => ?_) hg
      split at hkl
      · cases hkl
        exact .smooth (checkSmoothness_eq_ok_iff.1 hcheck)
      · cases hkl

/-- There is nothing else that an edit can do. -/
theorem step_eq_or_change (s : Scene) (e : Edit) : s.step e = s ∨ Change s (s.step e) := by
  cases h : s.apply e with
  | error cause =>
      exact .inl (step_of_apply_eq_error h)
  | ok r =>
      rw [step_of_apply_eq_ok h]
      exact (outcome_apply h).imp And.right And.right

/-- What holds of the empty scene and is kept by every change holds of every reachable scene. -/
theorem Reachable.invariant {P : Scene → Prop} (h : Reachable s) (empty : P Scene.empty)
    (change : ∀ {s t : Scene}, Change s t → P s → P t) : P s := by
  induction h with
  | empty =>
      exact empty
  | @step s _ e ih =>
      rcases s.step_eq_or_change e with heq | hchange
      · rwa [heq]
      · exact change hchange ih

end Scene
end SdfShader
