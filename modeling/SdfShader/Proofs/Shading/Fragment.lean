import SdfShader.Proofs.Scene.Contents
import SdfShader.Proofs.Scene.ForestRuns
import SdfShader.Proofs.Scene.Subtree
import SdfShader.Proofs.Shading.Simulation
import SdfShader.Scene.Demo
import SdfShader.Scene.Evaluation

/-!
# Fragment — the text of a fragment means the tree below its node

The fragment of a node is text of the shading language. Whatever an interpretation makes of numbers
and functions, running that text leaves in the result the evaluation of the node, taken in.

1. Names given by a scene are names of registers, and none is reserved or declared by `map`.
2. So the statements of every tree of a scene have a text, and it is read as their commands.
3. The names in a tree are distinct, so the statements run and leave the sample of the tree.
4. That sample is the evaluation of the graph at the node, which speaks of nodes and children only.
5. If numerals are read as the nearest numbers of the format, the evaluation is that of the numbers
   in the nodes themselves (`ReadsNearest`), since literals are exact.
-/

namespace SdfShader

open Shading

/-! ## Names of registers -/

/-- Whether a name begins as the names of nodes do: with a stem and a digit. -/
def startsLikeNode : List Char → Bool
  | 's' :: c :: _ => c.isDigit
  | 'o' :: 'p' :: c :: _ => c.isDigit
  | _ => false

theorem startsLikeNode_name (k : NodeKind) (number : Nat) :
    startsLikeNode (k.stem ++ toString number).toList = true := by
  rcases hdigits : Nat.toDigits 10 number with _ | ⟨c, cs⟩
  · exact absurd hdigits Nat.toDigits_ne_nil
  · have hmem : c ∈ Nat.toDigits 10 number := by
      simp [hdigits]
    have hc : c.isDigit = true := isDigit_of_mem_toDigits hmem
    cases k <;> simp [NodeKind.stem, shapeStem, operationStem, startsLikeNode, hdigits, hc]

theorem isWord_name (k : NodeKind) (number : Nat) : IsWord (k.stem ++ toString number).toList := by
  have hpart : ∀ c ∈ Nat.toDigits 10 number, isNamePart c = true := fun c hc =>
    isNamePart_of_isDigit (isDigit_of_mem_toDigits hc)
  cases k with
  | shape _ =>
      refine ⟨'s', Nat.toDigits 10 number, ?_, by decide, hpart⟩
      simp [NodeKind.stem, shapeStem]
  | operation _ _ =>
      refine ⟨'o', 'p' :: Nat.toDigits 10 number, ?_, by decide, ?_⟩
      · simp [NodeKind.stem, operationStem]
      · -- Behind the first letter stands the second one, then the digits.
        intro c hc
        rcases List.mem_cons.1 hc with rfl | hc
        · decide
        · exact hpart c hc

/-- A name that a scene gives to its nodes. -/
def IsNodeName (name : String) : Prop :=
  ∃ (kind : NodeKind) (number : Nat), name = kind.stem ++ toString number

namespace IsNodeName

variable {name : String}

theorem notMem_of_not_startsLikeNode (h : IsNodeName name) {words : List String}
    (hwords : ∀ w ∈ words, startsLikeNode w.toList = false) : name ∉ words := by
  rcases h with ⟨kind, number, rfl⟩
  intro hmem
  have hstart := hwords _ hmem
  rw [startsLikeNode_name] at hstart
  cases hstart

theorem isRegister (h : IsNodeName name) : IsRegister name where
  word := by
    rcases h with ⟨kind, number, rfl⟩
    exact isWord_name kind number
  not_reserved := h.notMem_of_not_startsLikeNode (by decide)
  ne_point := by
    have hdeclared : name ∉ declaredNames := h.notMem_of_not_startsLikeNode (by decide)
    rintro rfl
    exact hdeclared (by decide)

theorem ne_result (h : IsNodeName name) : name ≠ resultRegister := by
  have hdeclared : name ∉ declaredNames := h.notMem_of_not_startsLikeNode (by decide)
  rintro rfl
  exact hdeclared (by decide)

end IsNodeName

theorem isRegister_result : IsRegister resultRegister where
  word := ⟨'r', ['e', 's'], rfl, rfl, List.all_eq_true.1 rfl⟩
  not_reserved := by decide
  ne_point := by decide

/-! ## Statements of a tree -/

theorem Shape.Accepted.finite {s : Shape} (h : s.Accepted) : s.solid.Finite := by
  have hsolid := h.solid
  cases hs : s.solid with
  | sphere radius =>
      rw [hs] at hsolid
      exact hsolid.1
  | box halfExtents =>
      rw [hs] at hsolid
      exact hsolid.1

theorem Join.Accepted.finite {join : Join} (h : join.Accepted) : join.Finite := by
  cases join with
  | sharp =>
      trivial
  | smooth smoothness =>
      exact h.1

/-- Whether a statement has a text that can be read. -/
structure Statement.Sound (s : Statement) : Prop where
  finite : s.Finite
  registers : ∀ name ∈ s.registers, IsRegister name

namespace Tree

variable {name target : String}

theorem sound_takeCloser (hname : IsRegister name) (htarget : IsRegister target) :
    (Statement.takeCloser name target).Sound :=
  ⟨trivial, by simp [Statement.registers, hname, htarget]⟩

theorem sound_join (hname : IsRegister name) (htarget : IsRegister target) {join : Join}
    (hjoin : join.Accepted) : (Statement.join join target name).Sound :=
  ⟨hjoin.finite, by simp [Statement.registers, hname, htarget]⟩

theorem sound_opening (hname : IsRegister name) : (opening name).Sound := by
  have hfinite : sentinelDistance.isFinite = true := by decide
  exact ⟨⟨by decide, hfinite⟩, by simp [opening, Statement.registers, hname]⟩

theorem sound_childStatements (hname : IsRegister name) {join : Join} (hjoin : join.Accepted)
    {ts : List Tree}
    (hts : ∀ t ∈ ts, IsRegister t.name ∧ ∀ s ∈ t.statements name, s.Sound) :
    ∀ s ∈ childStatements name join ts, s.Sound := by
  induction ts with
  | nil =>
      simp [childStatements]
  | cons t ts ih =>
      rcases hts t List.mem_cons_self with ⟨hchild, hstatements⟩
      have hmore : ∀ u ∈ ts, IsRegister u.name ∧ ∀ s ∈ u.statements name, s.Sound := by
        intro u hu
        exact hts u (List.mem_cons_of_mem t hu)
      intro s hs
      rw [childStatements, List.mem_append, List.mem_cons] at hs
      rcases hs with hs | rfl | hs
      · exact hstatements s hs
      · exact sound_join hchild hname hjoin
      · exact ih hmore s hs

end Tree

namespace Scene

variable {s : Scene} {id : NodeId} {t : Tree}

theorem Reachable.isNodeName (h : s.Reachable) {n : Node} (hn : s.graph.node? id = some n) :
    IsNodeName n.name := by
  rcases h.named.minted (Graph.content?_of_node? hn) with ⟨number, _, hname⟩
  exact ⟨_, number, hname⟩

/-- Every statement of a tree of a scene has a text that can be read. -/
theorem Reachable.sound_statements (h : s.Reachable) :
    ∀ id, id < s.graph.size → ∀ t, s.graph.tree? id = some t →
      IsRegister t.name ∧
        ∀ target, IsRegister target → ∀ st ∈ t.statements target, st.Sound := by
  refine h.forest.tree?_induction ?_ ?_
  · intro id n figure hn hk
    have hname : IsRegister n.name := (h.isNodeName hn).isRegister
    have haccepted : figure.Accepted := by
      have hkind := h.accepted.kind hn
      rwa [hk] at hkind
    refine ⟨hname, ?_⟩
    intro target htarget st hst
    simp only [Tree.statements, List.mem_cons, List.not_mem_nil, or_false] at hst
    rcases hst with rfl | rfl
    · exact ⟨⟨haccepted.color, haccepted.position, haccepted.finite⟩,
        by simp [Statement.registers, hname]⟩
    · exact Tree.sound_takeCloser hname htarget
  · intro id n join ids ts hn hk hts ih
    have hname : IsRegister n.name := (h.isNodeName hn).isRegister
    have haccepted : join.Accepted := by
      have hkind := h.accepted.kind hn
      rwa [hk] at hkind
    -- The children write into the register of this node.
    have hchildren : ∀ u ∈ ts, IsRegister u.name ∧ ∀ st ∈ u.statements n.name, st.Sound := by
      intro u hu
      rcases exists_of_mem_mapM hts hu with ⟨c, hc, htree⟩
      rcases ih c hc u htree with ⟨hchild, hstatements⟩
      exact ⟨hchild, hstatements n.name hname⟩
    refine ⟨hname, ?_⟩
    intro target htarget st hst
    rw [Tree.statements, List.mem_append, List.mem_cons, List.mem_singleton] at hst
    rcases hst with (rfl | hst) | rfl
    · exact Tree.sound_opening hname
    · exact Tree.sound_childStatements hname haccepted hchildren st hst
    · exact Tree.sound_takeCloser hname htarget

theorem Reachable.sound_body (h : s.Reachable) (known : id < s.graph.size)
    (ht : s.graph.tree? id = some t) : ∀ st ∈ t.body, st.Sound := by
  rcases h.sound_statements id known t ht with ⟨hname, hstatements⟩
  intro st hst
  rcases List.mem_append.1 hst with hst | hst
  · exact hstatements _ isRegister_result st hst
  · rw [List.mem_singleton.1 hst]
    exact Tree.sound_join hname isRegister_result trivial

/-- No name occurs twice in a tree of a scene, and none is that of the result. -/
theorem Reachable.nodup_names (h : s.Reachable) (known : id < s.graph.size)
    (ht : s.graph.tree? id = some t) : t.names.Nodup ∧ ∀ name ∈ t.names, name ≠ resultRegister := by
  rw [h.forest.names_tree? id known t ht]
  have hlt : ∀ a ∈ s.graph.subtree id, a < s.graph.size := fun a ha =>
    h.forest.lt_size_of_mem_subtree known ha
  constructor
  · -- No node is listed twice, and different nodes have different names.
    apply (h.forest.nodup_subtree id known).map_on
    intro a ha b hb heq
    exact h.named.injOn_nameOf (hlt a ha) (hlt b hb) heq
  · intro name hname
    rcases List.mem_map.1 hname with ⟨a, ha, rfl⟩
    rcases Graph.exists_node?_iff.2 (hlt a ha) with ⟨n, hn⟩
    rw [Graph.nameOf_of_node? hn]
    exact (h.isNodeName hn).ne_result

end Scene

/-! ## Evaluation of a graph -/

section Evaluation

variable {Color Distance : Type}

/-- What a node gives, if `value` says what its children give. -/
def NodeKind.sample (d : Device Color Distance) (value : NodeId → Sample Color Distance) :
    NodeKind → Sample Color Distance
  | .shape s => ⟨d.color s.color, true, d.measure s.position s.solid⟩
  | .operation join ids =>
    ids.foldl (fun collected child => d.takeIn join (value child) collected) d.background

/-- Whether `value` says of every node what it gives. -/
def Graph.Evaluation (g : Graph) (d : Device Color Distance)
    (value : NodeId → Sample Color Distance) : Prop :=
  ∀ id n, g.node? id = some n → value id = n.kind.sample d value

variable {g : Graph} {d : Device Color Distance} {value : NodeId → Sample Color Distance}

theorem Tree.collect_eq_foldl {join : Join} {ids : List NodeId} {ts : List Tree}
    (hts : ids.mapM g.tree? = some ts)
    (hvalue : ∀ c ∈ ids, ∀ t, g.tree? c = some t → t.sample d = value c)
    (s : Sample Color Distance) :
    Tree.collect d join ts s
      = ids.foldl (fun collected child => d.takeIn join (value child) collected) s := by
  induction ids generalizing ts s with
  | nil =>
      cases hts
      rfl
  | cons c ids ih =>
      rcases mapM_cons_eq_some_iff.1 hts with ⟨t, rest, ht, hrest, rfl⟩
      have hmore : ∀ c' ∈ ids, ∀ u, g.tree? c' = some u → u.sample d = value c' := by
        intro c' hc'
        exact hvalue c' (List.mem_cons_of_mem c hc')
      rw [Tree.collect, List.foldl_cons, hvalue c List.mem_cons_self t ht]
      exact ih hrest hmore _

/-- The sample of a tree is what its node gives. -/
theorem Graph.Forest.sample_tree? (f : g.Forest) (hvalue : g.Evaluation d value) :
    ∀ id, id < g.size → ∀ t, g.tree? id = some t → t.sample d = value id := by
  refine f.tree?_induction ?_ ?_
  · intro id n s hn hk
    rw [hvalue id n hn, hk]
    rfl
  · intro id n join ids ts hn hk hts ih
    rw [hvalue id n hn, hk]
    exact Tree.collect_eq_foldl hts ih _

/-- In a forest every node gives something. -/
theorem Graph.Forest.exists_evaluation (f : g.Forest) (d : Device Color Distance) :
    ∃ value, g.Evaluation d value := by
  -- The tree below each node gives the sample.
  let value : NodeId → Sample Color Distance := fun id =>
    (g.tree? id).elim d.background (Tree.sample d)
  have htree : ∀ id t, g.tree? id = some t → t.sample d = value id := by
    intro id t ht
    simp [value, ht]
  refine ⟨value, ?_⟩
  intro id n hn
  rcases f.tree?_isSome id (Graph.lt_size_of_node? hn) with ⟨t, ht⟩
  rw [← htree id t ht]
  cases hk : n.kind with
  | shape s =>
      rw [Graph.Forest.tree?_shape hn hk] at ht
      cases ht
      rfl
  | operation join ids =>
      rw [f.tree?_operation hn hk] at ht
      rcases Option.map_eq_some_iff.1 ht with ⟨ts, hts, rfl⟩
      exact Tree.collect_eq_foldl hts (fun c _ => htree c) _

end Evaluation

/-! ## Running a fragment -/

namespace Scene

variable {s : Scene} {id : NodeId} {Number Vector : Type}

/-- The fragment of a node is the text of its tree's body, and the text does what the body does on
registers of which only the result has been declared. -/
theorem Reachable.exists_body (h : s.Reachable) (known : id < s.graph.size)
    (A : Interpretation Number Vector) (p : Vector) (result : Sample Vector Number) :
    let start := Registers.set (fun _ => none) resultRegister result
    ∃ t text, s.graph.tree? id = some t ∧ s.graph.fragment id = .ok text ∧
      t.names.Nodup ∧ (∀ n ∈ t.names, start n = none) ∧
      ∀ after, runAll? (A.device p) start t.body = some after →
        A.run? (.ofMap p result) text = some (scope p after) := by
  intro start
  rcases h.forest.tree?_isSome id known with ⟨t, ht⟩
  have hsound : ∀ st ∈ t.body, st.Sound := h.sound_body known ht
  rcases exists_renderAll fun st hst => (hsound st hst).finite with ⟨text, htext⟩
  have hfragment : s.graph.fragment id = .ok text := by
    simp [Graph.fragment, ht, mapError_eq_ok_iff, htext]
  rcases h.nodup_names known ht with ⟨hnodup, hne⟩
  refine ⟨t, text, ht, hfragment, hnodup, fun n hn => Registers.set_of_ne (hne n hn), ?_⟩
  -- The variables in scope are the sample point and the registers, so text and body do the same.
  intro after hrun
  rw [← scope_result]
  exact run?_renderAll (fun st hst => (hsound st hst).registers) htext hrun

/-- The text of a node's fragment runs. It leaves in the register of the node what the node gives,
and takes it into the result. -/
theorem Reachable.run_node (h : s.Reachable) (known : id < s.graph.size)
    (A : Interpretation Number Vector) (p : Vector) (result : Sample Vector Number) :
    ∃ text after, s.graph.fragment id = .ok text ∧
      A.run? (.ofMap p result) text = some after ∧
      ∀ value, s.graph.Evaluation (A.device p) value →
        after (s.graph.nameOf id) = some (.material (value id)) ∧
        after resultRegister
          = some (.material ((A.device p).takeIn .sharp (value id) result)) := by
  rcases h.exists_body known A p result with ⟨t, text, ht, hfragment, hnodup, hfresh, htext⟩
  rcases Tree.runAll?_body (d := A.device p) t Registers.set_self hfresh hnodup with
    ⟨registers, hrun, hown, hresult⟩
  refine ⟨text, scope p registers, hfragment, htext registers hrun, ?_⟩
  intro value hvalue
  have hsample : t.sample (A.device p) = value id := h.forest.sample_tree? hvalue id known t ht
  -- Neither register is hidden by the sample point, which has a name of its own.
  rcases Graph.exists_node?_iff.2 known with ⟨n, hn⟩
  have hname : n.name ≠ "p" := (h.isNodeName hn).isRegister.ne_point
  rw [h.forest.name_tree? known ht, Graph.nameOf_of_node? hn] at hown
  rw [Graph.nameOf_of_node? hn, ← hsample]
  exact ⟨by simp [scope, hname, hown], by simp [scope, isRegister_result.ne_point, hresult]⟩

end Scene

/-! ## Main result -/

namespace Scene

variable {Number Vector : Type}

/-- Whatever edits have made the scene, every node has a fragment. With any meaning of numbers and
functions, at any sample point and from any result, its text can be read and runs, and it leaves in
the result the evaluation of the node, taken in as a union takes in a child. The evaluation is
determined by the nodes: a shape gives its color and distance, and an operation starts from black at
the sentinel distance and takes in one child after the other. -/
theorem run_fragment (edits : List Edit) (id : NodeId)
    (known : id < (Scene.empty.run edits).graph.size) (A : Interpretation Number Vector)
    (p : Vector) (result : Sample Vector Number) :
    let g := (Scene.empty.run edits).graph
    let d := A.device p
    ∃ text after, g.fragment id = .ok text ∧
      A.run? (.ofMap p result) text = some after ∧
      (∃ value, g.Evaluation d value) ∧
      ∀ value, g.Evaluation d value →
        after resultRegister = some (.material (d.takeIn .sharp (value id) result)) := by
  intro g d
  have h : (Scene.empty.run edits).Reachable := Reachable.empty.run edits
  rcases h.run_node known A p result with ⟨text, after, hfragment, hrun, hleaves⟩
  exact ⟨text, after, hfragment, hrun, h.forest.exists_evaluation d, fun value hvalue =>
    (hleaves value hvalue).2⟩

/-- The interpretation that writes down what is to be computed. -/
def symbolic : Interpretation String String where
  numeral := id
  negate x := s!"-{x}"
  vector x y z := s!"({x}, {y}, {z})"
  subtract v w := s!"{v} - {w}"
  less x y := x < y
  min x y := s!"min({x}, {y})"
  smoothMin x y k := s!"smooth({x}, {y}, {k})"
  sphere p radius := s!"sphere({p}, {radius})"
  box p halfExtents := s!"box({p}, {halfExtents})"

theorem run_fragment_nested :
    2 < (Scene.empty.run Demo.nested.edits).graph.size ∧
    let g := (Scene.empty.run Demo.nested.edits).graph
    let d := symbolic.device "p"
    ∃ text after, g.fragment 2 = .ok text ∧
      symbolic.run? (.ofMap "p" ⟨"black", true, "far"⟩) text = some after ∧
      (∃ value, g.Evaluation d value) ∧
      ∀ value, g.Evaluation d value →
        after resultRegister =
          some (.material (d.takeIn .sharp (value 2) ⟨"black", true, "far"⟩)) := by
  have known : 2 < (Scene.empty.run Demo.nested.edits).graph.size := by decide +kernel
  exact ⟨known, run_fragment Demo.nested.edits 2 known symbolic "p" ⟨"black", true, "far"⟩⟩

end Scene

/-! ## Numbers of the nodes -/

namespace Shading.Interpretation

variable {Number Vector : Type} {A : Interpretation Number Vector} {own : Single → Number}

/-- Whether numerals are read as the nearest number of the format, and the operator `-` turns the
sign; `own` says what stands for a number. -/
structure ReadsNearest (A : Interpretation Number Vector) (own : Single → Number) : Prop where
  numeral : ∀ text n, Json.scanNumeral text.toList = some (n, []) →
    A.numeral text = own (n.nearest .single)
  negate : ∀ x : Single, x.negative = false → A.negate (own x) = own x.neg

def ownVector (A : Interpretation Number Vector) (own : Single → Number) (v : Vec3 Single) :
    Vector :=
  A.vector (own v.x) (own v.y) (own v.z)

/-- The device that computes with numbers as they are, not with what is read of their literals. -/
def ownDevice (A : Interpretation Number Vector) (own : Single → Number) (p : Vector) :
    Device Vector Number where
  color := A.ownVector own
  constant := own
  measure position
    | .sphere radius => A.sphere (A.subtract p (A.ownVector own position)) (own radius)
    | .box halfExtents =>
      A.box (A.subtract p (A.ownVector own position)) (A.ownVector own halfExtents)
  less := A.less
  min := A.min
  smoothMin smoothness x y := A.smoothMin x y (own smoothness)

namespace ReadsNearest

/-- Every finite number is read back. -/
theorem value_eq (reads : A.ReadsNearest own) {x : Single} (finite : x.isFinite = true) :
    A.value x = own x := by
  rcases x.scanNumeral_unsignedLiteral finite with ⟨n, hscan, hnearest⟩
  have hmagnitude : A.numeral x.unsignedLiteral = own ⟨false, x.code, x.code_lt⟩ := by
    rw [reads.numeral _ n hscan, hnearest]
  rw [value, hmagnitude]
  -- The sign is not part of the numeral.
  rcases x with ⟨negative, code, hcode⟩
  cases negative with
  | false =>
      rfl
  | true =>
      exact reads.negate ⟨false, code, hcode⟩ rfl

theorem vectorValue_eq (reads : A.ReadsNearest own) {v : Vec3 Single} (finite : v.isFinite = true) :
    A.vectorValue v = A.ownVector own v := by
  rw [Vec3.isFinite, Bool.and_eq_true, Bool.and_eq_true] at finite
  rw [vectorValue, ownVector, reads.value_eq finite.1.1, reads.value_eq finite.1.2,
    reads.value_eq finite.2]

theorem measure_eq (reads : A.ReadsNearest own) (p : Vector) {position : Vec3 Single}
    {solid : Solid} (hposition : position.isFinite = true) (hsolid : solid.Finite) :
    (A.device p).measure position solid = (A.ownDevice own p).measure position solid := by
  cases solid with
  | sphere radius =>
      simp [device, distance, ownDevice, reads.vectorValue_eq hposition, reads.value_eq hsolid]
  | box halfExtents =>
      simp [device, distance, ownDevice, reads.vectorValue_eq hposition,
        reads.vectorValue_eq hsolid]

theorem takeIn_eq (reads : A.ReadsNearest own) (p : Vector) {join : Join} (hjoin : join.Finite)
    (source target : Sample Vector Number) :
    (A.device p).takeIn join source target = (A.ownDevice own p).takeIn join source target := by
  cases join with
  | sharp =>
      rfl
  | smooth smoothness =>
      have hsmooth : A.value smoothness = own smoothness := reads.value_eq hjoin
      have hjoined : ∀ x y, (A.device p).join (.smooth smoothness) x y
          = (A.ownDevice own p).join (.smooth smoothness) x y := fun x y =>
        congrArg (A.smoothMin x y) hsmooth
      rw [Device.takeIn, Device.takeIn, Device.joinDistance, Device.joinDistance, hjoined]
      rfl

/-- A node with finite numbers gives the same with and without literals. -/
theorem sample_eq (reads : A.ReadsNearest own) (p : Vector) {kind : NodeKind}
    (haccepted : kind.Accepted) (value : NodeId → Sample Vector Number) :
    kind.sample (A.device p) value = kind.sample (A.ownDevice own p) value := by
  cases kind with
  | shape s =>
      have hcolor : (A.device p).color s.color = (A.ownDevice own p).color s.color :=
        reads.vectorValue_eq haccepted.color
      rw [NodeKind.sample, NodeKind.sample, hcolor,
        reads.measure_eq p haccepted.position haccepted.finite]
  | operation join ids =>
      have hbackground : (A.device p).background = (A.ownDevice own p).background := by
        have hblack : (Vec3.splat 0 : Vec3 Single).isFinite = true := by decide
        have hfar : sentinelDistance.isFinite = true := by decide
        have hcolor : (A.device p).color (.splat 0) = (A.ownDevice own p).color (.splat 0) :=
          reads.vectorValue_eq hblack
        have hdistance : (A.device p).constant sentinelDistance
            = (A.ownDevice own p).constant sentinelDistance := reads.value_eq hfar
        rw [Device.background, Device.background, hcolor, hdistance]
      rw [NodeKind.sample, NodeKind.sample, hbackground]
      exact List.foldl_ext _ _ _ fun collected c _ => reads.takeIn_eq p haccepted.finite _ _

end ReadsNearest

end Shading.Interpretation

/-- If numerals are read as the nearest numbers, the text of a fragment computes with the numbers of
the nodes themselves. -/
theorem Scene.Reachable.run_ownDevice {s : Scene} (h : s.Reachable) {id : NodeId}
    (known : id < s.graph.size) {Number Vector : Type} {A : Interpretation Number Vector}
    {own : Single → Number} (reads : A.ReadsNearest own) (p : Vector)
    (result : Sample Vector Number) :
    ∃ text after, s.graph.fragment id = .ok text ∧
      A.run? (.ofMap p result) text = some after ∧
      ∀ value, s.graph.Evaluation (A.ownDevice own p) value →
        after (s.graph.nameOf id) = some (.material (value id)) ∧
        after resultRegister
          = some (.material ((A.ownDevice own p).takeIn .sharp (value id) result)) := by
  rcases h.run_node known A p result with ⟨text, after, hfragment, hrun, hleaves⟩
  refine ⟨text, after, hfragment, hrun, fun value hvalue => hleaves value ?_⟩
  intro id n hn
  rw [hvalue id n hn, reads.sample_eq p (h.accepted.kind hn)]

end SdfShader
