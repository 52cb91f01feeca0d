import SdfShader.Proofs.Scene.Edits

/-!
# Contents — names and parameters along a run

Links aside, a node is a name and a kind with parameters. Moving and detaching nodes touch neither,
so only two changes matter here: a new node, whose name comes from a counter, and new parameters,
which have been checked. Two invariants of reachable scenes follow:

* `Scene.Named`: every name is the stem of its kind with a number below the counter, and no two
  nodes ever created have the same name;
* `Scene.Accepted`: the parameters of every node satisfy the checks.
-/

namespace SdfShader

/-! ## Contents after an edit -/

namespace Graph

variable {g : Graph} {id other parent : NodeId}

@[simp] theorem content?_foldl_attach (ids : List NodeId) :
    (ids.foldl (·.attach parent ·) g).content? id = g.content? id := by
  induction ids generalizing g with
  | nil =>
      rfl
  | cons c cs ih =>
      rw [List.foldl_cons, ih, content?_attach]

theorem content?_insert (name : String) (kind : NodeKind) :
    (g.insert parent name kind).content? id
      = if id = g.size then some (name, kind.bare) else g.content? id := by
  rw [insert_eq, content?_bump, content?_link, content?, node?_push]
  split <;> rfl

theorem content?_retune {n : Node} (hn : g.node? id = some n) (kind : NodeKind) :
    (g.modify id ({ · with kind })).content? other
      = if other = id then some (n.name, kind.bare) else g.content? other := by
  by_cases h : other = id
  · subst h
    simp [content?, node?_modify, hn]
  · rw [if_neg h, content?, node?_modify_of_ne _ (Ne.symm h), content?]

theorem content?_of_node? {n : Node} (hn : g.node? id = some n) :
    g.content? id = some (n.name, n.kind.bare) := by
  rw [content?, hn, Option.map_some]

end Graph

/-! ## Minted names -/

/-- How the names of nodes of a kind begin. -/
def NodeKind.stem : NodeKind → String
  | .shape _ => shapeStem
  | .operation .. => operationStem

theorem NodeKind.stem_bare (k : NodeKind) : k.bare.stem = k.stem := by
  cases k <;> rfl

theorem NodeKind.stem_congr {k l : NodeKind} (h : k.isOperation = l.isOperation) :
    k.stem = l.stem := by
  cases k <;> cases l <;> first | rfl | cases h

theorem shapeStem_append_ne (m n : String) : shapeStem ++ m ≠ operationStem ++ n := by
  intro h
  simpa [shapeStem, operationStem] using congrArg String.toList h

/-- The sort of a kind and a number can be read off the name made of them. -/
theorem NodeKind.stem_append_inj {k l : NodeKind} {m n : Nat}
    (h : k.stem ++ toString m = l.stem ++ toString n) :
    k.isOperation = l.isOperation ∧ m = n := by
  have hsort : k.isOperation = l.isOperation := by
    cases k <;> cases l
    · rfl
    · exact absurd h (shapeStem_append_ne _ _)
    · exact absurd h.symm (shapeStem_append_ne _ _)
    · rfl
  -- With the same stem in front, the digits are the same, and digits determine the number.
  rw [stem_congr hsort] at h
  have hdigits : Nat.toDigits 10 m = Nat.toDigits 10 n := by
    simpa using congrArg String.toList h
  refine ⟨hsort, ?_⟩
  rw [← Nat.ofDigitChars_ten_toDigits (n := m), hdigits, Nat.ofDigitChars_ten_toDigits]

namespace Scene

variable {s t : Scene}

/-- The number that the next node of a kind is named with. -/
def counter (s : Scene) : NodeKind → Nat
  | .shape _ => s.nextShape
  | .operation .. => s.nextOperation

theorem counter_bare (k : NodeKind) : s.counter k.bare = s.counter k := by
  cases k <;> rfl

theorem counter_congr {k l : NodeKind} (h : k.isOperation = l.isOperation) :
    s.counter k = s.counter l := by
  cases k <;> cases l <;> first | rfl | cases h

/-- A name that a node of a kind may have been given. -/
def Minted (s : Scene) (name : String) (kind : NodeKind) : Prop :=
  ∃ number < s.counter kind, name = kind.stem ++ toString number

/-- Names come from the counters, and no two nodes have the same. -/
structure Named (s : Scene) : Prop where
  minted : ∀ {id name kind}, s.graph.content? id = some (name, kind) → s.Minted name kind
  injective : ∀ {a b : NodeId} {m n : String × NodeKind}, s.graph.content? a = some m →
    s.graph.content? b = some n → m.1 = n.1 → a = b

theorem Minted.mono {name : String} {kind : NodeKind} (h : s.Minted name kind)
    (hle : s.counter kind ≤ t.counter kind) : t.Minted name kind := by
  rcases h with ⟨number, hlt, rfl⟩
  exact ⟨number, Nat.lt_of_lt_of_le hlt hle, rfl⟩

/-- A node with the next name of its kind. -/
theorem Named.insert (h : s.Named) (kind : NodeKind)
    (hgraph : t.graph
      = s.graph.insert rootId (kind.stem ++ toString (s.counter kind)) kind)
    (hle : ∀ k, s.counter k ≤ t.counter k) (hlt : s.counter kind < t.counter kind) : t.Named := by
  -- A name with the same number would have been minted before the counter reached it.
  have hfresh : ∀ {id : NodeId} {m : String × NodeKind}, s.graph.content? id = some m →
      m.1 ≠ kind.stem ++ toString (s.counter kind) := by
    intro id m hm heq
    rcases h.minted hm with ⟨number, hnumber, hname⟩
    rcases NodeKind.stem_append_inj (hname.symm.trans heq) with ⟨hsort, hsame⟩
    rw [counter_congr hsort, hsame] at hnumber
    exact Nat.lt_irrefl _ hnumber
  constructor
  · intro id name k hcontent
    rw [hgraph, Graph.content?_insert] at hcontent
    split at hcontent
    · cases hcontent
      refine ⟨s.counter kind, ?_, by rw [NodeKind.stem_bare]⟩
      rwa [counter_bare]
    · exact (h.minted hcontent).mono (hle k)
  · intro a b m n hm hn heq
    rw [hgraph, Graph.content?_insert] at hm hn
    split at hm <;> split at hn
    · next ha hb => rw [ha, hb]
    · cases hm
      exact absurd heq.symm (hfresh hn)
    · cases hn
      exact absurd heq (hfresh hm)
    · exact h.injective hm hn heq

/-- Names and the sort of a node stay where contents do. -/
theorem Named.of_contents (h : s.Named) (hcounter : ∀ k, t.counter k = s.counter k)
    (hcontent : ∀ id name kind, t.graph.content? id = some (name, kind) →
      ∃ kind', s.graph.content? id = some (name, kind') ∧ kind'.isOperation = kind.isOperation) :
    t.Named := by
  constructor
  · intro id name kind hc
    rcases hcontent id name kind hc with ⟨kind', hc', hsort⟩
    rcases h.minted hc' with ⟨number, hlt, hname⟩
    refine ⟨number, ?_, ?_⟩
    · rwa [hcounter, ← counter_congr hsort]
    · rwa [← NodeKind.stem_congr hsort]
  · intro a b m n hm hn heq
    rcases hcontent a m.1 m.2 hm with ⟨_, hm', _⟩
    rcases hcontent b n.1 n.2 hn with ⟨_, hn', _⟩
    exact h.injective hm' hn' heq

theorem Change.named (h : Change s t) (hs : s.Named) : t.Named := by
  cases h with
  | @shape figure _ =>
      refine hs.insert (.shape figure) rfl ?_ (Nat.lt_succ_self _)
      intro k
      cases k
      · exact Nat.le_succ _
      · exact Nat.le_refl _
  | @operation join _ =>
      refine hs.insert (.operation join []) rfl ?_ (Nat.lt_succ_self _)
      intro k
      cases k
      · exact Nat.le_refl _
      · exact Nat.le_succ _
  | move _ _ _ =>
      refine hs.of_contents (fun k => by cases k <;> rfl) ?_
      intro id name kind hc
      exact ⟨kind, by simpa using hc, rfl⟩
  | detach _ =>
      refine hs.of_contents (fun k => by cases k <;> rfl) ?_
      intro id name kind hc
      exact ⟨kind, by simpa using hc, rfl⟩
  | @retune id n kind known retuned =>
      refine hs.of_contents (fun k => by cases k <;> rfl) ?_
      intro i name k hc
      -- New parameters do not turn a shape into an operation.
      rw [Graph.content?_bump, Graph.content?_retune known] at hc
      split at hc
      · next hi =>
          cases hc
          refine ⟨n.kind.bare, by rw [hi, Graph.content?_of_node? known], ?_⟩
          rw [NodeKind.isOperation_bare, NodeKind.isOperation_bare, retuned.isOperation]
      · exact ⟨k, hc, rfl⟩

theorem named_empty : Scene.empty.Named := by
  have hroot : ∀ {id : NodeId} {m : String × NodeKind}, Scene.empty.graph.content? id = some m →
      id = rootId ∧ m = (operationStem ++ toString 0, .operation .sharp []) := by
    rintro (_ | id) m hm
    · cases hm
      exact ⟨rfl, rfl⟩
    · cases hm
  constructor
  · intro id name kind hc
    cases (hroot hc).2
    exact ⟨0, Nat.zero_lt_one, rfl⟩
  · intro a b m n hm hn _
    rw [(hroot hm).1, (hroot hn).1]

theorem Reachable.named (h : Reachable s) : s.Named :=
  h.invariant (P := Named) named_empty Change.named

theorem Named.injOn_nameOf (h : s.Named) {a b : NodeId} (ha : a < s.graph.size)
    (hb : b < s.graph.size) (heq : s.graph.nameOf a = s.graph.nameOf b) : a = b := by
  rcases Graph.exists_node?_iff.2 ha with ⟨m, hm⟩
  rcases Graph.exists_node?_iff.2 hb with ⟨n, hn⟩
  rw [Graph.nameOf_of_node? hm, Graph.nameOf_of_node? hn] at heq
  exact h.injective (Graph.content?_of_node? hm) (Graph.content?_of_node? hn) heq

/-! ## Accepted parameters -/

/-- The parameters of every node satisfy the checks. -/
def Accepted (s : Scene) : Prop :=
  ∀ id name kind, s.graph.content? id = some (name, kind) → kind.Accepted

theorem Accepted.insert (h : s.Accepted) {name : String} {kind : NodeKind}
    (hgraph : t.graph = s.graph.insert rootId name kind) (hkind : kind.bare.Accepted) :
    t.Accepted := by
  intro id name' k hc
  rw [hgraph, Graph.content?_insert] at hc
  split at hc
  · cases hc
    exact hkind
  · exact h id name' k hc

theorem Change.accepted (h : Change s t) (hs : s.Accepted) : t.Accepted := by
  cases h with
  | shape accepted =>
      exact hs.insert rfl accepted
  | operation accepted =>
      exact hs.insert rfl accepted
  | move _ _ _ =>
      intro id name kind hc
      exact hs id name kind (by simpa using hc)
  | detach _ =>
      intro id name kind hc
      exact hs id name kind (by simpa using hc)
  | @retune id n kind known retuned =>
      intro i name k hc
      rw [Graph.content?_bump, Graph.content?_retune known] at hc
      split at hc
      · cases hc
        have hn := hs id n.name n.kind.bare (Graph.content?_of_node? known)
        rw [NodeKind.accepted_bare] at hn ⊢
        exact retuned.accepted hn
      · exact hs i name k hc

theorem accepted_empty : Scene.empty.Accepted := by
  rintro (_ | id) name kind hc
  · cases hc
    trivial
  · cases hc

theorem Reachable.accepted (h : Reachable s) : s.Accepted :=
  h.invariant (P := Accepted) accepted_empty Change.accepted

theorem Accepted.kind (h : s.Accepted) {id : NodeId} {n : Node}
    (hn : s.graph.node? id = some n) : n.kind.Accepted :=
  (NodeKind.accepted_bare _).1 (h id n.name n.kind.bare (Graph.content?_of_node? hn))

end Scene
end SdfShader
