import SdfShader.Proofs.Scene.Walk
import SdfShader.Proofs.Shader.Assembly
import SdfShader.Proofs.Shading.Scope

/-!
# Totality — generation gives a text or an error, never a defect

A defect would be a number that is not finite or a child that does not exist. Neither occurs in a
scene that edits have made, whatever numbers the edits were called with: the checks hold for the
parameters of every node, and going down the tree meets known nodes only and ends. Constants are
written only after they have been checked, so it does not matter where they come from. Main
statement: `Scene.generation_total`.
-/

namespace SdfShader

/-! ## Assembly in the error cases -/

section Errors

variable {g : Graph} {id : NodeId} {config : Config}

/-- The constants are checked before anything else. -/
theorem fragmentShader_of_invalid {e : ConfigError} (h : config.validate = .error e) :
    fragmentShader g id config = .error (.config e) := by
  rw [fragmentShader, h]
  rfl

theorem fragmentShader_of_fragment_eq_error {e : FragmentError}
    (hvalid : config.validate = .ok ()) (h : g.fragment id = .error e) :
    fragmentShader g id config = .error (.ofFragmentError e) := by
  rw [fragmentShader, hvalid, h]
  rfl

end Errors

namespace Graph

variable {g : Graph} {id : NodeId}

theorem tree?_of_unknown (h : g.size ≤ id) : g.tree? id = none := by
  have hnode : g.node? id = none := node?_eq_none_iff.2 h
  cases hsize : g.size with
  | zero =>
      rw [tree?, hsize, treeAt]
  | succ fuel =>
      rw [tree?, hsize, treeAt, hnode]
      rfl

theorem fragment_of_unknown (h : g.size ≤ id) :
    g.fragment id = .error (.scene (.unknownNode id)) := by
  rw [fragment, tree?_of_unknown h]

end Graph

/-! ## Main result -/

namespace Scene

/-- Whatever edits have been tried, with any numbers: the parameters of every node are finite and in
their ranges; a fragment is a text, with finite numbers only, for a known node and the error for
other ids; every way down from a known node meets known nodes only, as many as there are at most;
and a shader is a text, or the error of the constants, or that of an unknown node. -/
theorem generation_total (edits : List Edit) :
    let g := (Scene.empty.run edits).graph
    (maxSmoothness = 100 ∧ ∀ id n, g.node? id = some n → n.kind.Accepted) ∧
    (∀ id < g.size, ∃ t text, g.tree? id = some t ∧ (∀ st ∈ t.body, st.Finite) ∧
      g.fragment id = .ok text) ∧
    (∀ id, g.size ≤ id → g.fragment id = .error (.scene (.unknownNode id))) ∧
    WellFounded (fun child owner => child ∈ g.children owner) ∧
    (∀ id < g.size, ∀ path,
      List.IsChain (fun owner child => child ∈ g.children owner) (id :: path) →
        (∀ a ∈ id :: path, a < g.size) ∧ (id :: path).length ≤ g.size) ∧
    ∀ id config,
      (∃ e, config.validate = .error e ∧ fragmentShader g id config = .error (.config e)) ∨
      (config.validate = .ok () ∧ g.size ≤ id ∧
        fragmentShader g id config = .error (.scene (.unknownNode id))) ∨
      (config.validate = .ok () ∧ id < g.size ∧ ∃ text, fragmentShader g id config = .ok text) := by
  intro g
  have h : (Scene.empty.run edits).Reachable := Reachable.empty.run edits
  have hknown : ∀ id < g.size, ∃ t text, g.tree? id = some t ∧ (∀ st ∈ t.body, st.Finite) ∧
      g.fragment id = .ok text := by
    intro id known
    rcases h.exists_fragment known with ⟨t, text, ht, htext, -⟩
    exact ⟨t, text, ht, fun st hst => (h.sound_body known ht st hst).finite, htext⟩
  refine ⟨⟨by decide, fun _ _ hn => h.accepted.kind hn⟩, hknown,
    fun _ hunknown => Graph.fragment_of_unknown hunknown, h.forest.wellFounded_children,
    fun _ known _ hpath => h.forest.length_way_down_le known hpath, ?_⟩
  intro id config
  cases hvalid : config.validate with
  | error e =>
      exact .inl ⟨e, rfl, fragmentShader_of_invalid hvalid⟩
  | ok _ =>
      rcases Nat.lt_or_ge id g.size with known | hunknown
      · rcases hknown id known with ⟨_, fragment, _, _, hfragment⟩
        exact .inr (.inr ⟨rfl, known, exists_fragmentShader hvalid hfragment⟩)
      · have hfragment := Graph.fragment_of_unknown hunknown
        exact .inr (.inl ⟨rfl, hunknown, fragmentShader_of_fragment_eq_error hvalid hfragment⟩)

end Scene
end SdfShader
