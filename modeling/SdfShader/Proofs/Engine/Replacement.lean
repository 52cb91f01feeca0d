import SdfShader.Proofs.Engine.Freshness

/-!
# Replacement — what an engine notices of a scene put in the place of another

An engine compares revisions and nothing else. A scene that replaces the present one brings a
revision of its own, so the two may meet at the same number with different contents. This module
says when an engine is stale after any actions that follow an attempt:

* it is stale exactly if the attempt has been forgotten or the revisions differ;
* while the scene keeps its place this is enough to notice every change of the text;
* a replaced scene with the revision of the attempt goes unnoticed, whatever its text.
-/

namespace SdfShader
namespace Engine

variable {State Program : Type} {compiler : Compiler State Program}
  {engine : Engine State Program}

/-- Without further attempts a revision stays remembered until it is forgotten. -/
theorem attempted_run {revision : Nat} (h : engine.attempted = some revision)
    {actions : List Action} (hquiet : attempts compiler engine actions = []) :
    (engine.run compiler actions).attempted = none ∧ (∃ a ∈ actions, a.Forgets) ∨
      (engine.run compiler actions).attempted = some revision ∧ ∀ a ∈ actions, ¬ a.Forgets := by
  induction actions using List.reverseRecOn with
  | nil =>
      exact .inr ⟨h, by simp⟩
  | append_singleton actions a ih =>
      rw [attempts_concat, List.append_eq_nil_iff] at hquiet
      rcases hquiet with ⟨hbefore, hnow⟩
      have hnone : (engine.run compiler actions).attempt? a = none := by
        simpa using hnow
      rw [run_concat]
      by_cases hforgets : a.Forgets
      · exact .inl ⟨attempted_act_of_forgets hforgets, a, by simp, hforgets⟩
      · rw [(act_of_not_forgets compiler _ hforgets).2, hnone, Option.map_none, Option.none_or]
        rcases ih hbefore with ⟨hattempted, b, hb, hb'⟩ | ⟨hattempted, hkept⟩
        · exact .inl ⟨hattempted, b, List.mem_append_left _ hb, hb'⟩
        · refine .inr ⟨hattempted, ?_⟩
          intro b hb
          rcases List.mem_append.1 hb with hb | hb
          · exact hkept b hb
          · rwa [List.mem_singleton.1 hb]

/-! ## Main result -/

/-- Let `after` follow an attempt at the engine `tried` without a further attempt. The engine is
then stale, and so compiles at the next refresh, exactly if the attempt has been forgotten or the
scene has another revision. If no action replaces the scene, then it is stale whenever the text of
the scene has changed. -/
theorem isStale_run_iff_revision_ne (compiler : Compiler State Program)
    (tried : Engine State Program) (after : List Action) (stale : tried.isStale = true)
    (quiet : attempts compiler (tried.act compiler .refresh) after = []) :
    let engine := tried.run compiler (.refresh :: after)
    (engine.isStale = true ↔ (∃ a ∈ after, a.Forgets) ∨
      engine.scene.graph.revision ≠ tried.scene.graph.revision) ∧
    ((engine.refresh compiler).1 = .ok false ↔ engine.isStale = false) ∧
    ((∀ a ∈ after, a.InPlace) →
      engine.scene.graph.fragment rootId ≠ tried.scene.graph.fragment rootId →
        engine.isStale = true) := by
  intro engine
  have hattempted :
      (tried.act compiler .refresh).attempted = some tried.scene.graph.revision :=
    attempted_refresh stale
  have hengine : engine = (tried.act compiler .refresh).run compiler after := run_cons _ _
  refine ⟨?_, ?_, ?_⟩
  · -- What the engine remembers is the attempt or nothing.
    rw [← Bool.not_eq_false, isStale_eq_false_iff]
    rcases attempted_run hattempted quiet with ⟨hforgotten, hforgets⟩ | ⟨hkept, hnever⟩
    · rw [hengine, hforgotten]
      simp [hforgets]
    · rw [hengine, hkept, Option.some.injEq]
      have hnone : ¬ ∃ a ∈ after, a.Forgets := by
        rintro ⟨a, ha, hforgets⟩
        exact hnever a ha hforgets
      simp [hnone, eq_comm]
  · cases hstale : engine.isStale with
    | false =>
        simp [refresh_of_not_stale hstale]
    | true =>
        rcases refresh_of_stale compiler hstale with ⟨result, _, heq, hne, _⟩
        simp [heq, hne]
  · -- In place the revision tells more: with the one of the attempt the scene is the same.
    intro hplace htext
    by_contra hfresh
    have hremembers := (remembers_refresh compiler stale).run compiler hplace
    rw [quiet, List.getLast?_nil, Option.none_or, ← hengine] at hremembers
    rcases hremembers.of_not_stale (by simpa using hfresh) with ⟨last, hlast, hscene, _⟩
    rcases Option.some.inj hlast with rfl
    exact htext (by rw [hscene])

/-! ## Two scenes with one revision -/

/-- The empty scene and a white ball in it. -/
def withBall : Scene :=
  Scene.empty.run [.addSphere (.splat 0) 1 (.splat 1)]

/-- The empty scene and a white cube in it. -/
def withCube : Scene :=
  Scene.empty.run [.addBox (.splat 0) (.splat 1) (.splat 1)]

/-- An engine that has not yet shown the ball. -/
def withBallEngine : Engine SourceState ShaderSource :=
  ofScene withBall .default .initial

theorem isStale_run_iff_revision_ne_withBall :
    let engine := withBallEngine.run .source [.refresh, .replaceScene withCube]
    (engine.isStale = true ↔ (∃ a ∈ [Action.replaceScene withCube], a.Forgets) ∨
      engine.scene.graph.revision ≠ withBallEngine.scene.graph.revision) ∧
    ((engine.refresh .source).1 = .ok false ↔ engine.isStale = false) ∧
    ((∀ a ∈ [Action.replaceScene withCube], a.InPlace) →
      engine.scene.graph.fragment rootId ≠ withBallEngine.scene.graph.fragment rootId →
        engine.isStale = true) :=
  isStale_run_iff_revision_ne .source withBallEngine [.replaceScene withCube] rfl rfl

/-- The ball is replaced by the cube after an attempt. Both scenes are made by edits of the empty
one, their texts differ, and still the engine is not stale and its refresh does nothing. -/
theorem not_stale_with_other_text :
    Scene.Reachable withBall ∧ Scene.Reachable withCube ∧
    let engine := withBallEngine.run .source [.refresh, .replaceScene withCube]
    attempts .source withBallEngine [.refresh, .replaceScene withCube] = [withBallEngine] ∧
    withBallEngine.scene = withBall ∧ engine.scene = withCube ∧
    withCube.graph.fragment rootId ≠ withBall.graph.fragment rootId ∧
    engine.isStale = false ∧ (engine.refresh .source).1 = .ok false := by
  have hrevision : withCube.graph.revision = withBall.graph.revision := by decide +kernel
  have hattempted : (withBallEngine.act .source .refresh).attempted
      = some withBall.graph.revision := attempted_refresh rfl
  -- The replacement is the only action after the attempt, and it does not forget.
  have hkept : (withBallEngine.run .source [.refresh, .replaceScene withCube]).attempted
      = some withBall.graph.revision := by
    have hquiet : attempts .source (withBallEngine.act .source .refresh)
        [.replaceScene withCube] = [] := rfl
    rw [run_cons]
    rcases attempted_run hattempted hquiet with
      ⟨_, a, ha, hforgets⟩ | ⟨hkept, _⟩
    · rw [List.mem_singleton.1 ha] at hforgets
      exact hforgets.elim
    · exact hkept
  have hfresh :
      (withBallEngine.run .source [.refresh, .replaceScene withCube]).isStale = false := by
    rw [isStale_eq_false_iff, hkept, run_cons, run_cons, run_nil, scene_act, hrevision]
  exact ⟨Scene.Reachable.empty.run _, Scene.Reachable.empty.run _, rfl, rfl, rfl,
    by decide +kernel, hfresh, by rw [refresh_of_not_stale hfresh]⟩

end Engine
end SdfShader
