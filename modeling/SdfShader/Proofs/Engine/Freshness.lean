import SdfShader.Proofs.Engine.Attempts
import SdfShader.Proofs.Scene.Revision
import SdfShader.Proofs.Shader.Assembly

/-!
# Freshness — an engine that is not stale shows the present scene

While the scene is only edited in place, its revision tells whether it has changed since the last
attempt. Every action keeps what an engine remembers of that attempt (`Remembers`):

1. the remembered revision is that of the attempt, and the constants are still the same;
2. the revision of the scene has not fallen since;
3. if it has not risen either, then the scene is still the one of the attempt.

So an engine that is not stale would attempt the same text again, and if the last attempt made a
program, that program is in use and belongs to the present scene and constants.
-/

namespace SdfShader
namespace Engine

variable {State Program : Type} {compiler : Compiler State Program}
  {engine : Engine State Program} {last : Option (Engine State Program)}

/-- Whether an action keeps the scene in its place, so that it can only be edited. -/
def Action.InPlace : Action → Prop
  | .replaceScene _ => False
  | _ => True

/-! ## The invariant -/

/-- What an engine knows of the engine at which it made its last attempt. -/
structure Remembers (engine : Engine State Program) (last : Option (Engine State Program)) :
    Prop where
  attempt : ∀ revision, engine.attempted = some revision →
    ∃ tried ∈ last, tried.scene.graph.revision = revision ∧ tried.config = engine.config
  revision_le : ∀ tried ∈ last, tried.scene.graph.revision ≤ engine.scene.graph.revision
  scene_eq : ∀ tried ∈ last, tried.scene.graph.revision = engine.scene.graph.revision →
    tried.scene = engine.scene

/-- An engine that has not attempted anything yet. -/
theorem remembers_ofScene (scene : Scene) (config : Config) (state : State) :
    Remembers (ofScene scene config state : Engine State Program) none where
  attempt := by
    intro revision h
    simp [ofScene] at h
  revision_le := by
    simp
  scene_eq := by
    simp

/-- The scene of an engine after an action in place. -/
theorem Action.InPlace.scene_act (compiler : Compiler State Program)
    (engine : Engine State Program) {a : Action} (h : a.InPlace) :
    (engine.act compiler a).scene = engine.scene ∨
      ∃ e, (engine.act compiler a).scene = engine.scene.step e := by
  rw [Engine.scene_act]
  cases a with
  | edit e =>
      exact .inr ⟨e, rfl⟩
  | replaceScene scene =>
      exact h.elim
  | _ =>
      exact .inl rfl

/-- What the last attempt tells about the scene stays true under a single action in place. -/
theorem Action.InPlace.scene_of_revision_eq {a : Action} (h : a.InPlace)
    {tried : Engine State Program}
    (hle : tried.scene.graph.revision ≤ engine.scene.graph.revision)
    (heq : tried.scene.graph.revision = engine.scene.graph.revision → tried.scene = engine.scene) :
    tried.scene.graph.revision ≤ (engine.act compiler a).scene.graph.revision ∧
      (tried.scene.graph.revision = (engine.act compiler a).scene.graph.revision →
        tried.scene = (engine.act compiler a).scene) := by
  rcases h.scene_act compiler engine with hscene | ⟨e, hscene⟩
  · rw [hscene]
    exact ⟨hle, heq⟩
  · rw [hscene]
    have hstep := engine.scene.revision_le_step e
    refine ⟨Nat.le_trans hle hstep, ?_⟩
    intro hrevision
    -- The revision before the edit lies between equal ones, so the edit has done nothing.
    have hkept : (engine.scene.step e).graph.revision = engine.scene.graph.revision := by
      omega
    rw [Scene.step_eq_of_revision_eq hkept]
    exact heq (hrevision.trans hkept)

/-- An attempt is remembered. -/
theorem remembers_refresh (compiler : Compiler State Program) (h : engine.isStale = true) :
    (engine.act compiler .refresh).Remembers (some engine) := by
  have hattempt : engine.attempt? .refresh = some engine :=
    attempt?_eq_some_iff.2 ⟨rfl, h, rfl⟩
  rcases act_refresh compiler engine with ⟨state, hact⟩
  rw [hact, hattempt]
  refine ⟨?_, by simp, by simp⟩
  intro revision hrevision
  have hnow : engine.scene.graph.revision = revision := by
    simpa using hrevision
  exact ⟨engine, by simp, hnow, rfl⟩

theorem Remembers.act (compiler : Compiler State Program) (h : engine.Remembers last) {a : Action}
    (hplace : a.InPlace) :
    (engine.act compiler a).Remembers ((engine.attempt? a).or last) := by
  cases hattempt : engine.attempt? a with
  | some tried =>
      rcases attempt?_eq_some_iff.1 hattempt with ⟨rfl, hstale, rfl⟩
      exact remembers_refresh compiler hstale
  | none =>
      have hscene : ∀ tried ∈ last,
          tried.scene.graph.revision ≤ (engine.act compiler a).scene.graph.revision ∧
            (tried.scene.graph.revision = (engine.act compiler a).scene.graph.revision →
              tried.scene = (engine.act compiler a).scene) := by
        intro tried htried
        exact hplace.scene_of_revision_eq (h.revision_le tried htried) (h.scene_eq tried htried)
      rw [Option.none_or]
      constructor
      · -- New constants are not remembered with an old attempt: accepting them forgets it.
        intro revision hrevision
        by_cases hforgets : a.Forgets
        · rw [attempted_act_of_forgets hforgets] at hrevision
          cases hrevision
        · rcases act_of_not_forgets compiler engine hforgets with ⟨hconfig, hkept⟩
          rw [hkept, hattempt] at hrevision
          rcases h.attempt revision (by simpa using hrevision) with ⟨tried, htried, heq, hsame⟩
          exact ⟨tried, htried, heq, hsame.trans hconfig.symm⟩
      · intro tried htried
        exact (hscene tried htried).1
      · intro tried htried
        exact (hscene tried htried).2

theorem Remembers.run (compiler : Compiler State Program) (h : engine.Remembers last)
    {actions : List Action} (hplace : ∀ a ∈ actions, a.InPlace) :
    (engine.run compiler actions).Remembers
      ((attempts compiler engine actions).getLast?.or last) := by
  induction actions using List.reverseRecOn with
  | nil =>
      exact h
  | append_singleton actions a ih =>
      have hbefore : ∀ b ∈ actions, b.InPlace := by
        intro b hb
        exact hplace b (List.mem_append_left _ hb)
      rw [run_concat, getLast?_attempts_concat, Option.or_assoc]
      exact (ih hbefore).act compiler (hplace a (by simp))

/-- An engine that is not stale has the scene and the constants of its last attempt. -/
theorem Remembers.of_not_stale (h : engine.Remembers last) (hfresh : engine.isStale = false) :
    ∃ tried ∈ last, tried.scene = engine.scene ∧ tried.config = engine.config := by
  rcases h.attempt _ (isStale_eq_false_iff.1 hfresh) with ⟨tried, htried, hrevision, hconfig⟩
  exact ⟨tried, htried, h.scene_eq tried htried hrevision, hconfig⟩

/-! ## Main result -/

/-- In every run of actions in place, with a compiler that fails whenever it likes, program and
revision are those of the last attempt that made a program. If the last attempt of all did, and the
engine is not stale, then the program is what the compiler made of the text for the present scene
and constants. -/
theorem program_run_current (compiler : Compiler State Program) (scene : Scene) (config : Config)
    (state : State) (actions : List Action) (inPlace : ∀ a ∈ actions, a.InPlace) :
    let start : Engine State Program := ofScene scene config state
    let tries := attempts compiler start actions
    let engine := start.run compiler actions
    engine.program? = (tries.filterMap (made? compiler)).getLast?.map (·.program) ∧
    engine.activeRevision? = (tries.filterMap (made? compiler)).getLast?.map (·.revision) ∧
    ∀ last, tries.getLast? = some last → (last.refresh compiler).1 = .ok true →
      engine.isStale = false →
        ∃ fragment program, engine.fragmentShader = .ok fragment ∧
          (compiler.compile last.state vertexShader fragment).1 = .ok program ∧
          engine.program? = some program := by
  intro start tries engine
  have hactive : engine.active = (tries.filterMap (made? compiler)).getLast? := by
    have hrun := active_run compiler start actions
    rwa [show start.active = none from rfl, Option.or_none] at hrun
  refine ⟨congrArg _ hactive, congrArg _ hactive, ?_⟩
  intro last hlast hmade hfresh
  have hremembers : engine.Remembers tries.getLast? := by
    simpa using (remembers_ofScene scene config state).run compiler inPlace
  -- An engine that is not stale has the scene and the constants of the last attempt, which made
  -- a program of their text.
  rcases hremembers.of_not_stale hfresh with ⟨tried, htried, hscene, hconfig⟩
  rcases Option.some.inj (hlast.symm.trans htried) with rfl
  rcases (refresh_eq_true_iff.1 hmade).2 with ⟨built, hbuilt⟩
  rcases made?_eq_some_iff.1 hbuilt with ⟨fragment, hfragment, hcompile, _⟩
  have hnow : engine.fragmentShader = .ok fragment := by
    rw [← hfragment, fragmentShader, fragmentShader, hscene, hconfig]
  -- No later attempt has replaced that program.
  have hinuse : engine.active = some built := by
    rcases List.getLast?_eq_some_iff.1 hlast with ⟨earlier, htries⟩
    rw [hactive, htries, List.filterMap_append]
    simp [hbuilt]
  exact ⟨fragment, built.program, hnow, hcompile, by rw [program?, hinuse]; rfl⟩

/-- An engine whose first scene has one union under the root. -/
def withUnion : Engine SourceState ShaderSource :=
  (ofScene .empty .default .initial).act .source (.edit .addUnion)

theorem program_run_current_withUnion :
    (∀ a ∈ [Action.edit .addUnion, .refresh], a.InPlace) ∧
    let start : Engine SourceState ShaderSource := ofScene .empty .default .initial
    let engine := start.run .source [.edit .addUnion, .refresh]
    (attempts .source start [.edit .addUnion, .refresh]).getLast? = some withUnion ∧
    (withUnion.refresh .source).1 = .ok true ∧ engine.isStale = false ∧
    ∃ fragment program, engine.fragmentShader = .ok fragment ∧
      (Compiler.source.compile withUnion.state vertexShader fragment).1 = .ok program ∧
      engine.program? = some program := by
  have inPlace : ∀ a ∈ [Action.edit .addUnion, .refresh], a.InPlace := by
    simp [Action.InPlace]
  have hstale : withUnion.isStale = true := rfl
  have hlast : (attempts .source
      (ofScene .empty .default .initial : Engine SourceState ShaderSource)
      [.edit .addUnion, .refresh]).getLast? = some withUnion := by
    have hattempt : withUnion.attempt? .refresh = some withUnion :=
      attempt?_eq_some_iff.2 ⟨rfl, hstale, rfl⟩
    rw [attempts, attempts, attempts, ← withUnion, hattempt]
    rfl
  have hmade : (withUnion.refresh .source).1 = .ok true := by
    have hvalid : withUnion.config.validate = .ok () := by decide +kernel
    have hsome : (withUnion.scene.graph.fragment rootId).toOption.isSome = true := by
      decide +kernel
    cases hfragment : withUnion.scene.graph.fragment rootId with
    | error e =>
        rw [hfragment] at hsome
        cases hsome
    | ok fragment =>
        have hexists : ∃ text, withUnion.fragmentShader = .ok text :=
          exists_fragmentShader hvalid hfragment
        rcases hexists with ⟨text, htext⟩
        have hbuilt : made? .source withUnion
            = some ⟨⟨vertexShader, text⟩, withUnion.scene.graph.revision⟩ :=
          made?_eq_some_iff.2 ⟨text, htext, rfl, rfl⟩
        exact refresh_eq_true_iff.2 ⟨hstale, _, hbuilt⟩
  have hfresh : ((ofScene .empty .default .initial : Engine SourceState ShaderSource).run .source
      [.edit .addUnion, .refresh]).isStale = false := by
    rw [run_cons, run_cons, run_nil, isStale_act_refresh]
  have hmain := program_run_current .source .empty .default .initial _ inPlace
  exact ⟨inPlace, hlast, hmade, hfresh, hmain.2.2 withUnion hlast hmade hfresh⟩

end Engine
end SdfShader
