import Mathlib.Data.List.Induction
import SdfShader.Engine

/-!
# Attempts — the compile attempts of a run of the engine

A refresh of a stale engine is an attempt to compile; every other action only prepares the next one.
This module describes a run by the engines at which it made its attempts:

* `attempts`, those engines in their order;
* `made?`, the program that an attempt at an engine gives, if it gives one;
* `active_run`, the program in use after a run is what the last successful attempt made.

Later modules speak of refreshes only through the equations for `refresh` below.
-/

namespace SdfShader
namespace Engine

variable {State Program : Type} {compiler : Compiler State Program}
  {engine : Engine State Program}

/-! ## What a refresh does -/

/-- What an attempt to compile makes, with the revision of the scene. -/
def made? (compiler : Compiler State Program) (engine : Engine State Program) :
    Option (Built Program) :=
  match engine.fragmentShader with
  | .error _ => none
  | .ok fragment =>
    match (compiler.compile engine.state vertexShader fragment).1 with
    | .error _ => none
    | .ok program => some ⟨program, engine.scene.graph.revision⟩

theorem made?_eq_some_iff {built : Built Program} :
    made? compiler engine = some built ↔
      ∃ fragment, engine.fragmentShader = .ok fragment ∧
        (compiler.compile engine.state vertexShader fragment).1 = .ok built.program ∧
        built.revision = engine.scene.graph.revision := by
  unfold made?
  cases engine.fragmentShader with
  | error e =>
      simp
  | ok fragment =>
      rcases hcompile : (compiler.compile engine.state vertexShader fragment).1
        with message | program
      · simp [hcompile]
      · cases built
        simp [hcompile, eq_comm]

theorem isStale_eq_false_iff :
    engine.isStale = false ↔ engine.attempted = some engine.scene.graph.revision := by
  simp [isStale]

/-- An engine that is up to date is left alone. -/
theorem refresh_of_not_stale (h : engine.isStale = false) :
    engine.refresh compiler = (.ok false, engine) := by
  simp [refresh, h]

/-- Without a text there is nothing to compile. -/
theorem refresh_of_error {e : ShaderError} (h : engine.isStale = true)
    (htext : engine.fragmentShader = .error e) :
    engine.refresh compiler = (.error (.shader e),
      { engine with attempted := some engine.scene.graph.revision }) := by
  -- The revision is noted before the text is made, and the text does not depend on it.
  have hnoted : Engine.fragmentShader
      { engine with attempted := some engine.scene.graph.revision } = .error e := htext
  simp [refresh, h, hnoted]

/-- With a text the compiler is asked, and the outcome is what it says. -/
theorem refresh_of_text {fragment : String} (h : engine.isStale = true)
    (htext : engine.fragmentShader = .ok fragment) :
    engine.refresh compiler =
      let revision := engine.scene.graph.revision
      match compiler.compile engine.state vertexShader fragment with
      | (.ok program, state) => (.ok true, { engine with
          state, active := some ⟨program, revision⟩, attempted := some revision })
      | (.error message, state) => (.error (.compile message), { engine with
          state, attempted := some revision }) := by
  have hnoted : Engine.fragmentShader
      { engine with attempted := some engine.scene.graph.revision } = .ok fragment := htext
  rcases hcompile : compiler.compile engine.state vertexShader fragment with ⟨_ | _, _⟩ <;>
    simp [refresh, h, hnoted, hcompile]

/-- All cases of an attempt: no text, no program, or a new program. -/
theorem refresh_of_stale (compiler : Compiler State Program) (h : engine.isStale = true) :
    ∃ result state,
      engine.refresh compiler = (result, { engine with
        state, active := (made? compiler engine).or engine.active,
        attempted := some engine.scene.graph.revision }) ∧
      result ≠ .ok false ∧
      (result = .ok true ↔ (made? compiler engine).isSome = true) := by
  cases htext : engine.fragmentShader with
  | error e =>
      refine ⟨.error (.shader e), engine.state, ?_, by simp, by simp [made?, htext]⟩
      simp [refresh_of_error h htext, made?, htext]
  | ok fragment =>
      rcases hcompile : compiler.compile engine.state vertexShader fragment
        with ⟨message | program, state⟩
      · refine ⟨.error (.compile message), state, ?_, by simp, by simp [made?, htext, hcompile]⟩
        simp [refresh_of_text h htext, made?, htext, hcompile]
      · refine ⟨.ok true, state, ?_, by simp, by simp [made?, htext, hcompile]⟩
        simp [refresh_of_text h htext, made?, htext, hcompile]

/-- A refresh reports a new program if it attempts to make one and does. -/
theorem refresh_eq_true_iff :
    (engine.refresh compiler).1 = .ok true ↔
      engine.isStale = true ∧ ∃ built, made? compiler engine = some built := by
  rw [← Option.isSome_iff_exists]
  cases hstale : engine.isStale with
  | false =>
      simp [refresh_of_not_stale hstale]
  | true =>
      rcases refresh_of_stale compiler hstale with ⟨result, _, heq, _, hiff⟩
      simp [heq, hiff]

/-! ## What an action does -/

/-- The engine, if the action makes it attempt to compile. -/
def attempt? (engine : Engine State Program) : Action → Option (Engine State Program)
  | .refresh => if engine.isStale then some engine else none
  | _ => none

theorem attempt?_eq_some_iff {a : Action} {tried : Engine State Program} :
    engine.attempt? a = some tried ↔ a = .refresh ∧ engine.isStale = true ∧ engine = tried := by
  cases a <;> simp [attempt?]

/-- Whether an action makes the engine forget its last attempt. -/
def Action.Forgets : Action → Prop
  | .invalidate => True
  | .setConfig config => config.validate = .ok ()
  | _ => False

/-- A refresh keeps scene and constants and remembers what it attempted. -/
theorem act_refresh (compiler : Compiler State Program) (engine : Engine State Program) :
    ∃ state, engine.act compiler .refresh = { engine with
      state, active := ((engine.attempt? .refresh).bind (made? compiler)).or engine.active,
      attempted :=
        ((engine.attempt? .refresh).map (·.scene.graph.revision)).or engine.attempted } := by
  cases hstale : engine.isStale with
  | false =>
      exact ⟨engine.state, by simp [act, refresh_of_not_stale hstale, attempt?, hstale]⟩
  | true =>
      rcases refresh_of_stale compiler hstale with ⟨_, state, heq, _⟩
      exact ⟨state, by simp [act, heq, attempt?, hstale]⟩

theorem attempted_refresh (h : engine.isStale = true) :
    (engine.act compiler .refresh).attempted = some engine.scene.graph.revision := by
  rcases act_refresh compiler engine with ⟨state, hact⟩
  rw [hact, attempt?_eq_some_iff.2 ⟨rfl, h, rfl⟩]
  rfl

/-- Constants are either accepted, which forgets the attempt, or change nothing. -/
theorem act_setConfig (compiler : Compiler State Program) (engine : Engine State Program)
    (config : Config) :
    (config.validate = .ok () ∧
      engine.act compiler (.setConfig config) = { engine with config, attempted := none }) ∨
    (config.validate ≠ .ok () ∧ engine.act compiler (.setConfig config) = engine) := by
  cases h : config.validate with
  | error e =>
      right
      simp [act, setConfig, h, bind, Except.bind]
  | ok _ =>
      left
      exact ⟨rfl, by simp [act, setConfig, h, bind, Except.bind, invalidate, pure, Except.pure]⟩

theorem active_act (a : Action) :
    (engine.act compiler a).active =
      ((engine.attempt? a).bind (made? compiler)).or engine.active := by
  cases a with
  | refresh =>
      rcases act_refresh compiler engine with ⟨_, heq⟩
      rw [heq]
  | setConfig config =>
      rcases act_setConfig compiler engine config with ⟨_, heq⟩ | ⟨_, heq⟩ <;> rw [heq] <;> rfl
  | edit e =>
      rfl
  | replaceScene scene =>
      rfl
  | invalidate =>
      rfl

theorem attempted_act_of_forgets {a : Action} (h : a.Forgets) :
    (engine.act compiler a).attempted = none := by
  cases a with
  | setConfig config =>
      rcases act_setConfig compiler engine config with ⟨_, heq⟩ | ⟨hinvalid, _⟩
      · rw [heq]
      · exact absurd h hinvalid
  | invalidate =>
      rfl
  | _ =>
      exact h.elim

/-- An action that does not forget the last attempt keeps the constants. -/
theorem act_of_not_forgets (compiler : Compiler State Program) (engine : Engine State Program)
    {a : Action} (h : ¬ a.Forgets) :
    (engine.act compiler a).config = engine.config ∧
    (engine.act compiler a).attempted =
      ((engine.attempt? a).map (·.scene.graph.revision)).or engine.attempted := by
  cases a with
  | refresh =>
      rcases act_refresh compiler engine with ⟨_, heq⟩
      rw [heq]
      exact ⟨rfl, rfl⟩
  | setConfig config =>
      rcases act_setConfig compiler engine config with ⟨hvalid, _⟩ | ⟨_, heq⟩
      · exact absurd hvalid h
      · rw [heq]
        exact ⟨rfl, rfl⟩
  | invalidate =>
      exact absurd trivial h
  | edit e =>
      exact ⟨rfl, rfl⟩
  | replaceScene scene =>
      exact ⟨rfl, rfl⟩

/-- Only edits and replacements touch the scene. -/
theorem scene_act (a : Action) :
    (engine.act compiler a).scene =
      match a with
      | .edit e => engine.scene.step e
      | .replaceScene scene => scene
      | _ => engine.scene := by
  cases a with
  | refresh =>
      rcases act_refresh compiler engine with ⟨_, heq⟩
      rw [heq]
  | setConfig config =>
      rcases act_setConfig compiler engine config with ⟨_, heq⟩ | ⟨_, heq⟩ <;> rw [heq]
  | _ =>
      rfl

/-- Whatever came of it, a refresh leaves nothing to do for the next one. -/
theorem isStale_act_refresh : (engine.act compiler .refresh).isStale = false := by
  rw [isStale_eq_false_iff, scene_act]
  cases hstale : engine.isStale with
  | false =>
      rw [act, refresh_of_not_stale hstale]
      exact isStale_eq_false_iff.1 hstale
  | true =>
      exact attempted_refresh hstale

/-! ## Attempts of a run -/

/-- The engines at which the attempts of a run are made, in their order. -/
def attempts (compiler : Compiler State Program) (engine : Engine State Program) :
    List Action → List (Engine State Program)
  | [] => []
  | a :: actions =>
    (engine.attempt? a).toList ++ attempts compiler (engine.act compiler a) actions

theorem run_nil : engine.run compiler [] = engine := rfl

theorem run_cons (a : Action) (actions : List Action) :
    engine.run compiler (a :: actions) = (engine.act compiler a).run compiler actions := rfl

theorem run_concat (actions : List Action) (a : Action) :
    engine.run compiler (actions ++ [a]) = (engine.run compiler actions).act compiler a := by
  simp [run]

theorem attempts_concat (actions : List Action) (a : Action) :
    attempts compiler engine (actions ++ [a]) =
      attempts compiler engine actions ++ ((engine.run compiler actions).attempt? a).toList := by
  induction actions generalizing engine with
  | nil =>
      simp [attempts, run]
  | cons b actions ih =>
      rw [List.cons_append, attempts, ih, attempts, List.append_assoc]
      rfl

theorem getLast?_attempts_concat (actions : List Action) (a : Action) :
    (attempts compiler engine (actions ++ [a])).getLast? =
      ((engine.run compiler actions).attempt? a).or
        (attempts compiler engine actions).getLast? := by
  rw [attempts_concat, List.getLast?_append]
  cases (engine.run compiler actions).attempt? a <;> rfl

/-- The program in use is the one of the last attempt that made one, or still that of the start. -/
theorem active_run (compiler : Compiler State Program) (engine : Engine State Program)
    (actions : List Action) :
    (engine.run compiler actions).active =
      ((attempts compiler engine actions).filterMap (made? compiler)).getLast?.or
        engine.active := by
  induction actions using List.reverseRecOn with
  | nil =>
      rfl
  | append_singleton actions a ih =>
      -- Only the last action can make a program that the shorter run does not have.
      calc (engine.run compiler (actions ++ [a])).active
          = (((engine.run compiler actions).attempt? a).bind (made? compiler)).or
              (engine.run compiler actions).active := by
            rw [run_concat, active_act]
        _ = ((((engine.run compiler actions).attempt? a).bind (made? compiler)).or
              ((attempts compiler engine actions).filterMap (made? compiler)).getLast?).or
                engine.active := by
            rw [ih, Option.or_assoc]
        _ = ((attempts compiler engine (actions ++ [a])).filterMap (made? compiler)).getLast?.or
              engine.active := by
            rw [attempts_concat, List.filterMap_append, List.getLast?_append]
            cases (engine.run compiler actions).attempt? a with
            | none =>
                rfl
            | some tried =>
                cases hmade : made? compiler tried <;> simp [hmade]

end Engine
end SdfShader
