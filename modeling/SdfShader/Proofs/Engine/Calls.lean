import SdfShader.Proofs.Engine.Freshness
import SdfShader.Proofs.Shader.Totality

/-!
# Calls — what is asked of the compiler along a run

A refresh compares one number with the revision of the scene, so whether it compiles depends on
everything that has happened since the last attempt. In a run of actions in place the number tells
exactly whether something has: an edit that raised the revision, new constants, or the order to
forget the attempt. Main statements:

* `Compiler.logged`: a compiler that lists what it was asked to compile, and is the same otherwise;
* `Action.Renews`: the actions after which there is something to compile;
* `isStale_run_eq_false_iff`: an engine is up to date if and only if there has been a refresh and
  nothing has been renewed since the last one;
* `one_compile_per_change`: each refresh asks for one program or for none, and which of the two.
-/

namespace SdfShader

variable {State Program : Type}

/-! ## A list of the calls -/

/-- The compiler, with a list of the texts that it has been asked to compile. -/
def Compiler.logged (compiler : Compiler State Program) :
    Compiler (State × List ShaderSource) Program where
  compile state vertex fragment :=
    let (result, next) := compiler.compile state.1 vertex fragment
    (result, next, state.2 ++ [⟨vertex, fragment⟩])

namespace Engine

/-- The texts that the compiler of an engine has been asked to compile. -/
def calls (engine : Engine (State × List ShaderSource) Program) : List ShaderSource :=
  engine.state.2

/-- The engine without the list of calls. -/
def withoutCalls (engine : Engine (State × List ShaderSource) Program) : Engine State Program :=
  ⟨engine.scene, engine.config, engine.state.1, engine.active, engine.attempted⟩

section Logged

variable {compiler : Compiler State Program} {engine : Engine (State × List ShaderSource) Program}

theorem calls_refresh_of_not_stale (h : engine.isStale = false) :
    (engine.refresh compiler.logged).2.calls = engine.calls := by
  rw [refresh_of_not_stale h]

theorem calls_refresh_of_error {e : ShaderError} (h : engine.isStale = true)
    (htext : engine.fragmentShader = .error e) :
    (engine.refresh compiler.logged).2.calls = engine.calls := by
  rw [refresh_of_error h htext]
  rfl

/-- With a text there is one call, whether it succeeds or fails. -/
theorem calls_refresh_of_text {fragment : String} (h : engine.isStale = true)
    (htext : engine.fragmentShader = .ok fragment) :
    (engine.refresh compiler.logged).2.calls = engine.calls ++ [⟨vertexShader, fragment⟩] := by
  rw [refresh_of_text h htext]
  rcases hcompile : compiler.compile engine.state.1 vertexShader fragment with ⟨_ | _, _⟩ <;>
    simp [Compiler.logged, hcompile, calls]

/-- The list of calls has no influence on what a refresh does. -/
theorem refresh_logged (compiler : Compiler State Program)
    (engine : Engine (State × List ShaderSource) Program) :
    (engine.refresh compiler.logged).1 = (engine.withoutCalls.refresh compiler).1 ∧
    (engine.refresh compiler.logged).2.withoutCalls = (engine.withoutCalls.refresh compiler).2 := by
  have hstale : engine.withoutCalls.isStale = engine.isStale := rfl
  have htext : engine.withoutCalls.fragmentShader = engine.fragmentShader := rfl
  cases h : engine.isStale with
  | false =>
      rw [refresh_of_not_stale h, refresh_of_not_stale (hstale.trans h)]
      exact ⟨rfl, rfl⟩
  | true =>
      cases hshader : engine.fragmentShader with
      | error e =>
          rw [refresh_of_error h hshader,
            refresh_of_error (hstale.trans h) (htext.trans hshader)]
          exact ⟨rfl, rfl⟩
      | ok fragment =>
          rw [refresh_of_text h hshader, refresh_of_text (hstale.trans h) (htext.trans hshader)]
          rcases hcompile : compiler.compile engine.state.1 vertexShader fragment
            with ⟨_ | _, _⟩ <;> simp [Compiler.logged, hcompile, withoutCalls]

theorem act_logged (compiler : Compiler State Program)
    (engine : Engine (State × List ShaderSource) Program) (a : Action) :
    (engine.act compiler.logged a).withoutCalls = engine.withoutCalls.act compiler a := by
  cases a with
  | refresh =>
      exact (refresh_logged compiler engine).2
  | setConfig config =>
      rcases act_setConfig compiler.logged engine config with ⟨hvalid, heq⟩ | ⟨hinvalid, heq⟩
      · rcases act_setConfig compiler engine.withoutCalls config with ⟨_, heq'⟩ | ⟨hinvalid, _⟩
        · rw [heq, heq']
          rfl
        · exact absurd hvalid hinvalid
      · rcases act_setConfig compiler engine.withoutCalls config with ⟨hvalid, _⟩ | ⟨_, heq'⟩
        · exact absurd hvalid hinvalid
        · rw [heq, heq']
  | edit e =>
      rfl
  | replaceScene scene =>
      rfl
  | invalidate =>
      rfl

theorem run_logged (compiler : Compiler State Program)
    (engine : Engine (State × List ShaderSource) Program) (actions : List Action) :
    (engine.run compiler.logged actions).withoutCalls
      = engine.withoutCalls.run compiler actions := by
  induction actions generalizing engine with
  | nil =>
      rfl
  | cons a actions ih =>
      rw [run_cons, run_cons, ih, act_logged]

end Logged

/-! ## Actions after which there is something to compile -/

variable {compiler : Compiler State Program} {engine start : Engine State Program}
  {actions since : List Action} {a : Action}

/-- Whether an action is an edit that is accepted and raises the revision, sets constants that are
accepted, or makes the engine forget its last attempt. -/
def Action.Renews (engine : Engine State Program) : Action → Prop
  | .edit e => (∃ r, engine.scene.apply e = .ok r) ∧
      engine.scene.graph.revision < (engine.scene.step e).graph.revision
  | .setConfig config => config.validate = .ok ()
  | .invalidate => True
  | _ => False

/-- Edits that are refused or have nothing to do, and constants that are refused, leave the whole
engine as it is. -/
theorem act_of_not_renews (hplace : a.InPlace) (hrefresh : a ≠ .refresh)
    (h : ¬ a.Renews engine) : engine.act compiler a = engine := by
  cases a with
  | edit e =>
      have hsame : engine.scene.step e = engine.scene := by
        refine Scene.step_of_not_counts fun hcounts => h ⟨hcounts.1, ?_⟩
        rw [Scene.revision_step_of_counts hcounts]
        exact Nat.lt_succ_self _
      rw [act, hsame]
  | replaceScene scene =>
      exact hplace.elim
  | setConfig config =>
      rcases act_setConfig compiler engine config with ⟨hvalid, _⟩ | ⟨_, heq⟩
      · exact absurd hvalid h
      · exact heq
  | invalidate =>
      exact absurd trivial h
  | refresh =>
      exact absurd rfl hrefresh

/-- The others leave an engine that has something to do. -/
theorem isStale_act_of_renews (compiler : Compiler State Program)
    (hlast : ∃ last, engine.Remembers last) (h : a.Renews engine) :
    (engine.act compiler a).isStale = true := by
  rw [← Bool.not_eq_false, isStale_eq_false_iff]
  cases a with
  | edit e =>
      -- What is remembered is no later than the old revision.
      intro hattempted
      rcases hlast with ⟨last, hremembers⟩
      rcases hremembers.attempt _ hattempted with ⟨tried, htried, hrevision, -⟩
      have hle := hremembers.revision_le tried htried
      have hlt : engine.scene.graph.revision < (engine.scene.step e).graph.revision := h.2
      rw [hrevision] at hle
      exact absurd hle (Nat.not_le_of_lt hlt)
  | replaceScene scene =>
      exact h.elim
  | setConfig config =>
      rw [attempted_act_of_forgets (show (Action.setConfig config).Forgets from h)]
      exact nofun
  | invalidate =>
      exact nofun
  | refresh =>
      exact h.elim

/-- From a refresh on, nothing happens to an engine until something is renewed. -/
theorem run_of_not_renews (hfresh : engine.isStale = false)
    (hquiet : ∀ earlier a later, since = earlier ++ a :: later →
      a.InPlace ∧ ¬ a.Renews (engine.run compiler earlier)) :
    engine.run compiler since = engine := by
  -- By induction on the last action, before which the engine is as it was.
  induction since using List.reverseRecOn with
  | nil =>
      rfl
  | append_singleton since a ih =>
      have hbefore : engine.run compiler since = engine := by
        refine ih fun earlier b later hsplit => hquiet earlier b (later ++ [a]) ?_
        rw [hsplit, List.append_assoc, List.cons_append]
      rcases hquiet since a [] rfl with ⟨hplace, hnot⟩
      rw [hbefore] at hnot
      rw [run_concat, hbefore]
      by_cases hrefresh : a = .refresh
      · rw [hrefresh, act, refresh_of_not_stale hfresh]
      · exact act_of_not_renews hplace hrefresh hnot

/-! ## Since the last refresh -/

/-- Whether there has been a refresh, and nothing has been renewed since the last one. -/
def Settled (compiler : Compiler State Program) (start : Engine State Program)
    (actions : List Action) : Prop :=
  ∃ before since, actions = before ++ .refresh :: since ∧ .refresh ∉ since ∧
    ∀ earlier a later, since = earlier ++ a :: later →
      ¬ a.Renews (start.run compiler (before ++ .refresh :: earlier))

theorem not_settled_nil : ¬ Settled compiler start [] := by
  rintro ⟨before, since, hsplit, -⟩
  cases before <;> cases hsplit

theorem settled_concat_refresh : Settled compiler start (actions ++ [.refresh]) := by
  refine ⟨actions, [], rfl, List.not_mem_nil, ?_⟩
  intro earlier a later hsplit
  cases earlier <;> cases hsplit

/-- Any other action has to renew nothing. -/
theorem settled_concat (hrefresh : a ≠ .refresh) : Settled compiler start (actions ++ [a]) ↔
    Settled compiler start actions ∧ ¬ a.Renews (start.run compiler actions) := by
  constructor
  · rintro ⟨before, since, hsplit, hlast, hquiet⟩
    -- The action is the last of those that follow the refresh.
    rcases List.eq_nil_or_concat since with rfl | ⟨since, b, rfl⟩
    · exact absurd (List.append_inj' hsplit rfl).2 (by simpa using hrefresh)
    · rw [List.concat_eq_append] at hsplit hlast hquiet
      rw [← List.cons_append, ← List.append_assoc] at hsplit
      rcases List.append_inj' hsplit rfl with ⟨rfl, hb⟩
      obtain rfl : a = b := List.head_eq_of_cons_eq hb
      refine ⟨⟨before, since, rfl, fun h => hlast (List.mem_append_left _ h), ?_⟩,
        hquiet since a [] rfl⟩
      intro earlier c later hc
      refine hquiet earlier c (later ++ [a]) ?_
      rw [hc, List.append_assoc, List.cons_append]
  · rintro ⟨⟨before, since, rfl, hlast, hquiet⟩, hnot⟩
    refine ⟨before, since ++ [a], by simp, ?_, ?_⟩
    · simpa [hlast] using hrefresh.symm
    · intro earlier c later hc
      rcases List.eq_nil_or_concat later with rfl | ⟨later, d, rfl⟩
      · rcases List.append_inj' hc rfl with ⟨rfl, hac⟩
        obtain rfl : a = c := List.head_eq_of_cons_eq hac
        exact hnot
      · rw [List.concat_eq_append, ← List.cons_append, ← List.append_assoc] at hc
        exact hquiet earlier c later (List.append_inj' hc rfl).1

/-- In place, a new engine is up to date if and only if there has been a refresh and nothing has
been renewed since the last one. -/
theorem isStale_run_eq_false_iff (compiler : Compiler State Program) (scene : Scene)
    (config : Config) (state : State) {actions : List Action}
    (inPlace : ∀ a ∈ actions, a.InPlace) :
    ((ofScene scene config state : Engine State Program).run compiler actions).isStale = false ↔
      Settled compiler (ofScene scene config state) actions := by
  -- By induction on the last action; that an engine remembers its last attempt is the invariant
  -- which makes it notice what has been renewed.
  induction actions using List.reverseRecOn with
  | nil =>
      refine iff_of_false ?_ not_settled_nil
      rw [run_nil, isStale_eq_false_iff]
      exact nofun
  | append_singleton actions a ih =>
      have hbefore : ∀ b ∈ actions, b.InPlace := fun b hb => inPlace b (List.mem_append_left _ hb)
      have hplace : a.InPlace := inPlace a (by simp)
      rw [run_concat]
      by_cases hrefresh : a = .refresh
      · rw [hrefresh]
        exact iff_of_true isStale_act_refresh settled_concat_refresh
      · rw [settled_concat hrefresh, ← ih hbefore]
        by_cases hrenews : a.Renews ((ofScene scene config state : Engine State Program).run
            compiler actions)
        · have hlast := (remembers_ofScene scene config state).run compiler hbefore
          have hstale := isStale_act_of_renews compiler ⟨_, hlast⟩ hrenews
          simp [hstale, hrenews]
        · rw [act_of_not_renews hplace hrefresh hrenews]
          simp [hrenews]

/-- Only edits touch the scene of an engine in place, so it stays one that edits can make. -/
theorem reachable_run (compiler : Compiler State Program) (h : engine.scene.Reachable)
    (inPlace : ∀ a ∈ actions, a.InPlace) : (engine.run compiler actions).scene.Reachable := by
  induction actions using List.reverseRecOn with
  | nil =>
      exact h
  | append_singleton actions a ih =>
      have hbefore := ih fun b hb => inPlace b (List.mem_append_left _ hb)
      have hplace : a.InPlace := inPlace a (by simp)
      rw [run_concat]
      rcases hplace.scene_act compiler (engine.run compiler actions) with hscene | ⟨e, hscene⟩
      · rwa [hscene]
      · rw [hscene]
        exact hbefore.step e

/-! ## Main result -/

/-- Take any scene that edits have made, any constants, a compiler that fails whenever it likes, and
any actions in place; the compiler may keep a list of its calls, since this changes nothing else.
Then a refresh does nothing and reports so if and only if there has been a refresh and nothing has
been renewed since the last one. Any other refresh calls the compiler once, with the text for the
present scene and constants, if the constants are valid; if they are not, it reports that and calls
nothing. Actions that renew nothing leave the whole engine as it is, and after a refresh, successful
or not, it stays so until something is renewed, however often it is refreshed. -/
theorem one_compile_per_change (compiler : Compiler State Program) (edits : List Scene.Edit)
    (config : Config) (state : State) (actions : List Action)
    (inPlace : ∀ a ∈ actions, a.InPlace) :
    let scene := Scene.empty.run edits
    let start : Engine (State × List ShaderSource) Program := ofScene scene config (state, [])
    let engine := start.run compiler.logged actions
    let result := (engine.refresh compiler.logged).1
    let next := (engine.refresh compiler.logged).2
    (engine.withoutCalls = (ofScene scene config state).run compiler actions ∧
      result = (engine.withoutCalls.refresh compiler).1) ∧
    (result = .ok false ∧ next.calls = engine.calls ↔ Settled compiler.logged start actions) ∧
    (¬ Settled compiler.logged start actions → engine.config.validate = .ok () →
      ∃ fragment, engine.fragmentShader = .ok fragment ∧
        next.calls = engine.calls ++ [⟨vertexShader, fragment⟩]) ∧
    (¬ Settled compiler.logged start actions → ∀ e, engine.config.validate = .error e →
      result = .error (.shader (.config e)) ∧ next.calls = engine.calls) ∧
    (∀ a, a.InPlace → a ≠ .refresh → ¬ a.Renews engine →
      engine.act compiler.logged a = engine) ∧
    ∀ since, (∀ earlier a later, since = earlier ++ a :: later →
      a.InPlace ∧ ¬ a.Renews (next.run compiler.logged earlier)) →
        next.run compiler.logged since = next := by
  intro scene start engine result next
  have hsettled : engine.isStale = false ↔ Settled compiler.logged start actions :=
    isStale_run_eq_false_iff compiler.logged scene config (state, []) inPlace
  have hstale : ¬ Settled compiler.logged start actions → engine.isStale = true := fun h => by
    rwa [← hsettled, Bool.not_eq_false] at h
  refine ⟨⟨run_logged compiler start actions, (refresh_logged compiler engine).1⟩, ?_, ?_, ?_,
    fun a hplace hrefresh hnot => act_of_not_renews hplace hrefresh hnot,
    fun since hquiet => run_of_not_renews isStale_act_refresh hquiet⟩
  · rw [← hsettled]
    constructor
    · rintro ⟨hfalse, -⟩
      by_contra h
      -- An attempt never reports that there was nothing to do.
      rcases refresh_of_stale compiler.logged (by simpa using h) with ⟨_, _, heq, hne, -⟩
      exact hne ((congrArg Prod.fst heq).symm.trans hfalse)
    · intro hfresh
      exact ⟨congrArg Prod.fst (refresh_of_not_stale hfresh), calls_refresh_of_not_stale hfresh⟩
  · intro hnot hvalid
    have hreachable : engine.scene.Reachable :=
      reachable_run compiler.logged (Scene.Reachable.empty.run edits) inPlace
    rcases hreachable.exists_fragment hreachable.forest.root_lt_size with ⟨_, text, _, htext, _⟩
    have hshader : ∃ fragment, engine.fragmentShader = .ok fragment :=
      exists_fragmentShader hvalid htext
    rcases hshader with ⟨fragment, hfragment⟩
    exact ⟨fragment, hfragment, calls_refresh_of_text (hstale hnot) hfragment⟩
  · intro hnot e hinvalid
    have hshader : engine.fragmentShader = .error (.config e) := fragmentShader_of_invalid hinvalid
    exact ⟨congrArg Prod.fst (refresh_of_error (hstale hnot) hshader),
      calls_refresh_of_error (hstale hnot) hshader⟩

/-- A sphere without a radius. -/
def flatSphere : Scene.Edit :=
  .addSphere (.splat 0) 0 (.splat 1)

/-- Constants with which the scene is never looked at. -/
def noSteps : Config :=
  { Config.default with maxSteps := 0 }

/-- A refresh, then an edit and constants that are refused. -/
def afterFailure : List Action :=
  [.refresh, .edit flatSphere, .setConfig noSteps]

/-- The first refresh asks for the program of the empty scene and fails. What follows is refused, so
the next refresh asks for nothing. -/
theorem one_compile_per_change_afterFailure :
    (∀ a ∈ afterFailure, a.InPlace) ∧
    let start : Engine (SourceState × List ShaderSource) ShaderSource :=
      ofScene .empty .default (⟨0, some "no device"⟩, [])
    let engine := start.run Compiler.source.logged afterFailure
    ¬ Settled Compiler.source.logged start [] ∧ Config.default.validate = .ok () ∧
    (start.refresh Compiler.source.logged).1 = .error (.compile "no device") ∧
    (start.refresh Compiler.source.logged).2.calls.length = 1 ∧
    Settled Compiler.source.logged start afterFailure ∧
    (engine.refresh Compiler.source.logged).1 = .ok false ∧
    (engine.refresh Compiler.source.logged).2.calls = engine.calls := by
  have inPlace : ∀ a ∈ afterFailure, a.InPlace := by
    simp [afterFailure, Action.InPlace]
  refine ⟨inPlace, ?_⟩
  intro start engine
  have hvalid : Config.default.validate = .ok () := by decide +kernel
  have hfirst : ∃ fragment, start.fragmentShader = .ok fragment ∧
      (start.refresh Compiler.source.logged).2.calls = [⟨vertexShader, fragment⟩] :=
    (one_compile_per_change .source [] .default ⟨0, some "no device"⟩ []
      (List.forall_mem_nil _)).2.2.1 not_settled_nil hvalid
  rcases hfirst with ⟨fragment, hfragment, hcalls⟩
  have hfailed : (start.refresh Compiler.source.logged).1 = .error (.compile "no device") := by
    rw [refresh_of_text rfl hfragment]
    rfl
  -- When the edit comes, the scene is still that of the start.
  have hedit :
      ¬ Action.Renews (start.run Compiler.source.logged [.refresh]) (.edit flatSphere) := by
    have hscene : (start.run Compiler.source.logged [.refresh]).scene = .empty := by
      rw [run_cons, run_nil, scene_act]
      rfl
    have hrefused : (Scene.empty.apply flatSphere).toOption.isSome = false := by decide +kernel
    rintro ⟨⟨r, hr⟩, -⟩
    rw [hscene] at hr
    rw [hr] at hrefused
    cases hrefused
  have hconstants : noSteps.validate ≠ .ok () := by decide +kernel
  have hsettled : Settled Compiler.source.logged start afterFailure := by
    have hrefresh : Settled Compiler.source.logged start ([] ++ [.refresh]) :=
      settled_concat_refresh
    have hsphere : Settled Compiler.source.logged start ([.refresh] ++ [.edit flatSphere]) :=
      (settled_concat (by simp)).2 ⟨hrefresh, hedit⟩
    have hlast : Settled Compiler.source.logged start
        ([.refresh, .edit flatSphere] ++ [.setConfig noSteps]) :=
      (settled_concat (by simp)).2 ⟨hsphere, hconstants⟩
    exact hlast
  rcases (one_compile_per_change .source [] .default ⟨0, some "no device"⟩ afterFailure
    inPlace).2.1.2 hsettled with ⟨hfalse, hsame⟩
  exact ⟨not_settled_nil, hvalid, hfailed, by rw [hcalls]; rfl, hsettled, hfalse, hsame⟩

end Engine
end SdfShader
