import SdfShader.Scene.Basic
import SdfShader.Shader.Assembly

/-!
# The engine

An engine keeps a compiled program in step with a scene that is being edited. It knows the revision
of the last attempt to compile and tries again only when the scene has another one, or when the
attempt has been forgotten. A failed attempt leaves the program of an earlier one in use. What
compiles is a parameter: a compiler with a state of its own.
-/

namespace SdfShader

/-- Compiles the texts of a vertex and a fragment shader, or says why it cannot. -/
structure Compiler (State Program : Type) where
  compile : State → (vertex fragment : String) → Except String Program × State

/-- A program and the revision of the scene that it was made from. -/
structure Built (Program : Type) where
  program : Program
  revision : Nat
  deriving DecidableEq

structure Engine (State Program : Type) where
  scene : Scene
  config : Config
  state : State
  /-- The last program that compiled. -/
  active : Option (Built Program)
  /-- Revision of the last attempt, failed or not. -/
  attempted : Option Nat

inductive RefreshError
  | shader (e : ShaderError)
  | compile (message : String)
  deriving DecidableEq

def RefreshError.message? : RefreshError → Option String
  | shader e => e.message?
  | compile message => some s!"Shader compilation failed: {message}"

namespace Engine

variable {State Program : Type}

def ofScene (scene : Scene) (config : Config) (state : State) : Engine State Program :=
  ⟨scene, config, state, none, none⟩

/-- An engine with an empty scene and the default constants. -/
def new (state : State) : Engine State Program :=
  ofScene .empty .default state

/-! ## Scene and constants -/

/-- Edits the scene; a refused edit leaves the engine as it is. -/
def edit (engine : Engine State Program) (e : Scene.Edit) :
    Except SceneError (Engine State Program × Option NodeId) :=
  (engine.scene.apply e).map fun (scene, id) => ({ engine with scene }, id)

/-- Puts another scene in the place of the present one. -/
def replaceScene (engine : Engine State Program) (scene : Scene) : Engine State Program :=
  { engine with scene }

/-- Forgets the last attempt. -/
def invalidate (engine : Engine State Program) : Engine State Program :=
  { engine with attempted := none }

/-- Takes other constants, if they are valid, and forgets the last attempt. -/
def setConfig (engine : Engine State Program) (config : Config) :
    Except ConfigError (Engine State Program) := do
  config.validate
  return { engine with config }.invalidate

/-! ## Program -/

/-- Whether the scene has another revision than at the last attempt. -/
def isStale (engine : Engine State Program) : Bool :=
  engine.attempted ≠ some engine.scene.graph.revision

/-- The fragment shader for the present scene and constants. -/
def fragmentShader (engine : Engine State Program) : Except ShaderError String :=
  SdfShader.fragmentShader engine.scene.graph rootId engine.config

/-- The program in use. -/
def program? (engine : Engine State Program) : Option Program :=
  engine.active.map (·.program)

def activeRevision? (engine : Engine State Program) : Option Nat :=
  engine.active.map (·.revision)

/-- Compiles anew if the engine is stale; true if there is a new program. -/
def refresh (compiler : Compiler State Program) (engine : Engine State Program) :
    Except RefreshError Bool × Engine State Program :=
  if !engine.isStale then (.ok false, engine)
  else
    -- The attempt is noted first, so that one that fails is not made over and over.
    let revision := engine.scene.graph.revision
    let tried := { engine with attempted := some revision }
    match tried.fragmentShader with
    | .error e => (.error (.shader e), tried)
    | .ok fragment =>
      match compiler.compile tried.state vertexShader fragment with
      | (.ok program, state) => (.ok true, { tried with state, active := some ⟨program, revision⟩ })
      | (.error message, state) => (.error (.compile message), { tried with state })

/-! ## Runs -/

/-- What can be done to an engine. -/
inductive Action
  | edit (e : Scene.Edit)
  | replaceScene (scene : Scene)
  | setConfig (config : Config)
  | invalidate
  | refresh

/-- The engine after an action; a refused one leaves it as it is. -/
def act (compiler : Compiler State Program) (engine : Engine State Program) :
    Action → Engine State Program
  | .edit e => { engine with scene := engine.scene.step e }
  | .replaceScene scene => engine.replaceScene scene
  | .setConfig config =>
    match engine.setConfig config with
    | .ok engine => engine
    | .error _ => engine
  | .invalidate => engine.invalidate
  | .refresh => (engine.refresh compiler).2

def run (compiler : Compiler State Program) (engine : Engine State Program)
    (actions : List Action) : Engine State Program :=
  actions.foldl (act compiler) engine

end Engine

/-! ## A compiler that needs no graphics device -/

/-- The texts that were to be compiled. -/
structure ShaderSource where
  vertex : String
  fragment : String
  deriving DecidableEq

/-- Counts what it was asked to compile; the next time it fails with a message set beforehand. -/
structure SourceState where
  compiles : Nat
  failure : Option String
  deriving DecidableEq

def SourceState.initial : SourceState := ⟨0, none⟩

/-- Keeps the source as the program, and fails once after being told to. -/
def Compiler.source : Compiler SourceState ShaderSource where
  compile state vertex fragment :=
    let next := ⟨state.compiles + 1, none⟩
    match state.failure with
    | some message => (.error message, next)
    | none => (.ok ⟨vertex, fragment⟩, next)

end SdfShader
