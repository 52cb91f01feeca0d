import SdfShader.CommandLine.Arguments
import SdfShader.Engine
import SdfShader.Settings.Files

/-!
# Running commands

What the program does for its arguments, over any access to files: it prints, reports an error or
ends with a usage error, and may write a file. The settings are read only by the commands that need
them.
-/

namespace SdfShader.CommandLine

/-- Exit code, report of an error, and what is printed. -/
structure Outcome where
  code : Nat
  error : Option String
  stdout : String
  deriving DecidableEq

namespace Outcome

def printed (text : String) : Outcome := ⟨0, none, text⟩

def failed (message : String) : Outcome := ⟨1, some message, ""⟩

def usage : Outcome := ⟨2, none, ""⟩

end Outcome

def versionText : String := "kiln 0.1.0\n"

def helpText : String :=
  "Compile SDF scene graphs into GLSL ray-marching shaders\n\n" ++
  "Usage: kiln [--config <CONFIG>] <fragment|shader|formulas|config>\n"

def ofStop : Stop → Outcome
  | .usage => .usage
  | .version => .printed versionText
  | .help => .printed helpText

/-! ## Commands -/

/-- The sources of the program for a scene. -/
def shaderSource (demo : Demo) (config : Config) : Except String ShaderSource :=
  let engine : Engine SourceState ShaderSource := .ofScene demo.scene config .initial
  match engine.refresh .source with
  | (.error e, _) => .error (e.message?.getD "")
  | (.ok _, engine) =>
    match engine.program? with
    | some program => .ok program
    | none => .error "Shader program was not built"

variable {m : Type → Type} [Monad m] [FileAccess m]

def runFragment (demo : Demo) : Outcome :=
  match demo.scene.graph.fragment rootId with
  | .ok text => .printed text
  | .error e => .failed ((ShaderError.ofFragmentError e).message?.getD "")

def runShader (config : Config) (demo : Demo) (output : Option String) (vertex : Bool) :
    m Outcome := do
  match shaderSource demo config with
  | .error message => return .failed message
  | .ok program =>
    let source := if vertex then program.vertex else program.fragment
    match output with
    | none => return .printed source
    | some path =>
      if ← FileAccess.write path source then return .printed ""
      else return .failed s!"Failed to write {path}"

def runConfig (configDirectory : Option String) (config : Config) (save : Bool) : m Outcome := do
  let text := config.pretty ++ "\n"
  if save then
    match ← Settings.save configDirectory config none with
    | .ok _ => return .printed text
    | .error e => return .failed e.context
  else return .printed text

/-- Runs a command with the settings in effect. -/
def withSettings (configDirectory file : Option String) (command : Config → m Outcome) :
    m Outcome := do
  match ← Settings.load configDirectory file with
  | .ok config => command config
  | .error e => return .failed e.context

def execute (configDirectory : Option String) (i : Invocation) : m Outcome :=
  match i.command with
  | .fragment demo => return runFragment demo
  | .shader demo output vertex =>
    withSettings configDirectory i.config fun config => runShader config demo output vertex
  | .formulas docs =>
    return .printed (if docs then Formula.library.reference else Formula.library.shader)
  | .config save =>
    withSettings configDirectory i.config fun config => runConfig configDirectory config save

/-- Runs the program for its arguments. -/
def run (configDirectory : Option String) (args : List String) : m Outcome :=
  match parse args with
  | .error stop => return ofStop stop
  | .ok invocation => execute configDirectory invocation

end SdfShader.CommandLine
