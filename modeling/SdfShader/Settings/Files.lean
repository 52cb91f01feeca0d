import SdfShader.Settings.Decode
import SdfShader.Settings.Encode

/-!
# Settings files

Settings are read from a file that is named, which must then exist and be valid, or from the default
file, which need not. What files are is a parameter: any monad that can read and write them.
-/

namespace SdfShader

/-- Access to files by their paths. -/
class FileAccess (m : Type → Type) where
  /-- The text of a file that can be read. -/
  read : String → m (Option String)
  /-- Makes the directory that holds a path, and all above it; true if it is there afterwards. -/
  makeParents : String → m Bool
  /-- Writes a file; true if that was possible. -/
  write : (path text : String) → m Bool

inductive SettingsError
  | unreadable (path : String)
  | invalid (path : String) (cause : ParseError)
  | noDirectory
  | cannotCreateDirectory
  | cannotWrite
  deriving DecidableEq

namespace SettingsError

/-- What was being done. -/
def context : SettingsError → String
  | unreadable path => s!"Failed to read settings file {path}"
  | invalid path _ => s!"In settings file {path}"
  | noDirectory => "Could not determine config directory"
  | cannotCreateDirectory => "Failed to create config directory"
  | cannotWrite => "Failed to write settings file"

/-- What was being done and what went wrong. -/
def message : SettingsError → String
  | invalid path cause => s!"In settings file {path}: {cause.message}"
  | e => e.context

end SettingsError

namespace Settings

/-- The default file in a directory for configurations. -/
def defaultPath (configDirectory : String) : String :=
  configDirectory ++ "/kiln/settings.json"

variable {m : Type → Type} [Monad m] [FileAccess m]

/-- The settings in a file. -/
def loadFrom (path : String) : m (Except SettingsError Config) := do
  match ← FileAccess.read path with
  | none => return .error (.unreadable path)
  | some text => return (Config.parse text).mapError (.invalid path)

/-- The settings in the default file; the default ones if it is missing or broken. -/
def loadDefault (configDirectory : Option String) : m Config := do
  match configDirectory with
  | none => return .default
  | some directory =>
    match ← loadFrom (defaultPath directory) with
    | .ok c => return c
    | .error _ => return .default

/-- The settings in effect. -/
def load (configDirectory : Option String) (file : Option String) :
    m (Except SettingsError Config) := do
  match file with
  | some path => loadFrom path
  | none => return .ok (← loadDefault configDirectory)

/-- Writes settings to a file, by default the default one, and returns its path. -/
def save (configDirectory : Option String) (c : Config) (file : Option String) :
    m (Except SettingsError String) := do
  match file.or (configDirectory.map defaultPath) with
  | none => return .error .noDirectory
  | some path =>
    if !(← FileAccess.makeParents path) then return .error .cannotCreateDirectory
    else if !(← FileAccess.write path c.pretty) then return .error .cannotWrite
    else return .ok path

end Settings
end SdfShader
