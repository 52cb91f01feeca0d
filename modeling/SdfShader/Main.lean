import SdfShader.CommandLine.Run
import SdfShader.FileTree

/-!
# The program

Connects the commands to the files, the arguments and the environment of the process.
-/

namespace SdfShader

/-- Access to the files of the system. -/
instance : FileAccess IO where
  read path := some <$> IO.FS.readFile path <|> pure none
  makeParents path := (do
    let parent := Path.parent path
    if parent ≠ "" then IO.FS.createDirAll parent
    return true) <|> pure false
  write path text := (do
    IO.FS.writeFile path text
    return true) <|> pure false

/-- The directory for configurations: an absolute one that is named, else one in the home. -/
def configDirectory : IO (Option String) := do
  match ← IO.getEnv "XDG_CONFIG_HOME" with
  | some directory => if directory.startsWith "/" then return some directory
  | none => pure ()
  return (← IO.getEnv "HOME").map (· ++ "/.config")

end SdfShader

open SdfShader

def main (args : List String) : IO UInt32 := do
  let outcome ← CommandLine.run (m := IO) (← configDirectory) args
  IO.print outcome.stdout
  match outcome.error with
  | some message => IO.eprintln s!"Error: {message}"
  | none => pure ()
  return outcome.code.toUInt32
