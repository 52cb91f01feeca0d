import SdfShader.Formula.Decode
import SdfShader.Formula.Generate

/-!
# Formula libraries

A library is generated from the specification files of a directory: code for the host, the shader
and the tests, and a reference page. Files count if their name ends in `.toml` after something
else, and they are taken in the byte order of their names.
-/

namespace SdfShader.Formula

structure Library where
  host : String
  shader : String
  tests : String
  reference : String
  deriving DecidableEq

namespace Library

/-! ## Texts -/

def codeNotice : String :=
  "// AUTO-GENERATED by build.rs from formula specs\n" ++
  "// DO NOT EDIT - modify the TOML files in formulas/ instead\n\n"

/-- The library without formulas. -/
def headers : Library where
  host := codeNotice ++ "use glam::Vec3;\n\n"
  shader := codeNotice
  tests := codeNotice ++ "use glam::Vec3;\nuse crate::*;\n\n"
  reference := "# Kiln Math Formula Reference\n\n*Auto-generated from formula specifications*\n\n---\n\n"

/-- What one formula adds. -/
def ofSpec (spec : Spec) : Library where
  host := spec.hostCode ++ "\n\n"
  shader := spec.shaderCode ++ "\n\n"
  tests := spec.testsCode ++ "\n\n"
  reference := spec.page ++ "\n---\n\n"

def append (a b : Library) : Library where
  host := a.host ++ b.host
  shader := a.shader ++ b.shader
  tests := a.tests ++ b.tests
  reference := a.reference ++ b.reference

def ofSpecs (specs : List Spec) : Library :=
  specs.foldl (fun library spec => library.append (ofSpec spec)) headers

/-! ## Directories -/

/-- An entry of the directory: a file with its text or a directory. -/
inductive Entry
  | file (text : String)
  | directory

inductive BuildError
  | unreadable (name : String)
  | invalid (name : String)
  deriving DecidableEq

/-- Whether a name ends in a point and `toml` with something before the point. -/
def isSpecName (name : String) : Bool :=
  let cs := name.toList
  ".toml".toList.isSuffixOf cs && 5 < cs.length

/-- Order of the bytes of two texts. -/
def bytesLe (a b : String) : Bool :=
  a.toUTF8.toList ≤ b.toUTF8.toList

def readEntry : String × Entry → Except BuildError Spec
  | (name, .directory) => .error (.unreadable name)
  | (name, .file text) =>
    match Spec.ofToml? text with
    | some spec => .ok spec
    | none => .error (.invalid name)

/-- The library of a directory; the entries' names are all different. -/
def build (entries : List (String × Entry)) : Except BuildError Library :=
  let chosen := (entries.filter fun (name, _) => isSpecName name).mergeSort
    fun a b => bytesLe a.1 b.1
  (chosen.mapM readEntry).map ofSpecs

end Library
end SdfShader.Formula
