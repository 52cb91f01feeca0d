import SdfShader.Scene.Basic

/-!
# Demo scenes

Three scenes to start from: spheres side by side, shapes melted together, and a sphere beside a
smooth union.
-/

namespace SdfShader

inductive Demo
  | spheres
  | blend
  | nested
  deriving DecidableEq

namespace Demo

def all : List Demo := [spheres, blend, nested]

def name : Demo → String
  | spheres => "spheres"
  | blend => "blend"
  | nested => "nested"

def ofName? (name : String) : Option Demo :=
  all.find? (·.name = name)

/-- The demo with a name, upper and lower case of ASCII letters being the same. -/
def ofNameIgnoringCase? (name : String) : Option Demo :=
  all.find? fun demo => demo.name.toLower = name.toLower

theorem ofName?_name (demo : Demo) : ofName? demo.name = some demo := by
  cases demo <;> decide

/-! ## Scenes -/

def red : Vec3 Single := ⟨1, 0, 0⟩
def green : Vec3 Single := ⟨0, 1, 0⟩
def blue : Vec3 Single := ⟨0, 0, 1⟩

/-- The edits that make the scene. -/
def edits : Demo → List Scene.Edit
  | spheres =>
    [.addSphere ⟨0, 0, 0⟩ 1 blue,
     .addSphere ⟨0, 1.2, 0⟩ 1 red,
     .addSphere ⟨1.2, 0, 0⟩ 1 green]
  | blend =>
    [.addSmoothUnion 0.5,
     .addSphere ⟨0, 0, 1⟩ 1 red,
     .addBox ⟨0, 0, 0⟩ ⟨1, 1, 1⟩ green,
     .addSphere ⟨0, 0, -1⟩ 1 blue,
     .addChildren 1 [2, 3, 4]]
  | nested =>
    [.addSphere ⟨0, 0, 0⟩ 1 blue,
     .addSmoothUnion 0.5,
     .addSphere ⟨1, 0, 0⟩ 1 red,
     .addBox ⟨0, 1, 0⟩ ⟨1, 1, 1⟩ green,
     .addChildren 2 [3, 4]]

def scene (demo : Demo) : Scene :=
  Scene.empty.run demo.edits

end Demo
end SdfShader
