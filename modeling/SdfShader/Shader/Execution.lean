import SdfShader.Shader.Statement

/-!
# Execution of statements

What statements do to the registers of the map function, at one sample point. How a device holds
colors and how it measures and compares distances are parameters, since devices differ in precision
and rounding. A statement that declares a register again, or uses one that is not declared, does not
run. Main statements: a block runs as its parts do one after the other, and a register that is set
leaves the others as they are.
-/

namespace SdfShader

/-- How a device computes with colors and distances at the sample point. -/
structure Device (Color Distance : Type) where
  color : Vec3 Single → Color
  constant : Single → Distance
  /-- Distance of the sample point from a solid at a position. -/
  measure : Vec3 Single → Solid → Distance
  less : Distance → Distance → Bool
  min : Distance → Distance → Distance
  smoothMin : Single → Distance → Distance → Distance

/-- What a register holds. -/
structure Sample (Color Distance : Type) where
  color : Color
  isLit : Bool
  distance : Distance
  deriving DecidableEq

variable {Color Distance : Type}

/-! ## Operations on samples -/

namespace Device

def term (d : Device Color Distance) : DistanceTerm → Distance
  | .solid position s => d.measure position s
  | .constant value => d.constant value

def join (d : Device Color Distance) : Join → Distance → Distance → Distance
  | .sharp => d.min
  | .smooth smoothness => d.smoothMin smoothness

/-- The target with color and lighting of the source if that is nearer. -/
def takeCloser (d : Device Color Distance) (source target : Sample Color Distance) :
    Sample Color Distance :=
  if d.less source.distance target.distance then
    { target with color := source.color, isLit := source.isLit }
  else target

/-- The target with the distance of the source joined to its own. -/
def joinDistance (d : Device Color Distance) (how : Join) (source target : Sample Color Distance) :
    Sample Color Distance :=
  { target with distance := d.join how target.distance source.distance }

end Device

/-! ## Registers -/

/-- What the declared registers hold, by their names. -/
abbrev Registers (Color Distance : Type) := String → Option (Sample Color Distance)

namespace Registers

variable {r : Registers Color Distance} {name other : String} {s : Sample Color Distance}

def set (r : Registers Color Distance) (name : String) (s : Sample Color Distance) :
    Registers Color Distance :=
  fun other => if other = name then some s else r other

theorem set_self : r.set name s name = some s :=
  if_pos rfl

theorem set_of_ne (h : other ≠ name) : r.set name s other = r other :=
  if_neg h

theorem set_of_eq (h : r name = some s) : r.set name s = r := by
  funext other
  by_cases hother : other = name
  · rw [hother, set_self, h]
  · rw [set_of_ne hother]

/-- Of two values set one after the other the last one stays. -/
theorem set_set (t : Sample Color Distance) : (r.set name s).set name t = r.set name t := by
  funext other
  by_cases hother : other = name
  · rw [hother, set_self, set_self]
  · rw [set_of_ne hother, set_of_ne hother, set_of_ne hother]

end Registers

/-! ## Running -/

/-- The registers after a statement, if it runs. -/
def Statement.run? (d : Device Color Distance) (r : Registers Color Distance) :
    Statement → Option (Registers Color Distance)
  | declare register color distance =>
    if (r register).isSome then none
    else some (r.set register ⟨d.color color, true, d.term distance⟩)
  | takeCloser source target => do
    let s ← r source
    let t ← r target
    return r.set target (d.takeCloser s t)
  | join how target source => do
    let s ← r source
    let t ← r target
    return r.set target (d.joinDistance how s t)

/-- The registers after statements in their order, if all of them run. -/
def runAll? (d : Device Color Distance) (r : Registers Color Distance)
    (statements : List Statement) : Option (Registers Color Distance) :=
  statements.foldlM (Statement.run? d) r

section Lemmas

variable {d : Device Color Distance} {r : Registers Color Distance} {source target : String}
  {s t : Sample Color Distance}

theorem runAll?_nil : runAll? d r [] = some r :=
  rfl

theorem runAll?_cons {after : Registers Color Distance} {first : Statement}
    (h : first.run? d r = some after) (rest : List Statement) :
    runAll? d r (first :: rest) = runAll? d after rest := by
  simp [runAll?, h]

theorem runAll?_append {after : Registers Color Distance} {first : List Statement}
    (h : runAll? d r first = some after) (rest : List Statement) :
    runAll? d r (first ++ rest) = runAll? d after rest := by
  simp_all [runAll?, List.foldlM_append]

theorem run?_declare {register : String} (h : r register = none) (color : Vec3 Single)
    (distance : DistanceTerm) :
    (Statement.declare register color distance).run? d r
      = some (r.set register ⟨d.color color, true, d.term distance⟩) := by
  simp [Statement.run?, h]

theorem run?_takeCloser (hs : r source = some s) (ht : r target = some t) :
    (Statement.takeCloser source target).run? d r = some (r.set target (d.takeCloser s t)) := by
  simp [Statement.run?, hs, ht]

theorem run?_join (how : Join) (hs : r source = some s) (ht : r target = some t) :
    (Statement.join how target source).run? d r
      = some (r.set target (d.joinDistance how s t)) := by
  simp [Statement.run?, hs, ht]

end Lemmas
end SdfShader
