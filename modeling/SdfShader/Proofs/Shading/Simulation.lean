import SdfShader.Proofs.Shading.Commands
import SdfShader.Proofs.Shading.Meaning

/-!
# Simulation — commands do to variables what statements do to registers

The registers of a block together with the sample point make up the variables in scope. Running the
command of a statement on them gives the variables of the registers that the statement leaves. So
text runs on every device as its statements do, the device computing with what the interpretation
makes of each literal.
-/

namespace SdfShader
namespace Shading

variable {Number Vector : Type} {A : Interpretation Number Vector} {p : Vector}
  {vars : Variables Number Vector} {r after : Registers Vector Number}

/-! ## The device of an interpretation -/

namespace Interpretation

/-- What an interpretation makes of the literal of a number. -/
def value (A : Interpretation Number Vector) (x : Single) : Number :=
  if x.negative then A.negate (A.numeral x.unsignedLiteral) else A.numeral x.unsignedLiteral

def vectorValue (A : Interpretation Number Vector) (v : Vec3 Single) : Vector :=
  A.vector (A.value v.x) (A.value v.y) (A.value v.z)

/-- The distance of a solid at a position from the sample point `p`. -/
def distance (A : Interpretation Number Vector) (p : Vector) (position : Vec3 Single) :
    Solid → Number
  | .sphere radius => A.sphere (A.subtract p (A.vectorValue position)) (A.value radius)
  | .box halfExtents => A.box (A.subtract p (A.vectorValue position)) (A.vectorValue halfExtents)

/-- The device that computes as the interpretation says, at the sample point `p`. -/
def device (A : Interpretation Number Vector) (p : Vector) : Device Vector Number where
  color := A.vectorValue
  constant := A.value
  measure := A.distance p
  less := A.less
  min := A.min
  smoothMin smoothness own child := A.smoothMin own child (A.value smoothness)

end Interpretation

/-! ## Variables of registers -/

/-- The sample point and the registers. -/
def scope (p : Vector) (r : Registers Vector Number) : Variables Number Vector :=
  fun name => if name = "p" then some (.vector p) else (r name).map .material

theorem scope_point : scope p r "p" = some (.vector p) := rfl

/-- Before the first statement only the result has been declared. -/
theorem scope_result (s : Sample Vector Number) :
    scope p (Registers.set (fun _ => none) resultRegister s) = .ofMap p s := by
  funext name
  by_cases hname : name = resultRegister
  · simp [scope, Variables.ofMap, Registers.set, hname]
  · simp [scope, Variables.ofMap, Registers.set, hname]

theorem scope_set {name : String} (hname : name ≠ "p") (s : Sample Vector Number) :
    scope p (r.set name s) = (scope p r).set name (.material s) := by
  funext other
  by_cases hother : other = name
  · subst hother
    simp [scope, Variables.set, Registers.set, hname]
  · simp [scope, Variables.set, Registers.set, hother]

theorem material?_scope {name : String} (hname : name ≠ "p") :
    (scope p r).material? name = r name := by
  cases h : r name with
  | none =>
      simp [Variables.material?, scope, hname, h]
  | some s =>
      simp [Variables.material?, scope, hname, h]

/-! ## Expressions -/

theorem evaluate?_number (x : Single) :
    A.evaluate? vars (numberExpression x) = some (.number (A.value x)) := by
  unfold numberExpression Interpretation.value
  cases x.negative <;> rfl

theorem evaluate?_vector (v : Vec3 Single) :
    A.evaluate? vars (vectorExpression v) = some (.vector (A.vectorValue v)) := by
  simp [vectorExpression, Interpretation.evaluate?, Interpretation.evaluateAll?, evaluate?_number,
    Interpretation.builtin?, Interpretation.vectorValue]

theorem evaluate?_distance (hpoint : vars "p" = some (.vector p)) (d : DistanceTerm) :
    A.evaluate? vars d.expression = some (.number ((A.device p).term d)) := by
  cases d with
  | constant value =>
      exact evaluate?_number value
  | solid position solid =>
      cases solid with
      | sphere radius =>
          simp [DistanceTerm.expression, Interpretation.evaluate?, Interpretation.evaluateAll?,
            hpoint, evaluate?_vector, evaluate?_number, Interpretation.subtract?,
            Interpretation.builtin?, Interpretation.device, Interpretation.distance, Device.term]
      | box halfExtents =>
          simp [DistanceTerm.expression, Interpretation.evaluate?, Interpretation.evaluateAll?,
            hpoint, evaluate?_vector, Interpretation.subtract?, Interpretation.builtin?,
            Interpretation.device, Interpretation.distance, Device.term]

theorem evaluate?_member {register : String} {s : Sample Vector Number}
    (h : vars.material? register = some s) (field : String) :
    A.evaluate? vars (.member register field) = field? s field := by
  simp [Interpretation.evaluate?, h]

theorem evaluate?_join {target source : String} {t s : Sample Vector Number}
    (htarget : vars.material? target = some t) (hsource : vars.material? source = some s)
    (how : Join) :
    A.evaluate? vars (how.expression target source)
      = some (.number ((A.device p).join how t.distance s.distance)) := by
  cases how with
  | sharp =>
      simp [Join.expression, Interpretation.evaluate?, Interpretation.evaluateAll?, htarget,
        hsource, field?, Interpretation.builtin?, Interpretation.device, Device.join]
  | smooth smoothness =>
      simp [Join.expression, Interpretation.evaluate?, Interpretation.evaluateAll?, htarget,
        hsource, field?, evaluate?_number, Interpretation.builtin?, Interpretation.device,
        Device.join]

/-! ## Commands -/

theorem assign?_scope {a : Assignment} (hname : a.register ≠ "p") {t t' : Sample Vector Number}
    {v : Value Number Vector} (ht : r a.register = some t)
    (hv : A.evaluate? (scope p r) a.value = some v) (hfield : setField? t a.field v = some t') :
    A.assign? (scope p r) a = some (scope p (r.set a.register t')) := by
  have hmaterial : (scope p r).material? a.register = some t := (material?_scope hname).trans ht
  rw [scope_set hname]
  simp [Interpretation.assign?, hmaterial, hv, hfield]

/-- Copies one field from register to register. -/
theorem assign?_member {source target field : String} (hsource : source ≠ "p")
    (htarget : target ≠ "p") {s t t' : Sample Vector Number} (hs : r source = some s)
    (ht : r target = some t) (hfield : (field? s field).bind (setField? t field) = some t') :
    A.assign? (scope p r) ⟨target, field, .member source field⟩
      = some (scope p (r.set target t')) := by
  rcases Option.bind_eq_some_iff.1 hfield with ⟨v, hv, hset⟩
  have hs' : (scope p r).material? source = some s := (material?_scope hsource).trans hs
  exact assign?_scope htarget ht ((evaluate?_member hs' field).trans hv) hset

/-- The command of a declaration. -/
theorem execute?_declare {register : String} (hname : register ≠ "p") (hfresh : r register = none)
    (color : Vec3 Single) (distance : DistanceTerm) :
    A.execute? (scope p r) (Statement.declare register color distance).command
      = some (scope p (r.set register
          ⟨(A.device p).color color, true, (A.device p).term distance⟩)) := by
  have hunset : scope p r register = none := by
    simp [scope, hname, hfresh]
  have hvalue : A.evaluate? (scope p r)
      (.call "MaterialDist" [vectorExpression color, .truth true, distance.expression])
      = some (.material ⟨(A.device p).color color, true, (A.device p).term distance⟩) := by
    simp [Interpretation.evaluate?, Interpretation.evaluateAll?, evaluate?_vector,
      evaluate?_distance scope_point, Interpretation.builtin?]
    rfl
  rw [scope_set hname]
  simp [Statement.command, Interpretation.execute?, hunset, hvalue]

/-- Copying color and lighting field by field copies both. -/
theorem execute?_takeCloser {source target : String} (hsource : source ≠ "p")
    (htarget : target ≠ "p") {s t : Sample Vector Number} (hs : r source = some s)
    (ht : r target = some t) :
    A.execute? (scope p r) (Statement.takeCloser source target).command
      = some (scope p (r.set target ((A.device p).takeCloser s t))) := by
  have hs' : (scope p r).material? source = some s := (material?_scope hsource).trans hs
  have ht' : (scope p r).material? target = some t := (material?_scope htarget).trans ht
  have hcondition : A.evaluate? (scope p r)
      (.comparison (.member source "dist") (.member target "dist"))
      = some (.truth (A.less s.distance t.distance)) := by
    simp [Interpretation.evaluate?, hs', ht', field?, Interpretation.less?]
  have hless : (A.device p).less s.distance t.distance = A.less s.distance t.distance := rfl
  rw [Statement.command, Interpretation.execute?, hcondition, Device.takeCloser, hless]
  cases A.less s.distance t.distance with
  | false =>
      simp [Registers.set_of_eq ht]
  | true =>
      -- Two assignments, one after the other.
      let colored : Sample Vector Number := { t with color := s.color }
      have hcolor : A.assign? (scope p r) ⟨target, "color", .member source "color"⟩
          = some (scope p (r.set target colored)) :=
        assign?_member hsource htarget hs ht rfl
      -- The source may be the target itself, which then has been colored already.
      have hlit : ∃ s₁, (r.set target colored) source = some s₁ ∧ s₁.isLit = s.isLit := by
        by_cases hsame : source = target
        · have heq : s = t := Option.some.inj (hs.symm.trans ((congrArg r hsame).trans ht))
          exact ⟨colored, by rw [hsame, Registers.set_self], by rw [heq]⟩
        · exact ⟨s, by rw [Registers.set_of_ne hsame, hs], rfl⟩
      rcases hlit with ⟨s₁, hs₁, hsame⟩
      have hlight : A.assign? (scope p (r.set target colored))
            ⟨target, "is_lit", .member source "is_lit"⟩
          = some (scope p ((r.set target colored).set target { colored with isLit := s₁.isLit })) :=
        assign?_member hsource htarget hs₁ Registers.set_self rfl
      rw [Registers.set_set, hsame] at hlight
      simp [List.foldlM_cons, hcolor, hlight, colored]

theorem execute?_join {target source : String} (htarget : target ≠ "p") (hsource : source ≠ "p")
    {t s : Sample Vector Number} (ht : r target = some t) (hs : r source = some s) (how : Join) :
    A.execute? (scope p r) (Statement.join how target source).command
      = some (scope p (r.set target ((A.device p).joinDistance how s t))) := by
  have hs' : (scope p r).material? source = some s := (material?_scope hsource).trans hs
  have ht' : (scope p r).material? target = some t := (material?_scope htarget).trans ht
  exact assign?_scope htarget ht (evaluate?_join ht' hs' how) rfl

/-- Where a statement runs, its command does the same. -/
theorem execute?_command {s : Statement} (hnames : ∀ n ∈ s.registers, n ≠ "p")
    (h : s.run? (A.device p) r = some after) :
    A.execute? (scope p r) s.command = some (scope p after) := by
  cases s with
  | declare register color distance =>
      have hname : register ≠ "p" := hnames register (by simp [Statement.registers])
      cases hfresh : r register with
      | none =>
          simp only [Statement.run?, hfresh, Option.isSome_none, Bool.false_eq_true, if_false,
            Option.some.injEq] at h
          rw [← h]
          exact execute?_declare hname hfresh color distance
      | some s =>
          simp [Statement.run?, hfresh] at h
  | takeCloser source target =>
      have hsource : source ≠ "p" := hnames source (by simp [Statement.registers])
      have htarget : target ≠ "p" := hnames target (by simp [Statement.registers])
      simp only [Statement.run?, Option.bind_eq_bind, Option.bind_eq_some_iff, Option.pure_def,
        Option.some.injEq] at h
      rcases h with ⟨s, hs, t, ht, rfl⟩
      exact execute?_takeCloser hsource htarget hs ht
  | join how target source =>
      have hsource : source ≠ "p" := hnames source (by simp [Statement.registers])
      have htarget : target ≠ "p" := hnames target (by simp [Statement.registers])
      simp only [Statement.run?, Option.bind_eq_bind, Option.bind_eq_some_iff, Option.pure_def,
        Option.some.injEq] at h
      rcases h with ⟨s, hs, t, ht, rfl⟩
      exact execute?_join htarget hsource ht hs how

theorem executeAll?_commands {statements : List Statement}
    (hnames : ∀ s ∈ statements, ∀ n ∈ s.registers, n ≠ "p")
    (h : runAll? (A.device p) r statements = some after) :
    A.executeAll? (scope p r) (statements.map Statement.command) = some (scope p after) := by
  induction statements generalizing r with
  | nil =>
      cases h
      rfl
  | cons s statements ih =>
      simp only [runAll?, List.foldlM_cons, Option.bind_eq_bind, Option.bind_eq_some_iff] at h
      rcases h with ⟨middle, hfirst, hrest⟩
      have hmore : A.executeAll? (scope p middle) (statements.map Statement.command)
          = some (scope p after) := by
        refine ih ?_ hrest
        intro t ht
        exact hnames t (List.mem_cons_of_mem s ht)
      have hcommand : A.execute? (scope p r) s.command = some (scope p middle) :=
        execute?_command (hnames s List.mem_cons_self) hfirst
      rw [Interpretation.executeAll?, List.map_cons, List.foldlM_cons, hcommand]
      exact hmore

/-- Text of statements runs as they do. -/
theorem run?_renderAll {statements : List Statement} {text : String}
    (hnames : ∀ s ∈ statements, ∀ n ∈ s.registers, IsRegister n)
    (htext : renderAll statements = .ok text)
    (h : runAll? (A.device p) r statements = some after) :
    A.run? (scope p r) text = some (scope p after) := by
  have hpoint : ∀ s ∈ statements, ∀ n ∈ s.registers, n ≠ "p" := by
    intro s hs n hn
    exact (hnames s hs n hn).ne_point
  rw [Interpretation.run?, read?_renderAll hnames htext]
  exact executeAll?_commands hpoint h

end Shading
end SdfShader
