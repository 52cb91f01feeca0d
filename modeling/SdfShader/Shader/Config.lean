import SdfShader.Shader.Literal

/-!
# Render constants

The constants that are baked into a shader. Each has a key, under which settings store it, and a
name, under which the shader declares it; `Field.all` lists them in the order of both.
`Config.error?` finds what would break the shader, `Config.declarations` writes the constants.
-/

namespace SdfShader

structure Config where
  /-- Limit of the steps along a ray. -/
  maxSteps : UInt32
  /-- Distance at which a ray has escaped. -/
  maxDistance : Single
  /-- Distance below which a ray has hit. -/
  hitEpsilon : Single
  /-- Step of the central difference for normals. -/
  normalEpsilon : Single
  /-- Direction towards the light, of any length but zero. -/
  lightDirection : Vec3 Single
  lightColor : Vec3 Single
  /-- Color of the background and of the fog. -/
  backgroundColor : Vec3 Single
  gamma : Single
  /-- Amount of fog per unit of distance. -/
  fogDensity : Single
  /-- Samples per axis of a pixel. -/
  supersample : UInt32
  deriving DecidableEq

namespace Config

def default : Config where
  maxSteps := 256
  maxDistance := 1000
  hitEpsilon := 0.001
  normalEpsilon := 0.0001
  lightDirection := ⟨1, 2, -1⟩
  lightColor := .splat 1
  backgroundColor := .splat 1
  gamma := 2.2
  fogDensity := 0.02
  supersample := 2

instance : Inhabited Config := ⟨default⟩

/-! ## Fields -/

inductive Field
  | maxSteps
  | maxDistance
  | hitEpsilon
  | normalEpsilon
  | lightDirection
  | lightColor
  | backgroundColor
  | gamma
  | fogDensity
  | supersample
  deriving DecidableEq

/-- What a field holds. -/
inductive Kind
  | count
  | scalar
  | vector
  deriving DecidableEq

abbrev Kind.Value : Kind → Type
  | count => UInt32
  | scalar => Single
  | vector => Vec3 Single

namespace Field

def all : List Field :=
  [maxSteps, maxDistance, hitEpsilon, normalEpsilon, lightDirection, lightColor, backgroundColor,
   gamma, fogDensity, supersample]

theorem mem_all (field : Field) : field ∈ all := by
  cases field <;> decide

def kind : Field → Kind
  | maxSteps | supersample => .count
  | maxDistance | hitEpsilon | normalEpsilon | gamma | fogDensity => .scalar
  | lightDirection | lightColor | backgroundColor => .vector

/-- Key of the field in settings. -/
def key : Field → String
  | maxSteps => "max_steps"
  | maxDistance => "max_distance"
  | hitEpsilon => "hit_epsilon"
  | normalEpsilon => "normal_epsilon"
  | lightDirection => "light_direction"
  | lightColor => "light_color"
  | backgroundColor => "background_color"
  | gamma => "gamma"
  | fogDensity => "fog_density"
  | supersample => "supersample"

/-- Name of the constant in the shader. -/
def constant : Field → String
  | maxSteps => "MAX_STEPS"
  | maxDistance => "MAX_DIST"
  | hitEpsilon => "HIT_EPSILON"
  | normalEpsilon => "NORMAL_EPSILON"
  | lightDirection => "LIGHT_DIRECTION"
  | lightColor => "LIGHT_COLOR"
  | backgroundColor => "BACKGROUND_COLOR"
  | gamma => "GAMMA"
  | fogDensity => "FOG_DENSITY"
  | supersample => "SUPERSAMPLE"

/-- The field with a key. -/
def ofKey? (key : String) : Option Field :=
  all.find? (·.key = key)

theorem ofKey?_key (field : Field) : ofKey? field.key = some field := by
  cases field <;> decide

end Field

def get (c : Config) : (field : Field) → field.kind.Value
  | .maxSteps => c.maxSteps
  | .maxDistance => c.maxDistance
  | .hitEpsilon => c.hitEpsilon
  | .normalEpsilon => c.normalEpsilon
  | .lightDirection => c.lightDirection
  | .lightColor => c.lightColor
  | .backgroundColor => c.backgroundColor
  | .gamma => c.gamma
  | .fogDensity => c.fogDensity
  | .supersample => c.supersample

def set (c : Config) : (field : Field) → field.kind.Value → Config
  | .maxSteps, v => { c with maxSteps := v }
  | .maxDistance, v => { c with maxDistance := v }
  | .hitEpsilon, v => { c with hitEpsilon := v }
  | .normalEpsilon, v => { c with normalEpsilon := v }
  | .lightDirection, v => { c with lightDirection := v }
  | .lightColor, v => { c with lightColor := v }
  | .backgroundColor, v => { c with backgroundColor := v }
  | .gamma, v => { c with gamma := v }
  | .fogDensity, v => { c with fogDensity := v }
  | .supersample, v => { c with supersample := v }

theorem get_set (c : Config) (field : Field) (v : field.kind.Value) :
    (c.set field v).get field = v := by
  cases field <;> rfl

theorem get_set_of_ne (c : Config) {field other : Field} (v : field.kind.Value)
    (h : other ≠ field) : (c.set field v).get other = c.get other := by
  cases field <;> cases other <;> first | rfl | exact absurd rfl h

/-- Two configurations are equal if all their fields are. -/
theorem ext_get {c d : Config} (h : ∀ field, c.get field = d.get field) : c = d := by
  cases c
  cases d
  simp only [Config.mk.injEq]
  exact ⟨h .maxSteps, h .maxDistance, h .hitEpsilon, h .normalEpsilon, h .lightDirection,
    h .lightColor, h .backgroundColor, h .gamma, h .fogDensity, h .supersample⟩

/-! ## Equality of values -/

/-- Whether all numbers have the same values; a field that is not a number equals nothing. -/
def sameValues (c d : Config) : Bool :=
  Field.all.all fun field =>
    match field.kind, c.get field, d.get field with
    | .count, m, n => m = n
    | .scalar, x, y => x.sameValue y
    | .vector, v, w => v.x.sameValue w.x && v.y.sameValue w.y && v.z.sameValue w.z

end Config

/-! ## Validation -/

/-- A field with a value that would give a shader that is broken or does not end. -/
inductive ConfigError
  | notPositive (field : Config.Field) (value : Single)
  | negativeFog (value : Single)
  | noSteps
  | supersample (value : UInt32)
  | nonFiniteVector (field : Config.Field)
  | noLightDirection
  deriving DecidableEq

def ConfigError.message : ConfigError → String
  | notPositive field value => s!"{field.key} must be finite and positive, got {value.text}"
  | negativeFog value => s!"fog_density must be finite and non-negative, got {value.text}"
  | noSteps => "max_steps must be at least 1"
  | supersample value => s!"supersample must be between 1 and 4, got {value}"
  | nonFiniteVector field => s!"{field.key} must be finite"
  | noLightDirection => "light_direction must not be the zero vector"

namespace Config

def positiveError? (field : Field) (value : Single) : Option ConfigError :=
  if value.isFinite ∧ 0 < value then none else some (.notPositive field value)

def fogError? (value : Single) : Option ConfigError :=
  if value.isFinite ∧ 0 ≤ value then none else some (.negativeFog value)

def vectorError? (field : Field) (value : Vec3 Single) : Option ConfigError :=
  if value.isFinite then none else some (.nonFiniteVector field)

/-- The first fault of a configuration. -/
def error? (c : Config) : Option ConfigError :=
  positiveError? .maxDistance c.maxDistance
    <|> positiveError? .hitEpsilon c.hitEpsilon
    <|> positiveError? .normalEpsilon c.normalEpsilon
    <|> positiveError? .gamma c.gamma
    <|> fogError? c.fogDensity
    <|> (if c.maxSteps = 0 then some .noSteps else none)
    <|> (if 1 ≤ c.supersample ∧ c.supersample ≤ 4 then none else some (.supersample c.supersample))
    <|> vectorError? .lightDirection c.lightDirection
    <|> vectorError? .lightColor c.lightColor
    <|> vectorError? .backgroundColor c.backgroundColor
    <|> (if c.lightDirection.toList.all Binary.isZero then some .noLightDirection else none)

def validate (c : Config) : Except ConfigError Unit :=
  match c.error? with
  | none => .ok ()
  | some e => .error e

/-! ## Declarations -/

/-- Type and literal of a constant. -/
def constantLiteral : (kind : Kind) → kind.Value → Except Defect (String × String)
  | .count, n => .ok ("int", toString n)
  | .scalar, x => x.literal.map ("float", ·)
  | .vector, v => v.literal.map ("vec3", ·)

def declaration (c : Config) (field : Field) : Except Defect String := do
  let (type, value) ← constantLiteral field.kind (c.get field)
  return s!"const {type} {field.constant} = {value};\n"

/-- The constant declarations of the shader. -/
def declarations (c : Config) : Except Defect String :=
  (Field.all.mapM c.declaration).map String.join

end Config
end SdfShader
