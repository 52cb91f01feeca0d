import SdfShader.Formula.Document
import SdfShader.Formula.Spec
import SdfShader.Json.Value
import SdfShader.Toml.Document

/-!
# Reading specifications

A specification is a structure of structures. Unknown fields are left out of account, all known ones
must be there, only the pitfalls may be missing. In JSON a structure given as a list must not be
longer than its fields.
-/

namespace SdfShader.Formula

variable (exact : Bool)

def Parameter.ofDocument? (d : Document) : Option Parameter := do
  let part ← d.structure? exact ["name", "type", "description"]
  return {
    name := ← (← part "name").text?
    type := ← (← part "type").text?
    description := ← (← part "description").text? }

def Result.ofDocument? (d : Document) : Option Result := do
  let part ← d.structure? exact ["type", "description"]
  return {
    type := ← (← part "type").text?
    description := ← (← part "description").text? }

def Step.ofDocument? (d : Document) : Option Step := do
  let part ← d.structure? exact ["name", "expr", "description"]
  return {
    name := ← (← part "name").text?
    expr := ← (← part "expr").text?
    description := ← (← part "description").text? }

def Pitfall.ofDocument? (d : Document) : Option Pitfall := do
  let part ← d.structure? exact ["name", "wrong", "right", "explanation"]
  return {
    name := ← (← part "name").text?
    wrong := ← (← part "wrong").text?
    right := ← (← part "right").text?
    explanation := ← (← part "explanation").text? }

def TestVector.ofDocument? (d : Document) : Option TestVector := do
  let part ← d.structure? exact ["name", "args", "expected", "tolerance", "description"]
  return {
    name := ← (← part "name").text?
    args := ← (← part "args").listOf? Document.number?
    expected := ← (← part "expected").number?
    tolerance := ← (← part "tolerance").number?
    description := ← (← part "description").text? }

/-- The text of a template. -/
def template? (d : Document) : Option String := do
  (← (← d.structure? exact ["template"]) "template").text?

namespace Spec

def ofDocument? (d : Document) : Option Spec := do
  let whole ← d.structure? exact ["formula", "codegen"]
  let part ← (← whole "formula").structure? exact
    ["name", "category", "description", "verified_date", "params", "returns", "steps", "pitfalls",
     "tests"]
  let code ← (← whole "codegen").structure? exact ["rust", "glsl", "test"]
  let pitfalls ← match part "pitfalls" with
    | some pitfalls => pitfalls.listOf? (Pitfall.ofDocument? exact)
    | none => some []
  return {
    name := ← (← part "name").text?
    category := ← (← part "category").text?
    description := ← (← part "description").text?
    verifiedDate := ← (← part "verified_date").text?
    params := ← (← part "params").listOf? (Parameter.ofDocument? exact)
    result := ← Result.ofDocument? exact (← part "returns")
    steps := ← (← part "steps").listOf? (Step.ofDocument? exact)
    pitfalls
    tests := ← (← part "tests").listOf? (TestVector.ofDocument? exact)
    hostTemplate := ← template? exact (← code "rust")
    shaderTemplate := ← template? exact (← code "glsl")
    testTemplate := ← template? exact (← code "test") }

def ofJson? (value : Json) : Option Spec :=
  ofDocument? true (.ofJson value)

def ofToml? (text : String) : Option Spec := do
  ofDocument? false (.ofToml (← Toml.parse? text))

end Spec
end SdfShader.Formula
