import SdfShader.Decimal.Layout
import SdfShader.Formula.Spec
import SdfShader.Text.Blank
import SdfShader.Text.Search

/-!
# Generated code

Code is made from a template by replacing placeholders, names in braces, one after the other: what
one replacement has put in is searched by the next. Numbers are written with six places in tests
and with two or three in the reference page.
-/

namespace SdfShader.Formula

open Text

/-- A name in braces. -/
def placeholder (name : String) : String :=
  "\x7b" ++ name ++ "\x7d"

/-- Fills in the placeholders of a template in the given order. -/
def fill (template : String) (entries : List (String × String)) : String :=
  entries.foldl (fun text (name, value) => replaceAll (placeholder name) value text) template

namespace Spec

/-! ## Documentation lines -/

def stepLine (s : Step) : String :=
  s!"/// - `{s.name}` = {s.expr} : {s.description}"

def pitfallLine (p : Pitfall) : String :=
  s!"/// - **{p.name}**: Use `{p.right}` not `{p.wrong}`"

def stepDocs (spec : Spec) : String :=
  "\n".intercalate (spec.steps.map stepLine)

def pitfallDocs (spec : Spec) : String :=
  if spec.pitfalls.isEmpty then "/// - none recorded"
  else "\n".intercalate (spec.pitfalls.map pitfallLine)

/-! ## Code -/

/-- The fields that are copied into the code for the host. -/
def hostEntries (spec : Spec) : List (String × String) :=
  [("name", spec.name), ("description", spec.description), ("verified_date", spec.verifiedDate),
    ("step_docs", spec.stepDocs), ("pitfall_docs", spec.pitfallDocs)]

def hostCode (spec : Spec) : String :=
  fill spec.hostTemplate spec.hostEntries

/-- The fields that are copied into the code for the shader. -/
def shaderEntries (spec : Spec) : List (String × String) :=
  [("name", spec.name), ("description", spec.description), ("verified_date", spec.verifiedDate)]

def shaderCode (spec : Spec) : String :=
  fill spec.shaderTemplate spec.shaderEntries

/-- A number as a single-precision literal of the host. -/
def hostLiteral (x : Double) : String :=
  x.fixedText 6 ++ "_f32"

/-- Placeholders of the arguments, the last one first. -/
def argumentEntries (args : List Double) : List (String × String) :=
  (args.zipIdx.map fun (x, i) => (s!"arg{i}", hostLiteral x)).reverse

/-- The fields that are copied into the code of a test vector, its arguments apart. -/
def testEntries (spec : Spec) (test : TestVector) : List (String × String) :=
  [("name", spec.name), ("test_name", test.name), ("expected", hostLiteral test.expected),
    ("tolerance", hostLiteral test.tolerance)]

def testCode (spec : Spec) (test : TestVector) : String :=
  fill spec.testTemplate (spec.testEntries test ++ argumentEntries test.args)

def testsCode (spec : Spec) : String :=
  "\n\n".intercalate (spec.tests.map spec.testCode)

/-! ## Reference page -/

def parameterLine (p : Parameter) : String :=
  s!"- `{p.name}` ({p.type}): {p.description}\n"

def stepItem (s : Step) : String :=
  s!"1. **{s.name}** = `{s.expr}`\n   - {s.description}\n\n"

def pitfallItem (p : Pitfall) : String :=
  s!"### {p.name}\n\n- **Wrong:** `{p.wrong}`\n- **Right:** `{p.right}`\n\n"
    ++ trim p.explanation ++ "\n\n"

def testRow (t : TestVector) : String :=
  let args := ", ".intercalate (t.args.map (Binary.fixedText 2))
  let expected := t.expected.fixedText 3
  s!"| {t.name} | ({args}) | {expected} | {t.description} |\n"

def pitfallSection (spec : Spec) : String :=
  if spec.pitfalls.isEmpty then ""
  else "## Pitfalls\n\n" ++ String.join (spec.pitfalls.map pitfallItem)

def page (spec : Spec) : String :=
  String.join
    [s!"# {spec.name}\n\n",
     s!"{spec.description}\n\n",
     s!"**Category:** {spec.category}\n\n",
     s!"**Verified:** {spec.verifiedDate}\n\n",
     "## Parameters\n\n",
     String.join (spec.params.map parameterLine),
     "\n## Returns\n\n",
     s!"- `{spec.result.type}`: {spec.result.description}\n\n",
     "## Formula Steps\n\n",
     String.join (spec.steps.map stepItem),
     spec.pitfallSection,
     "## Test Vectors\n\n",
     "| Test | Args | Expected | Description |\n",
     "|------|------|----------|-------------|\n",
     String.join (spec.tests.map testRow)]

end Spec
end SdfShader.Formula
