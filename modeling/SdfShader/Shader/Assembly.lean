import SdfShader.Formula.Shipped
import SdfShader.Scene.Fragment
import SdfShader.Shader.Config
import SdfShader.Shader.Template

/-!
# Shader assembly

A fragment shader is the template with each marker replaced once: the render constants, the formula
library and the fragment of the tree below a node, in this order.
-/

namespace SdfShader

inductive ShaderError
  | config (e : ConfigError)
  | scene (e : SceneError)
  | missingSplicePoint (marker : String)
  | defect (d : Defect)
  deriving DecidableEq

namespace ShaderError

/-- A defect of a missing node is met without a report. -/
def message? : ShaderError → Option String
  | config e => some s!"Invalid parameter: {e.message}"
  | scene e => some e.message
  | missingSplicePoint marker => some s!"Shader template is missing splice point '{marker}'"
  | defect d => d.message?

def ofFragmentError : FragmentError → ShaderError
  | .scene e => .scene e
  | .defect d => .defect d

end ShaderError

/-- Puts code in the place of the first occurrence of a marker. -/
def splice (template marker code : String) : Except ShaderError String :=
  match Text.splice? template marker code with
  | some text => .ok text
  | none => .error (.missingSplicePoint marker)

/-- The fragment shader for the tree below a node. -/
def fragmentShader (g : Graph) (id : NodeId) (config : Config) : Except ShaderError String := do
  config.validate.mapError .config
  let fragment ← (g.fragment id).mapError .ofFragmentError
  let constants ← config.declarations.mapError .defect
  let shader ← splice fragmentTemplate Marker.constants.text constants
  let shader ← splice shader Marker.formulas.text Formula.library.shader
  splice shader Marker.scene.text fragment

end SdfShader
