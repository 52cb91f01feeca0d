import SdfShader.Geometry.Distance
import SdfShader.Main
import SdfShader.Proofs.Engine.Calls
import SdfShader.Proofs.Engine.Replacement
import SdfShader.Proofs.Formula.Arguments
import SdfShader.Proofs.Formula.Generated
import SdfShader.Proofs.Scene.Locality
import SdfShader.Proofs.Settings.Overriding
import SdfShader.Proofs.Settings.RoundTrip
import SdfShader.Proofs.Shader.Places
import SdfShader.Proofs.Shading.Closer
import SdfShader.Proofs.Shading.Constants
import SdfShader.Proofs.Shading.Distinction
import SdfShader.Proofs.Shading.Nearest
import SdfShader.Proofs.Shading.Order
import SdfShader.Proofs.Shading.Shapeless
import SdfShader.Scene.Evaluation
import SdfShader.Shader.Frame
