import SdfShader.Formula.Library
import SdfShader.Text.Lines

/-!
# The formula library of the shaders

The specifications of the three distance formulas and what is generated from them. The shader code
of the library is put into every fragment shader.
-/

namespace SdfShader.Formula.Shipped

open Text

/-! ## Specifications -/

def box : String :=
  unlines [
    "[formula]",
    "name = \"sd_box\"",
    "category = \"primitive\"",
    "description = \"Signed distance from a point to an axis-aligned box centred at the origin.\"",
    "verified_date = \"2026-10-16\"",
    "",
    "[[formula.params]]",
    "name = \"p\"",
    "type = \"vec3\"",
    "description = \"Sample point, already translated into the box's local frame\"",
    "",
    "[[formula.params]]",
    "name = \"b\"",
    "type = \"vec3\"",
    "description = \"Half-extents per axis, all strictly positive\"",
    "",
    "[formula.returns]",
    "type = \"float\"",
    "description = \"Exact signed distance to the box surface\"",
    "",
    "[[formula.steps]]",
    "name = \"q\"",
    "expr = \"abs(p) - b\"",
    "description = \"Fold into the positive octant and measure against the faces\"",
    "",
    "[[formula.steps]]",
    "name = \"outside\"",
    "expr = \"length(max(q, 0))\"",
    "description = \"Distance from the nearest face, edge or corner when outside\"",
    "",
    "[[formula.steps]]",
    "name = \"inside\"",
    "expr = \"min(max(q.x, max(q.y, q.z)), 0)\"",
    "description = \"Negative distance to the nearest face when inside\"",
    "",
    "[[formula.steps]]",
    "name = \"d\"",
    "expr = \"outside + inside\"",
    "description = \"Only one of the two terms is non-zero for any point\"",
    "",
    "[[formula.pitfalls]]",
    "name = \"Full extents\"",
    "wrong = \"sd_box(p, size)\"",
    "right = \"sd_box(p, size * 0.5)\"",
    "explanation = \"\"\"",
    "The formula takes half-extents. Passing the full edge length doubles the box.",
    "\"\"\"",
    "",
    "[[formula.tests]]",
    "name = \"outside_face\"",
    "args = [2.0, 0.0, 0.0, 1.0, 1.0, 1.0]",
    "expected = 1.0",
    "tolerance = 0.000001",
    "description = \"One unit outside the +X face\"",
    "",
    "[[formula.tests]]",
    "name = \"centre\"",
    "args = [0.0, 0.0, 0.0, 1.0, 1.0, 1.0]",
    "expected = -1.0",
    "tolerance = 0.000001",
    "description = \"Centre of a unit cube\"",
    "",
    "[[formula.tests]]",
    "name = \"corner\"",
    "args = [2.0, 2.0, 2.0, 1.0, 1.0, 1.0]",
    "expected = 1.7320508",
    "tolerance = 0.00001",
    "description = \"Diagonal distance from a corner\"",
    "",
    "[[formula.tests]]",
    "name = \"flat_slab\"",
    "args = [0.0, 0.5, 0.0, 2.0, 0.25, 2.0]",
    "expected = 0.25",
    "tolerance = 0.000001",
    "description = \"Above a thin slab\"",
    "",
    "[codegen.rust]",
    "template = '''",
    "/// \x7bdescription\x7d",
    "///",
    "/// Verified: \x7bverified_date\x7d",
    "///",
    "/// # Formula",
    "\x7bstep_docs\x7d",
    "///",
    "/// # Pitfalls",
    "\x7bpitfall_docs\x7d",
    "#[inline]",
    "pub fn \x7bname\x7d(p: Vec3, b: Vec3) -> f32 \x7b",
    "    let q = p.abs() - b;",
    "    q.max(Vec3::ZERO).length() + q.max_element().min(0.0)",
    "\x7d",
    "'''",
    "",
    "[codegen.glsl]",
    "template = '''",
    "// \x7bdescription\x7d",
    "float \x7bname\x7d(vec3 p, vec3 b) \x7b",
    "    vec3 q = abs(p) - b;",
    "    return length(max(q, 0.0)) + min(max(q.x, max(q.y, q.z)), 0.0);",
    "\x7d",
    "'''",
    "",
    "[codegen.test]",
    "template = '''",
    "#[test]",
    "fn test_\x7bname\x7d_\x7btest_name\x7d() \x7b",
    "    let result = \x7bname\x7d(",
    "        Vec3::new(\x7barg0\x7d, \x7barg1\x7d, \x7barg2\x7d),",
    "        Vec3::new(\x7barg3\x7d, \x7barg4\x7d, \x7barg5\x7d),",
    "    );",
    "    assert!(",
    "        (result - \x7bexpected\x7d).abs() < \x7btolerance\x7d,",
    "        \"\x7bname\x7d/\x7btest_name\x7d: got \x7b\x7d\",",
    "        result",
    "    );",
    "\x7d",
    "'''"]

def sphere : String :=
  unlines [
    "[formula]",
    "name = \"sd_sphere\"",
    "category = \"primitive\"",
    "description = \"Signed distance from a point to a sphere centred at the origin.\"",
    "verified_date = \"2026-10-16\"",
    "",
    "[[formula.params]]",
    "name = \"p\"",
    "type = \"vec3\"",
    "description = \"Sample point, already translated into the sphere's local frame\"",
    "",
    "[[formula.params]]",
    "name = \"r\"",
    "type = \"float\"",
    "description = \"Sphere radius, strictly positive\"",
    "",
    "[formula.returns]",
    "type = \"float\"",
    "description = \"Signed distance: negative inside, zero on the surface, positive outside\"",
    "",
    "[[formula.steps]]",
    "name = \"d\"",
    "expr = \"length(p) - r\"",
    "description = \"Euclidean distance to the centre minus the radius\"",
    "",
    "[[formula.tests]]",
    "name = \"outside\"",
    "args = [2.0, 0.0, 0.0, 1.0]",
    "expected = 1.0",
    "tolerance = 0.000001",
    "description = \"One unit outside along +X\"",
    "",
    "[[formula.tests]]",
    "name = \"on_surface\"",
    "args = [0.0, 1.0, 0.0, 1.0]",
    "expected = 0.0",
    "tolerance = 0.000001",
    "description = \"Exactly on the surface\"",
    "",
    "[[formula.tests]]",
    "name = \"centre\"",
    "args = [0.0, 0.0, 0.0, 1.0]",
    "expected = -1.0",
    "tolerance = 0.000001",
    "description = \"Centre is one radius inside\"",
    "",
    "[[formula.tests]]",
    "name = \"pythagorean\"",
    "args = [3.0, 4.0, 0.0, 2.0]",
    "expected = 3.0",
    "tolerance = 0.000001",
    "description = \"3-4-5 triangle against radius 2\"",
    "",
    "[codegen.rust]",
    "template = '''",
    "/// \x7bdescription\x7d",
    "///",
    "/// Verified: \x7bverified_date\x7d",
    "///",
    "/// # Formula",
    "\x7bstep_docs\x7d",
    "///",
    "/// # Pitfalls",
    "\x7bpitfall_docs\x7d",
    "#[inline]",
    "pub fn \x7bname\x7d(p: Vec3, r: f32) -> f32 \x7b",
    "    p.length() - r",
    "\x7d",
    "'''",
    "",
    "[codegen.glsl]",
    "template = '''",
    "// \x7bdescription\x7d",
    "float \x7bname\x7d(vec3 p, float r) \x7b",
    "    return length(p) - r;",
    "\x7d",
    "'''",
    "",
    "[codegen.test]",
    "template = '''",
    "#[test]",
    "fn test_\x7bname\x7d_\x7btest_name\x7d() \x7b",
    "    let result = \x7bname\x7d(Vec3::new(\x7barg0\x7d, \x7barg1\x7d, \x7barg2\x7d), \x7barg3\x7d);",
    "    assert!(",
    "        (result - \x7bexpected\x7d).abs() < \x7btolerance\x7d,",
    "        \"\x7bname\x7d/\x7btest_name\x7d: got \x7b\x7d\",",
    "        result",
    "    );",
    "\x7d",
    "'''"]

def smoothMinimum : String :=
  unlines [
    "[formula]",
    "name = \"smooth_min\"",
    "category = \"operation\"",
    "description = \"Polynomial smooth minimum of two distances, blending within a band of width k.\"",
    "verified_date = \"2026-10-16\"",
    "",
    "[[formula.params]]",
    "name = \"a\"",
    "type = \"float\"",
    "description = \"First distance\"",
    "",
    "[[formula.params]]",
    "name = \"b\"",
    "type = \"float\"",
    "description = \"Second distance\"",
    "",
    "[[formula.params]]",
    "name = \"k\"",
    "type = \"float\"",
    "description = \"Smoothness (blend band width), zero or positive\"",
    "",
    "[formula.returns]",
    "type = \"float\"",
    "description = \"Blended distance, never greater than min(a, b)\"",
    "",
    "[[formula.steps]]",
    "name = \"h\"",
    "expr = \"clamp(0.5 + 0.5 * (b - a) / k, 0, 1)\"",
    "description = \"Blend weight towards a\"",
    "",
    "[[formula.steps]]",
    "name = \"d\"",
    "expr = \"mix(b, a, h) - k * h * (1 - h)\"",
    "description = \"Interpolate and pull the seam inwards\"",
    "",
    "[[formula.pitfalls]]",
    "name = \"Zero smoothness\"",
    "wrong = \"(b - a) / k\"",
    "right = \"if k <= 0 \x7b min(a, b) \x7d\"",
    "explanation = \"\"\"",
    "A smoothness of zero divides by zero and poisons the ray march with NaN.",
    "Zero degenerates to the hard minimum instead.",
    "\"\"\"",
    "",
    "[[formula.tests]]",
    "name = \"equal_inputs\"",
    "args = [1.0, 1.0, 0.5]",
    "expected = 0.875",
    "tolerance = 0.000001",
    "description = \"Maximum pull when both distances agree\"",
    "",
    "[[formula.tests]]",
    "name = \"a_far_closer\"",
    "args = [0.0, 2.0, 0.5]",
    "expected = 0.0",
    "tolerance = 0.000001",
    "description = \"Outside the blend band a wins unchanged\"",
    "",
    "[[formula.tests]]",
    "name = \"b_far_closer\"",
    "args = [2.0, 0.0, 0.5]",
    "expected = 0.0",
    "tolerance = 0.000001",
    "description = \"Outside the blend band b wins unchanged\"",
    "",
    "[[formula.tests]]",
    "name = \"within_band\"",
    "args = [0.2, 0.4, 0.5]",
    "expected = 0.155",
    "tolerance = 0.000001",
    "description = \"Inside the band the result drops below min(a, b)\"",
    "",
    "[[formula.tests]]",
    "name = \"zero_smoothness\"",
    "args = [1.0, 2.0, 0.0]",
    "expected = 1.0",
    "tolerance = 0.000001",
    "description = \"k = 0 is a hard minimum\"",
    "",
    "[[formula.tests]]",
    "name = \"against_sentinel\"",
    "args = [1000.0, 0.3, 0.5]",
    "expected = 0.3",
    "tolerance = 0.00001",
    "description = \"Folding into an empty register keeps the real distance\"",
    "",
    "[codegen.rust]",
    "template = '''",
    "/// \x7bdescription\x7d",
    "///",
    "/// Verified: \x7bverified_date\x7d",
    "///",
    "/// # Formula",
    "\x7bstep_docs\x7d",
    "///",
    "/// # Pitfalls",
    "\x7bpitfall_docs\x7d",
    "#[inline]",
    "pub fn \x7bname\x7d(a: f32, b: f32, k: f32) -> f32 \x7b",
    "    if k <= 0.0 \x7b",
    "        return a.min(b);",
    "    \x7d",
    "    let h = (0.5 + 0.5 * (b - a) / k).clamp(0.0, 1.0);",
    "    b + (a - b) * h - k * h * (1.0 - h)",
    "\x7d",
    "'''",
    "",
    "[codegen.glsl]",
    "template = '''",
    "// \x7bdescription\x7d",
    "float op_\x7bname\x7d(float a, float b, float k) \x7b",
    "    if (k <= 0.0) \x7b",
    "        return min(a, b);",
    "    \x7d",
    "    float h = clamp(0.5 + 0.5 * (b - a) / k, 0.0, 1.0);",
    "    return mix(b, a, h) - k * h * (1.0 - h);",
    "\x7d",
    "'''",
    "",
    "[codegen.test]",
    "template = '''",
    "#[test]",
    "fn test_\x7bname\x7d_\x7btest_name\x7d() \x7b",
    "    let result = \x7bname\x7d(\x7barg0\x7d, \x7barg1\x7d, \x7barg2\x7d);",
    "    assert!(",
    "        (result - \x7bexpected\x7d).abs() < \x7btolerance\x7d,",
    "        \"\x7bname\x7d/\x7btest_name\x7d: got \x7b\x7d\",",
    "        result",
    "    );",
    "\x7d",
    "'''"]

/-- The directory of the specifications. -/
def directory : List (String × Library.Entry) :=
  [("sd_box.toml", .file box), ("sd_sphere.toml", .file sphere),
   ("smooth_min.toml", .file smoothMinimum)]

/-! ## Library -/

/-- The library of the directory. -/
def build : Except Library.BuildError Library :=
  Library.build directory

end SdfShader.Formula.Shipped

namespace SdfShader.Formula

/-- The generated library. -/
def library : Library :=
  match Shipped.build with
  | .ok library => library
  | .error _ => Library.headers

end SdfShader.Formula
