import SdfShader.Text.Lines

/-!
# Shader templates

The vertex shader, which covers the screen with one quad, and the template of the fragment shader,
which marches a ray through the scene. The template holds three markers, one for the render
constants, one for the formula library and one for the body of `map`; it is written as the four
pieces between them.
-/

namespace SdfShader

open Text

/-! ## Markers -/

/-- What is put into the template. -/
inductive Marker
  | constants
  | formulas
  | scene
  deriving DecidableEq

def Marker.text : Marker → String
  | constants => "// CONFIG_PLACEHOLDER"
  | formulas => "// FORMULAS_PLACEHOLDER"
  | scene => "// SCENE_FRAGMENT_PLACEHOLDER"

/-! ## Fragment shader -/

namespace Template

/-- Up to the render constants. -/
def heading : String :=
  unlines [
    "#version 300 es",
    "precision highp float;",
    "",
    "out vec4 outColor;",
    "",
    "// Supplied once per frame by the host; layout matches FrameUniforms",
    "layout(std140) uniform Frame \x7b",
    "    vec2 iResolution;",
    "    vec3 iCameraOrigin;",
    "    vec3 iLookAt;",
    "\x7d;",
    "",
    "struct MaterialDist \x7b",
    "    vec3 color;",
    "    bool is_lit;",
    "    float dist;",
    "\x7d;",
    ""]

/-- Between the formula library and the body of `map`. -/
def mapOpening : String :=
  "\n" ++
  unlines [
    "",
    "MaterialDist map(vec3 p) \x7b",
    "    MaterialDist res = MaterialDist(BACKGROUND_COLOR, false, MAX_DIST);",
    ""]

/-- Behind the body of `map`. -/
def rendering : String :=
  "\n" ++
  unlines [
    "",
    "    return res;",
    "\x7d",
    "",
    "vec3 get_normal(vec3 p) \x7b",
    "    vec2 e = vec2(NORMAL_EPSILON, 0.0);",
    "    vec3 n = vec3(",
    "        map(p + e.xyy).dist - map(p - e.xyy).dist,",
    "        map(p + e.yxy).dist - map(p - e.yxy).dist,",
    "        map(p + e.yyx).dist - map(p - e.yyx).dist",
    "    );",
    "    return normalize(n);",
    "\x7d",
    "",
    "vec3 get_lighting(vec3 normal, vec3 light_color, vec3 light_dir) \x7b",
    "    float dp = clamp(dot(normal, light_dir), 0.0, 1.0);",
    "    return light_color * dp;",
    "\x7d",
    "",
    "mat3 set_camera(vec3 target, vec3 origin) \x7b",
    "    vec3 z = normalize(target - origin);",
    "    vec3 x = normalize(cross(z, vec3(0.0, 1.0, 0.0)));",
    "    vec3 y = normalize(cross(x, z));",
    "    return mat3(x, y, z);",
    "\x7d",
    "",
    "vec3 render(vec2 uv) \x7b",
    "    vec3 ro = iCameraOrigin;",
    "    mat3 camera = set_camera(iLookAt, ro);",
    "    vec3 rd = normalize(camera * vec3(uv * 0.5, 1.0));",
    "",
    "    float t = 0.0;",
    "    MaterialDist m = MaterialDist(BACKGROUND_COLOR, false, MAX_DIST);",
    "    vec3 p = ro;",
    "",
    "    for (int i = 0; i < MAX_STEPS; i++) \x7b",
    "        p = ro + rd * t;",
    "        m = map(p);",
    "        t += m.dist;",
    "",
    "        if (m.dist < HIT_EPSILON) break;",
    "",
    "        if (t > MAX_DIST) \x7b",
    "            m.color = BACKGROUND_COLOR;",
    "            m.is_lit = false;",
    "            break;",
    "        \x7d",
    "    \x7d",
    "",
    "    vec3 normal = get_normal(p);",
    "    vec3 lambertian = get_lighting(normal, LIGHT_COLOR, normalize(LIGHT_DIRECTION));",
    "    vec3 light = m.is_lit ? lambertian : vec3(1.0);",
    "",
    "    vec3 col = m.color * light;",
    "    col = pow(col, vec3(1.0 / GAMMA));",
    "    col = mix(col, BACKGROUND_COLOR, clamp(t * FOG_DENSITY, 0.0, 1.0));",
    "",
    "    return col;",
    "\x7d",
    "",
    "void main() \x7b",
    "    vec3 col = vec3(0.0);",
    "    float weight = 1.0 / float(SUPERSAMPLE * SUPERSAMPLE);",
    "",
    "    for (int y = 0; y < SUPERSAMPLE; y++) \x7b",
    "        for (int x = 0; x < SUPERSAMPLE; x++) \x7b",
    "            vec2 off = vec2(float(x), float(y)) / float(SUPERSAMPLE);",
    "            vec2 uv = (2.0 * (gl_FragCoord.xy + off) - iResolution.xy) / iResolution.y;",
    "            col += render(uv) * weight;",
    "        \x7d",
    "    \x7d",
    "",
    "    outColor = vec4(col, 1.0);",
    "\x7d"]

end Template

def fragmentTemplate : String :=
  Template.heading ++ Marker.constants.text ++ "\n\n" ++ Marker.formulas.text
    ++ Template.mapOpening ++ Marker.scene.text ++ Template.rendering

/-! ## Vertex shader -/

def vertexShader : String :=
  unlines [
    "#version 300 es",
    "",
    "// Full-screen quad; all work happens in the fragment stage",
    "in vec4 a_position;",
    "",
    "void main() \x7b",
    "    gl_Position = a_position;",
    "\x7d"]

end SdfShader
