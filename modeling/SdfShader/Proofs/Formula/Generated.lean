import SdfShader.Proofs.Formula.Function
import SdfShader.Proofs.Formula.Shipped
import SdfShader.Proofs.Geometry.SmoothMin

/-!
# Generated — the smooth minimum that is generated

The code that the specification of the smooth minimum gives for the host and for the shader is read
as two functions. In exact arithmetic both compute `smoothMin`, with and without smoothness, so
neither divides by zero. What holds of `smoothMin` is therefore true of the generated code.

* `Shipped.exists_smoothMinimum`: what the generated code is read as;
* `value?_hostMinimum`, `value?_shaderMinimum`: what it computes;
* `generated_smoothMin`: the laws of the smooth minimum.
-/

namespace SdfShader.Formula

open Text

/-! ## Characters of generated code -/

/-- One placeholder filled in, where all is written with characters of one byte. -/
def fillChars? (text : List Char) (entry : String × String) : Option (List Char) := do
  let pattern ← asciiChars? (placeholder entry.1)
  let new ← asciiChars? entry.2
  return replaceFrom pattern new 0 text

theorem toList_replaceAll {template : String} {entry : String × String} {cs : List Char}
    (h : fillChars? template.toList entry = some cs) :
    (replaceAll (placeholder entry.1) entry.2 template).toList = cs := by
  simp only [fillChars?, Option.bind_eq_bind, Option.bind_eq_some_iff] at h
  rcases h with ⟨pattern, hpattern, new, hnew, hcs⟩
  rw [replaceAll, String.toList_ofList, toList_of_asciiChars? hpattern, toList_of_asciiChars? hnew]
  exact Option.some.inj hcs

theorem toList_fill {template : String} {entries : List (String × String)} {cs : List Char}
    (h : entries.foldlM fillChars? template.toList = some cs) :
    (fill template entries).toList = cs := by
  induction entries generalizing template with
  | nil =>
      exact Option.some.inj h
  | cons entry entries ih =>
      rw [List.foldlM_cons, Option.bind_eq_bind, Option.bind_eq_some_iff] at h
      rcases h with ⟨text, hentry, hrest⟩
      refine @ih (replaceAll (placeholder entry.1) entry.2 template) ?_
      rwa [toList_replaceAll hentry]

namespace Spec

/-- The characters of the generated code. -/
def codeChars? (spec : Spec) : Language → Option (List Char)
  | .host => do
    let template ← asciiChars? spec.hostTemplate
    spec.hostEntries.foldlM fillChars? template
  | .shader => do
    let template ← asciiChars? spec.shaderTemplate
    spec.shaderEntries.foldlM fillChars? template

/-- The code for a language. -/
def code (spec : Spec) : Language → String
  | .host => spec.hostCode
  | .shader => spec.shaderCode

theorem toList_code {spec : Spec} {l : Language} {cs : List Char}
    (h : spec.codeChars? l = some cs) : (spec.code l).toList = cs := by
  cases l with
  | host =>
      rcases Option.bind_eq_some_iff.1 h with ⟨template, htemplate, hfill⟩
      rw [← toList_of_asciiChars? htemplate] at hfill
      exact toList_fill hfill
  | shader =>
      rcases Option.bind_eq_some_iff.1 h with ⟨template, htemplate, hfill⟩
      rw [← toList_of_asciiChars? htemplate] at hfill
      exact toList_fill hfill

/-- Whether the code for a language can be computed and is that of a function. -/
def givesFunction (spec : Spec) (l : Language) (f : Function) : Bool :=
  (spec.codeChars? l).bind (Function.ofChars? l) = some f

theorem read?_code {spec : Spec} {l : Language} {f : Function}
    (h : spec.givesFunction l f = true) : Function.read? l (spec.code l) = some f := by
  rcases Option.bind_eq_some_iff.1 (of_decide_eq_true h) with ⟨cs, hcs, hf⟩
  rw [Function.read?, toList_code hcs, hf]

end Spec

/-! ## The generated functions -/

/-- A numeral with one digit on each side of its point. -/
def decimal (whole fraction : Char) : Term :=
  .numeral ⟨false, [whole], some [fraction], none⟩

/-- The weight before it is cut off: `0.5 + 0.5 * (b - a) / k`. -/
def minimumWeight : Term :=
  .sum (decimal '0' '5')
    (.quotient (.product (decimal '0' '5') (.difference (.name "b") (.name "a"))) (.name "k"))

/-- The depth of the seam: `k * h * (1.0 - h)`. -/
def minimumDepth : Term :=
  .product (.product (.name "k") (.name "h")) (.difference (decimal '1' '0') (.name "h"))

/-- The body of a smooth minimum in which the distances are mixed by the given term. -/
def minimumBody (mixed : Term) : Body :=
  .guard (.name "k") (decimal '0' '0') (.min (.name "a") (.name "b"))
    (.bind "h" (.clamp minimumWeight (decimal '0' '0') (decimal '1' '0'))
      (.result (.difference mixed minimumDepth)))

def hostMinimum : Function where
  name := "smooth_min"
  parameters := ["a", "b", "k"]
  body := minimumBody
    (.sum (.name "b") (.product (.difference (.name "a") (.name "b")) (.name "h")))

def shaderMinimum : Function where
  name := "op_smooth_min"
  parameters := ["a", "b", "k"]
  body := minimumBody (.mix (.name "b") (.name "a") (.name "h"))

/-- Both codes of the shipped specification are read as these functions. -/
theorem Shipped.exists_smoothMinimum : ∃ spec, Spec.ofToml? smoothMinimum = some spec ∧
    Function.read? .host spec.hostCode = some hostMinimum ∧
    Function.read? .shader spec.shaderCode = some shaderMinimum := by
  have hspec : ∃ spec, Spec.ofToml? smoothMinimum = some spec ∧
      (spec.givesFunction .host hostMinimum && spec.givesFunction .shader shaderMinimum) = true := by
    apply exists_spec_of_any
    · unfold Spelled
      repeat' constructor
    · decide +kernel
  rcases hspec with ⟨spec, hread, hgives⟩
  rw [Bool.and_eq_true] at hgives
  exact ⟨spec, hread, Spec.read?_code hgives.1, Spec.read?_code hgives.2⟩

/-! ## What they compute -/

/-- A numeral with one place behind its point counts tenths. -/
theorem value?_decimal (vars : List (String × ℚ)) (whole fraction : Char) :
    (decimal whole fraction).value? vars
      = some ((Nat.ofDigitChars 10 [whole, fraction] 0 : ℚ) / 10) := by
  have hvalue : (⟨false, [whole], some [fraction], none⟩ : Numeral).value
      = (Nat.ofDigitChars 10 [whole, fraction] 0 : ℚ) * 10 ^ (-1 : ℤ) := rfl
  rw [decimal, Term.value?, hvalue, zpow_neg_one, div_eq_mul_inv]

theorem value?_half (vars : List (String × ℚ)) : (decimal '0' '5').value? vars = some (1 / 2) := by
  have hdigits : Nat.ofDigitChars 10 ['0', '5'] 0 = 5 := rfl
  rw [value?_decimal, hdigits]
  norm_num

theorem value?_zero (vars : List (String × ℚ)) : (decimal '0' '0').value? vars = some 0 := by
  have hdigits : Nat.ofDigitChars 10 ['0', '0'] 0 = 0 := rfl
  rw [value?_decimal, hdigits, Nat.cast_zero, zero_div]

theorem value?_one (vars : List (String × ℚ)) : (decimal '1' '0').value? vars = some 1 := by
  have hdigits : Nat.ofDigitChars 10 ['1', '0'] 0 = 10 := rfl
  rw [value?_decimal, hdigits]
  norm_num

section Values

variable (a b k h : ℚ)

/-- What is in scope where the body begins: the parameters with their values. -/
abbrev minimumScope : List (String × ℚ) :=
  [("a", a), ("b", b), ("k", k)]

theorem value?_minimumWeight (hk : k ≠ 0) :
    minimumWeight.value? (minimumScope a b k) = some (1 / 2 + 1 / 2 * (b - a) / k) := by
  simp [minimumWeight, value?_half, List.lookup_cons, hk]

theorem value?_minimumDepth :
    minimumDepth.value? (("h", h) :: minimumScope a b k) = some (k * h * (1 - h)) := by
  simp [minimumDepth, value?_one, List.lookup_cons]

/-- The cut that both languages make is that of `clampUnit`. -/
theorem max_zero_min_one (x : ℚ) : max 0 (min x 1) = clampUnit x := by
  unfold clampUnit
  split
  case isTrue hlow =>
      exact max_eq_left ((min_le_left x 1).trans hlow.le)
  case isFalse hlow =>
      split
      case isTrue hhigh =>
          rw [min_eq_right hhigh.le, max_eq_right zero_le_one]
      case isFalse hhigh =>
          rw [min_eq_left (not_lt.1 hhigh), max_eq_right (not_lt.1 hlow)]

/-- However the distances are mixed by their weight, the body computes the smooth minimum. The
division stands behind the early result, where the smoothness is positive. -/
theorem value?_minimumBody {mixed : Term}
    (hmixed : ∀ h, mixed.value? (("h", h) :: minimumScope a b k) = some (b + (a - b) * h)) :
    (minimumBody mixed).value? (minimumScope a b k) = some (smoothMin a b k) := by
  rcases le_or_gt k 0 with hflat | hround
  · rw [smoothMin_of_nonpos hflat]
    simp [minimumBody, value?_zero, List.lookup_cons, hflat]
  · rw [smoothMin_of_pos hround, ← max_zero_min_one]
    simp [minimumBody, value?_zero, value?_one, List.lookup_cons,
      not_le.2 hround, value?_minimumWeight a b k hround.ne', value?_minimumDepth, hmixed, blend]

theorem value?_hostMinimum : hostMinimum.value? [a, b, k] = some (smoothMin a b k) := by
  refine value?_minimumBody a b k fun h => ?_
  simp [List.lookup_cons]

theorem value?_shaderMinimum : shaderMinimum.value? [a, b, k] = some (smoothMin a b k) := by
  refine value?_minimumBody a b k fun h => ?_
  have hmix : b * (1 - h) + a * h = b + (a - b) * h := by ring
  simp [List.lookup_cons, hmix]

end Values

/-! ## Laws -/

/-- The specification of the smooth minimum gives code for the host and the shader, and in exact
arithmetic both compute `smoothMin` of any three numbers, so nothing is divided by zero. With a
smoothness that is not negative, the result lies below the lesser distance by a quarter of the
smoothness at most, and is that distance if the two are no closer together than the smoothness, in
particular if one is the sentinel and the other far enough from it. The two distances count alike, a
greater distance gives no lesser result, more smoothness no greater one, and what is added to both
distances is added to the result. -/
theorem generated_smoothMin :
    (∃ spec host shader, Spec.ofToml? Shipped.smoothMinimum = some spec ∧
      Function.read? .host spec.hostCode = some host ∧ host.name = "smooth_min" ∧
      Function.read? .shader spec.shaderCode = some shader ∧ shader.name = "op_smooth_min" ∧
      ∀ a b k : ℚ, host.value? [a, b, k] = some (smoothMin a b k) ∧
        shader.value? [a, b, k] = some (smoothMin a b k)) ∧
    ∀ a b k : ℚ, 0 ≤ k →
      min a b - k / 4 ≤ smoothMin a b k ∧ smoothMin a b k ≤ min a b ∧
      (k ≤ |a - b| → smoothMin a b k = min a b) ∧
      (b ≤ 900 → k < 100 → smoothMin 1000 b k = b) ∧
      smoothMin a b k = smoothMin b a k ∧
      (∀ a' b', a ≤ a' → b ≤ b' → smoothMin a b k ≤ smoothMin a' b' k) ∧
      (∀ k', k ≤ k' → smoothMin a b k' ≤ smoothMin a b k) ∧
      ∀ c, smoothMin (a + c) (b + c) k = smoothMin a b k + c := by
  constructor
  · rcases Shipped.exists_smoothMinimum with ⟨spec, hspec, hhost, hshader⟩
    exact ⟨spec, hostMinimum, shaderMinimum, hspec, hhost, rfl, hshader, rfl, fun a b k =>
      ⟨value?_hostMinimum a b k, value?_shaderMinimum a b k⟩⟩
  · intro a b k hk
    refine ⟨min_sub_quarter_le_smoothMin hk, smoothMin_le_min a b k, smoothMin_eq_min hk, ?_,
      smoothMin_comm a b k, fun a' b' => smoothMin_mono, fun k' hle => smoothMin_antitone a b hle,
      smoothMin_add a b k⟩
    intro hfar hsmall
    exact smoothMin_eq_right hk (by linarith)

end SdfShader.Formula
