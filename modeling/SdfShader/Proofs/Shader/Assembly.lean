import SdfShader.Proofs.Shader.Rendering
import SdfShader.Proofs.Text.Occurrence
import SdfShader.Shader.Assembly

/-!
# Assembly — valid constants and a fragment always make a shader

A marker of the template that has been put there is found again after anything has been spliced in
before it, and constants that pass the checks have finite numbers and so a text.
-/

namespace SdfShader

/-! ## Splicing -/

namespace Text

/-- A pattern that occurs is found, there or earlier. -/
theorem exists_cut?_append (pattern before rest : List Char) :
    ∃ front back, cut? pattern (before ++ (pattern ++ rest)) = some (front, back ++ rest) := by
  induction before with
  | nil =>
      exact ⟨[], [], cut?_pattern_append⟩
  | cons c before ih =>
      rcases ih with ⟨front, back, hcut⟩
      cases hrest : rest? pattern (c :: (before ++ (pattern ++ rest))) with
      | none =>
          exact ⟨c :: front, back, by simp [cut?, hrest, hcut]⟩
      | some more =>
          -- Found earlier: what is left here still ends with what follows the later place.
          have htext := rest?_eq_some_iff.1 hrest
          have hlength : rest.length ≤ more.length := by
            have hlengths := congrArg List.length htext
            simp only [List.length_cons, List.length_append] at hlengths
            omega
          have hrestSuffix : rest <:+ c :: (before ++ (pattern ++ rest)) :=
            ⟨c :: before ++ pattern, by simp⟩
          have hmoreSuffix : more <:+ c :: (before ++ (pattern ++ rest)) := ⟨pattern, htext.symm⟩
          rcases List.suffix_of_suffix_length_le hrestSuffix hmoreSuffix hlength with ⟨back, rfl⟩
          exact ⟨[], back, by simp [cut?, hrest]⟩

theorem exists_splice?_append (before marker rest code : String) :
    ∃ front, splice? (before ++ marker ++ rest) marker code = some (front ++ rest) := by
  rcases exists_cut?_append marker.toList before.toList rest.toList with ⟨front, back, hcut⟩
  refine ⟨String.ofList front ++ code ++ String.ofList back, ?_⟩
  simp [splice?, hcut, String.append_assoc]

end Text

theorem exists_splice_append (before : String) (marker : Marker) (rest code : String) :
    ∃ front, splice (before ++ marker.text ++ rest) marker.text code = .ok (front ++ rest) := by
  rcases Text.exists_splice?_append before marker.text rest code with ⟨front, hsplice⟩
  exact ⟨front, by simp [splice, hsplice]⟩

/-! ## Constants -/

namespace Config

/-- What the checks ask of the constants. -/
structure Valid (c : Config) : Prop where
  maxDistance : c.maxDistance.isFinite = true ∧ 0 < c.maxDistance
  hitEpsilon : c.hitEpsilon.isFinite = true ∧ 0 < c.hitEpsilon
  normalEpsilon : c.normalEpsilon.isFinite = true ∧ 0 < c.normalEpsilon
  gamma : c.gamma.isFinite = true ∧ 0 < c.gamma
  fogDensity : c.fogDensity.isFinite = true ∧ 0 ≤ c.fogDensity
  maxSteps : c.maxSteps ≠ 0
  supersample : 1 ≤ c.supersample ∧ c.supersample ≤ 4
  lightDirection : c.lightDirection.isFinite = true
  lightColor : c.lightColor.isFinite = true
  backgroundColor : c.backgroundColor.isFinite = true
  lightDirection_ne_zero : ∃ x ∈ c.lightDirection.toList, x.isZero = false

theorem positiveError?_eq_none_iff {field : Field} {x : Single} :
    positiveError? field x = none ↔ x.isFinite = true ∧ 0 < x := by
  by_cases h : x.isFinite = true ∧ 0 < x <;> simp [positiveError?, h]

theorem fogError?_eq_none_iff {x : Single} :
    fogError? x = none ↔ x.isFinite = true ∧ 0 ≤ x := by
  by_cases h : x.isFinite = true ∧ 0 ≤ x <;> simp [fogError?, h]

theorem vectorError?_eq_none_iff {field : Field} {v : Vec3 Single} :
    vectorError? field v = none ↔ v.isFinite = true := by
  by_cases h : v.isFinite = true <;> simp [vectorError?, h]

theorem error?_eq_none_iff {c : Config} : c.error? = none ↔ c.Valid := by
  have hsteps : (if c.maxSteps = 0 then some ConfigError.noSteps else none) = none ↔
      c.maxSteps ≠ 0 := by
    by_cases h : c.maxSteps = 0 <;> simp [h]
  have hsamples : (if 1 ≤ c.supersample ∧ c.supersample ≤ 4 then none
      else some (ConfigError.supersample c.supersample)) = none ↔
      1 ≤ c.supersample ∧ c.supersample ≤ 4 := by
    by_cases h : 1 ≤ c.supersample ∧ c.supersample ≤ 4 <;> simp [h]
  have hzero : (if c.lightDirection.toList.all Binary.isZero
      then some ConfigError.noLightDirection else none) = none ↔
      ∃ x ∈ c.lightDirection.toList, x.isZero = false := by
    simp
  -- One conjunct for each check, in the order of the checks.
  simp only [error?, Option.orElse_eq_orElse, Option.orElse_eq_or, Option.or_eq_none_iff,
    positiveError?_eq_none_iff, fogError?_eq_none_iff, vectorError?_eq_none_iff, hsteps, hsamples,
    hzero]
  constructor
  · rintro ⟨hdistance, hhit, hnormal, hgamma, hfog, hsteps, hsamples, hdirection, hlight,
      hbackground, hne⟩
    exact ⟨hdistance, hhit, hnormal, hgamma, hfog, hsteps, hsamples, hdirection, hlight,
      hbackground, hne⟩
  · intro h
    exact ⟨h.maxDistance, h.hitEpsilon, h.normalEpsilon, h.gamma, h.fogDensity, h.maxSteps,
      h.supersample, h.lightDirection, h.lightColor, h.backgroundColor, h.lightDirection_ne_zero⟩

theorem validate_eq_ok_iff {c : Config} : c.validate = .ok () ↔ c.Valid := by
  rw [← error?_eq_none_iff]
  unfold validate
  cases c.error? <;> simp

theorem Valid.exists_constantLiteral {c : Config} (h : c.Valid) (field : Field) :
    ∃ text, constantLiteral field.kind (c.get field) = .ok text := by
  have hscalar : ∀ x : Single, x.isFinite = true →
      ∃ text, constantLiteral .scalar x = .ok text := by
    intro x hx
    rcases Binary.exists_literal hx with ⟨text, htext⟩
    exact ⟨_, by rw [constantLiteral, htext]; rfl⟩
  have hvector : ∀ v : Vec3 Single, v.isFinite = true →
      ∃ text, constantLiteral .vector v = .ok text := by
    intro v hv
    rcases Vec3.exists_literal hv with ⟨text, htext⟩
    exact ⟨_, by rw [constantLiteral, htext]; rfl⟩
  cases field with
  | maxSteps =>
      exact ⟨_, rfl⟩
  | maxDistance =>
      exact hscalar _ h.maxDistance.1
  | hitEpsilon =>
      exact hscalar _ h.hitEpsilon.1
  | normalEpsilon =>
      exact hscalar _ h.normalEpsilon.1
  | lightDirection =>
      exact hvector _ h.lightDirection
  | lightColor =>
      exact hvector _ h.lightColor
  | backgroundColor =>
      exact hvector _ h.backgroundColor
  | gamma =>
      exact hscalar _ h.gamma.1
  | fogDensity =>
      exact hscalar _ h.fogDensity.1
  | supersample =>
      exact ⟨_, rfl⟩

theorem Valid.exists_declarations {c : Config} (h : c.Valid) :
    ∃ text, c.declarations = .ok text := by
  have hone : ∀ field, ∃ text, c.declaration field = .ok text := by
    intro field
    rcases h.exists_constantLiteral field with ⟨⟨type, value⟩, hliteral⟩
    simp only [declaration, bind_eq_ok_iff, pure_eq_ok_iff]
    exact ⟨_, (type, value), hliteral, rfl⟩
  have hall : ∀ fields : List Field, ∃ texts, fields.mapM c.declaration = .ok texts := by
    intro fields
    induction fields with
    | nil =>
        exact ⟨[], rfl⟩
    | cons field fields ih =>
        rcases hone field with ⟨text, htext⟩
        rcases ih with ⟨texts, htexts⟩
        exact ⟨text :: texts, by rw [List.mapM_cons, htext, htexts]; rfl⟩
  rcases hall Field.all with ⟨texts, htexts⟩
  exact ⟨String.join texts, by rw [declarations, htexts]; rfl⟩

end Config

/-! ## Whole shaders -/

/-- With valid constants every node that has a fragment has a shader. -/
theorem exists_fragmentShader {g : Graph} {id : NodeId} {config : Config} {fragment : String}
    (hvalid : config.validate = .ok ()) (hfragment : g.fragment id = .ok fragment) :
    ∃ text, fragmentShader g id config = .ok text := by
  rcases (Config.validate_eq_ok_iff.1 hvalid).exists_declarations with ⟨constants, hconstants⟩
  -- Each splice leaves the template behind its marker as it is, with the next marker in it.
  rcases exists_splice_append Template.heading .constants
    ("\n\n" ++ Marker.formulas.text ++ Template.mapOpening ++ Marker.scene.text
      ++ Template.rendering) constants with ⟨first, hfirst⟩
  rcases exists_splice_append (first ++ "\n\n") .formulas
    (Template.mapOpening ++ Marker.scene.text ++ Template.rendering)
    Formula.library.shader with ⟨second, hsecond⟩
  rcases exists_splice_append (second ++ Template.mapOpening) .scene Template.rendering
    fragment with ⟨third, hthird⟩
  refine ⟨third ++ Template.rendering, ?_⟩
  simp only [String.append_assoc] at hfirst hsecond hthird
  simp only [fragmentShader, fragmentTemplate, hvalid, hfragment, hconstants, String.append_assoc,
    bind_eq_ok_iff]
  exact ⟨(), rfl, fragment, rfl, constants, rfl, _, hfirst, _, hsecond, hthird⟩

end SdfShader
