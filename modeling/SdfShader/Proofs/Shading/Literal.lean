import Mathlib.Data.List.Forall2
import SdfShader.Proofs.Decimal.Fewest
import SdfShader.Proofs.Shader.Rendering
import SdfShader.Proofs.Shading.Syntax

/-!
# Literal — numbers in text of the shading language

The literal of a finite number is read as one numeral, behind the operator `-` if the sign of the
number is set, and that numeral as the magnitude of the number. A vector is read as a call of `vec3`
with three such arguments.
-/

namespace SdfShader

/-! ## Text of a literal -/

theorem Numeral.Plain.isNumeral {n : Numeral} (h : n.Plain) {digits : List Char}
    (hfraction : n.fraction = some digits) : Shading.IsNumeral (n.whole ++ '.' :: digits) := by
  have hne : digits ≠ [] := by
    rintro rfl
    exact h.fraction_ne_nil hfraction
  have hdigits : ∀ c ∈ digits, c.isDigit = true := by
    simpa [hfraction] using h.fraction
  cases hwhole : n.whole with
  | nil =>
      exact absurd hwhole h.whole_ne_nil
  | cons first whole =>
      have hparts : ∀ c ∈ first :: whole, c.isDigit = true := by
        simpa [hwhole] using h.whole
      exact ⟨first, whole, digits, rfl, hparts first (by simp), fun c hc => hparts c (by simp [hc]),
        hdigits, hne⟩

/-- The text of a number without its sign. -/
def Binary.unsignedLiteral (x : Single) : String :=
  Numeral.toString { x.numeral.withFraction with negative := false }

/-- A number without a fraction is written with one all the same. -/
theorem Binary.toList_unsignedLiteral (x : Single) : x.unsignedLiteral.toList
    = x.numeral.withFraction.whole ++ '.' :: x.numeral.fraction.getD ['0'] := by
  have hplain : x.numeral.withFraction.Plain := (Scaled.plain_positional _ _).withFraction
  have hfraction : x.numeral.withFraction.fraction = some (x.numeral.fraction.getD ['0']) := rfl
  simp [unsignedLiteral, Numeral.toString, Numeral.toList, hplain.exponent, hfraction]

theorem Binary.isNumeral_unsignedLiteral (x : Single) :
    Shading.IsNumeral x.unsignedLiteral.toList := by
  have hplain : x.numeral.withFraction.Plain := (Scaled.plain_positional _ _).withFraction
  rw [toList_unsignedLiteral]
  exact hplain.isNumeral rfl

theorem Binary.toList_literal (x : Single) :
    x.numeral.withFraction.toString.toList
      = (if x.negative then ['-'] else []) ++ x.unsignedLiteral.toList := by
  have hsign : x.numeral.withFraction.negative = x.negative := Scaled.negative_positional _ _
  simp [unsignedLiteral, Numeral.toString, Numeral.toList, hsign]

/-- A literal without its sign is read as the magnitude. -/
theorem Binary.scanNumeral_unsignedLiteral {x : Single} (h : x.isFinite = true) :
    ∃ n : Numeral, Json.scanNumeral x.unsignedLiteral.toList = some (n, []) ∧
      n.nearest .single = ⟨false, x.code, x.code_lt⟩ := by
  let n : Numeral := { x.numeral.withFraction with negative := false }
  have hreadable := x.readable_literal
  have hunsigned : n.Readable := ⟨hreadable.whole_ne_nil, hreadable.whole, hreadable.leading,
    hreadable.fraction_ne_nil, hreadable.fraction⟩
  have hscan : Json.scanNumeral (n.toList ++ []) = some (n, []) :=
    Json.scanNumeral_toList hunsigned rfl
  have hfinite : (⟨false, x.code, x.code_lt⟩ : Single).isFinite = true := h
  have htext : x.unsignedLiteral.toList = n.toList := by
    rw [unsignedLiteral, Numeral.toString, String.toList_ofList]
  rw [List.append_nil, ← htext] at hscan
  exact ⟨n, hscan, (Numeral.nearest_eq_iff hfinite).2 ⟨rfl, (denotes_literal h).magnitude⟩⟩

namespace Shading

/-! ## Text of an expression -/

/-- Whether a text is read as an expression wherever an expression may end. -/
def Spells (text : String) (e : Expression) : Prop :=
  ∀ cs, Stops cs → scan [] (text.toList ++ cs) = e.tokens ++ scan [] cs

/-- The arguments of a call as they are written, with the closing parenthesis. -/
def argumentsText : List String → String
  | [] => ""
  | text :: texts => text ++ (if texts.isEmpty then ")" else ", ") ++ argumentsText texts

theorem scan_argumentsText {texts : List String} {es : List Expression}
    (h : List.Forall₂ Spells texts es) (cs : List Char) :
    scan [] ((argumentsText texts).toList ++ cs) = argumentTokens es ++ scan [] cs := by
  induction h with
  | nil =>
      rfl
  | @cons text e texts es hfirst hrest ih =>
      have hempty : texts.isEmpty = es.isEmpty := by
        cases hrest <;> rfl
      have hclose : ∀ more, scan [] (")".toList ++ more) = .punctuation ')' :: scan [] more :=
        fun _ => rfl
      have hcomma : ∀ more, scan [] (", ".toList ++ more) = .punctuation ',' :: scan [] more :=
        fun _ => rfl
      rw [argumentsText, argumentTokens, hempty]
      simp only [String.toList_append, List.append_assoc, List.cons_append]
      cases es.isEmpty with
      | true =>
          have hstop : ∀ more, Stops (")".toList ++ more) := fun _ => ⟨')', _, rfl, by simp⟩
          simp only [if_true]
          rw [hfirst _ (hstop _), hclose, ih]
      | false =>
          have hstop : ∀ more, Stops (", ".toList ++ more) := fun _ => ⟨',', _, rfl, by simp⟩
          simp only [Bool.false_eq_true, if_false]
          rw [hfirst _ (hstop _), hcomma, ih]

/-- A call is read as one, given its name and the opening parenthesis. -/
theorem Spells.call {function opening : String} {texts : List String} {es : List Expression}
    (hopening : ∀ cs, scan [] (opening.toList ++ cs)
      = .word function :: .punctuation '(' :: scan [] cs)
    (h : List.Forall₂ Spells texts es) :
    Spells (opening ++ argumentsText texts) (.call function es) := by
  intro cs _
  rw [String.toList_append, List.append_assoc, hopening, scan_argumentsText h]
  rfl

/-! ## Literals -/

/-- A number as it is written. -/
def numberExpression (x : Single) : Expression :=
  if x.negative then .negation (.number x.unsignedLiteral) else .number x.unsignedLiteral

def vectorExpression (v : Vec3 Single) : Expression :=
  .call "vec3" [numberExpression v.x, numberExpression v.y, numberExpression v.z]

theorem readable_numberExpression (x : Single) : (numberExpression x).Readable := by
  have h := hasPoint_of_isNumeral x.isNumeral_unsignedLiteral
  unfold numberExpression
  split
  · exact ⟨trivial, h⟩
  · exact h

theorem readable_vectorExpression (v : Vec3 Single) : (vectorExpression v).Readable :=
  ⟨by simp, readable_numberExpression _, readable_numberExpression _, readable_numberExpression _,
    trivial⟩

theorem spells_literal {x : Single} {text : String} (h : x.literal = .ok text) :
    Spells text (numberExpression x) := by
  intro cs hcs
  rcases Binary.literal_eq_ok_iff.1 h with ⟨_, rfl⟩
  have hscan : scan [] (x.unsignedLiteral.toList ++ cs)
      = .numeral x.unsignedLiteral :: scan [] cs := scan_numeral x.isNumeral_unsignedLiteral hcs
  rw [Binary.toList_literal]
  cases hsign : x.negative with
  | false =>
      simpa [numberExpression, hsign, Expression.tokens] using hscan
  | true =>
      -- The sign is an operator of its own, since a digit does not continue it.
      have hminus := x.isNumeral_unsignedLiteral.scan_minus cs
      rw [hscan] at hminus
      simpa [numberExpression, hsign, Expression.tokens] using hminus

theorem spells_vector {v : Vec3 Single} {text : String} (h : v.literal = .ok text) :
    Spells text (vectorExpression v) := by
  simp only [Vec3.literal, bind_eq_ok_iff, pure_eq_ok_iff] at h
  rcases h with ⟨x, hx, y, hy, z, hz, rfl⟩
  have htext : s!"vec3({x}, {y}, {z})" = "vec3(" ++ argumentsText [x, y, z] := by
    simp only [argumentsText, String.append_assoc]
    rfl
  rw [htext]
  exact .call (fun _ => rfl) (.cons (spells_literal hx) (.cons (spells_literal hy)
    (.cons (spells_literal hz) .nil)))

end Shading
end SdfShader
