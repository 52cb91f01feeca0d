import Mathlib.Algebra.Order.Field.Rat
import Mathlib.Tactic.Positivity
import SdfShader.Number.Arithmetic

/-!
# Value — the rational number that a floating-point number stands for

The codes of infinity and above have a value here as well, which no statement makes use of.
-/

namespace SdfShader
namespace Binary

variable {f : Format} {x : Binary f}

/-- The value of a finite number. -/
def value (x : Binary f) : ℚ :=
  x.signedUnits / 2 ^ f.unitBits

theorem value_neg (x : Binary f) : x.neg.value = -x.value := by
  have hunits : x.neg.signedUnits = -x.signedUnits := by
    rw [signedUnits, signedUnits, units, units, neg]
    cases x.negative <;> simp
  rw [value, value, hunits, Int.cast_neg, neg_div]

theorem value_nonneg (h : x.negative = false) : 0 ≤ x.value := by
  rw [value, signedUnits, h]
  simp only [Bool.false_eq_true, if_false]
  positivity

/-- What is not below zero has no negative value; this takes in the negative zero. -/
theorem value_nonneg_of_zero_le (h : (0 : Binary f) ≤ x) : 0 ≤ x.value := by
  cases hsign : x.negative with
  | false =>
      exact value_nonneg hsign
  | true =>
      have hrank : (0 : Binary f).rank ≤ x.rank := h.2.2
      have hzero : (0 : Binary f).rank = ((0 : Binary f).code : ℤ) := rfl
      have hcode : x.rank = -(x.code : ℤ) := by
        rw [rank, hsign]
        rfl
      have hx : x.code = 0 := by omega
      have hunits : x.units = 0 := by
        rw [units, hx]
        simp [Format.units]
      simp [value, signedUnits, hunits]

end Binary
end SdfShader
