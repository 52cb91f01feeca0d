/-!
# Rounding a quotient

The nearest natural number to a quotient, with the rule for a quotient that lies halfway between
two numbers as a parameter. Main statements: the result is within half a unit of the quotient, and a
quotient that is a whole number is kept.
-/

namespace SdfShader

/-- What happens to a value halfway between its two neighbours. -/
inductive Tie
  | toEven
  | away
  deriving DecidableEq, Repr

/-- The nearest natural number to `num / den`. -/
def roundDiv (tie : Tie) (num den : Nat) : Nat :=
  let quotient := num / den
  let rest := num % den
  if 2 * rest < den then quotient
  else if den < 2 * rest then quotient + 1
  else
    -- Halfway between two neighbours.
    match tie with
    | .toEven => quotient + quotient % 2
    | .away => quotient + 1

/-! ## Distance from the quotient -/

theorem roundDiv_eq_or (tie : Tie) (num den : Nat) :
    roundDiv tie num den = num / den ∨ roundDiv tie num den = num / den + 1 := by
  unfold roundDiv
  cases tie <;> grind

theorem two_mul_roundDiv_le (tie : Tie) (num den : Nat) :
    2 * (den * roundDiv tie num den) ≤ 2 * num + den := by
  have h := Nat.div_add_mod num den
  unfold roundDiv
  dsimp only
  split
  · omega
  · split
    · rw [Nat.mul_add]; omega
    · cases tie
      · rcases Nat.mod_two_eq_zero_or_one (num / den) with h2 | h2 <;>
          simp only [h2, Nat.mul_add] <;> omega
      · simp only [Nat.mul_add]; omega

theorem le_two_mul_roundDiv (tie : Tie) (num : Nat) {den : Nat} (hd : 0 < den) :
    2 * num ≤ 2 * (den * roundDiv tie num den) + den := by
  have h := Nat.div_add_mod num den
  have hr := Nat.mod_lt num hd
  unfold roundDiv
  dsimp only
  split
  · omega
  · split
    · rw [Nat.mul_add]
      omega
    · cases tie
      · rcases Nat.mod_two_eq_zero_or_one (num / den) with h2 | h2 <;>
          simp only [h2, Nat.mul_add] <;> omega
      · simp only [Nat.mul_add]; omega

theorem roundDiv_mul_left (tie : Tie) (n : Nat) {den : Nat} (h : 0 < den) :
    roundDiv tie (den * n) den = n := by
  simp [roundDiv, Nat.mul_div_cancel_left n h, h]

end SdfShader
