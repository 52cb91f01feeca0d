import SdfShader.Number.Binary

/-!
# Arithmetic on floating-point numbers

Every operation computes the exact result in units of the format and rounds once, to the nearest
number, ties to the even code. An operation without a value gives `Binary.nan`.
-/

namespace SdfShader

/-- The greatest number whose square is at most `n`. -/
def floorSqrt (n : Nat) : Nat :=
  if h : n = 0 then 0
  else
    let half := 2 * floorSqrt (n / 4)
    if (half + 1) * (half + 1) ≤ n then half + 1 else half
termination_by n
decreasing_by omega

theorem floorSqrt_mul_self_le (n : Nat) : floorSqrt n * floorSqrt n ≤ n := by
  fun_induction floorSqrt n with
  | case1 => simp
  | case2 _ _ _ h => exact h
  | case3 n _ half _ ih =>
    have h : half * half = 4 * (floorSqrt (n / 4) * floorSqrt (n / 4)) := by grind
    omega

theorem lt_succ_floorSqrt_mul_self (n : Nat) : n < (floorSqrt n + 1) * (floorSqrt n + 1) := by
  fun_induction floorSqrt n with
  | case1 => simp_all
  | case2 n _ half _ ih =>
    have h : (half + 1 + 1) * (half + 1 + 1)
        = 4 * ((floorSqrt (n / 4) + 1) * (floorSqrt (n / 4) + 1)) := by grind
    omega
  | case3 n _ half h ih => omega

namespace Binary

variable {f : Format}

/-! ## Sign -/

def neg (x : Binary f) : Binary f :=
  { x with negative := !x.negative }

def abs (x : Binary f) : Binary f :=
  { x with negative := false }

/-! ## Sums -/

/-- A sum that cancels is the positive zero; only two negative zeros add up to a negative one. -/
def add (x y : Binary f) : Binary f :=
  if x.isNaN || y.isNaN then nan
  else if x.isInfinite then
    -- Infinities of different signs have no sum.
    if y.isInfinite && x.negative != y.negative then nan else x
  else if y.isInfinite then y
  else
    let sum := x.signedUnits + y.signedUnits
    if sum = 0 then zero (x.negative && y.negative)
    else ofUnits (sum < 0) sum.natAbs 1

def sub (x y : Binary f) : Binary f :=
  x.add y.neg

/-! ## Products and quotients -/

def mul (x y : Binary f) : Binary f :=
  let negative := x.negative != y.negative
  if x.isNaN || y.isNaN then nan
  else if x.isInfinite || y.isInfinite then
    if x.isZero || y.isZero then nan else infinity negative
  else ofUnits negative (x.units * y.units) (2 ^ f.unitBits)

def div (x y : Binary f) : Binary f :=
  let negative := x.negative != y.negative
  if x.isNaN || y.isNaN then nan
  else if x.isInfinite then
    if y.isInfinite then nan else infinity negative
  else if y.isInfinite then zero negative
  else if y.isZero then
    if x.isZero then nan else infinity negative
  else ofUnits negative (x.units * 2 ^ f.unitBits) y.units

/-! ## Square root -/

/-- An inexact root is rounded as if it lay halfway above its floor: the floor has more bits than
the format, so that both are on the same side of every point halfway between two numbers. -/
def sqrt (x : Binary f) : Binary f :=
  if x.isNaN || x.isZero then x
  else if x.negative then nan
  else if x.isInfinite then x
  else
    let square := x.units * 2 ^ f.unitBits
    let root := floorSqrt square
    ofUnits false (if root * root = square then 2 * root else 2 * root + 1) 2

/-! ## Least and greatest -/

/-- The lesser value, the second of two equal ones; a number wins over one that is not. -/
def min (x y : Binary f) : Binary f :=
  if x.isNaN then y else if y.isNaN then x else if x < y then x else y

/-- The greater value, the second of two equal ones; a number wins over one that is not. -/
def max (x y : Binary f) : Binary f :=
  if x.isNaN then y else if y.isNaN then x else if y < x then x else y

instance : Neg (Binary f) := ⟨neg⟩
instance : Add (Binary f) := ⟨add⟩
instance : Sub (Binary f) := ⟨sub⟩
instance : Mul (Binary f) := ⟨mul⟩
instance : Div (Binary f) := ⟨div⟩
instance : Min (Binary f) := ⟨min⟩
instance : Max (Binary f) := ⟨max⟩

end Binary
end SdfShader
