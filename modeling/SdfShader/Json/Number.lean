import SdfShader.Decimal.Numeral
import SdfShader.Decimal.Shortest
import SdfShader.Number.Arithmetic

/-!
# Numbers of JSON

A numeral stands for an integer if it has neither a point nor an exponent and fits into 64 bits,
else for a double. A double is read in three steps with one rounding each: as many digits as fit
into a word are taken, their number becomes a double, and a power of ten multiplies or divides it.
So the result is not always the double nearest to the numeral. Main statements: a word stays below
`2 ^ 64`, and digits that fit are all taken.
-/

namespace SdfShader

/-! ## Words -/

/-- Takes digits while the word can hold one more, and returns it with the digits left. -/
def takeDigits (word : Nat) : List Char → Nat × List Char
  | [] => (word, [])
  | c :: cs =>
    let next := Nat.ofDigitChars 10 [c] word
    if next < UInt64.size then takeDigits next cs else (word, c :: cs)

theorem takeDigits_fst_lt {word : Nat} (cs : List Char) (h : word < UInt64.size) :
    (takeDigits word cs).1 < UInt64.size := by
  fun_induction takeDigits word cs with
  | case1 => exact h
  | case2 _ _ _ _ hnext ih => exact ih hnext
  | case3 => exact h

theorem le_ofDigitChars (cs : List Char) (word : Nat) : word ≤ Nat.ofDigitChars 10 cs word := by
  induction cs generalizing word with
  | nil => exact Nat.le_refl _
  | cons c cs ih =>
    rw [Nat.ofDigitChars_cons]
    exact Nat.le_trans (by omega) (ih _)

/-- Digits that fit into a word are all taken. -/
theorem takeDigits_of_lt {word : Nat} {cs : List Char}
    (h : Nat.ofDigitChars 10 cs word < UInt64.size) :
    takeDigits word cs = (Nat.ofDigitChars 10 cs word, []) := by
  fun_induction takeDigits word cs with
  | case1 => rw [Nat.ofDigitChars_nil]
  | case2 word c cs next _ ih =>
    have split : Nat.ofDigitChars 10 (c :: cs) word = Nat.ofDigitChars 10 cs next :=
      Nat.ofDigitChars_append (l := [c]) word
    rw [split] at h ⊢
    exact ih h
  | case3 word c cs next hnext =>
    have split : Nat.ofDigitChars 10 (c :: cs) word = Nat.ofDigitChars 10 cs next :=
      Nat.ofDigitChars_append (l := [c]) word
    have := le_ofDigitChars cs next
    omega

/-- The digits of a numeral that a word can hold, with the power of ten that gives them their place.
Whole digits that are left count in the power; the fraction then tries the word anew, and what is
left of it is dropped. -/
def Numeral.word (n : Numeral) : Scaled :=
  let fraction := n.fraction.getD []
  let (word, whole) := takeDigits 0 n.whole
  -- A digit of the fraction may still fit where one of the whole number did not.
  let (word, left) := takeDigits word fraction
  ⟨word, n.exponent.getD 0 + whole.length - (fraction.length - left.length : Nat)⟩

/-! ## Doubles -/

/-- The greatest exponent of a power of ten that is finite as a double. -/
def greatestTenPower : Nat := 308

def tenPower (exponent : Nat) : Double :=
  .ofDecimal .double false 1 exponent

/-- Multiplies with a power of ten, or divides by it; none if the result is too large. What is too
far below zero for one power of ten is divided by the greatest one first. -/
def Binary.scaleByTen? (x : Double) (exponent : Int) : Option Double :=
  if x.isZero then some x
  else if 0 ≤ exponent then
    let product := x * tenPower exponent.toNat
    if product.isFinite then some product else none
  else if -greatestTenPower ≤ exponent then some (x / tenPower (-exponent).toNat)
  else (x / tenPower greatestTenPower).scaleByTen? (exponent + greatestTenPower)
termination_by (-exponent).toNat
decreasing_by simp only [greatestTenPower] at *; omega

/-! ## Values -/

namespace Json

/-- What a numeral stands for. -/
inductive Number
  | integer (n : Int)
  | double (x : Double)
  deriving DecidableEq

end Json

namespace Numeral

/-- An integer from the least signed to the greatest unsigned word. There is no negative zero. -/
def integer? (n : Numeral) : Option Int :=
  let value : Int := if n.negative then -n.significand else n.significand
  let isNegativeZero := n.negative && n.significand = 0
  if n.isInteger ∧ !isNegativeZero ∧ Int64.minValue.toInt ≤ value ∧ value < UInt64.size then
    some value
  else none

/-- The double that a numeral is read as; none if it is too large. -/
def double? (n : Numeral) : Option Double :=
  let word := n.word
  ((Binary.ofNat word.digits : Double).scaleByTen? word.exponent).map fun x =>
    if n.negative then -x else x

def number? (n : Numeral) : Option Json.Number :=
  match n.integer? with
  | some value => some (.integer value)
  | none => n.double?.map .double

end Numeral

namespace Json.Number

def toDouble : Number → Double
  | integer n => .ofInt n
  | double x => x

/-- An integer is rounded once; a double has been rounded before. -/
def toSingle : Number → Single
  | integer n => .ofInt n
  | double x => x.convert .single

end Json.Number
end SdfShader
