import SdfShader.Decimal.Numeral
import SdfShader.Decimal.Shortest

/-!
# Layouts of decimals

The same decimal can be written in positional or in scientific notation, and a binary number can be
written with a fixed number of places. `Binary.text` is the plain text of a number: the shortest
decimal that reads back, a half away from zero, always in positional notation.
-/

namespace SdfShader

/-! ## Notations -/

namespace Scaled

/-- Positional notation, without a point where the decimal is a whole number. -/
def positional (negative : Bool) (s : Scaled) : Numeral :=
  let cs := Nat.toDigits 10 s.digits
  let places := (-s.exponent).toNat
  if 0 ≤ s.exponent then
    -- A whole number: zero does not get further zeros.
    ⟨negative, if s.digits = 0 then cs else cs ++ List.replicate s.exponent.toNat '0', none, none⟩
  else if places < cs.length then
    -- The point stands between two digits.
    ⟨negative, cs.take (cs.length - places), some (cs.drop (cs.length - places)), none⟩
  else
    -- Zeros stand between the point and the digits.
    ⟨negative, ['0'], some (List.replicate (places - cs.length) '0' ++ cs), none⟩

/-- The exponent of the leading digit. -/
def leading (s : Scaled) : Int :=
  s.exponent + (Nat.toDigits 10 s.digits).length - 1

/-- Scientific notation with one digit before the point. -/
def scientific (negative : Bool) (s : Scaled) : Numeral :=
  let cs := Nat.toDigits 10 s.digits
  let rest := cs.drop 1
  ⟨negative, cs.take 1, if rest.isEmpty then none else some rest, some s.leading⟩

end Scaled

/-- The numeral with at least one digit after the point. -/
def Numeral.withFraction (n : Numeral) : Numeral :=
  { n with fraction := some (n.fraction.getD ['0']) }

/-! ## Text of a number -/

namespace Binary

variable {f : Format}

/-- Texts of the numbers that are not finite. -/
def specialText (x : Binary f) : String :=
  if x.isNaN then "NaN" else if x.negative then "-inf" else "inf"

/-- The shortest positional numeral of a finite number. -/
def numeral (x : Binary f) : Numeral :=
  (f.shortest .away x.code).positional x.negative

def text (x : Binary f) : String :=
  if x.isFinite then x.numeral.toString else x.specialText

/-- A finite number with exactly `places` digits after the point, a half to the even neighbour. -/
def fixedNumeral (places : Nat) (x : Binary f) : Numeral :=
  let scaled := roundDiv .toEven (x.units * 10 ^ places) (2 ^ f.unitBits)
  let cs := Nat.toDigits 10 scaled
  -- At least one digit stands before the point.
  let padded := List.replicate (places + 1 - cs.length) '0' ++ cs
  let fraction := padded.drop (padded.length - places)
  ⟨x.negative, padded.take (padded.length - places), if places = 0 then none else some fraction,
    none⟩

def fixedText (places : Nat) (x : Binary f) : String :=
  if x.isFinite then (x.fixedNumeral places).toString else x.specialText

end Binary
end SdfShader
