import SdfShader.Number.Binary

/-!
# Decimal numerals

A numeral is a decimal number as it is written: sign, digits before and after the point, exponent.
`Numeral.toString` writes it, `Numeral.nearest` gives the number of a binary format that is nearest
to its value.
-/

namespace SdfShader

/-- A written decimal number. The digits are characters from `0` to `9`. -/
structure Numeral where
  negative : Bool
  whole : List Char
  fraction : Option (List Char)
  exponent : Option Int
  deriving DecidableEq, Repr

namespace Numeral

/-! ## Text -/

/-- The exponent always carries a sign. -/
def exponentText (e : Int) : List Char :=
  'e' :: (if e < 0 then '-' else '+') :: Nat.toDigits 10 e.natAbs

def toList (n : Numeral) : List Char :=
  (if n.negative then ['-'] else [])
    ++ n.whole
    ++ (n.fraction.elim [] ('.' :: ·))
    ++ (n.exponent.elim [] exponentText)

def toString (n : Numeral) : String :=
  String.ofList n.toList

/-- Whether the numeral has neither a point nor an exponent. -/
def isInteger (n : Numeral) : Bool :=
  n.fraction.isNone && n.exponent.isNone

/-! ## Value -/

/-- All digits as one number. -/
def significand (n : Numeral) : Nat :=
  Nat.ofDigitChars 10 (n.whole ++ n.fraction.getD []) 0

/-- The value is `significand * 10 ^ scale`, but for the sign. -/
def scale (n : Numeral) : Int :=
  n.exponent.getD 0 - (n.fraction.getD []).length

end Numeral

/-- The number of the format nearest to `± digits * 10 ^ scale`. A value of `10 ^ 2 ^ exponentBits`
or more exceeds every finite number and one below the inverse of that is less than half a unit, so
no larger power of ten is ever computed. -/
def Binary.ofDecimal (f : Format) (negative : Bool) (digits : Nat) (scale : Int) : Binary f :=
  let top := (Nat.toDigits 10 digits).length + scale
  if digits = 0 then zero negative
  else if 2 ^ f.exponentBits < top then infinity negative
  else if top < -2 ^ f.exponentBits then zero negative
  else ofUnits negative (digits * 10 ^ scale.toNat * 2 ^ f.unitBits) (10 ^ (-scale).toNat)

/-- Decimal literals. -/
instance {f : Format} : OfScientific (Binary f) where
  ofScientific digits minus exponent :=
    .ofDecimal f false digits (if minus then -(exponent : Int) else exponent)

/-- The number of the format nearest to the value of a numeral. -/
def Numeral.nearest (f : Format) (n : Numeral) : Binary f :=
  .ofDecimal f n.negative n.significand n.scale

end SdfShader
