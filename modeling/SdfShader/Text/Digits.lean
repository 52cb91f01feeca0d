/-!
# Digits

Digits in any base up to sixteen, where letters count in either case, and the numbers that they
stand for.
-/

namespace SdfShader.Text

/-- Value of a digit in base sixteen. -/
def digitValue? (c : Char) : Option Nat :=
  if c.isDigit then some (c.toNat - '0'.toNat)
  else if 'a' ≤ c ∧ c ≤ 'f' then some (c.toNat - 'a'.toNat + 10)
  else if 'A' ≤ c ∧ c ≤ 'F' then some (c.toNat - 'A'.toNat + 10)
  else none

/-- Whether a character is a digit in a base. -/
def isDigitIn (base : Nat) (c : Char) : Bool :=
  (digitValue? c).any (· < base)

/-- The number that digits stand for. -/
def numberOfDigits (base : Nat) (ds : List Char) : Nat :=
  ds.foldl (fun n c => base * n + (digitValue? c).getD 0) 0

/-- The number that a text stands for, if it has digits of the base only. -/
def number? (base : Nat) (cs : List Char) : Option Nat :=
  if cs.all (isDigitIn base) then some (numberOfDigits base cs) else none

end SdfShader.Text
