import SdfShader.Number.Rounding

/-!
# Binary interchange formats

A finite magnitude of a binary floating-point format is a whole number of *units*, the unit being
the least positive value `2 ^ -unitBits`. The magnitudes, in increasing order, are numbered by their
*codes*: the bit patterns without the sign. `units` reads a code; `nearestCode` finds the code
nearest to a quotient of units, an exact tie going to the even code and everything too large to the
code of infinity. The codes above that one are not numbers.
-/

namespace SdfShader

-- Powers are those of core arithmetic, also where another library offers its own.
attribute [instance (1100)] instPowNat

/-- Widths of the exponent and fraction fields. -/
structure Format where
  exponentBits : Nat
  fractionBits : Nat
  fractionBits_pos : 0 < fractionBits := by decide
  deriving DecidableEq

namespace Format

def single : Format := ⟨8, 23, by decide⟩

def double : Format := ⟨11, 52, by decide⟩

/-- Number of bits of a code. -/
def width (f : Format) : Nat :=
  f.exponentBits + f.fractionBits

/-- The unit is `2 ^ -unitBits`. -/
def unitBits (f : Format) : Nat :=
  2 ^ (f.exponentBits - 1) + f.fractionBits - 2

/-- The code of infinity. -/
def infinity (f : Format) : Nat :=
  (2 ^ f.exponentBits - 1) * 2 ^ f.fractionBits

/-- The magnitude with a code, counted in units. -/
def units (f : Format) (code : Nat) : Nat :=
  let step := 2 ^ f.fractionBits
  if code < step then code else (step + code % step) * 2 ^ (code / step - 1)

/-- The code nearest to `num / den` units. -/
def nearestCode (f : Format) (num den : Nat) : Nat :=
  let shift := (num / den).log2 - f.fractionBits
  min f.infinity (shift * 2 ^ f.fractionBits + roundDiv .toEven num (den * 2 ^ shift))

theorem infinity_add_lt (f : Format) :
    f.infinity + 2 ^ (f.fractionBits - 1) < 2 ^ f.width := by
  have h1 : 2 ^ (f.fractionBits - 1) < 2 ^ f.fractionBits :=
    Nat.pow_lt_pow_right (by decide) (by have := f.fractionBits_pos; omega)
  have h2 : f.infinity + 2 ^ f.fractionBits = 2 ^ f.width := by
    have h3 : 0 < 2 ^ f.exponentBits := Nat.two_pow_pos _
    rw [infinity, width, Nat.pow_add, Nat.sub_mul, Nat.one_mul]
    have h4 := Nat.mul_le_mul_right (2 ^ f.fractionBits) h3
    omega
  omega

theorem infinity_lt (f : Format) : f.infinity < 2 ^ f.width :=
  Nat.lt_of_le_of_lt (Nat.le_add_right ..) f.infinity_add_lt

theorem nearestCode_le (f : Format) (num den : Nat) : f.nearestCode num den ≤ f.infinity :=
  Nat.min_le_left ..

end Format
end SdfShader
