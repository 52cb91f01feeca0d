import SdfShader.Number.Binary

/-!
# Shortest decimals

The decimals that read back as a given binary number fill an interval: it ends halfway to the two
neighbours, and the ends belong to it if the code is even. `shortest` looks on one grid of powers
of ten after the other, from the value's own leading digit downwards, and takes from the first grid
with a point in the interval the one nearest to the value. If a point of a grid lies in the
interval, then so does one of the two grid points next to the value, so only these two are tried.
-/

namespace SdfShader

/-- The decimal `digits * 10 ^ exponent`. -/
structure Scaled where
  digits : Nat
  exponent : Int
  deriving DecidableEq, Repr

/-- The same decimal without trailing zeros. -/
def Scaled.trim (s : Scaled) : Scaled :=
  if h : 0 < s.digits ∧ s.digits % 10 = 0 then
    Scaled.trim ⟨s.digits / 10, s.exponent + 1⟩
  else s
termination_by s.digits
decreasing_by omega

/-- The exponent of the leading decimal digit of `num / den`, both positive. -/
def leadingExponent (num den : Nat) : Int :=
  if den ≤ num then (Nat.toDigits 10 (num / den)).length - 1
  else -(Nat.toDigits 10 ((den - 1) / num)).length

/-- The decimals around a positive finite magnitude that read back as it. All three magnitudes are
counted in half units of the format. -/
structure ReadingInterval where
  least : Nat
  value : Nat
  greatest : Nat
  closed : Bool
  deriving DecidableEq, Repr

namespace Format

/-- The interval of the magnitude with a positive code. -/
def readingInterval (f : Format) (code : Nat) : ReadingInterval where
  least := f.units (code - 1) + f.units code
  value := 2 * f.units code
  greatest := f.units code + f.units (code + 1)
  closed := code % 2 = 0

/-- How many half units one step of the grid of `10 ^ exponent` has, as a quotient. -/
def gridStep (f : Format) (exponent : Int) : Nat × Nat :=
  (2 ^ (f.unitBits + 1) * 10 ^ exponent.toNat, 10 ^ (-exponent).toNat)

end Format

namespace ReadingInterval

/-- Whether the `n`-th point of a grid lies in the interval. -/
def contains (i : ReadingInterval) (step : Nat × Nat) (n : Nat) : Bool :=
  if i.closed then i.least * step.2 ≤ n * step.1 ∧ n * step.1 ≤ i.greatest * step.2
  else i.least * step.2 < n * step.1 ∧ n * step.1 < i.greatest * step.2

/-- Of the two grid points next to the value the nearer one in the interval. -/
def nearest? (tie : Tie) (i : ReadingInterval) (step : Nat × Nat) : Option Nat :=
  let below := i.value * step.2 / step.1
  match i.contains step below, i.contains step (below + 1) with
  | true, true => some (roundDiv tie (i.value * step.2) step.1)
  | true, false => some below
  | false, true => some (below + 1)
  | false, false => none

end ReadingInterval

/-- The first hit on the grids of `10 ^ exponent` and the `fuel` grids below it. -/
def Format.firstHit (f : Format) (tie : Tie) (i : ReadingInterval) : Nat → Int → Option Scaled
  | 0, _ => none
  | fuel + 1, exponent =>
    match i.nearest? tie (f.gridStep exponent) with
    | some digits => some (Scaled.trim ⟨digits, exponent⟩)
    | none => f.firstHit tie i fuel (exponent - 1)

/-- The shortest decimal that reads back as the magnitude with the code, of several the nearest one,
of two equally near ones that which `tie` names. A grid whose step is below one unit always has a
point in the interval. -/
def Format.shortest (f : Format) (tie : Tie) (code : Nat) : Scaled :=
  let leading := leadingExponent (f.units code) (2 ^ f.unitBits)
  if code = 0 then ⟨0, 0⟩
  else (f.firstHit tie (f.readingInterval code) (f.fractionBits + 2) leading).getD ⟨0, 0⟩

end SdfShader
