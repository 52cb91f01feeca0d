import SdfShader.Number.Format

/-!
# Binary floating-point numbers

A number of a format is a sign and a code, so equality is equality of bit patterns. Beside it stand
the comparisons of the values: they see no difference between the two zeros and hold of no pair
with a member that is not a number.
-/

namespace SdfShader

/-- A bit pattern of the format: its sign bit and the rest. -/
structure Binary (f : Format) where
  negative : Bool
  code : Nat
  code_lt : code < 2 ^ f.width
  deriving DecidableEq

abbrev Single := Binary .single

abbrev Double := Binary .double

namespace Binary

variable {f : Format}

/-! ## Bit patterns -/

def toBits (x : Binary f) : Nat :=
  (if x.negative then 2 ^ f.width else 0) + x.code

/-- Reads the low bits of `n`; the sign bit is the one above the code. -/
def ofBits (f : Format) (n : Nat) : Binary f where
  negative := n / 2 ^ f.width % 2 = 1
  code := n % 2 ^ f.width
  code_lt := Nat.mod_lt _ (Nat.two_pow_pos _)

theorem ofBits_toBits (x : Binary f) : ofBits f x.toBits = x := by
  obtain ⟨negative, code, code_lt⟩ := x
  have above : (2 ^ f.width + code) / 2 ^ f.width = 1 := by
    rw [Nat.add_div_left _ (Nat.two_pow_pos _), Nat.div_eq_of_lt code_lt]
  cases negative with
  | false => simp [ofBits, toBits, Nat.div_eq_of_lt code_lt, Nat.mod_eq_of_lt code_lt]
  | true => simp [ofBits, toBits, above, Nat.mod_eq_of_lt code_lt]

/-! ## Special values -/

def zero (negative : Bool) : Binary f :=
  ⟨negative, 0, Nat.two_pow_pos _⟩

def infinity (negative : Bool) : Binary f :=
  ⟨negative, f.infinity, f.infinity_lt⟩

/-- The pattern that stands for every result that is not a number. -/
def nan : Binary f :=
  ⟨false, f.infinity + 2 ^ (f.fractionBits - 1), f.infinity_add_lt⟩

def isNaN (x : Binary f) : Bool :=
  f.infinity < x.code

def isInfinite (x : Binary f) : Bool :=
  x.code = f.infinity

def isFinite (x : Binary f) : Bool :=
  x.code < f.infinity

def isZero (x : Binary f) : Bool :=
  x.code = 0

/-! ## Values -/

/-- The magnitude of a finite number in units of its format. -/
def units (x : Binary f) : Nat :=
  f.units x.code

def signedUnits (x : Binary f) : Int :=
  if x.negative then -(x.units : Int) else x.units

/-- The number nearest to `num / den` units, an infinity if that is too large. -/
def ofUnits (negative : Bool) (num den : Nat) : Binary f where
  negative
  code := f.nearestCode num den
  code_lt := Nat.lt_of_le_of_lt (f.nearestCode_le num den) f.infinity_lt

def ofNat (n : Nat) : Binary f :=
  ofUnits false (n * 2 ^ f.unitBits) 1

def ofInt (n : Int) : Binary f :=
  ofUnits (n < 0) (n.natAbs * 2 ^ f.unitBits) 1

instance (n : Nat) : OfNat (Binary f) n := ⟨ofNat n⟩

/-- The nearest number of another format. -/
def convert (g : Format) (x : Binary f) : Binary g :=
  if x.isNaN then nan
  else if x.isInfinite then infinity x.negative
  else ofUnits x.negative (x.units * 2 ^ g.unitBits) (2 ^ f.unitBits)

/-! ## Order of the values -/

/-- The position of a value among the values of its format; both zeros are at 0. -/
def rank (x : Binary f) : Int :=
  if x.negative then -(x.code : Int) else x.code

instance : LT (Binary f) where
  lt x y := x.isNaN = false ∧ y.isNaN = false ∧ x.rank < y.rank

instance : LE (Binary f) where
  le x y := x.isNaN = false ∧ y.isNaN = false ∧ x.rank ≤ y.rank

instance (x y : Binary f) : Decidable (x < y) :=
  inferInstanceAs (Decidable (_ ∧ _ ∧ _))

instance (x y : Binary f) : Decidable (x ≤ y) :=
  inferInstanceAs (Decidable (_ ∧ _ ∧ _))

/-- Whether two numbers have the same value. -/
def sameValue (x y : Binary f) : Bool :=
  x ≤ y ∧ y ≤ x

end Binary
end SdfShader
