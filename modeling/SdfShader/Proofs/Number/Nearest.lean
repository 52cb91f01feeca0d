import Mathlib.Algebra.Order.Group.Unbundled.Abs
import SdfShader.Number.Arithmetic
import SdfShader.Proofs.Decimal.Reading
import SdfShader.Proofs.Number.Value

/-!
# Nearest — rounding to a binary format

The code that a quotient is rounded to is the one in whose reading interval the quotient lies. This
is all that is used of the rounding: values that have a code are kept, and a number that is not
below the least normal one is off by half a unit in its last place at most. Main statements:

* `Format.nearestCode_eq_of_mem`, `Format.mem_unboundedCode`: rounding and the reading intervals agree;
* `Binary.IsNearest`: the number of the format that a positive value is rounded to;
* `Binary.IsNearest.value_eq`, `Binary.IsNearest.abs_sub_le`: what is exact, and how far off the
  rest is.
-/

namespace SdfShader

/-! ## Rounded quotients -/

/-- A bound on the quotient is one on the rounded quotient. -/
theorem roundDiv_le_of_le (tie : Tie) {num den n : Nat} (hden : 0 < den) (h : num ≤ den * n) :
    roundDiv tie num den ≤ n := by
  have hclose := two_mul_roundDiv_le tie num den
  by_contra hgt
  have hnext : den * (n + 1) ≤ den * roundDiv tie num den :=
    Nat.mul_le_mul_left den (Nat.lt_of_not_le hgt)
  rw [Nat.mul_add_one] at hnext
  omega

theorem le_roundDiv_of_le (tie : Tie) {num den n : Nat} (hden : 0 < den) (h : den * n ≤ num) :
    n ≤ roundDiv tie num den := by
  have hclose := le_two_mul_roundDiv tie num hden
  by_contra hlt
  have hnext : den * (roundDiv tie num den + 1) ≤ den * n :=
    Nat.mul_le_mul_left den (Nat.lt_of_not_le hlt)
  rw [Nat.mul_add_one] at hnext
  omega

/-- An odd result is no tie, so the quotient is less than half a unit away. -/
theorem roundDiv_toEven_odd {num den : Nat} (hden : 0 < den)
    (hodd : roundDiv .toEven num den % 2 = 1) :
    2 * num < 2 * (den * roundDiv .toEven num den) + den ∧
      2 * (den * roundDiv .toEven num den) < 2 * num + den := by
  have hquotient := Nat.div_add_mod num den
  have hrest := Nat.mod_lt num hden
  unfold roundDiv at hodd ⊢
  dsimp only at hodd ⊢
  split
  case isTrue h =>
      omega
  case isFalse hge =>
      rw [if_neg hge] at hodd
      split
      case isTrue h =>
          rw [Nat.mul_add_one]
          omega
      case isFalse hle =>
          rw [if_neg hle] at hodd
          omega

namespace Format

variable {f : Format}

/-! ## Gaps -/

theorem gap_mono (f : Format) : Monotone f.gap := by
  intro c d h
  have hdiv : c / 2 ^ f.fractionBits ≤ d / 2 ^ f.fractionBits := Nat.div_le_div_right h
  exact Nat.pow_le_pow_right (by decide) (Nat.sub_le_sub_right hdiv 1)

/-- From the least normal magnitude on, the gaps are small. -/
theorem mul_gap_le_units {code : Nat} (h : 2 ^ f.fractionBits ≤ code) :
    2 ^ f.fractionBits * f.gap code ≤ f.units code := by
  rcases f.code_lt_or_eq code with hlt | ⟨exponent, fraction, hfraction, rfl⟩
  · exact absurd h (Nat.not_le_of_lt hlt)
  · rw [units_normal hfraction, gap_normal hfraction]
    exact Nat.mul_le_mul_right _ (Nat.le_add_right _ _)

/-- The ends of an interval are half a gap away from the magnitude, in units. -/
theorem abs_sub_le_gap {code : Nat} {x : ℚ} (h : (f.readingInterval code).Mem x) :
    |x - 2 * f.units code| ≤ f.gap code := by
  have hgreatest : ((f.readingInterval code).greatest : ℚ) = 2 * f.units code + f.gap code := by
    simp only [readingInterval, units_succ]
    push_cast
    ring
  have hleast : 2 * (f.units code : ℚ) ≤ (f.readingInterval code).least + f.gap code := by
    simp only [readingInterval]
    rcases Nat.eq_zero_or_pos code with rfl | hpos
    · simp [f.units_zero]
    · have hprevious := f.units_succ (code - 1)
      rw [Nat.sub_add_cancel hpos] at hprevious
      have hgap : f.gap (code - 1) ≤ f.gap code := f.gap_mono (Nat.sub_le code 1)
      have hunits : 2 * f.units code ≤ f.units (code - 1) + f.units code + f.gap code := by omega
      exact_mod_cast hunits
  have hlower := h.least_le
  have hupper := h.le_greatest
  rw [abs_le]
  constructor <;> linarith

/-! ## Codes from an exponent and a significand -/

section Shifted

variable {shift significand : Nat} (h : shift = 0 ∨ 2 ^ f.fractionBits ≤ significand)
include h

/-- The significand may be that of the next exponent as well, where it is carried over. -/
theorem units_shifted (hle : significand ≤ 2 * 2 ^ f.fractionBits) :
    f.units (shift * 2 ^ f.fractionBits + significand) = significand * 2 ^ shift := by
  have hstep : 0 < 2 ^ f.fractionBits := Nat.two_pow_pos _
  rcases Nat.lt_or_ge significand (2 ^ f.fractionBits) with hlt | hge
  · have hshift : shift = 0 := h.resolve_right (Nat.not_le_of_lt hlt)
    rw [hshift, Nat.zero_mul, Nat.zero_add, units_of_lt hlt, Nat.pow_zero, Nat.mul_one]
  · rcases Nat.lt_or_eq_of_le hle with hnormal | hcarry
    · have hcode : shift * 2 ^ f.fractionBits + significand
          = 2 ^ f.fractionBits * (shift + 1) + (significand - 2 ^ f.fractionBits) := by
        rw [Nat.mul_add_one, Nat.mul_comm]
        omega
      rw [hcode, units_normal (by omega), Nat.add_sub_cancel' hge]
    · have hcode : shift * 2 ^ f.fractionBits + significand
          = 2 ^ f.fractionBits * (shift + 1 + 1) + 0 := by
        rw [Nat.mul_add_one, Nat.mul_add_one, Nat.mul_comm]
        omega
      rw [hcode, units_normal hstep, hcarry, Nat.pow_succ]
      ring

theorem le_gap_shifted : 2 ^ shift ≤ f.gap (shift * 2 ^ f.fractionBits + significand) := by
  refine Nat.pow_le_pow_right (by decide) ?_
  rcases h with rfl | hge
  · exact Nat.zero_le _
  · have hdiv : (shift + 1) * 2 ^ f.fractionBits ≤ shift * 2 ^ f.fractionBits + significand := by
      rw [Nat.add_one_mul]
      omega
    have hquotient := (Nat.le_div_iff_mul_le (Nat.two_pow_pos f.fractionBits)).2 hdiv
    omega

end Shifted

/-- One less in the last place of a significand that is not the least one of its exponent. -/
theorem units_pred_shifted {shift significand : Nat}
    (hle : significand ≤ 2 * 2 ^ f.fractionBits)
    (hfirst : shift = 0 ∧ 0 < significand ∨ 2 ^ f.fractionBits < significand) :
    f.units (shift * 2 ^ f.fractionBits + significand - 1) + 2 ^ shift
      = significand * 2 ^ shift := by
  have hpred : shift * 2 ^ f.fractionBits + significand - 1
      = shift * 2 ^ f.fractionBits + (significand - 1) := by
    omega
  have hpos : 1 ≤ significand := by omega
  rw [hpred, units_shifted (by omega) (by omega), ← Nat.succ_mul, Nat.succ_eq_add_one,
    Nat.sub_add_cancel hpos]

theorem shifted_mod_two (f : Format) (shift significand : Nat) :
    (shift * 2 ^ f.fractionBits + significand) % 2 = significand % 2 := by
  have heven : 2 ^ f.fractionBits % 2 = 0 := by
    rw [← Nat.sub_add_cancel f.fractionBits_pos, Nat.pow_succ, Nat.mul_mod_left]
  rw [Nat.add_mod, Nat.mul_mod, heven]
  simp

/-- A quotient in an interval: the ends count for even codes only. -/
theorem mem_readingInterval_div_iff {num den code : Nat} (hden : 0 < den) :
    (f.readingInterval code).Mem ((num : ℚ) / den) ↔
      ((f.units (code - 1) + f.units code) * den ≤ num ∧
        num ≤ (f.units code + f.units (code + 1)) * den) ∧
      (code % 2 = 1 → (f.units (code - 1) + f.units code) * den < num ∧
        num < (f.units code + f.units (code + 1)) * den) := by
  rw [ReadingInterval.mem_div_iff hden]
  rcases Nat.mod_two_eq_zero_or_one code with heven | hodd
  · simp [heven, readingInterval]
  · simp [hodd, readingInterval]
    omega

/-- Every number with no more bits than a significand is a magnitude, in whatever place it stands. -/
theorem exists_units_eq (f : Format) (shift : Nat) :
    ∀ significand ≤ 2 * 2 ^ f.fractionBits, ∃ code, f.units code = significand * 2 ^ shift := by
  induction shift with
  | zero =>
      intro significand hle
      exact ⟨_, units_shifted (.inl rfl) hle⟩
  | succ shift ih =>
      intro significand hle
      rcases Nat.le_total (2 ^ f.fractionBits) significand with hge | hlt
      · exact ⟨_, units_shifted (.inr hge) hle⟩
      · rcases ih (2 * significand) (by omega) with ⟨code, hcode⟩
        refine ⟨code, ?_⟩
        rw [hcode, Nat.pow_succ]
        ring

/-! ## The nearest code -/

/-- The nearest code if there is no greatest one. -/
def unboundedCode (f : Format) (num den : Nat) : Nat :=
  let shift := (num / den).log2 - f.fractionBits
  shift * 2 ^ f.fractionBits + roundDiv .toEven num (den * 2 ^ shift)

theorem nearestCode_eq_min (f : Format) (num den : Nat) :
    f.nearestCode num den = min f.infinity (f.unboundedCode num den) :=
  rfl

/-- Shifted by that many bits, the quotient is as long as a significand, or shorter if there is
nothing to shift. -/
theorem shift_bounds (f : Format) (num : Nat) {den : Nat} (hden : 0 < den) :
    let shift := (num / den).log2 - f.fractionBits
    num < den * 2 ^ shift * (2 * 2 ^ f.fractionBits) ∧
      (shift = 0 ∨ den * 2 ^ shift * 2 ^ f.fractionBits ≤ num) := by
  intro shift
  constructor
  · have hlog : num / den < 2 ^ (shift + (f.fractionBits + 1)) :=
      lt_of_lt_of_le Nat.lt_log2_self (Nat.pow_le_pow_right (by decide) (by omega))
    calc num < 2 ^ (shift + (f.fractionBits + 1)) * den := (Nat.div_lt_iff_lt_mul hden).1 hlog
      _ = den * 2 ^ shift * (2 * 2 ^ f.fractionBits) := by rw [pow_add, pow_succ]; ring
  · rcases Nat.eq_zero_or_pos shift with hzero | hpos
    · exact .inl hzero
    · have hne : num / den ≠ 0 := by
        intro hzero
        simp [shift, hzero] at hpos
      have hlog : 2 ^ (shift + f.fractionBits) ≤ num / den :=
        le_trans (Nat.pow_le_pow_right (by decide) (by omega)) (Nat.log2_self_le hne)
      refine .inr ?_
      calc den * 2 ^ shift * 2 ^ f.fractionBits = 2 ^ (shift + f.fractionBits) * den := by
            rw [pow_add]; ring
        _ ≤ num := (Nat.le_div_iff_mul_le hden).1 hlog

/-- The quotient lies in the interval of its code. -/
theorem mem_unboundedCode (f : Format) (num : Nat) {den : Nat} (hden : 0 < den) :
    (f.readingInterval (f.unboundedCode num den)).Mem ((2 * num : Nat) / den) := by
  rcases f.shift_bounds num hden with ⟨hbelow, habove⟩
  set shift := (num / den).log2 - f.fractionBits
  set step := 2 ^ f.fractionBits
  set r := roundDiv .toEven num (den * 2 ^ shift) with hr
  set code := f.unboundedCode num den
  have hden' : 0 < den * 2 ^ shift := Nat.mul_pos hden (Nat.two_pow_pos _)
  have hle : r ≤ 2 * step := roundDiv_le_of_le _ hden' hbelow.le
  have hge : shift = 0 ∨ step ≤ r := habove.imp_right (le_roundDiv_of_le _ hden')
  have hunits : f.units code = r * 2 ^ shift := units_shifted hge hle
  have hvalue : f.units code * den = den * 2 ^ shift * r := by
    rw [hunits]
    ring
  have hnext : den * 2 ^ shift * (r + 1) ≤ f.units (code + 1) * den := by
    have hgap := Nat.mul_le_mul_right den (le_gap_shifted hge)
    rw [units_succ, Nat.add_mul, hvalue, Nat.mul_add_one, Nat.mul_comm den]
    exact Nat.add_le_add_left hgap _
  have hparity : code % 2 = r % 2 := f.shifted_mod_two shift r
  -- The magnitude below is a shifted unit away, unless the quotient is no less than the magnitude.
  have hprevious : f.units code * den ≤ num ∨
      f.units (code - 1) * den + den * 2 ^ shift = den * 2 ^ shift * r := by
    by_cases hfirst : shift = 0 ∧ 0 < r ∨ step < r
    · have hpred : f.units (code - 1) + 2 ^ shift = r * 2 ^ shift :=
        units_pred_shifted hle hfirst
      refine .inr ?_
      rw [← hvalue, hunits, ← hpred]
      ring
    · refine .inl ?_
      rw [hvalue]
      rcases Nat.eq_zero_or_pos r with hzero | hpos
      · simp [hzero]
      · have hleast : r = step := by omega
        rw [hleast]
        exact habove.resolve_left (by omega)
  have hmono : f.units (code - 1) * den ≤ f.units code * den :=
    Nat.mul_le_mul_right den (f.units_strictMono.monotone (Nat.sub_le code 1))
  have hup := le_two_mul_roundDiv .toEven num hden'
  have hdown := two_mul_roundDiv_le .toEven num (den * 2 ^ shift)
  rw [← hr] at hup hdown
  rw [Nat.mul_add_one] at hnext
  rw [mem_readingInterval_div_iff hden]
  simp only [hparity, Nat.add_mul]
  refine ⟨by omega, fun h => ?_⟩
  · have hodd := roundDiv_toEven_odd hden' (hr ▸ h)
    rw [← hr] at hodd
    have hstrict : f.units (code - 1) * den < f.units code * den :=
      Nat.mul_lt_mul_of_pos_right (f.units_strictMono (Nat.sub_lt (by omega) (by decide))) hden
    omega

/-- A finite code is the nearest one of all quotients in its interval. -/
theorem nearestCode_eq_of_mem {num den code : Nat} (hden : 0 < den) (hfinite : code < f.infinity)
    (h : (f.readingInterval code).Mem ((2 * num : Nat) / den)) : f.nearestCode num den = code := by
  rw [nearestCode_eq_min, eq_of_mem (f.mem_unboundedCode num hden) h]
  exact Nat.min_eq_right hfinite.le

/-- What is at most some magnitude is not rounded to a greater one. -/
theorem unboundedCode_le {num den bound : Nat} (hden : 0 < den) (h : num ≤ f.units bound * den) :
    f.unboundedCode num den ≤ bound := by
  by_contra hgt
  have hcode : bound < f.unboundedCode num den := Nat.lt_of_not_le hgt
  have hmem := (f.mem_unboundedCode num hden).least_le
  have hleast : (f.readingInterval (f.unboundedCode num den)).least * den ≤ 2 * num := by
    rw [le_div_iff₀ (by exact_mod_cast hden)] at hmem
    exact_mod_cast hmem
  have hbelow : f.units bound ≤ f.units (f.unboundedCode num den - 1) :=
    f.units_strictMono.monotone (Nat.le_sub_one_of_lt hcode)
  have habove : f.units bound * den < f.units (f.unboundedCode num den) * den :=
    Nat.mul_lt_mul_of_pos_right (f.units_strictMono hcode) hden
  have hbelow' := Nat.mul_le_mul_right den hbelow
  simp only [readingInterval, Nat.add_mul] at hleast
  omega

/-! ## Magnitudes as rational numbers -/

def magnitude (f : Format) (code : Nat) : ℚ :=
  f.units code / 2 ^ f.unitBits

theorem halfUnits_magnitude (code : Nat) : f.halfUnits (f.magnitude code) = 2 * f.units code := by
  rw [halfUnits, magnitude, pow_succ]
  field_simp

/-- A magnitude lies in its own interval. -/
theorem mem_magnitude (f : Format) (code : Nat) :
    (f.readingInterval code).Mem (f.halfUnits (f.magnitude code)) := by
  have hup : f.units code < f.units (code + 1) := f.units_strictMono (Nat.lt_succ_self code)
  have hdown : f.units (code - 1) ≤ f.units code :=
    f.units_strictMono.monotone (Nat.sub_le code 1)
  have hone : f.halfUnits (f.magnitude code) = ((2 * f.units code : Nat) : ℚ) / (1 : Nat) := by
    rw [halfUnits_magnitude]
    push_cast
    ring
  rw [hone, mem_readingInterval_div_iff Nat.one_pos]
  refine ⟨by omega, fun hodd => ?_⟩
  have hstrict : f.units (code - 1) < f.units code :=
    f.units_strictMono (Nat.sub_lt (by omega) (by decide))
  omega

end Format

/-! ## Nearest numbers -/

namespace Binary

variable {f : Format} {x y : Binary f} {v : ℚ} {bound : Nat}

/-- A finite number without a sign. -/
structure IsMagnitude (x : Binary f) : Prop where
  sign : x.negative = false
  finite : x.code < f.infinity

namespace IsMagnitude

variable (h : x.IsMagnitude)
include h

theorem value_eq : x.value = f.magnitude x.code := by
  simp [value, signedUnits, h.sign, Format.magnitude, units]

theorem isFinite : x.isFinite = true :=
  decide_eq_true h.finite

theorem isNaN : x.isNaN = false :=
  decide_eq_false (Nat.lt_asymm h.finite)

theorem isInfinite : x.isInfinite = false :=
  decide_eq_false h.finite.ne

theorem isZero_iff : x.isZero = true ↔ x.value = 0 := by
  rw [h.value_eq, Format.magnitude, isZero, decide_eq_true_iff, div_eq_zero_iff]
  have hpower : (2 : ℚ) ^ f.unitBits ≠ 0 := by positivity
  simp only [hpower, or_false, Nat.cast_eq_zero]
  constructor
  · intro hzero
    rw [hzero, f.units_zero]
  · intro hzero
    exact f.units_strictMono.injective (hzero.trans f.units_zero.symm)

end IsMagnitude

/-- The number to which a value is rounded, if that is finite and not below zero. -/
structure IsNearest (x : Binary f) (v : ℚ) : Prop extends x.IsMagnitude where
  mem : (f.readingInterval x.code).Mem (f.halfUnits v)

/-- A value that is a magnitude is kept. -/
theorem IsNearest.value_eq {code : Nat} (h : x.IsNearest v) (hv : v = f.magnitude code) :
    x.value = v := by
  have hmem := h.mem
  rw [hv] at hmem
  rw [h.toIsMagnitude.value_eq, Format.eq_of_mem hmem (f.mem_magnitude code), hv]

/-- What is not below the least normal number is rounded by half a unit in the last place at most. -/
theorem IsNearest.abs_sub_le (h : x.IsNearest v) (hv : f.magnitude (2 ^ f.fractionBits) ≤ v) :
    |v - x.value| * 2 ^ (f.fractionBits + 1) ≤ x.value := by
  have hpower : (0 : ℚ) < 2 ^ f.unitBits := by positivity
  have hclose := Format.abs_sub_le_gap h.mem
  have hnormal : 2 ^ f.fractionBits ≤ x.code := by
    by_contra hlt
    have hcode : x.code + 1 ≤ 2 ^ f.fractionBits := Nat.lt_of_not_le hlt
    have hunits : f.units x.code + f.gap x.code ≤ f.units (2 ^ f.fractionBits) := by
      rw [← f.units_succ]
      exact f.units_strictMono.monotone hcode
    have hgap := Format.gap_pos (f := f) x.code
    have hunits' : (f.units x.code : ℚ) + f.gap x.code ≤ f.units (2 ^ f.fractionBits) := by
      exact_mod_cast hunits
    have hgap' : (0 : ℚ) < f.gap x.code := by
      exact_mod_cast hgap
    have hbelow : f.halfUnits (f.magnitude (2 ^ f.fractionBits)) ≤ f.halfUnits v :=
      mul_le_mul_of_nonneg_right hv (by positivity)
    rw [Format.halfUnits_magnitude] at hbelow
    have habove := (abs_le.1 hclose).2
    linarith
  have hgap : (2 : ℚ) ^ f.fractionBits * f.gap x.code ≤ f.units x.code := by
    exact_mod_cast Format.mul_gap_le_units hnormal
  have hhalf : f.halfUnits v - 2 * f.units x.code = (v - x.value) * (2 * 2 ^ f.unitBits) := by
    rw [h.toIsMagnitude.value_eq, ← Format.halfUnits_magnitude, Format.halfUnits,
      Format.halfUnits, pow_succ]
    ring
  rw [hhalf, abs_mul, abs_of_pos (mul_pos two_pos hpower)] at hclose
  rw [h.toIsMagnitude.value_eq, Format.magnitude, le_div_iff₀ hpower]
  calc |v - f.units x.code / 2 ^ f.unitBits| * 2 ^ (f.fractionBits + 1) * 2 ^ f.unitBits
      = 2 ^ f.fractionBits * (|v - x.value| * (2 * 2 ^ f.unitBits)) := by
        rw [h.toIsMagnitude.value_eq, Format.magnitude, pow_succ]
        ring
    _ ≤ 2 ^ f.fractionBits * f.gap x.code := by gcongr
    _ ≤ f.units x.code := hgap

theorem isNearest_ofUnits {num den : Nat} (hden : 0 < den) (hv : v = num / den / 2 ^ f.unitBits)
    (hfinite : bound < f.infinity) (hbound : v ≤ f.magnitude bound) :
    (ofUnits false num den : Binary f).IsNearest v := by
  have hdenq : (0 : ℚ) < den := by
    exact_mod_cast hden
  have hmem : (f.readingInterval (f.unboundedCode num den)).Mem (f.halfUnits v) := by
    have hquotient : f.halfUnits v = ((2 * num : Nat) : ℚ) / den := by
      rw [hv, Format.halfUnits, pow_succ]
      push_cast
      field_simp
    rw [hquotient]
    exact f.mem_unboundedCode num hden
  have hunits : num ≤ f.units bound * den := by
    rw [hv, Format.magnitude, div_le_div_iff_of_pos_right (by positivity), div_le_iff₀ hdenq]
      at hbound
    exact_mod_cast hbound
  have hcode : f.unboundedCode num den < f.infinity :=
    lt_of_le_of_lt (Format.unboundedCode_le hden hunits) hfinite
  have hnearest : f.nearestCode num den = f.unboundedCode num den := by
    rw [Format.nearestCode_eq_min]
    exact Nat.min_eq_right hcode.le
  refine ⟨⟨rfl, hnearest.trans_lt hcode⟩, ?_⟩
  change (f.readingInterval (f.nearestCode num den)).Mem _
  rwa [hnearest]

/-! ## Operations -/

theorem isNearest_ofNat {n : Nat} (hfinite : bound < f.infinity)
    (hbound : (n : ℚ) ≤ f.magnitude bound) : (ofNat n : Binary f).IsNearest n :=
  isNearest_ofUnits Nat.one_pos (by push_cast; field_simp) hfinite hbound

/-- A product is rounded once. -/
theorem IsMagnitude.mul (hx : x.IsMagnitude) (hy : y.IsMagnitude) (hfinite : bound < f.infinity)
    (hbound : x.value * y.value ≤ f.magnitude bound) : (x * y).IsNearest (x.value * y.value) := by
  have hproduct : x * y = ofUnits false (x.units * y.units) (2 ^ f.unitBits) := by
    change x.mul y = _
    simp [Binary.mul, hx.isNaN, hy.isNaN, hx.isInfinite, hy.isInfinite, hx.sign, hy.sign]
  rw [hproduct]
  refine isNearest_ofUnits (Nat.two_pow_pos _) ?_ hfinite hbound
  rw [hx.value_eq, hy.value_eq, Format.magnitude, Format.magnitude, units, units]
  push_cast
  field_simp

/-- So is a quotient. -/
theorem IsMagnitude.div (hx : x.IsMagnitude) (hy : y.IsMagnitude) (hpos : 0 < y.value)
    (hfinite : bound < f.infinity) (hbound : x.value / y.value ≤ f.magnitude bound) :
    (x / y).IsNearest (x.value / y.value) := by
  have hzero : y.isZero = false := by
    rw [← Bool.not_eq_true, hy.isZero_iff]
    exact hpos.ne'
  have hquotient : x / y = ofUnits false (x.units * 2 ^ f.unitBits) y.units := by
    change x.div y = _
    simp [Binary.div, hx.isNaN, hy.isNaN, hx.isInfinite, hy.isInfinite, hx.sign, hy.sign, hzero]
  have hunits : 0 < y.units := by
    rw [hy.value_eq, Format.magnitude, div_pos_iff_of_pos_right (by positivity)] at hpos
    exact_mod_cast hpos
  rw [hquotient]
  refine isNearest_ofUnits hunits ?_ hfinite hbound
  rw [hx.value_eq, hy.value_eq, Format.magnitude, Format.magnitude, units, units]
  push_cast
  field_simp

/-- A number is converted to the number of the other format in whose interval it lies. -/
theorem IsMagnitude.code_convert {g : Format} {code : Nat} (hx : x.IsMagnitude)
    (hfinite : code < g.infinity) (h : (g.readingInterval code).Mem (g.halfUnits x.value)) :
    (x.convert g).negative = false ∧ (x.convert g).code = code := by
  have hconvert : x.convert g = ofUnits false (x.units * 2 ^ g.unitBits) (2 ^ f.unitBits) := by
    simp [convert, hx.isNaN, hx.isInfinite, hx.sign]
  rw [hconvert]
  refine ⟨rfl, Format.nearestCode_eq_of_mem (Nat.two_pow_pos _) hfinite ?_⟩
  have hquotient : g.halfUnits x.value
      = ((2 * (x.units * 2 ^ g.unitBits) : Nat) : ℚ) / (2 ^ f.unitBits : Nat) := by
    rw [hx.value_eq, Format.magnitude, Format.halfUnits, units, pow_succ]
    push_cast
    field_simp
  rwa [← hquotient]

end Binary
end SdfShader
