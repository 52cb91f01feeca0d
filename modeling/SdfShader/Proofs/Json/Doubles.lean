import SdfShader.Json.Number
import SdfShader.Proofs.Number.Nearest

/-!
# Doubles — how exactly a decimal is read

A decimal of moderate size is read with two roundings at most: that of the power of ten, if it has
too many digits, and that of the product or quotient. Main statements:

* `Binary.isNearest_tenPower`, `Binary.value_tenPower`: powers of ten as doubles;
* `Binary.exists_scaleByTen?`: the double is off by less than one part in `2 ^ 52 - 1`, and it is the
  nearest one where the power of ten is exact.
-/

namespace SdfShader

/-! ## The range of doubles -/

namespace Format

theorem magnitude_shifted (f : Format) (shift : Nat) :
    f.magnitude (shift * 2 ^ f.fractionBits + 2 ^ f.fractionBits)
      = 2 ^ (shift + f.fractionBits - f.unitBits : ℤ) := by
  rw [magnitude, units_shifted (.inr (Nat.le_refl _)) (by omega), zpow_sub₀ two_ne_zero,
    zpow_natCast]
  push_cast
  rw [← pow_add, ← zpow_natCast, Nat.cast_add, add_comm]

/-- The code of `2 ^ 256`, which is greater than everything met here. -/
def largeCode : Nat := 1278 * 2 ^ 52 + 2 ^ 52

theorem largeCode_lt : largeCode < double.infinity := by
  decide +kernel

theorem magnitude_largeCode : double.magnitude largeCode = 2 ^ 256 :=
  double.magnitude_shifted 1278

/-- The least normal double is less than everything positive that is met here. -/
theorem magnitude_double_normal_le :
    double.magnitude (2 ^ double.fractionBits) ≤ 2 ^ (-250 : ℤ) := by
  have h : double.magnitude (2 ^ double.fractionBits) = 2 ^ (-1022 : ℤ) := by
    have h := double.magnitude_shifted 0
    rwa [Nat.zero_mul, Nat.zero_add] at h
  rw [h]
  exact zpow_le_zpow_right₀ one_le_two (by decide)

/-- A whole number of moderate length is a double, in whatever place it stands. -/
theorem exists_magnitude_double {m : Nat} (hm : m ≤ 2 ^ 53) (k : Nat) {v : ℚ}
    (hv : v * 2 ^ double.unitBits = m * 2 ^ k) : ∃ code, v = double.magnitude code := by
  rcases double.exists_units_eq k m hm with ⟨code, hcode⟩
  refine ⟨code, ?_⟩
  rw [magnitude, hcode, eq_div_iff (by positivity), hv]
  push_cast
  rfl

end Format

namespace Binary

/-! ## Powers of ten -/

theorem value_ofNat {n : Nat} (hn : n < 2 ^ 53) :
    (ofNat n : Double).IsMagnitude ∧ (ofNat n : Double).value = n := by
  have hbound : (n : ℚ) ≤ Format.double.magnitude Format.largeCode := by
    rw [Format.magnitude_largeCode]
    exact_mod_cast hn.le.trans (Nat.pow_le_pow_right (by decide) (by decide))
  have hnearest : (ofNat n : Double).IsNearest n := isNearest_ofNat Format.largeCode_lt hbound
  rcases Format.exists_magnitude_double hn.le _ rfl with ⟨code, hcode⟩
  exact ⟨hnearest.toIsMagnitude, hnearest.value_eq hcode⟩

theorem isZero_ofNat {n : Nat} (hpos : 0 < n) (hn : n < 2 ^ 53) :
    (ofNat n : Double).isZero = false := by
  rcases value_ofNat hn with ⟨hmagnitude, hvalue⟩
  rw [← Bool.not_eq_true, hmagnitude.isZero_iff, hvalue]
  exact_mod_cast hpos.ne'

/-- A number of moderate size is rounded by half a unit in the last place at most. -/
theorem IsNearest.abs_sub_mul_le {x : Double} {v : ℚ} (h : x.IsNearest v)
    (hv : (2 : ℚ) ^ (-250 : ℤ) ≤ v) : |v - x.value| * 2 ^ 53 ≤ x.value :=
  h.abs_sub_le (Format.magnitude_double_normal_le.trans hv)

theorem isNearest_tenPower {k : Nat} (hk : k ≤ 60) : (tenPower k).IsNearest (10 ^ k) := by
  have hpower : tenPower k = ofUnits false (1 * 10 ^ k * 2 ^ Format.double.unitBits) 1 := by
    have hlength : (Nat.toDigits 10 1).length = 1 := rfl
    have hexponent : Format.double.exponentBits = 11 := rfl
    have htop : ¬ (2048 : ℤ) < 1 + k := by omega
    have hbottom : ¬ (1 + k : ℤ) < -2048 := by omega
    simp [tenPower, ofDecimal, hlength, hexponent, htop, hbottom]
  rw [hpower]
  refine isNearest_ofUnits Nat.one_pos ?_ Format.largeCode_lt ?_
  · push_cast
    field_simp
  · rw [Format.magnitude_largeCode]
    calc (10 : ℚ) ^ k ≤ 10 ^ 60 := pow_le_pow_right₀ (by norm_num) hk
      _ ≤ 2 ^ 256 := by norm_num

theorem value_tenPower {k : Nat} (hk : k ≤ 22) : (tenPower k).value = 10 ^ k := by
  have hfive : 5 ^ k ≤ 2 ^ 53 :=
    (Nat.pow_le_pow_right (by decide) hk).trans (by decide)
  have hvalue : (10 : ℚ) ^ k * 2 ^ Format.double.unitBits
      = (5 ^ k : Nat) * 2 ^ (k + Format.double.unitBits) := by
    rw [pow_add, show (10 : ℚ) = 5 * 2 by norm_num, mul_pow]
    push_cast
    ring
  rcases Format.exists_magnitude_double hfive _ hvalue with ⟨code, hcode⟩
  exact (isNearest_tenPower (hk.trans (by decide))).value_eq hcode

end Binary

/-! ## Two roundings -/

/-- A product with a rounded factor, rounded. -/
theorem close_of_mul {d t p y : ℚ} (hd : 0 ≤ d) (hp : |t - p| * 2 ^ 53 ≤ p)
    (hy : |d * p - y| * 2 ^ 53 ≤ y) : |d * t - y| * (2 ^ 52 - 1) ≤ y := by
  have hsplit : |d * t - y| ≤ d * |t - p| + |d * p - y| := by
    calc |d * t - y| = |d * (t - p) + (d * p - y)| := by ring_nf
      _ ≤ |d * (t - p)| + |d * p - y| := abs_add_le _ _
      _ = d * |t - p| + |d * p - y| := by rw [abs_mul, abs_of_nonneg hd]
  have hfactor : d * |t - p| * 2 ^ 53 ≤ d * p := by
    rw [mul_assoc]
    exact mul_le_mul_of_nonneg_left hp hd
  have hproduct := le_abs_self (d * p - y)
  have hnonneg := abs_nonneg (d * p - y)
  linarith

/-- A quotient by a rounded divisor, rounded. -/
theorem close_of_div {d t p y : ℚ} (hd : 0 ≤ d) (ht : 0 < t) (hpos : 0 < p)
    (hp : |t - p| * 2 ^ 53 ≤ p) (hy : |d / p - y| * 2 ^ 53 ≤ y) :
    |d / t - y| * (2 ^ 52 - 1) ≤ y := by
  have hsplit : |d / t - y| ≤ |d / t - d / p| + |d / p - y| := abs_sub_le _ _ _
  have hfactor : |d / t - d / p| * 2 ^ 53 ≤ d / t := by
    have hquotient : d / t - d / p = d / t * ((p - t) / p) := by
      field_simp
    have hratio : |t - p| / p * 2 ^ 53 ≤ 1 := by
      rw [div_mul_eq_mul_div, div_le_one hpos]
      exact hp
    rw [hquotient, abs_mul, abs_of_nonneg (div_nonneg hd ht.le), abs_div, abs_of_pos hpos,
      abs_sub_comm, mul_assoc]
    exact mul_le_of_le_one_right (div_nonneg hd ht.le) hratio
  have hvalue := le_abs_self (d / t - y)
  have hnonneg := abs_nonneg (d / p - y)
  linarith

/-! ## Decimals -/

namespace Binary

theorem abs_sub_tenPower_le {k : Nat} (hk : k ≤ 60) :
    |10 ^ k - (tenPower k).value| * 2 ^ 53 ≤ (tenPower k).value ∧
      1 / 2 ≤ (tenPower k).value ∧ (tenPower k).value ≤ 2 * 10 ^ 60 := by
  have hten : (1 : ℚ) ≤ 10 ^ k := one_le_pow₀ (by norm_num)
  have hten' : (10 : ℚ) ^ k ≤ 10 ^ 60 := pow_le_pow_right₀ (by norm_num) hk
  have hclose := (isNearest_tenPower hk).abs_sub_mul_le (le_trans (by norm_num) hten)
  have hbelow := le_abs_self (10 ^ k - (tenPower k).value)
  have habove := neg_abs_le (10 ^ k - (tenPower k).value)
  refine ⟨hclose, ?_, ?_⟩ <;> linarith

section Scaled

variable {n k : Nat} (hpos : 0 < n) (hn : n < 2 ^ 53) (hk : k ≤ 60)
include hpos hn hk

theorem product_tenPower : ((ofNat n : Double) * tenPower k).IsMagnitude ∧
    |n * 10 ^ k - ((ofNat n : Double) * tenPower k).value| * (2 ^ 52 - 1)
      ≤ ((ofNat n : Double) * tenPower k).value ∧
    (k ≤ 22 → ((ofNat n : Double) * tenPower k).IsNearest (n * 10 ^ k)) := by
  rcases value_ofNat hn with ⟨hmagnitude, hvalue⟩
  rcases abs_sub_tenPower_le hk with ⟨hclose, hbelow, habove⟩
  have hone : (1 : ℚ) ≤ n := by
    exact_mod_cast hpos
  have hlimit : (n : ℚ) ≤ 2 ^ 53 := by
    exact_mod_cast hn.le
  have hlow : (1 / 2 : ℚ) ≤ n * (tenPower k).value := by
    calc (1 / 2 : ℚ) = 1 * (1 / 2) := by norm_num
      _ ≤ n * (tenPower k).value := by gcongr
  have hhigh : n * (tenPower k).value ≤ 2 ^ 256 := by
    calc n * (tenPower k).value ≤ 2 ^ 53 * (2 * 10 ^ 60) := by gcongr
      _ ≤ 2 ^ 256 := by norm_num
  have hnearest : ((ofNat n : Double) * tenPower k).IsNearest (n * (tenPower k).value) := by
    rw [← hvalue]
    refine hmagnitude.mul (isNearest_tenPower hk).toIsMagnitude Format.largeCode_lt ?_
    rwa [hvalue, Format.magnitude_largeCode]
  refine ⟨hnearest.toIsMagnitude, ?_, fun hexact => ?_⟩
  · exact close_of_mul (Nat.cast_nonneg n) hclose
      (hnearest.abs_sub_mul_le (le_trans (by norm_num) hlow))
  · rwa [value_tenPower hexact] at hnearest

theorem quotient_tenPower : ((ofNat n : Double) / tenPower k).IsMagnitude ∧
    |n / 10 ^ k - ((ofNat n : Double) / tenPower k).value| * (2 ^ 52 - 1)
      ≤ ((ofNat n : Double) / tenPower k).value ∧
    (k ≤ 22 → ((ofNat n : Double) / tenPower k).IsNearest (n / 10 ^ k)) := by
  rcases value_ofNat hn with ⟨hmagnitude, hvalue⟩
  rcases abs_sub_tenPower_le hk with ⟨hclose, hbelow, habove⟩
  have hpower : 0 < (tenPower k).value := lt_of_lt_of_le (by norm_num) hbelow
  have hone : (1 : ℚ) ≤ n := by
    exact_mod_cast hpos
  have hlimit : (n : ℚ) ≤ 2 ^ 53 := by
    exact_mod_cast hn.le
  have hlow : 1 / (2 * 10 ^ 60) ≤ n / (tenPower k).value := by
    gcongr
  have hhigh : n / (tenPower k).value ≤ 2 ^ 256 := by
    calc n / (tenPower k).value ≤ 2 ^ 53 / (1 / 2) := by gcongr
      _ ≤ 2 ^ 256 := by norm_num
  have hnearest : ((ofNat n : Double) / tenPower k).IsNearest (n / (tenPower k).value) := by
    rw [← hvalue]
    refine hmagnitude.div (isNearest_tenPower hk).toIsMagnitude hpower Format.largeCode_lt ?_
    rwa [hvalue, Format.magnitude_largeCode]
  refine ⟨hnearest.toIsMagnitude, ?_, fun hexact => ?_⟩
  · exact close_of_div (Nat.cast_nonneg n) (by positivity) hpower hclose
      (hnearest.abs_sub_mul_le (le_trans (by norm_num) hlow))
  · rwa [value_tenPower hexact] at hnearest

end Scaled

theorem scaleByTen?_natCast {x : Double} {k : Nat} (hx : x.isZero = false)
    (hfinite : (x * tenPower k).isFinite = true) :
    x.scaleByTen? k = some (x * tenPower k) := by
  rw [scaleByTen?, hx, if_neg Bool.false_ne_true, if_pos (Int.natCast_nonneg k)]
  simp only [Int.toNat_natCast, hfinite, if_true]

theorem scaleByTen?_neg {x : Double} {k : Nat} (hx : x.isZero = false) (hpos : 0 < k)
    (hk : k ≤ greatestTenPower) : x.scaleByTen? (-k) = some (x / tenPower k) := by
  have hneg : ¬ (0 : ℤ) ≤ -k := by omega
  have hle : -(greatestTenPower : ℤ) ≤ -k := by omega
  rw [scaleByTen?, hx, if_neg Bool.false_ne_true, if_neg hneg, if_pos hle, Int.neg_neg,
    Int.toNat_natCast]

/-- A decimal of moderate size is read as a double that is close to it, and as the nearest one where
the power of ten is exact. -/
theorem exists_scaleByTen? {digits : Nat} {exponent : Int} (hpos : 0 < digits)
    (hdigits : digits < 2 ^ 53) (hlow : -60 ≤ exponent) (hhigh : exponent ≤ 60) :
    ∃ y, (ofNat digits : Double).scaleByTen? exponent = some y ∧ y.IsMagnitude ∧
      |Scaled.value ⟨digits, exponent⟩ - y.value| * (2 ^ 52 - 1) ≤ y.value ∧
      (exponent.natAbs ≤ 22 → y.IsNearest (Scaled.value ⟨digits, exponent⟩)) := by
  have hzero := isZero_ofNat hpos hdigits
  rcases lt_or_ge exponent 0 with hneg | hnonneg
  · obtain ⟨k, rfl⟩ : ∃ k : Nat, exponent = -k := ⟨exponent.natAbs, by omega⟩
    have hquotient := quotient_tenPower (k := k) hpos hdigits (by omega)
    have hdecimal : Scaled.value ⟨digits, -k⟩ = digits / 10 ^ k := by
      rw [Scaled.value, zpow_neg, zpow_natCast, div_eq_mul_inv]
    rw [hdecimal, Int.natAbs_neg, Int.natAbs_natCast]
    have hk : k ≤ greatestTenPower := le_trans (by omega : k ≤ 60) (by decide)
    exact ⟨_, scaleByTen?_neg hzero (by omega) hk, hquotient⟩
  · obtain ⟨k, rfl⟩ := Int.eq_ofNat_of_zero_le hnonneg
    have hproduct := product_tenPower (k := k) hpos hdigits (by omega)
    have hdecimal : Scaled.value ⟨digits, k⟩ = digits * 10 ^ k := by
      rw [Scaled.value, zpow_natCast]
    rw [hdecimal, Int.natAbs_natCast]
    exact ⟨_, scaleByTen?_natCast hzero hproduct.1.isFinite, hproduct⟩

end Binary
end SdfShader
