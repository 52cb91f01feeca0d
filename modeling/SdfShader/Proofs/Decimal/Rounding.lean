import Mathlib.Algebra.Order.Group.Unbundled.Abs
import SdfShader.Proofs.Decimal.Notation
import SdfShader.Proofs.Number.Nearest

/-!
# Rounding — the number that a numeral is read as

A number of a format is nearest to a value if no magnitude is nearer, and of two that are equally
near it is the one with the even code. The reading intervals are made of just these values, and a
numeral is read as a finite number if and only if the signs agree and the magnitude is the nearest
one. Infinity counts as the magnitude that would come next. Main statements:

* `Format.Rounds`: the magnitude to which a value is rounded, ties to even;
* `Format.rounds_iff_mem`: the values that are rounded to a finite magnitude form its interval;
* `Numeral.nearest_eq_iff`: what a numeral is read as.
-/

namespace SdfShader

/-! ## Nearest magnitudes -/

/-- Whether a value is rounded to the magnitude with a code. -/
structure Format.Rounds (f : Format) (v : ℚ) (code : Nat) : Prop where
  nearest : ∀ other ≤ f.infinity, |v - f.magnitude code| ≤ |v - f.magnitude other|
  even : ∀ other ≤ f.infinity, |v - f.magnitude code| = |v - f.magnitude other| →
    other = code ∨ code % 2 = 0

/-- The lower one of two points is no farther away up to the middle. -/
theorem abs_sub_le_abs_sub_iff {x a b : ℚ} (h : a < b) : |x - a| ≤ |x - b| ↔ 2 * x ≤ a + b := by
  rw [← sq_le_sq]
  constructor
  · intro hle
    nlinarith
  · intro hle
    nlinarith

theorem abs_sub_le_abs_sub_iff_of_gt {x a b : ℚ} (h : a < b) :
    |x - b| ≤ |x - a| ↔ a + b ≤ 2 * x := by
  rw [← sq_le_sq]
  constructor
  · intro hle
    nlinarith
  · intro hle
    nlinarith

namespace Format

variable {f : Format} {v : ℚ} {c d code : Nat}

theorem halfUnits_strictMono (f : Format) : StrictMono f.halfUnits := fun _ _ h =>
  mul_lt_mul_of_pos_right h (by positivity)

theorem halfUnits_nonneg (h : 0 ≤ v) : 0 ≤ f.halfUnits v :=
  mul_nonneg h (by positivity)

theorem abs_sub_magnitude (f : Format) (v : ℚ) (code : Nat) :
    |v - f.magnitude code| * 2 ^ (f.unitBits + 1) = |f.halfUnits v - 2 * f.units code| := by
  have hpower : (0 : ℚ) < 2 ^ (f.unitBits + 1) := by positivity
  rw [← halfUnits_magnitude, halfUnits, halfUnits, ← sub_mul, abs_mul, abs_of_pos hpower]

section Two

variable (h : c < d)
include h

/-- Up to the middle between two magnitudes the lower one is no farther away. -/
theorem lower_nearest_iff : |v - f.magnitude c| ≤ |v - f.magnitude d|
    ↔ f.halfUnits v ≤ f.units c + f.units d := by
  have hunits : (2 * f.units c : ℚ) < 2 * f.units d := by
    exact_mod_cast Nat.mul_lt_mul_of_pos_left (f.units_strictMono h) two_pos
  rw [← mul_le_mul_iff_left₀ (show (0 : ℚ) < 2 ^ (f.unitBits + 1) by positivity),
    abs_sub_magnitude, abs_sub_magnitude, abs_sub_le_abs_sub_iff hunits, ← mul_add,
    mul_le_mul_iff_right₀ two_pos]

/-- From there on, so is the higher one. -/
theorem higher_nearest_iff : |v - f.magnitude d| ≤ |v - f.magnitude c|
    ↔ f.units c + f.units d ≤ f.halfUnits v := by
  have hunits : (2 * f.units c : ℚ) < 2 * f.units d := by
    exact_mod_cast Nat.mul_lt_mul_of_pos_left (f.units_strictMono h) two_pos
  rw [← mul_le_mul_iff_left₀ (show (0 : ℚ) < 2 ^ (f.unitBits + 1) by positivity),
    abs_sub_magnitude, abs_sub_magnitude, abs_sub_le_abs_sub_iff_of_gt hunits, ← mul_add,
    mul_le_mul_iff_right₀ two_pos]

/-- Equally far is only the middle. -/
theorem equally_near_iff : |v - f.magnitude c| = |v - f.magnitude d|
    ↔ f.halfUnits v = f.units c + f.units d := by
  rw [le_antisymm_iff, lower_nearest_iff h, higher_nearest_iff h, ← le_antisymm_iff]

end Two

/-- An interval with an odd code does not have its ends. -/
theorem mem_readingInterval_iff {x : ℚ} : (f.readingInterval code).Mem x ↔
    ((f.readingInterval code).least ≤ x ∧ x ≤ (f.readingInterval code).greatest) ∧
      (x = (f.readingInterval code).least ∨ x = (f.readingInterval code).greatest →
        code % 2 = 0) := by
  by_cases heven : code % 2 = 0
  · have hclosed : (f.readingInterval code).closed = true := decide_eq_true heven
    simp [ReadingInterval.Mem, hclosed, heven]
  · have hopen : (f.readingInterval code).closed = false := decide_eq_false heven
    simp only [ReadingInterval.Mem, hopen, Bool.false_eq_true, if_false, heven, imp_false, not_or]
    constructor
    · rintro ⟨hlower, hupper⟩
      exact ⟨⟨hlower.le, hupper.le⟩, hlower.ne', hupper.ne⟩
    · rintro ⟨⟨hlower, hupper⟩, hleast, hgreatest⟩
      exact ⟨lt_of_le_of_ne' hlower hleast, lt_of_le_of_ne hupper hgreatest⟩

/-- The values that are rounded to a finite magnitude form its interval. -/
theorem rounds_iff_mem (hv : 0 ≤ v) (hfinite : code < f.infinity) :
    f.Rounds v code ↔ (f.readingInterval code).Mem (f.halfUnits v) := by
  have hgreatest : ((f.readingInterval code).greatest : ℚ) = f.units code + f.units (code + 1) :=
    Nat.cast_add _ _
  have hleast : ((f.readingInterval code).least : ℚ) = f.units (code - 1) + f.units code :=
    Nat.cast_add _ _
  rw [mem_readingInterval_iff]
  constructor
  · intro h
    -- Only the two neighbours matter.
    have hup := h.nearest (code + 1) hfinite
    rw [lower_nearest_iff (Nat.lt_succ_self code), ← hgreatest] at hup
    have hdown : (f.readingInterval code).least ≤ f.halfUnits v := by
      cases code with
      | zero =>
          simpa [hleast, f.units_zero] using halfUnits_nonneg hv
      | succ c =>
          have hprevious := h.nearest c (Nat.le_of_succ_le hfinite.le)
          rw [higher_nearest_iff (Nat.lt_succ_self c)] at hprevious
          rwa [hleast, Nat.add_sub_cancel]
    refine ⟨⟨hdown, hup⟩, ?_⟩
    rintro (hend | hend)
    · cases code with
      | zero =>
          rfl
      | succ c =>
          rw [hleast, Nat.add_sub_cancel, ← equally_near_iff (Nat.lt_succ_self c), eq_comm] at hend
          exact (h.even c (Nat.le_of_succ_le hfinite.le) hend).resolve_left (Nat.succ_ne_self c).symm
    · rw [hgreatest, ← equally_near_iff (Nat.lt_succ_self code)] at hend
      exact (h.even (code + 1) hfinite hend).resolve_left (Nat.succ_ne_self code)
  · rintro ⟨⟨hdown, hup⟩, heven⟩
    have hbelow : ∀ other < code, f.units other + f.units code
        ≤ ((f.readingInterval code).least : ℚ) := by
      intro other hother
      rw [hleast]
      exact_mod_cast Nat.add_le_add_right
        (f.units_strictMono.monotone (Nat.le_sub_one_of_lt hother)) _
    have habove : ∀ other, code < other → ((f.readingInterval code).greatest : ℚ)
        ≤ f.units code + f.units other := by
      intro other hother
      rw [hgreatest]
      exact_mod_cast Nat.add_le_add_left (f.units_strictMono.monotone hother) _
    constructor
    · intro other _
      rcases Nat.lt_trichotomy other code with hlt | rfl | hgt
      · exact (higher_nearest_iff hlt).2 ((hbelow other hlt).trans hdown)
      · exact le_rfl
      · exact (lower_nearest_iff hgt).2 (hup.trans (habove other hgt))
    · intro other _ heq
      rcases Nat.lt_trichotomy other code with hlt | rfl | hgt
      · rw [eq_comm, equally_near_iff hlt] at heq
        exact .inr (heven (.inl (le_antisymm (heq.trans_le (hbelow other hlt)) hdown)))
      · exact .inl rfl
      · rw [equally_near_iff hgt] at heq
        exact .inr (heven (.inr (le_antisymm hup ((habove other hgt).trans_eq heq.symm))))

end Format

/-! ## Reading -/

/-- Whether a numeral stands for a number after rounding. -/
structure Numeral.Denotes {f : Format} (n : Numeral) (x : Binary f) : Prop where
  sign : n.negative = x.negative
  magnitude : f.Rounds n.value x.code

theorem Scaled.value_nonneg (s : Scaled) : 0 ≤ s.value :=
  mul_nonneg (Nat.cast_nonneg _) (zpow_nonneg (by norm_num) _)

namespace Binary

/-- A quotient of units is rounded to the finite number in whose interval it lies. -/
theorem ofUnits_eq_iff {f : Format} {x : Binary f} (h : x.isFinite = true) {negative : Bool}
    {num den : Nat} (hden : 0 < den) : ofUnits negative num den = x ↔
      negative = x.negative ∧ (f.readingInterval x.code).Mem ((2 * num : Nat) / den) := by
  have hfinite : x.code < f.infinity := of_decide_eq_true h
  have hcode : f.nearestCode num den = x.code ↔
      (f.readingInterval x.code).Mem ((2 * num : Nat) / den) := by
    constructor
    · intro hcode
      have hunbounded : f.unboundedCode num den = x.code := by
        rw [Format.nearestCode_eq_min] at hcode
        omega
      rw [← hunbounded]
      exact f.mem_unboundedCode num hden
    · exact Format.nearestCode_eq_of_mem hden hfinite
  rw [← hcode]
  constructor
  · rintro rfl
    exact ⟨rfl, rfl⟩
  · rintro ⟨hsign, hcode⟩
    cases x
    cases hsign
    cases hcode
    rfl

theorem zero_eq_iff {f : Format} {x : Binary f} {negative : Bool} :
    zero negative = x ↔ negative = x.negative ∧ x.code = 0 := by
  constructor
  · rintro rfl
    exact ⟨rfl, rfl⟩
  · rintro ⟨hsign, hcode⟩
    cases x
    cases hsign
    cases hcode
    rfl

end Binary

namespace Format

variable {f : Format} {v : ℚ} {code : Nat}

/-- What reaches infinity is not rounded to a finite magnitude. -/
theorem not_mem_of_infinity_le (hfinite : code < f.infinity) (hv : f.magnitude f.infinity ≤ v) :
    ¬ (f.readingInterval code).Mem (f.halfUnits v) := by
  intro hmem
  have hend : (f.readingInterval code).greatest < 2 * f.units f.infinity := by
    have hunits := f.units_strictMono hfinite
    have hnext : f.units (code + 1) ≤ f.units f.infinity := f.units_strictMono.monotone hfinite
    simp only [readingInterval]
    omega
  have hlarge : f.halfUnits (f.magnitude f.infinity) ≤ f.halfUnits v :=
    mul_le_mul_of_nonneg_right hv (by positivity)
  rw [halfUnits_magnitude] at hlarge
  have hend' : ((f.readingInterval code).greatest : ℚ) < 2 * f.units f.infinity := by
    exact_mod_cast hend
  exact absurd (hlarge.trans hmem.le_greatest) (not_le.2 hend')

/-- Half of the least magnitude and less is rounded to zero, and to nothing else. -/
theorem mem_iff_eq_zero (hv : 0 ≤ v) (hsmall : f.halfUnits v ≤ 1) :
    (f.readingInterval code).Mem (f.halfUnits v) ↔ code = 0 := by
  have hone : (f.readingInterval 0).greatest = 1 := by
    simp [readingInterval, units_succ, f.units_zero, gap_of_lt (Nat.two_pow_pos f.fractionBits)]
  have hzero : (f.readingInterval 0).least = 0 := by
    simp [readingInterval, f.units_zero]
  have hmem : (f.readingInterval 0).Mem (f.halfUnits v) := by
    rw [mem_readingInterval_iff, hone, hzero]
    exact ⟨⟨by simpa using halfUnits_nonneg hv, by simpa using hsmall⟩, fun _ => rfl⟩
  constructor
  · intro h
    exact eq_of_mem h hmem
  · rintro rfl
    exact hmem

end Format

/-- The leading digit of a decimal gives its order of magnitude. -/
theorem Scaled.value_bounds {s : Scaled} (h : 0 < s.digits) :
    10 ^ s.leading ≤ s.value ∧ s.value < 10 ^ (s.leading + 1) := by
  obtain ⟨places, hplaces⟩ : ∃ places, (Nat.toDigits 10 s.digits).length = places + 1 :=
    ⟨_, (Nat.sub_add_cancel Nat.length_toDigits_pos).symm⟩
  have hupper : s.digits < 10 ^ (places + 1) :=
    (Nat.length_toDigits_le_iff (by decide) (Nat.succ_pos _)).1 hplaces.le
  have hlower : 10 ^ places ≤ s.digits := by
    rcases Nat.eq_zero_or_pos places with rfl | hpos
    · exact h
    · rw [← Nat.not_lt, ← Nat.length_toDigits_le_iff (by decide) hpos]
      omega
  have hleading : s.leading = places + s.exponent := by
    rw [leading, hplaces]
    omega
  have hten : (10 : ℚ) ≠ 0 := by norm_num
  have hpower : (0 : ℚ) < 10 ^ s.exponent := zpow_pos (by norm_num) _
  have hnext : (10 : ℚ) ^ (places + s.exponent + 1) = 10 ^ (places + 1) * 10 ^ s.exponent := by
    rw [← zpow_natCast, ← zpow_add₀ hten]
    congr 1
    push_cast
    ring
  rw [hleading, hnext, zpow_add₀ hten, zpow_natCast, value]
  constructor
  · refine mul_le_mul_of_nonneg_right ?_ hpower.le
    exact_mod_cast hlower
  · refine mul_lt_mul_of_pos_right ?_ hpower
    exact_mod_cast hupper

namespace Format

/-- Decimals of the order of magnitude that is cut off above are beyond infinity. -/
theorem magnitude_infinity_single_le : single.magnitude single.infinity ≤ 10 ^ (256 : ℤ) := by
  have hunits : single.units single.infinity = 2 ^ 128 * 2 ^ 149 := by
    decide +kernel
  rw [magnitude, hunits, show single.unitBits = 149 from rfl]
  norm_num

/-- Those of the order of magnitude that is cut off below are nearer to zero. -/
theorem halfUnits_single_le_one {v : ℚ} (h : v ≤ 10 ^ (-256 : ℤ)) : single.halfUnits v ≤ 1 := by
  calc single.halfUnits v ≤ 10 ^ (-256 : ℤ) * 2 ^ (149 + 1) :=
        mul_le_mul_of_nonneg_right h (by positivity)
    _ ≤ 1 := by norm_num

end Format

namespace Binary

/-- A decimal is rounded to the finite number in whose interval it lies. -/
theorem ofDecimal_eq_iff {x : Single} (h : x.isFinite = true) {negative : Bool} {digits : Nat}
    {scale : Int} : ofDecimal .single negative digits scale = x ↔ negative = x.negative ∧
      (Format.single.readingInterval x.code).Mem
        (Format.single.halfUnits (Scaled.value ⟨digits, scale⟩)) := by
  have hfinite : x.code < Format.single.infinity := of_decide_eq_true h
  have hnonneg : 0 ≤ Scaled.value ⟨digits, scale⟩ := Scaled.value_nonneg _
  have hten : (1 : ℚ) ≤ 10 := by norm_num
  have hbits : (2 : ℤ) ^ Format.single.exponentBits = 256 := rfl
  unfold ofDecimal
  dsimp only
  split
  case isTrue hzero =>
      rw [zero_eq_iff, Format.mem_iff_eq_zero hnonneg]
      simp [Format.halfUnits, Scaled.value, hzero]
  case isFalse hpos =>
      rcases Scaled.value_bounds (s := ⟨digits, scale⟩) (Nat.pos_of_ne_zero hpos) with
        ⟨hlower, hupper⟩
      rw [Scaled.leading] at hlower hupper
      dsimp only at hlower hupper
      split
      case isTrue hlarge =>
          have hexponent : (256 : ℤ) ≤ scale + (Nat.toDigits 10 digits).length - 1 := by omega
          have hbound := Format.magnitude_infinity_single_le.trans
            ((zpow_le_zpow_right₀ hten hexponent).trans hlower)
          refine iff_of_false ?_ fun hx => Format.not_mem_of_infinity_le hfinite hbound hx.2
          rintro rfl
          exact hfinite.ne rfl
      case isFalse =>
          split
          case isTrue hsmall =>
              have hexponent : scale + (Nat.toDigits 10 digits).length - 1 + 1 ≤ -256 := by omega
              have hbound := hupper.le.trans (zpow_le_zpow_right₀ hten hexponent)
              rw [zero_eq_iff, Format.mem_iff_eq_zero hnonneg]
              exact Format.halfUnits_single_le_one hbound
          case isFalse =>
              have hquotient : Format.single.halfUnits (Scaled.value ⟨digits, scale⟩)
                  = (2 * (digits * 10 ^ scale.toNat * 2 ^ Format.single.unitBits) : Nat)
                    / (10 ^ (-scale).toNat : Nat) := by
                rw [Format.halfUnits_grid, Format.gridStep, pow_succ]
                push_cast
                ring
              rw [ofUnits_eq_iff h (Nat.pow_pos (by decide)), hquotient]

end Binary

/-- A numeral is read as a finite number if and only if that is the nearest one. -/
theorem Numeral.nearest_eq_iff {n : Numeral} {x : Single} (h : x.isFinite = true) :
    n.nearest .single = x ↔ n.Denotes x := by
  have hfinite : x.code < Format.single.infinity := of_decide_eq_true h
  rw [nearest, Binary.ofDecimal_eq_iff h,
    ← Format.rounds_iff_mem (Scaled.value_nonneg _) hfinite]
  exact ⟨fun ⟨hsign, hmagnitude⟩ => ⟨hsign, hmagnitude⟩, fun hn => ⟨hn.sign, hn.magnitude⟩⟩

end SdfShader
