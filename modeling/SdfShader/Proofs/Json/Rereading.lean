import Mathlib.Data.Nat.Prime.Basic
import SdfShader.Proofs.Decimal.Choice
import SdfShader.Proofs.Decimal.Notation
import SdfShader.Proofs.Decimal.PowerOfTen
import SdfShader.Proofs.Json.Doubles

/-!
# Rereading — shortest decimals survive double precision

A decimal is read as a double first, which need not be the nearest one, and that is rounded to
single precision. The shortest decimal of a number is read as that number all the same: a double
that leaves the reading interval would have an end of the interval between itself and the decimal,
and no shortest decimal comes that close to an end, unless it is equal to it and read exactly.
Main statements:

* `mem_of_close`: what is close to a shortest decimal stays in the interval;
* `Binary.exists_reread`: the double that is read becomes the number again.
-/

namespace SdfShader

/-! ## Ends of the interval -/

theorem ReadingInterval.lt_or_lt_of_not_mem {i : ReadingInterval} {x y : ℚ} (hx : i.Mem x)
    (hy : ¬ i.Mem y) : x ≤ i.greatest ∧ i.greatest ≤ y ∨ y ≤ i.least ∧ i.least ≤ x := by
  have hleast := hx.least_le
  have hgreatest := hx.le_greatest
  unfold Mem at hy
  split at hy
  · rcases not_and_or.1 hy with h | h
    · exact .inr ⟨(not_le.1 h).le, hleast⟩
    · exact .inl ⟨hgreatest, (not_le.1 h).le⟩
  · rcases not_and_or.1 hy with h | h
    · exact .inr ⟨not_lt.1 h, hleast⟩
    · exact .inl ⟨hgreatest, not_lt.1 h⟩

/-- What lies between a value and a double that is close to it is near the value. -/
theorem near_of_between {x y e : ℚ} (hclose : |x - y| * (2 ^ 52 - 1) ≤ y)
    (hbetween : x ≤ e ∧ e ≤ y ∨ y ≤ e ∧ e ≤ x) : Near x e := by
  have haccuracy : (accuracy : ℚ) = 2 ^ 52 - 2 := by
    norm_num [accuracy]
  unfold Near
  rw [haccuracy]
  rcases hbetween with ⟨h1, h2⟩ | ⟨h1, h2⟩
  · rw [abs_of_nonpos (by linarith)] at hclose ⊢
    nlinarith
  · rw [abs_of_nonneg (by linarith)] at hclose ⊢
    nlinarith

namespace Format

variable {code : Nat}

theorem magnitude_infinity_single : single.magnitude single.infinity = 2 ^ (128 : ℤ) :=
  single.magnitude_shifted 254

theorem value_shortest_bounds (tie : Tie) (hcode : 0 < code) (hfinite : code < single.infinity) :
    (2 : ℚ) ^ (-150 : ℤ) ≤ (single.shortest tie code).value ∧
      (single.shortest tie code).value ≤ 2 ^ (128 : ℤ) := by
  have hmem := mem_shortest (f := single) tie hcode
  set v := (single.shortest tie code).value
  have hhalf : single.halfUnits v = v * 2 ^ 150 := rfl
  constructor
  · have hunits : 0 < single.units code := by
      rw [← single.units_zero]
      exact single.units_strictMono hcode
    have hone : 1 ≤ (single.readingInterval code).least := by
      simp only [readingInterval]
      omega
    have hleast : (1 : ℚ) ≤ v * 2 ^ 150 := by
      rw [← hhalf]
      exact le_trans (by exact_mod_cast hone) hmem.least_le
    rw [zpow_neg, inv_le_iff_one_le_mul₀ (by positivity)]
    exact_mod_cast hleast
  · have hunits : (single.readingInterval code).greatest ≤ 2 * single.units single.infinity := by
      have h1 := single.units_strictMono.monotone hfinite.le
      have h2 : single.units (code + 1) ≤ single.units single.infinity :=
        single.units_strictMono.monotone hfinite
      simp only [readingInterval]
      omega
    have hgreatest : single.halfUnits v
        ≤ single.halfUnits (single.magnitude single.infinity) := by
      rw [halfUnits_magnitude]
      exact hmem.le_greatest.trans (by exact_mod_cast hunits)
    rw [← magnitude_infinity_single]
    exact le_of_mul_le_mul_right hgreatest (by positivity)

/-- The last place of a shortest decimal. -/
theorem exponent_shortest_bounds (tie : Tie) (hcode : 0 < code) (hfinite : code < single.infinity) :
    0 < (single.shortest tie code).digits ∧
      -60 ≤ (single.shortest tie code).exponent ∧ (single.shortest tie code).exponent ≤ 38 := by
  rcases value_shortest_bounds tie hcode hfinite with ⟨hlow, hhigh⟩
  have hlimit := single.digits_shortest_le tie hcode
  set s := single.shortest tie code
  have hvalue : s.value = s.digits * 10 ^ s.exponent := rfl
  have hpos : 0 < s.digits := by
    rcases Nat.eq_zero_or_pos s.digits with hzero | hpos
    · rw [hvalue, hzero, Nat.cast_zero, zero_mul] at hlow
      exact absurd hlow (not_le.2 (by positivity))
    · exact hpos
  have hone : (1 : ℚ) ≤ s.digits := by
    exact_mod_cast hpos
  have hdigits : (s.digits : ℚ) ≤ 10 * 2 ^ 25 := by
    exact_mod_cast hlimit
  refine ⟨hpos, ?_, ?_⟩
  · by_contra hless
    have hpower : (10 : ℚ) ^ s.exponent ≤ 10 ^ (-61 : ℤ) :=
      zpow_le_zpow_right₀ (by norm_num) (by omega)
    have hsmall : s.value ≤ 10 * 2 ^ 25 * 10 ^ (-61 : ℤ) := by
      rw [hvalue]
      exact mul_le_mul hdigits hpower (zpow_pos (by norm_num) _).le (by norm_num)
    exact absurd (hlow.trans hsmall) (by norm_num)
  · by_contra hgreater
    have hpower : (10 : ℚ) ^ (39 : ℤ) ≤ 10 ^ s.exponent :=
      zpow_le_zpow_right₀ (by norm_num) (by omega)
    have hlarge : 1 * (10 : ℚ) ^ (39 : ℤ) ≤ s.value := by
      rw [hvalue]
      exact mul_le_mul hone hpower (zpow_pos (by norm_num) _).le (Nat.cast_nonneg _)
    exact absurd (hlarge.trans hhigh) (by norm_num)

theorem exists_gap_eq (f : Format) (code : Nat) : ∃ k, f.gap code = 2 ^ k :=
  ⟨_, rfl⟩

/-- A point halfway between two magnitudes is an odd number of few bits, in some place. -/
theorem exists_halfway_single_eq (code : Nat) : ∃ m k : Nat, 0 < m ∧ m < endLimit ∧
    (single.gap code : ℚ) = 2 ^ k ∧ (single.halfway code : ℚ) = m * 2 ^ k := by
  rcases single.exists_halfway_eq code with ⟨m, hm, hhalfway⟩
  rcases single.exists_gap_eq code with ⟨k, hk⟩
  have hlimit : 2 * m + 1 < endLimit := by
    have hm : m < 2 ^ 24 := hm
    simp only [endLimit]
    omega
  refine ⟨2 * m + 1, k, Nat.succ_pos _, hlimit, by exact_mod_cast hk, ?_⟩
  rw [hhalfway, hk]
  push_cast
  rfl

/-- What is near a point halfway between two magnitudes is much closer to it than they are. -/
theorem abs_sub_halfway_le {x : ℚ} {code : Nat} (h : Near x (single.halfway code)) :
    8 * |x - single.halfway code| ≤ single.gap code := by
  rcases exists_halfway_single_eq code with ⟨m, k, -, hlimit, hgap, hend⟩
  have hbound : (single.halfway code : ℚ) ≤ 2 ^ 25 * single.gap code := by
    rw [hend, hgap]
    refine mul_le_mul_of_nonneg_right ?_ (by positivity)
    exact_mod_cast hlimit.le
  have haccuracy : (accuracy : ℚ) = 2 ^ 52 - 2 := by
    norm_num [accuracy]
  unfold Near at h
  rw [haccuracy] at h
  have habs := abs_nonneg (x - single.halfway code)
  linarith

/-- A grid step that is no narrower than five fourths of half a unit is no low place. -/
theorem le_of_halfUnits_ge {exponent : Int} {k : Nat}
    (h : 5 * 2 ^ k ≤ 4 * single.halfUnits (Scaled.value ⟨1, exponent⟩)) : -45 ≤ exponent := by
  by_contra hless
  have hpower : (10 : ℚ) ^ exponent ≤ 10 ^ (-46 : ℤ) :=
    zpow_le_zpow_right₀ (by norm_num) (by omega)
  have hstep : single.halfUnits (Scaled.value ⟨1, exponent⟩) ≤ 10 ^ (-46 : ℤ) * 2 ^ 150 := by
    simp only [halfUnits, Scaled.value, Nat.cast_one, one_mul]
    exact mul_le_mul_of_nonneg_right hpower (by positivity)
  have hone : (1 : ℚ) ≤ 2 ^ k := one_le_pow₀ one_le_two
  have hfive : (5 : ℚ) ≤ 4 * (10 ^ (-46 : ℤ) * 2 ^ 150) := by linarith
  exact absurd hfive (by norm_num)

/-- A shortest decimal near an end of the interval is equal to it, or one of the exceptions. -/
theorem eq_or_exceptional_of_near_halfway (tie : Tie) {near : Nat} (hcode : 0 < code)
    (hfinite : code < single.infinity) (hside : near = code ∨ near + 1 = code)
    (hnear : Near (single.halfUnits (single.shortest tie code).value) (single.halfway near)) :
    (∃ m k : Nat, 0 < m ∧ m < endLimit ∧ (single.halfway near : ℚ) = m * 2 ^ k ∧
      single.halfUnits (single.shortest tie code).value = single.halfway near) ∨
      single.shortest tie code ∈ exceptionalDecimals := by
  rcases exists_halfway_single_eq near with ⟨m, k, hpos, hlimit, hgap, hend⟩
  -- The decimal is next to the end, so its last place is as wide as the gap.
  have hwide := single.gap_le_of_shortest_near tie hcode hside (abs_sub_halfway_le hnear)
  rcases exponent_shortest_bounds tie hcode hfinite with ⟨-, -, hhigh⟩
  rw [hgap] at hwide
  rw [hend] at hnear ⊢
  exact (eq_or_exceptional_of_near (le_of_halfUnits_ge hwide) hhigh hpos hlimit hwide hnear).imp
    (fun hequal => ⟨m, k, hpos, hlimit, rfl, hequal⟩) id

/-- What is close to a shortest decimal, and equal to it where that has few bits, stays in the
interval. -/
theorem mem_of_close (tie : Tie) (hcode : 0 < code) (hfinite : code < single.infinity) {y : ℚ}
    (hclose : |(single.shortest tie code).value - y| * (2 ^ 52 - 1) ≤ y)
    (hexact : ∀ m k : Nat, 0 < m → m < endLimit →
      single.halfUnits (single.shortest tie code).value = m * 2 ^ k →
      y = (single.shortest tie code).value)
    (hordinary : single.shortest tie code ∉ exceptionalDecimals) :
    (single.readingInterval code).Mem (single.halfUnits y) := by
  have hmem := mem_shortest (f := single) tie hcode
  by_contra hout
  have hbetween := ReadingInterval.lt_or_lt_of_not_mem hmem hout
  have hclose' : |single.halfUnits (single.shortest tie code).value - single.halfUnits y|
      * (2 ^ 52 - 1) ≤ single.halfUnits y := by
    have hpower : (0 : ℚ) < 2 ^ (single.unitBits + 1) := by positivity
    rw [halfUnits, halfUnits, ← sub_mul, abs_mul, abs_of_pos hpower, mul_right_comm]
    exact mul_le_mul_of_nonneg_right hclose hpower.le
  obtain ⟨near, hside, hnear⟩ : ∃ near, (near = code ∨ near + 1 = code) ∧
      Near (single.halfUnits (single.shortest tie code).value) (single.halfway near) := by
    rcases hbetween with habove | hbelow
    · exact ⟨code, .inl rfl, near_of_between hclose' (.inl habove)⟩
    · rw [single.least_eq_halfway hcode] at hbelow
      exact ⟨code - 1, .inr (Nat.sub_add_cancel hcode), near_of_between hclose' (.inr hbelow)⟩
  rcases eq_or_exceptional_of_near_halfway tie hcode hfinite hside hnear with
    ⟨m, k, hpos, hlimit, hend, hequal⟩ | hexceptional
  · -- The decimal is the end itself, so nothing was rounded.
    rw [hexact m k hpos hlimit (hequal.trans hend)] at hout
    exact hout hmem
  · exact hordinary hexceptional

end Format

/-! ## Exact decimals -/

theorem le_twelve_of_five_pow_dvd {j n : Nat} (hpos : 0 < n) (hn : n ≤ 10 * 2 ^ 25)
    (h : 5 ^ j ∣ n) : j ≤ 12 := by
  by_contra hlong
  have hpower : 5 ^ 13 ≤ 5 ^ j := Nat.pow_le_pow_right (by decide) (by omega)
  have hle := hpower.trans (Nat.le_of_dvd hpos h)
  omega

/-- A decimal with few digits and few bits has a small exponent. -/
theorem natAbs_exponent_le {digits m k bits : Nat} {exponent : Int} (hdigits : 0 < digits)
    (hlimit : digits ≤ 10 * 2 ^ 25) (hm : 0 < m) (hend : m < endLimit)
    (h : (digits : ℚ) * 10 ^ exponent * 2 ^ bits = m * 2 ^ k) : exponent.natAbs ≤ 12 := by
  have hcoprime : ∀ j l : Nat, Nat.Coprime (5 ^ j) (2 ^ l) := fun j l =>
    Nat.Coprime.pow _ _ (by decide)
  have hten : ∀ j : Nat, 5 ^ j ∣ 10 ^ j := fun j => pow_dvd_pow_of_dvd (by decide) j
  rcases lt_or_ge exponent 0 with hneg | hnonneg
  · obtain ⟨j, rfl⟩ : ∃ j : Nat, exponent = -j := ⟨exponent.natAbs, by omega⟩
    have hproduct : digits * 2 ^ bits = m * 2 ^ k * 10 ^ j := by
      rw [zpow_neg, zpow_natCast, mul_right_comm, mul_inv_eq_iff_eq_mul₀ (by positivity)] at h
      exact_mod_cast h
    have hdvd : 5 ^ j ∣ digits * 2 ^ bits := hproduct ▸ (hten j).mul_left _
    rw [Int.natAbs_neg, Int.natAbs_natCast]
    exact le_twelve_of_five_pow_dvd hdigits hlimit ((hcoprime j bits).dvd_of_dvd_mul_right hdvd)
  · obtain ⟨j, rfl⟩ := Int.eq_ofNat_of_zero_le hnonneg
    have hproduct : m * 2 ^ k = digits * 10 ^ j * 2 ^ bits := by
      rw [zpow_natCast] at h
      exact_mod_cast h.symm
    have hdvd : 5 ^ j ∣ m * 2 ^ k := hproduct ▸ ((hten j).mul_left _).mul_right _
    have hm' : m ≤ 10 * 2 ^ 25 := by
      simp only [endLimit] at hend
      omega
    rw [Int.natAbs_natCast]
    exact le_twelve_of_five_pow_dvd hm hm' ((hcoprime j k).dvd_of_dvd_mul_right hdvd)

/-! ## Rereading -/

/-- The decimals in question are read as numbers in whose intervals they lie. -/
theorem contains_exceptional : ∀ s ∈ exceptionalDecimals,
    let x := ((Binary.ofNat s.digits : Double) / tenPower 32).convert .single
    0 < s.digits ∧ s.exponent = -32 ∧ x.negative = false ∧
      (Format.single.readingInterval x.code).contains (Format.single.gridStep s.exponent) s.digits
        = true := by
  decide +kernel

/-- The same decimal again, or a whole number with all its zeros and one place behind the point. -/
def Scaled.IsRewriting (s w : Scaled) : Prop :=
  w = s ∨ 0 ≤ s.exponent ∧ w = ⟨s.digits * 10 ^ (s.exponent.toNat + 1), -1⟩ ∧ w.digits < 2 ^ 53

theorem Scaled.IsRewriting.value_eq {s w : Scaled} (h : s.IsRewriting w) : w.value = s.value := by
  rcases h with rfl | ⟨hsign, rfl, -⟩
  · rfl
  · have hexponent : (-1 : ℤ) + (s.exponent.toNat + 1 : Nat) = s.exponent := by omega
    rw [value_mul_pow, hexponent]

namespace Binary

section Reread

variable (tie : Tie) {code : Nat} {w : Scaled} (hcode : 0 < code)
include hcode

/-- The exceptions are read as they should be. -/
theorem exists_reread_exceptional
    (hw : (Format.single.shortest tie code).IsRewriting w)
    (hexceptional : Format.single.shortest tie code ∈ exceptionalDecimals) :
    ∃ y, (ofNat w.digits : Double).scaleByTen? w.exponent = some y ∧ y.IsMagnitude ∧
      (y.convert .single).negative = false ∧ (y.convert .single).code = code := by
  have hmem := Format.mem_shortest (f := .single) tie hcode
  have hlimit := Format.single.digits_shortest_le tie hcode
  generalize Format.single.shortest tie code = s at *
  rcases contains_exceptional s hexceptional with ⟨hpos, hexponent, hsign, hcontains⟩
  rcases hw with hw | ⟨hnonneg, -, -⟩
  · have hdigits : s.digits < 2 ^ 53 := lt_of_le_of_lt hlimit (by decide)
    have hmagnitude := (quotient_tenPower (k := 32) hpos hdigits (by decide)).1
    have hread : (ofNat w.digits : Double).scaleByTen? w.exponent
        = some (ofNat s.digits / tenPower 32) := by
      rw [hw, hexponent]
      exact scaleByTen?_neg (isZero_ofNat hpos hdigits) (by decide) (by decide)
    refine ⟨_, hread, hmagnitude, hsign, ?_⟩
    -- Nothing is to compute the number from here on.
    generalize (ofNat s.digits / tenPower 32 : Double).convert .single = x at hcontains ⊢
    exact Format.eq_of_mem (ReadingInterval.contains_iff.1 hcontains) hmem
  · omega

variable (hfinite : code < Format.single.infinity)
include hfinite

/-- The double that a shortest decimal is read as becomes the number again. -/
theorem exists_reread (hw : (Format.single.shortest tie code).IsRewriting w) :
    ∃ y, (ofNat w.digits : Double).scaleByTen? w.exponent = some y ∧ y.IsMagnitude ∧
      (y.convert .single).negative = false ∧ (y.convert .single).code = code := by
  by_cases hexceptional : Format.single.shortest tie code ∈ exceptionalDecimals
  · exact exists_reread_exceptional tie hcode hw hexceptional
  rcases Format.exponent_shortest_bounds tie hcode hfinite with ⟨hpos, hlow, hhigh⟩
  have hlimit := Format.single.digits_shortest_le tie hcode
  set s := Format.single.shortest tie code with hs
  have hvalue : w.value = s.value := hw.value_eq
  have hbounds : 0 < w.digits ∧ w.digits < 2 ^ 53 ∧ -60 ≤ w.exponent ∧ w.exponent ≤ 60 ∧
      (s.exponent.natAbs ≤ 12 → w.exponent.natAbs ≤ 22) := by
    rcases hw with hw | ⟨-, hw, hdigits⟩
    · rw [hw]
      exact ⟨hpos, lt_of_le_of_lt hlimit (by decide), hlow, by omega, by omega⟩
    · refine ⟨?_, hdigits, ?_⟩
      · rw [hw]
        exact Nat.mul_pos hpos (Nat.pow_pos (by decide))
      · rw [hw]
        dsimp only
        omega
  rcases hbounds with ⟨hpos', hdigits, hlow', hhigh', hsmall⟩
  rcases exists_scaleByTen? hpos' hdigits hlow' hhigh' with ⟨y, hy, hmagnitude, hnear, hexact⟩
  change |w.value - y.value| * _ ≤ _ at hnear
  rw [hvalue] at hnear
  refine ⟨y, hy, hmagnitude, hmagnitude.code_convert hfinite
    (Format.mem_of_close tie hcode hfinite hnear (fun m k hm hend hequal => ?_) hexceptional)⟩
  -- A decimal with few bits is a double, and it is read by an exact power of ten.
  have hexponent : s.exponent.natAbs ≤ 12 := natAbs_exponent_le hpos hlimit hm hend hequal
  have hnearest : y.IsNearest s.value := by
    rw [← hvalue]
    exact hexact (hsmall hexponent)
  have hdouble : s.value * 2 ^ Format.double.unitBits = m * 2 ^ (k + 924) := by
    have hunits : (2 : ℚ) ^ Format.double.unitBits = 2 ^ 150 * 2 ^ 924 := by
      rw [← pow_add]
      rfl
    rw [hunits, ← mul_assoc, pow_add, ← mul_assoc, ← hequal]
    rfl
  have hm53 : m ≤ 2 ^ 53 := hend.le.trans (by decide)
  rcases Format.exists_magnitude_double hm53 _ hdouble with ⟨double, hmagnitude'⟩
  exact hnearest.value_eq hmagnitude'

end Reread

end Binary
end SdfShader
