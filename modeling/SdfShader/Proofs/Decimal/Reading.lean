import Mathlib.Algebra.Order.Field.Basic
import Mathlib.Algebra.Order.Field.Rat
import Mathlib.Order.Monotone.Basic
import Mathlib.Tactic.FieldSimp
import Mathlib.Tactic.Linarith
import Mathlib.Tactic.NormNum
import Mathlib.Tactic.Positivity
import Mathlib.Tactic.Ring
import SdfShader.Decimal.Shortest

/-!
# Reading — the decimals that stand for a number

The shortest decimal of a magnitude always exists and lies in the interval of those that read back
as it. No two intervals have a value in common, so two magnitudes with the same decimal are one.
Values are rational numbers here. Main statements:

* `Format.units_strictMono`: a greater code stands for a greater magnitude;
* `Format.eq_of_mem`: a value lies in one interval only;
* `Format.mem_shortest`: the shortest decimal lies in its interval;
* `Format.shortest_value_injective`: and so it determines the code.
-/

namespace SdfShader

/-! ## Magnitudes -/

namespace Format

variable {f : Format}

/-- How far the next magnitude is away, in units. -/
def gap (f : Format) (code : Nat) : Nat :=
  2 ^ (code / 2 ^ f.fractionBits - 1)

theorem gap_pos (code : Nat) : 0 < f.gap code :=
  Nat.two_pow_pos _

/-- A code is less than one step of the exponent, or it has an exponent and a fraction. -/
theorem code_lt_or_eq (f : Format) (code : Nat) : code < 2 ^ f.fractionBits ∨
    ∃ exponent fraction, fraction < 2 ^ f.fractionBits ∧
      code = 2 ^ f.fractionBits * (exponent + 1) + fraction := by
  rcases Nat.lt_or_ge code (2 ^ f.fractionBits) with hlt | hge
  · exact .inl hlt
  · have hstep : 0 < 2 ^ f.fractionBits := Nat.two_pow_pos _
    have hpos : 0 < code / 2 ^ f.fractionBits := Nat.div_pos hge hstep
    refine .inr ⟨code / 2 ^ f.fractionBits - 1, code % 2 ^ f.fractionBits,
      Nat.mod_lt _ hstep, ?_⟩
    rw [Nat.sub_add_cancel hpos, Nat.div_add_mod]

theorem units_of_lt {code : Nat} (h : code < 2 ^ f.fractionBits) : f.units code = code := by
  simp [units, h]

theorem gap_of_lt {code : Nat} (h : code < 2 ^ f.fractionBits) : f.gap code = 1 := by
  simp [gap, Nat.div_eq_of_lt h]

section Normal

variable {exponent fraction : Nat} (h : fraction < 2 ^ f.fractionBits)
include h

theorem div_normal : (2 ^ f.fractionBits * (exponent + 1) + fraction) / 2 ^ f.fractionBits
    = exponent + 1 := by
  rw [Nat.mul_add_div (Nat.two_pow_pos _), Nat.div_eq_of_lt h, Nat.add_zero]

theorem units_normal : f.units (2 ^ f.fractionBits * (exponent + 1) + fraction)
    = (2 ^ f.fractionBits + fraction) * 2 ^ exponent := by
  have hge : ¬ 2 ^ f.fractionBits * (exponent + 1) + fraction < 2 ^ f.fractionBits := by
    rw [Nat.mul_add_one]
    omega
  have hmod : (2 ^ f.fractionBits * (exponent + 1) + fraction) % 2 ^ f.fractionBits
      = fraction := by
    rw [Nat.mul_add_mod, Nat.mod_eq_of_lt h]
  simp only [units, hge, if_false, hmod, div_normal h, Nat.add_sub_cancel]

theorem gap_normal : f.gap (2 ^ f.fractionBits * (exponent + 1) + fraction) = 2 ^ exponent := by
  rw [gap, div_normal h, Nat.add_sub_cancel]

end Normal

theorem units_succ (code : Nat) : f.units (code + 1) = f.units code + f.gap code := by
  have hstep : 0 < 2 ^ f.fractionBits := Nat.two_pow_pos _
  rcases f.code_lt_or_eq code with hlt | ⟨exponent, fraction, hfraction, rfl⟩
  · rw [units_of_lt hlt, gap_of_lt hlt]
    rcases Nat.lt_or_eq_of_le hlt with hnext | hlast
    · exact units_of_lt hnext
    · -- The first magnitude with an exponent is a step of it.
      have hfirst : code + 1 = 2 ^ f.fractionBits * (0 + 1) + 0 := by omega
      rw [hfirst, units_normal hstep, Nat.pow_zero, Nat.mul_one]
      omega
  · rw [units_normal hfraction, gap_normal hfraction]
    rcases Nat.lt_or_eq_of_le hfraction with (hnext : fraction + 1 < _) | hlast
    · rw [Nat.add_assoc, units_normal hnext, ← Nat.add_assoc, Nat.add_one_mul]
    · -- The fraction is full: the exponent grows, and so does the gap.
      have hcarry : 2 ^ f.fractionBits * (exponent + 1) + fraction + 1
          = 2 ^ f.fractionBits * (exponent + 1 + 1) + 0 := by
        rw [Nat.mul_add_one _ (exponent + 1)]
        omega
      have hfull : 2 ^ f.fractionBits + fraction + 1 = 2 ^ f.fractionBits * 2 := by omega
      rw [hcarry, units_normal hstep, ← Nat.add_one_mul, hfull, Nat.pow_succ']
      ring

theorem units_strictMono (f : Format) : StrictMono f.units := by
  refine strictMono_nat_of_lt_succ fun code => ?_
  rw [units_succ]
  exact Nat.lt_add_of_pos_right (gap_pos code)

theorem units_zero (f : Format) : f.units 0 = 0 :=
  units_of_lt (Nat.two_pow_pos _)

/-- A magnitude has at most one bit more than its fraction, counted from its last one. -/
theorem units_lt_mul_gap (code : Nat) : f.units code < 2 ^ (f.fractionBits + 1) * f.gap code := by
  rcases f.code_lt_or_eq code with hlt | ⟨exponent, fraction, hfraction, rfl⟩
  · rw [units_of_lt hlt, gap_of_lt hlt, Nat.pow_succ]
    omega
  · rw [units_normal hfraction, gap_normal hfraction, Nat.pow_succ]
    exact Nat.mul_lt_mul_of_pos_right (by omega) (Nat.two_pow_pos _)

end Format

/-! ## Intervals -/

/-- Whether a value, counted in half units, lies in the interval. -/
def ReadingInterval.Mem (i : ReadingInterval) (x : ℚ) : Prop :=
  if i.closed then i.least ≤ x ∧ x ≤ i.greatest else i.least < x ∧ x < i.greatest

namespace ReadingInterval

variable {i : ReadingInterval} {x : ℚ}

theorem Mem.least_le (h : i.Mem x) : i.least ≤ x := by
  unfold Mem at h
  split at h
  · exact h.1
  · exact h.1.le

theorem Mem.le_greatest (h : i.Mem x) : x ≤ i.greatest := by
  unfold Mem at h
  split at h
  · exact h.2
  · exact h.2.le

end ReadingInterval

namespace Format

variable {f : Format}

/-- The interval of a lesser magnitude ends where that of a greater one begins, or before; of two
neighbours one has an odd code, whose interval does not have its ends. -/
theorem not_mem_of_lt {c d : Nat} (h : c < d) {x : ℚ} (hc : (f.readingInterval c).Mem x) :
    ¬ (f.readingInterval d).Mem x := by
  intro hd
  have hmono := f.units_strictMono.monotone
  have hnext : f.units (c + 1) ≤ f.units d := hmono h
  have hprevious : f.units c ≤ f.units (d - 1) := hmono (Nat.le_sub_one_of_lt h)
  have hends : (f.readingInterval d).least ≤ (f.readingInterval c).greatest := by
    exact_mod_cast hd.least_le.trans hc.le_greatest
  simp only [readingInterval] at hends
  -- The ends meet, so the codes are neighbours.
  have hcode : d = c + 1 := by
    have hunits : f.units d = f.units (c + 1) := by omega
    exact f.units_strictMono.injective hunits
  subst hcode
  have hmeet : ((f.readingInterval c).greatest : ℚ) = (f.readingInterval (c + 1)).least := rfl
  rcases Nat.mod_two_eq_zero_or_one c with heven | hodd
  · have hopen : (f.readingInterval (c + 1)).closed = false := by
      simp only [readingInterval, decide_eq_false_iff_not]
      omega
    simp only [ReadingInterval.Mem, hopen, Bool.false_eq_true, if_false] at hd
    exact absurd hc.le_greatest (by rw [hmeet]; exact not_le.2 hd.1)
  · have hopen : (f.readingInterval c).closed = false := by
      simp only [readingInterval, decide_eq_false_iff_not]
      omega
    simp only [ReadingInterval.Mem, hopen, Bool.false_eq_true, if_false] at hc
    exact absurd hd.least_le (by rw [← hmeet]; exact not_le.2 hc.2)

/-- No value reads back as two magnitudes. -/
theorem eq_of_mem {c d : Nat} {x : ℚ} (hc : (f.readingInterval c).Mem x)
    (hd : (f.readingInterval d).Mem x) : c = d := by
  rcases Nat.lt_trichotomy c d with hlt | heq | hgt
  · exact absurd hd (not_mem_of_lt hlt hc)
  · exact heq
  · exact absurd hc (not_mem_of_lt hgt hd)

theorem pos_of_mem {code : Nat} (h : 0 < code) {x : ℚ} (hx : (f.readingInterval code).Mem x) :
    0 < x := by
  have hunits : 0 < f.units code := by
    rw [← f.units_zero]
    exact f.units_strictMono h
  have hleast : 0 < (f.readingInterval code).least := Nat.add_pos_right _ hunits
  have hcast : (0 : ℚ) < (f.readingInterval code).least := by
    exact_mod_cast hleast
  exact hcast.trans_le hx.least_le

end Format

/-! ## Points of a grid -/

/-- The value of a decimal. -/
def Scaled.value (s : Scaled) : ℚ :=
  s.digits * 10 ^ s.exponent

theorem Scaled.value_trim (s : Scaled) : s.trim.value = s.value := by
  fun_induction Scaled.trim s with
  | case1 s h ih =>
      have hdigits : s.digits / 10 * 10 = s.digits :=
        Nat.div_mul_cancel (Nat.dvd_of_mod_eq_zero h.2)
      rw [ih, value, value, ← hdigits, zpow_add_one₀ (by norm_num)]
      push_cast
      simp only [Nat.mul_div_cancel _ (show 0 < 10 by decide)]
      ring
  | case2 s h =>
      rfl

namespace Format

variable {f : Format}

/-- A value counted in half units of a format. -/
def halfUnits (f : Format) (x : ℚ) : ℚ :=
  x * 2 ^ (f.unitBits + 1)

theorem fst_gridStep_pos (f : Format) (exponent : Int) : 0 < (f.gridStep exponent).1 :=
  Nat.mul_pos (Nat.two_pow_pos _) (Nat.pow_pos (by decide))

theorem snd_gridStep_pos (f : Format) (exponent : Int) : 0 < (f.gridStep exponent).2 :=
  Nat.pow_pos (by decide)

/-- The points of a grid are the multiples of its step. -/
theorem halfUnits_grid (n : Nat) (exponent : Int) :
    f.halfUnits (Scaled.value ⟨n, exponent⟩)
      = n * (f.gridStep exponent).1 / (f.gridStep exponent).2 := by
  have hpower : (10 : ℚ) ^ exponent = 10 ^ exponent.toNat / 10 ^ (-exponent).toNat := by
    rw [eq_div_iff (by positivity), ← zpow_natCast, ← zpow_natCast, ← zpow_add₀ (by norm_num)]
    congr 1
    omega
  simp only [halfUnits, Scaled.value, gridStep, hpower]
  push_cast
  ring

end Format

namespace ReadingInterval

variable {f : Format} {i : ReadingInterval} {n : Nat} {exponent : Int}

/-- Whether a quotient lies in the interval, without dividing. -/
theorem mem_div_iff {num den : Nat} (hden : 0 < den) : i.Mem ((num : ℚ) / den) ↔
    if i.closed then i.least * den ≤ num ∧ num ≤ i.greatest * den
    else i.least * den < num ∧ num < i.greatest * den := by
  have hpos : (0 : ℚ) < den := by
    exact_mod_cast hden
  rw [Mem, le_div_iff₀ hpos, div_le_iff₀ hpos, lt_div_iff₀ hpos, div_lt_iff₀ hpos]
  norm_cast

theorem contains_iff : i.contains (f.gridStep exponent) n = true ↔
    i.Mem (f.halfUnits (Scaled.value ⟨n, exponent⟩)) := by
  rw [Format.halfUnits_grid, ← Nat.cast_mul, mem_div_iff (f.snd_gridStep_pos exponent), contains]
  split
  · rw [decide_eq_true_iff]
  · rw [decide_eq_true_iff]

theorem mem_of_nearest? {tie : Tie} (h : i.nearest? tie (f.gridStep exponent) = some n) :
    i.Mem (f.halfUnits (Scaled.value ⟨n, exponent⟩)) := by
  rw [← contains_iff]
  unfold nearest? at h
  dsimp only at h
  split at h
  case h_1 hbelow habove =>
      rcases roundDiv_eq_or tie (i.value * (f.gridStep exponent).2) (f.gridStep exponent).1 with
        hdown | hup
      · rwa [← Option.some.inj h, hdown]
      · rwa [← Option.some.inj h, hup]
  case h_2 hbelow _ =>
      rwa [← Option.some.inj h]
  case h_3 _ habove =>
      rwa [← Option.some.inj h]
  case h_4 =>
      exact nomatch h

/-- A grid that is finer than the gap to the next magnitude has a point in the interval. -/
theorem exists_nearest? (tie : Tie) {code : Nat}
    (h : (f.gridStep exponent).1 < f.gap code * (f.gridStep exponent).2) :
    ∃ n, (f.readingInterval code).nearest? tie (f.gridStep exponent) = some n := by
  set i := f.readingInterval code with hi
  set step := f.gridStep exponent
  have hstep : 0 < step.1 := f.fst_gridStep_pos exponent
  have hgreatest : i.greatest = i.value + f.gap code := by
    simp only [hi, Format.readingInterval, Format.units_succ]
    omega
  have hleast : i.least ≤ i.value := by
    have hprevious : f.units (code - 1) ≤ f.units code :=
      f.units_strictMono.monotone (Nat.sub_le code 1)
    simp only [hi, Format.readingInterval]
    omega
  -- The first point above the value is less than one step away from it.
  have habove : i.value * step.2 < (i.value * step.2 / step.1 + 1) * step.1 :=
    Nat.lt_mul_of_div_lt (Nat.lt_succ_self _) hstep
  have hbelow : i.value * step.2 / step.1 * step.1 ≤ i.value * step.2 := Nat.div_mul_le_self _ _
  have hcontains : i.contains step (i.value * step.2 / step.1 + 1) = true := by
    have hlower : i.least * step.2 < (i.value * step.2 / step.1 + 1) * step.1 :=
      lt_of_le_of_lt (Nat.mul_le_mul_right _ hleast) habove
    have hupper : (i.value * step.2 / step.1 + 1) * step.1 < i.greatest * step.2 := by
      rw [hgreatest, Nat.add_mul _ _ step.2, Nat.add_one_mul]
      omega
    simp [contains, hlower, hupper, hlower.le, hupper.le]
  unfold nearest?
  dsimp only
  rw [hcontains]
  cases i.contains step (i.value * step.2 / step.1) with
  | true =>
      exact ⟨_, rfl⟩
  | false =>
      exact ⟨_, rfl⟩

end ReadingInterval

/-! ## The first hit -/

/-- The power of ten of the leading digit is at most the value. -/
theorem zpow_leadingExponent_le {num den : Nat} (hnum : 0 < num) (hden : 0 < den) :
    (10 : ℚ) ^ leadingExponent num den ≤ num / den := by
  have hdenq : (0 : ℚ) < den := by
    exact_mod_cast hden
  unfold leadingExponent
  split
  case isTrue hwhole =>
      -- The whole part has one digit more than the exponent says.
      set places := (Nat.toDigits 10 (num / den)).length - 1
      have hlength : 0 < (Nat.toDigits 10 (num / den)).length := Nat.length_toDigits_pos
      have hexponent : ((Nat.toDigits 10 (num / den)).length : ℤ) - 1 = places := by
        omega
      have hpower : 10 ^ places ≤ num / den := by
        rcases Nat.eq_zero_or_pos places with hzero | hpos
        · rw [hzero]
          exact Nat.div_pos hwhole hden
        · rw [← Nat.not_lt, ← Nat.length_toDigits_le_iff (by decide) hpos]
          omega
      rw [hexponent, zpow_natCast, le_div_iff₀ hdenq]
      exact_mod_cast (Nat.le_div_iff_mul_le hden).1 hpower
  case isFalse =>
      set places := (Nat.toDigits 10 ((den - 1) / num)).length
      have hplaces : 0 < places := Nat.length_toDigits_pos
      have hquotient : (den - 1) / num < 10 ^ places :=
        (Nat.length_toDigits_le_iff (by decide) hplaces).1 (Nat.le_refl _)
      have hpower : den ≤ 10 ^ places * num := by
        have hlt := (Nat.div_lt_iff_lt_mul hnum).1 hquotient
        omega
      rw [zpow_neg, zpow_natCast, inv_le_comm₀ (by positivity) (by positivity), inv_div,
        div_le_iff₀ (by exact_mod_cast hnum)]
      exact_mod_cast hpower

namespace Format

variable {f : Format} {tie : Tie} {i : ReadingInterval} {exponent : Int}

/-- A hit is a point of some grid, and it is the first grid or the next coarser one has none. -/
theorem exists_of_firstHit {fuel : Nat} {s : Scaled}
    (h : f.firstHit tie i fuel exponent = some s) :
    ∃ n grid, s = Scaled.trim ⟨n, grid⟩ ∧ i.nearest? tie (f.gridStep grid) = some n ∧
      (grid = exponent ∨ i.nearest? tie (f.gridStep (grid + 1)) = none) := by
  induction fuel generalizing exponent with
  | zero =>
      exact nomatch h
  | succ fuel ih =>
      rw [firstHit] at h
      split at h
      case h_1 n hn =>
          exact ⟨n, exponent, (Option.some.inj h).symm, hn, .inl rfl⟩
      case h_2 hmiss =>
          rcases ih h with ⟨n, grid, hs, hn, rfl | hcoarser⟩
          · refine ⟨n, _, hs, hn, .inr ?_⟩
            rwa [Int.sub_add_cancel]
          · exact ⟨n, grid, hs, hn, .inr hcoarser⟩

/-- Enough fuel for one grid with a hit is enough. -/
theorem exists_firstHit {fuel grids : Nat} (hgrids : grids < fuel)
    (h : ∃ n, i.nearest? tie (f.gridStep (exponent - grids)) = some n) :
    ∃ s, f.firstHit tie i fuel exponent = some s := by
  induction fuel generalizing exponent grids with
  | zero =>
      exact absurd hgrids (Nat.not_lt_zero _)
  | succ fuel ih =>
      rw [firstHit]
      split
      case h_1 =>
          exact ⟨_, rfl⟩
      case h_2 hmiss =>
          cases grids with
          | zero =>
              rcases h with ⟨n, hn⟩
              rw [Int.natCast_zero, Int.sub_zero, hmiss] at hn
              exact nomatch hn
          | succ grids =>
              refine ih (Nat.lt_of_succ_lt_succ hgrids) ?_
              have hexponent : exponent - 1 - grids = exponent - (grids + 1 : Nat) := by
                omega
              rwa [hexponent]

/-- As many places as the fraction has bits, and one more, are fine enough. -/
theorem gridStep_lt_gap {code : Nat} (h : 0 < code) :
    (f.gridStep (leadingExponent (f.units code) (2 ^ f.unitBits) - (f.fractionBits + 1 : Nat))).1
      < f.gap code *
        (f.gridStep (leadingExponent (f.units code) (2 ^ f.unitBits)
          - (f.fractionBits + 1 : Nat))).2 := by
  set leading := leadingExponent (f.units code) (2 ^ f.unitBits) with hleading
  have hunits : 0 < f.units code := by
    rw [← f.units_zero]
    exact f.units_strictMono h
  have hpower : (10 : ℚ) ^ leading ≤ f.units code / 2 ^ f.unitBits := by
    have hbound := zpow_leadingExponent_le hunits (Nat.two_pow_pos f.unitBits)
    rw [← hleading] at hbound
    exact_mod_cast hbound
  have hbits : (f.units code : ℚ) < 2 ^ (f.fractionBits + 1) * f.gap code := by
    exact_mod_cast units_lt_mul_gap code
  have htwo : (2 : ℚ) * 2 ^ (f.fractionBits + 1) ≤ 10 ^ (f.fractionBits + 1) := by
    have hfive : (1 : ℚ) ≤ 5 ^ f.fractionBits := one_le_pow₀ (by norm_num)
    have hten : (10 : ℚ) ^ (f.fractionBits + 1)
        = 10 * (2 ^ f.fractionBits * 5 ^ f.fractionBits) := by
      rw [pow_succ', ← mul_pow]
      norm_num
    have hpos : (0 : ℚ) < 2 ^ f.fractionBits := by positivity
    rw [hten, pow_succ]
    nlinarith
  have hstep : f.halfUnits (Scaled.value ⟨1, leading - (f.fractionBits + 1 : Nat)⟩)
      < f.gap code := by
    calc f.halfUnits (Scaled.value ⟨1, leading - (f.fractionBits + 1 : Nat)⟩)
        = 10 ^ leading * (2 * 2 ^ f.unitBits) / 10 ^ (f.fractionBits + 1) := by
          rw [halfUnits, Scaled.value, Nat.cast_one, one_mul, zpow_sub₀ (by norm_num),
            zpow_natCast, pow_succ' 2 f.unitBits]
          ring
      _ ≤ f.units code / 2 ^ f.unitBits * (2 * 2 ^ f.unitBits) / 10 ^ (f.fractionBits + 1) := by
          gcongr
      _ = 2 * f.units code / 10 ^ (f.fractionBits + 1) := by
          field_simp
      _ < 2 * (2 ^ (f.fractionBits + 1) * f.gap code) / 10 ^ (f.fractionBits + 1) := by
          gcongr
      _ ≤ f.gap code := by
          rw [div_le_iff₀ (by positivity), ← mul_assoc, mul_comm (f.gap code : ℚ)]
          gcongr
  rw [halfUnits_grid, Nat.cast_one, one_mul,
    div_lt_iff₀ (by exact_mod_cast f.snd_gridStep_pos _)] at hstep
  exact_mod_cast hstep

/-- The shortest decimal of a positive magnitude is a point on the first grid that has one. -/
theorem exists_of_shortest (f : Format) (tie : Tie) {code : Nat} (h : 0 < code) :
    ∃ n grid, f.shortest tie code = Scaled.trim ⟨n, grid⟩ ∧
      (f.readingInterval code).nearest? tie (f.gridStep grid) = some n ∧
      (grid = leadingExponent (f.units code) (2 ^ f.unitBits) ∨
        (f.readingInterval code).nearest? tie (f.gridStep (grid + 1)) = none) := by
  rcases exists_firstHit (Nat.lt_succ_self (f.fractionBits + 1))
    (ReadingInterval.exists_nearest? tie (gridStep_lt_gap h)) with ⟨s, hs⟩
  have hshortest : f.shortest tie code = s := by
    simp only [shortest, Nat.ne_of_gt h, if_false]
    rw [hs]
    rfl
  rw [hshortest]
  exact exists_of_firstHit hs

/-- The shortest decimal of a positive magnitude lies in its interval. -/
theorem mem_shortest (tie : Tie) {code : Nat} (h : 0 < code) :
    (f.readingInterval code).Mem (f.halfUnits (f.shortest tie code).value) := by
  rcases f.exists_of_shortest tie h with ⟨n, grid, hs, hn, -⟩
  rw [hs, Scaled.value_trim]
  exact ReadingInterval.mem_of_nearest? hn

/-- Different magnitudes have different shortest decimals. -/
theorem shortest_value_injective (f : Format) (tie : Tie) :
    Function.Injective fun code => (f.shortest tie code).value := by
  intro c d heq
  have hzero : (f.shortest tie 0).value = 0 := by
    simp [shortest, Scaled.value]
  have hpos : ∀ code, 0 < code → (f.shortest tie code).value ≠ 0 := by
    intro code hcode hvalue
    have hmem := pos_of_mem hcode (mem_shortest (f := f) tie hcode)
    rw [hvalue, halfUnits, zero_mul] at hmem
    exact lt_irrefl _ hmem
  have hvalue : (f.shortest tie c).value = (f.shortest tie d).value := heq
  rcases Nat.eq_zero_or_pos c with rfl | hc <;> rcases Nat.eq_zero_or_pos d with rfl | hd
  · rfl
  · exact absurd (hvalue.symm.trans hzero) (hpos d hd)
  · exact absurd (hvalue.trans hzero) (hpos c hc)
  · have hmem := mem_shortest (f := f) tie hc
    rw [hvalue] at hmem
    exact eq_of_mem hmem (mem_shortest tie hd)

end Format
end SdfShader
