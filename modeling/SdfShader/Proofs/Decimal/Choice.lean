import SdfShader.Proofs.Number.Nearest

/-!
# Choice — which decimal is the shortest one

The shortest decimal of a magnitude has few digits, and where it lies near an end of the reading
interval it was taken from a wide grid: on a narrow one, another point would be nearer to the
magnitude. Main statements:

* `Format.digits_shortest_le`: the digits stay below ten times four times a significand;
* `Format.gap_le_of_near_halfway`: next to an end of the interval, the grid step is a quarter more
  than the gap at least.
-/

namespace SdfShader

/-! ## The nearer grid point -/

namespace ReadingInterval

variable {i : ReadingInterval} {tie : Tie} {step : Nat × Nat} {n : Nat}

theorem le_or_le_of_not_contains (h : i.contains step n = false) :
    n * step.1 ≤ i.least * step.2 ∨ i.greatest * step.2 ≤ n * step.1 := by
  unfold contains at h
  split at h
  · simp only [decide_eq_false_iff_not] at h
    omega
  · simp only [decide_eq_false_iff_not] at h
    omega

/-- The point is one of the two next to the value. -/
theorem le_of_nearest? (h : i.nearest? tie step = some n) : n ≤ i.value * step.2 / step.1 + 1 := by
  unfold nearest? at h
  dsimp only at h
  split at h
  · have hround := roundDiv_eq_or tie (i.value * step.2) step.1
    rw [Option.some.inj h] at hround
    omega
  · simp only [Option.some.injEq] at h
    omega
  · simp only [Option.some.injEq] at h
    omega
  · exact nomatch h

/-- Where the point lies above the value, the point below is no nearer or not in the interval. -/
theorem step_ge_of_above (hden : 0 < step.2) (hgreatest : i.value < i.greatest)
    (h : i.nearest? tie step = some n) (habove : i.value * step.2 < n * step.1) :
    2 * (n * step.1) ≤ 2 * (i.value * step.2) + step.1 ∨
      n * step.1 ≤ i.least * step.2 + step.1 := by
  have hbelow : i.value * step.2 / step.1 * step.1 ≤ i.value * step.2 := Nat.div_mul_le_self _ _
  have hgreatest' := Nat.mul_lt_mul_of_pos_right hgreatest hden
  unfold nearest? at h
  dsimp only at h
  split at h
  case h_1 =>
      refine .inl ?_
      have hclose := two_mul_roundDiv_le tie (i.value * step.2) step.1
      rwa [Option.some.inj h, Nat.mul_comm step.1] at hclose
  case h_2 =>
      rw [← Option.some.inj h] at habove
      omega
  case h_3 hmiss _ =>
      refine .inr ?_
      have hside := le_or_le_of_not_contains hmiss
      rw [← Option.some.inj h, Nat.add_one_mul]
      omega
  case h_4 =>
      exact nomatch h

/-- Where it lies below, the same holds of the point above. -/
theorem step_ge_of_below (hstep : 0 < step.1) (hden : 0 < step.2) (hleast : i.least < i.value)
    (h : i.nearest? tie step = some n) (hbelow : n * step.1 < i.value * step.2) :
    2 * (i.value * step.2) ≤ 2 * (n * step.1) + step.1 ∨
      i.greatest * step.2 ≤ n * step.1 + step.1 := by
  have habove : i.value * step.2 < (i.value * step.2 / step.1 + 1) * step.1 :=
    Nat.lt_mul_of_div_lt (Nat.lt_succ_self _) hstep
  have hleast' := Nat.mul_lt_mul_of_pos_right hleast hden
  unfold nearest? at h
  dsimp only at h
  split at h
  case h_1 =>
      refine .inl ?_
      have hclose := le_two_mul_roundDiv tie (i.value * step.2) hstep
      rwa [Option.some.inj h, Nat.mul_comm step.1] at hclose
  case h_2 _ hmiss =>
      refine .inr ?_
      have hside := le_or_le_of_not_contains hmiss
      rw [← Option.some.inj h]
      rw [Nat.add_one_mul] at habove hside
      omega
  case h_3 =>
      rw [← Option.some.inj h] at hbelow
      omega
  case h_4 =>
      exact nomatch h

theorem halfUnits_mul_gridStep (f : Format) (n : Nat) (exponent : Int) :
    f.halfUnits (Scaled.value ⟨n, exponent⟩) * (f.gridStep exponent).2
      = n * (f.gridStep exponent).1 := by
  have hden : ((f.gridStep exponent).2 : ℚ) ≠ 0 := by
    exact_mod_cast (f.snd_gridStep_pos exponent).ne'
  rw [Format.halfUnits_grid, div_mul_cancel₀ _ hden]

/-- Both in half units: how far from the value and from the other end the point can be. -/
theorem halfUnits_step_ge {f : Format} {exponent : Int} (hleast : i.least < i.value)
    (hgreatest : i.value < i.greatest) (h : i.nearest? tie (f.gridStep exponent) = some n) :
    let x := f.halfUnits (Scaled.value ⟨n, exponent⟩)
    let step := f.halfUnits (Scaled.value ⟨1, exponent⟩)
    (i.value < x → 2 * x ≤ 2 * i.value + step ∨ x ≤ i.least + step) ∧
      (x < i.value → 2 * i.value ≤ 2 * x + step ∨ i.greatest ≤ x + step) := by
  intro x step
  have hstep : 0 < (f.gridStep exponent).1 := f.fst_gridStep_pos exponent
  have hden : 0 < (f.gridStep exponent).2 := f.snd_gridStep_pos exponent
  have hdenq : (0 : ℚ) < (f.gridStep exponent).2 := by
    exact_mod_cast hden
  have hx : x * (f.gridStep exponent).2 = n * (f.gridStep exponent).1 :=
    halfUnits_mul_gridStep f n exponent
  have hone : step * (f.gridStep exponent).2 = (f.gridStep exponent).1 := by
    simpa using halfUnits_mul_gridStep f 1 exponent
  constructor
  · intro habove
    have habove' : i.value * (f.gridStep exponent).2 < n * (f.gridStep exponent).1 := by
      have := mul_lt_mul_of_pos_right habove hdenq
      rw [hx] at this
      exact_mod_cast this
    refine (step_ge_of_above hden hgreatest h habove').imp (fun hclose => ?_) fun hfar => ?_
    · refine le_of_mul_le_mul_right ?_ hdenq
      rw [mul_assoc, hx, add_mul, mul_assoc, hone]
      exact_mod_cast hclose
    · refine le_of_mul_le_mul_right ?_ hdenq
      rw [hx, add_mul, hone]
      exact_mod_cast hfar
  · intro hbelow
    have hbelow' : n * (f.gridStep exponent).1 < i.value * (f.gridStep exponent).2 := by
      have := mul_lt_mul_of_pos_right hbelow hdenq
      rw [hx] at this
      exact_mod_cast this
    refine (step_ge_of_below hstep hden hleast h hbelow').imp (fun hclose => ?_) fun hfar => ?_
    · refine le_of_mul_le_mul_right ?_ hdenq
      rw [mul_assoc, add_mul, mul_assoc, hx, hone]
      exact_mod_cast hclose
    · refine le_of_mul_le_mul_right ?_ hdenq
      rw [add_mul, hx, hone]
      exact_mod_cast hfar

end ReadingInterval

/-! ## Ends of an interval -/

namespace Format

variable {f : Format} {tie : Tie} {code n : Nat} {exponent : Int}

/-- The point halfway between a magnitude and the next, in half units. -/
def halfway (f : Format) (code : Nat) : Nat :=
  f.units code + f.units (code + 1)

theorem greatest_eq_halfway (f : Format) (code : Nat) :
    (f.readingInterval code).greatest = f.halfway code :=
  rfl

theorem least_eq_halfway (f : Format) {code : Nat} (h : 0 < code) :
    (f.readingInterval code).least = f.halfway (code - 1) := by
  rw [halfway, Nat.sub_add_cancel h]
  rfl

/-- A point halfway between two magnitudes is an odd multiple of the gap. -/
theorem exists_halfway_eq (f : Format) (code : Nat) :
    ∃ m < 2 ^ (f.fractionBits + 1), f.halfway code = (2 * m + 1) * f.gap code := by
  have hunits : ∃ m < 2 ^ (f.fractionBits + 1), f.units code = m * f.gap code := by
    rcases f.code_lt_or_eq code with hlt | ⟨exponent, fraction, hfraction, rfl⟩
    · exact ⟨code, by rw [Nat.pow_succ]; omega, by rw [units_of_lt hlt, gap_of_lt hlt, Nat.mul_one]⟩
    · exact ⟨2 ^ f.fractionBits + fraction, by rw [Nat.pow_succ]; omega,
        by rw [units_normal hfraction, gap_normal hfraction]⟩
  rcases hunits with ⟨m, hm, hunits⟩
  refine ⟨m, hm, ?_⟩
  rw [halfway, units_succ, hunits]
  ring

theorem gap_succ_le (f : Format) (code : Nat) : f.gap (code + 1) ≤ 2 * f.gap code := by
  have hdiv : (code + 1) / 2 ^ f.fractionBits ≤ code / 2 ^ f.fractionBits + 1 := by
    rw [Nat.succ_div]
    split <;> omega
  rw [gap, gap, ← Nat.pow_succ']
  exact Nat.pow_le_pow_right (by decide) (by omega)

/-- A point next to an end of the interval is on a wide grid. -/
theorem gap_le_of_near_halfway {near : Nat} (hcode : 0 < code)
    (hn : (f.readingInterval code).nearest? tie (f.gridStep exponent) = some n)
    (hnear : near = code ∨ near + 1 = code)
    (hclose : 8 * |f.halfUnits (Scaled.value ⟨n, exponent⟩) - f.halfway near| ≤ f.gap near) :
    5 * (f.gap near : ℚ) ≤ 4 * f.halfUnits (Scaled.value ⟨1, exponent⟩) := by
  obtain ⟨previous, rfl⟩ : ∃ previous, code = previous + 1 := ⟨code - 1, by omega⟩
  have hpos : 0 < f.gap previous := gap_pos previous
  have hpos' : 0 < f.gap (previous + 1) := gap_pos (previous + 1)
  have hnarrow : f.gap previous ≤ f.gap (previous + 1) := f.gap_mono (Nat.le_succ _)
  have hwide : f.gap (previous + 1) ≤ 2 * f.gap previous := f.gap_succ_le previous
  set i := f.readingInterval (previous + 1) with hi
  have hleast : i.value = i.least + f.gap previous := by
    simp only [hi, readingInterval, Nat.add_sub_cancel, units_succ]
    omega
  have hgreatest : i.greatest = i.value + f.gap (previous + 1) := by
    simp only [hi, readingInterval, units_succ]
    omega
  have hstep := ReadingInterval.halfUnits_step_ge (by omega) (by omega) hn
  dsimp only at hstep
  have hleastq : (i.value : ℚ) = i.least + f.gap previous := by
    exact_mod_cast hleast
  have hgreatestq : (i.greatest : ℚ) = i.value + f.gap (previous + 1) := by
    exact_mod_cast hgreatest
  have hposq : (0 : ℚ) < f.gap previous := by
    exact_mod_cast hpos
  have hposq' : (0 : ℚ) < f.gap (previous + 1) := by
    exact_mod_cast hpos'
  have hnarrowq : (f.gap previous : ℚ) ≤ f.gap (previous + 1) := by
    exact_mod_cast hnarrow
  have hwideq : (f.gap (previous + 1) : ℚ) ≤ 2 * f.gap previous := by
    exact_mod_cast hwide
  rcases hnear with rfl | hbelow
  · rw [← greatest_eq_halfway, ← hi] at hclose
    have hlower := neg_abs_le
      (f.halfUnits (Scaled.value ⟨n, exponent⟩) - (i.greatest : ℚ))
    rcases hstep.1 (by linarith) with h | h <;> linarith
  · obtain rfl : near = previous := by omega
    have hend : i.least = f.halfway near := f.least_eq_halfway hcode
    rw [← hend] at hclose
    have hupper := le_abs_self (f.halfUnits (Scaled.value ⟨n, exponent⟩) - (i.least : ℚ))
    rcases hstep.2 (by linarith) with h | h <;> linarith

end Format

/-! ## Number of digits -/

/-- The power of ten above the leading digit exceeds the value. -/
theorem lt_zpow_leadingExponent {num den : Nat} (hnum : 0 < num) (hden : 0 < den) :
    (num / den : ℚ) < 10 ^ (leadingExponent num den + 1) := by
  have hdenq : (0 : ℚ) < den := by
    exact_mod_cast hden
  unfold leadingExponent
  split
  case isTrue hwhole =>
      set places := (Nat.toDigits 10 (num / den)).length
      have hplaces : 0 < places := Nat.length_toDigits_pos
      have hquotient : num / den < 10 ^ places :=
        (Nat.length_toDigits_le_iff (by decide) hplaces).1 (Nat.le_refl _)
      rw [Int.sub_add_cancel, zpow_natCast, div_lt_iff₀ hdenq]
      exact_mod_cast (Nat.div_lt_iff_lt_mul hden).1 hquotient
  case isFalse hfraction =>
      -- The quotient of the inverse has all its digits, so it reaches the power below.
      obtain ⟨places, hplaces⟩ :
          ∃ places, (Nat.toDigits 10 ((den - 1) / num)).length = places + 1 :=
        ⟨_, (Nat.sub_add_cancel Nat.length_toDigits_pos).symm⟩
      have hpower : 10 ^ places ≤ (den - 1) / num := by
        rcases Nat.eq_zero_or_pos places with hzero | hpos
        · rw [hzero]
          exact Nat.div_pos (by omega) hnum
        · rw [← Nat.not_lt, ← Nat.length_toDigits_le_iff (by decide) hpos]
          omega
      have hproduct : 10 ^ places * num < den := by
        have := (Nat.le_div_iff_mul_le hnum).1 hpower
        omega
      have hexponent : -((places + 1 : Nat) : ℤ) + 1 = -(places : ℤ) := by
        omega
      rw [hplaces, hexponent, zpow_neg, zpow_natCast, div_lt_iff₀ hdenq, ← div_eq_inv_mul,
        lt_div_iff₀ (by positivity), mul_comm]
      exact_mod_cast hproduct

namespace Scaled

theorem digits_trim_le (s : Scaled) : s.trim.digits ≤ s.digits := by
  fun_induction Scaled.trim s with
  | case1 s h ih =>
      exact ih.trans (Nat.div_le_self _ _)
  | case2 s h =>
      exact Nat.le_refl _

theorem exponent_le_trim (s : Scaled) : s.exponent ≤ s.trim.exponent := by
  fun_induction Scaled.trim s with
  | case1 s h ih =>
      exact le_trans (Int.le_add_one (Int.le_refl _)) ih
  | case2 s h =>
      exact Int.le_refl _

end Scaled

namespace Format

variable {f : Format} {tie : Tie} {code n : Nat} {exponent : Int}

theorem halfUnits_value (digits : Nat) (exponent : Int) :
    f.halfUnits (Scaled.value ⟨digits, exponent⟩)
      = digits * f.halfUnits (Scaled.value ⟨1, exponent⟩) := by
  simp only [halfUnits, Scaled.value, Nat.cast_one, one_mul, mul_assoc]

theorem halfUnits_value_succ (exponent : Int) :
    f.halfUnits (Scaled.value ⟨1, exponent + 1⟩)
      = 10 * f.halfUnits (Scaled.value ⟨1, exponent⟩) := by
  simp only [halfUnits, Scaled.value, Nat.cast_one, one_mul]
  rw [zpow_add_one₀ (by norm_num)]
  ring

theorem halfUnits_one_pos (exponent : Int) :
    0 < f.halfUnits (Scaled.value ⟨1, exponent⟩) := by
  simp only [halfUnits, Scaled.value, Nat.cast_one, one_mul]
  exact mul_pos (zpow_pos (by norm_num) _) (by positivity)

/-- On the first grid the value has one digit. -/
theorem digits_le_ten (hcode : 0 < code)
    (hn : (f.readingInterval code).nearest? tie (f.gridStep exponent) = some n)
    (hleading : exponent = leadingExponent (f.units code) (2 ^ f.unitBits)) : n ≤ 10 := by
  have hunits : 0 < f.units code := by
    rw [← f.units_zero]
    exact f.units_strictMono hcode
  have hvalue : f.magnitude code < 10 ^ (exponent + 1) := by
    have := lt_zpow_leadingExponent hunits (Nat.two_pow_pos f.unitBits)
    rw [← hleading] at this
    simpa [magnitude] using this
  have hhalf : (2 * f.units code : ℚ) < f.halfUnits (Scaled.value ⟨10, exponent⟩) := by
    rw [← halfUnits_magnitude, halfUnits, halfUnits, Scaled.value]
    refine mul_lt_mul_of_pos_right ?_ (by positivity)
    rw [zpow_add_one₀ (by norm_num)] at hvalue
    push_cast
    linarith
  rw [halfUnits_grid, lt_div_iff₀ (by exact_mod_cast f.snd_gridStep_pos _)] at hhalf
  have hdigit : 2 * f.units code * (f.gridStep exponent).2 / (f.gridStep exponent).1 < 10 := by
    rw [Nat.div_lt_iff_lt_mul (f.fst_gridStep_pos _)]
    exact_mod_cast hhalf
  exact (ReadingInterval.le_of_nearest? hn).trans (Nat.succ_le_of_lt hdigit)

/-- A grid without a point in the interval has steps no smaller than the gap. -/
theorem gap_le_of_nearest?_eq_none
    (hmiss : (f.readingInterval code).nearest? tie (f.gridStep exponent) = none) :
    (f.gap code : ℚ) ≤ f.halfUnits (Scaled.value ⟨1, exponent⟩) := by
  rw [halfUnits_grid, le_div_iff₀ (by exact_mod_cast f.snd_gridStep_pos _)]
  by_contra hlt
  have hfine : (f.gridStep exponent).1 < f.gap code * (f.gridStep exponent).2 := by
    rw [not_le, Nat.cast_one, one_mul] at hlt
    exact_mod_cast hlt
  rcases ReadingInterval.exists_nearest? tie hfine with ⟨m, hm⟩
  rw [hmiss] at hm
  cases hm

theorem greatest_le (f : Format) (code : Nat) :
    ((f.readingInterval code).greatest : ℚ) ≤ 2 ^ (f.fractionBits + 2) * f.gap code := by
  rcases f.exists_halfway_eq code with ⟨m, hm, hhalfway⟩
  have hodd : 2 * m + 1 ≤ 2 ^ (f.fractionBits + 2) := by
    rw [Nat.pow_succ] at hm ⊢
    omega
  rw [greatest_eq_halfway, hhalfway]
  exact_mod_cast Nat.mul_le_mul_right (f.gap code) hodd

/-- The point of a grid that is chosen is a small multiple of the step. -/
theorem digits_le_of_nearest? (hcode : 0 < code)
    (hn : (f.readingInterval code).nearest? tie (f.gridStep exponent) = some n)
    (hfirst : exponent = leadingExponent (f.units code) (2 ^ f.unitBits) ∨
      (f.readingInterval code).nearest? tie (f.gridStep (exponent + 1)) = none) :
    n ≤ 10 * 2 ^ (f.fractionBits + 2) := by
  rcases hfirst with hleading | hmiss
  · have hpower := Nat.two_pow_pos (f.fractionBits + 2)
    have hten : n ≤ 10 := digits_le_ten hcode hn hleading
    omega
  · -- The interval is short, counted in steps of the coarser grid.
    have hcoarse := gap_le_of_nearest?_eq_none hmiss
    rw [halfUnits_value_succ] at hcoarse
    have hmem := (ReadingInterval.mem_of_nearest? hn).le_greatest
    rw [halfUnits_value] at hmem
    have hproduct : (n : ℚ) * f.halfUnits (Scaled.value ⟨1, exponent⟩)
        ≤ (10 * 2 ^ (f.fractionBits + 2) : Nat) * f.halfUnits (Scaled.value ⟨1, exponent⟩) := by
      calc (n : ℚ) * f.halfUnits (Scaled.value ⟨1, exponent⟩)
          ≤ 2 ^ (f.fractionBits + 2) * f.gap code := hmem.trans (f.greatest_le code)
        _ ≤ 2 ^ (f.fractionBits + 2) * (10 * f.halfUnits (Scaled.value ⟨1, exponent⟩)) := by
            gcongr
        _ = (10 * 2 ^ (f.fractionBits + 2) : Nat) * f.halfUnits (Scaled.value ⟨1, exponent⟩) := by
            push_cast
            ring
    exact_mod_cast le_of_mul_le_mul_right hproduct (halfUnits_one_pos exponent)

/-! ## The shortest decimal -/

theorem digits_shortest_le (f : Format) (tie : Tie) {code : Nat} (hcode : 0 < code) :
    (f.shortest tie code).digits ≤ 10 * 2 ^ (f.fractionBits + 2) := by
  rcases f.exists_of_shortest tie hcode with ⟨n, grid, hs, hn, hfirst⟩
  rw [hs]
  exact (Scaled.digits_trim_le _).trans (digits_le_of_nearest? hcode hn hfirst)

/-- A shortest decimal next to an end of the interval has a wide last place. -/
theorem gap_le_of_shortest_near (f : Format) (tie : Tie) {code near : Nat} (hcode : 0 < code)
    (hnear : near = code ∨ near + 1 = code)
    (hclose : 8 * |f.halfUnits (f.shortest tie code).value - f.halfway near| ≤ f.gap near) :
    5 * (f.gap near : ℚ)
      ≤ 4 * f.halfUnits (Scaled.value ⟨1, (f.shortest tie code).exponent⟩) := by
  rcases f.exists_of_shortest tie hcode with ⟨n, grid, hs, hn, -⟩
  rw [hs, Scaled.value_trim] at hclose
  refine (gap_le_of_near_halfway hcode hn hnear hclose).trans ?_
  -- Without trailing zeros the last place is no lower.
  have hexponent : grid ≤ (f.shortest tie code).exponent := by
    rw [hs]
    exact Scaled.exponent_le_trim ⟨n, grid⟩
  have hpower : (10 : ℚ) ^ grid ≤ 10 ^ (f.shortest tie code).exponent :=
    zpow_le_zpow_right₀ (by norm_num) hexponent
  simp only [halfUnits, Scaled.value, Nat.cast_one, one_mul]
  gcongr

end Format
end SdfShader
