import Mathlib.Algebra.Order.Group.Unbundled.Abs
import Mathlib.Algebra.Order.Ring.Abs
import Mathlib.Data.Nat.Prime.Defs
import SdfShader.Proofs.Decimal.Reading

/-!
# PowerOfTen — halfway points next to multiples of a power of ten

A decimal that lies next to a point halfway between two single-precision numbers makes a power of
ten almost a fraction with a numerator of at most 25 bits. A fraction is isolated by a convergent of
the continued fraction: all that come close to the power of ten are multiples of that convergent.
So it is enough to try one convergent for each power. Main statements:

* `isolated`: close fractions are multiples of a convergent that isolates;
* `eq_or_exceptional_of_near`: among the powers of ten in question one comes close to such a fraction
  without being equal to it.
-/

namespace SdfShader

/-! ## Isolated fractions -/

/-- Two roundings to double precision change a value by less than one part in this. -/
def accuracy : Nat := 2 ^ 52 - 2

/-- The limit of odd multiples of a gap that are ends of reading intervals. -/
def endLimit : Nat := 2 ^ 25

/-- Whether a value is as near to a number as two roundings can bring it. -/
def Near (x y : ℚ) : Prop :=
  |x - y| * (accuracy : ℚ) ≤ y

/-- How far `p / q` is from `num / den`, times the denominators. -/
def remoteness (num den p q : Nat) : Nat :=
  ((q * num : ℤ) - p * den).natAbs

/-- The fraction `p / q` is so close to `num / den`, for its size, that it leaves no room for
others. -/
def Isolates (num den p q : Nat) : Prop :=
  endLimit * (p * den + accuracy * remoteness num den p q) < accuracy * num

instance (num den p q : Nat) : Decidable (Isolates num den p q) :=
  inferInstanceAs (Decidable (_ < _))

theorem natCast_remoteness {num den : Nat} (hden : 0 < den) (p q : Nat) :
    (remoteness num den p q : ℚ) = |(q : ℚ) * (num / den) - p| * den := by
  have hpos : (0 : ℚ) < den := by
    exact_mod_cast hden
  rw [remoteness, Nat.cast_natAbs]
  push_cast
  rw [← abs_of_pos hpos, ← abs_mul, abs_of_pos hpos]
  congr 1
  field_simp

/-- Close multiples have the ratio of an isolating fraction. -/
theorem isolated {num den p q M N : Nat} (hnum : 0 < num) (hden : 0 < den)
    (h : Isolates num den p q) (hM : M < endLimit) (hnear : Near (N * (num / den)) M) :
    p * N = q * M := by
  set ratio : ℚ := num / den with hratio
  have hdenq : (0 : ℚ) < den := by
    exact_mod_cast hden
  have hpos : 0 < ratio := div_pos (by exact_mod_cast hnum) hdenq
  have hlimit : (M : ℚ) ≤ endLimit := by
    exact_mod_cast hM.le
  have haccuracy : (0 : ℚ) < accuracy := by
    norm_num [accuracy]
  have hroom : (endLimit : ℚ) * (p + accuracy * |q * ratio - p|) < accuracy * ratio := by
    have hcast : (endLimit : ℚ) * (p * den + accuracy * (|q * ratio - p| * den))
        < accuracy * num := by
      rw [← natCast_remoteness hden]
      exact_mod_cast h
    have hnumq : ratio * den = num := div_mul_cancel₀ _ hdenq.ne'
    refine lt_of_mul_lt_mul_right ?_ hdenq.le
    calc (endLimit : ℚ) * (p + accuracy * |q * ratio - p|) * den
        = endLimit * (p * den + accuracy * (|q * ratio - p| * den)) := by ring
      _ < accuracy * num := hcast
      _ = accuracy * ratio * den := by rw [mul_assoc, hnumq]
  -- The two products differ by less than one.
  have hsplit : ((p : ℚ) * N - q * M) * ratio
      = p * (N * ratio - M) - M * (q * ratio - p) := by
    ring
  have hdistance : |(p : ℚ) * N - q * M| * (accuracy * ratio) < 1 * (accuracy * ratio) := by
    calc |(p : ℚ) * N - q * M| * (accuracy * ratio)
        = |p * (N * ratio - M) - M * (q * ratio - p)| * accuracy := by
          rw [← hsplit, abs_mul, abs_of_pos hpos]
          ring
      _ ≤ (p * |N * ratio - M| + M * |q * ratio - p|) * accuracy := by
          refine mul_le_mul_of_nonneg_right ((abs_sub _ _).trans ?_) haccuracy.le
          rw [abs_mul, abs_mul, Nat.abs_cast, Nat.abs_cast]
      _ = p * (|N * ratio - M| * accuracy) + M * (accuracy * |q * ratio - p|) := by ring
      _ ≤ p * M + M * (accuracy * |q * ratio - p|) := by
          gcongr
          exact hnear
      _ = M * (p + accuracy * |q * ratio - p|) := by ring
      _ ≤ endLimit * (p + accuracy * |q * ratio - p|) := by gcongr
      _ < 1 * (accuracy * ratio) := by rwa [one_mul]
  have hone : |(p : ℚ) * N - q * M| < 1 := lt_of_mul_lt_mul_right hdistance (by positivity)
  have hint : |(p * N : ℤ) - q * M| < 1 := by
    exact_mod_cast hone
  have hzero := Int.abs_lt_one_iff.1 hint
  exact_mod_cast sub_eq_zero.1 hzero

/-! ## Certificates -/

/-- The fractions that Euclid's algorithm for `num` and `den` passes, from two neighbours on. -/
def convergents : (fuel num den : Nat) → (previous last : Nat × Nat) → List (Nat × Nat)
  | 0, _, _, _, _ => []
  | fuel + 1, num, den, previous, last =>
    if den = 0 then []
    else
      let next := (num / den * last.1 + previous.1, num / den * last.2 + previous.2)
      next :: convergents fuel den (num % den) last next

/-- The greatest power of two that is four fifths of a grid step or less. -/
def stepBits (exponent : Int) : Nat :=
  let step := Format.single.gridStep exponent
  (4 * step.1 / (5 * step.2)).log2

/-- A grid step counted in that power of two. -/
def stepRatio (exponent : Int) : Nat × Nat :=
  let step := Format.single.gridStep exponent
  (step.1, step.2 * 2 ^ stepBits exponent)

/-- The one fraction that comes close to a power of ten without being equal to it, behind the
exponent of that power. -/
def exceptional : Int × Nat × Nat := (-32, 22841339, 14077062)

/-- The decimals that come close to an odd multiple of a gap without being equal to it. -/
def exceptionalDecimals : List Scaled :=
  [⟨14077062, -32⟩, ⟨7038531, -32⟩]

/-- A fraction that isolates a grid step, and that is no close fraction itself: it is equal to the
step, or remote from it, or it has a numerator that is too large. -/
def Settles (exponent : Int) (p q : Nat) : Prop :=
  let ratio := stepRatio exponent
  0 < q ∧ Isolates ratio.1 ratio.2 p q ∧
    (p * ratio.2 = q * ratio.1 ∨
      p * ratio.2 < accuracy * remoteness ratio.1 ratio.2 p q ∨
      p.Coprime q ∧ (endLimit ≤ p ∨ (exponent, p, q) = exceptional))

instance (exponent : Int) (p q : Nat) : Decidable (Settles exponent p q) :=
  inferInstanceAs (Decidable (_ ∧ _ ∧ _))

/-- Each exponent of a decimal near the end of an interval has a convergent that settles it. -/
theorem exists_settles : ∀ n : Nat, n < 84 →
    ∃ c ∈ convergents 24 (stepRatio (n - 45)).1 (stepRatio (n - 45)).2 (0, 1) (1, 0),
      Settles (n - 45) c.1 c.2 := by
  decide +kernel

/-! ## Ends of intervals -/

theorem Near.of_mul {x y c : ℚ} (hc : 0 < c) (h : Near (x * c) (y * c)) : Near x y := by
  have hscaled : |x - y| * accuracy * c ≤ y * c := by
    calc |x - y| * accuracy * c = |x * c - y * c| * accuracy := by
          rw [← sub_mul, abs_mul, abs_of_pos hc]
          ring
      _ ≤ y * c := h
  exact le_of_mul_le_mul_right hscaled hc

/-- Equal ratios are equally close. -/
theorem remoteness_le_of_near {num den p q M N : Nat} (hden : 0 < den) (hM : 0 < M) (hq : 0 < q)
    (hratio : p * N = q * M) (hnear : Near (N * (num / den)) M) :
    accuracy * remoteness num den p q ≤ p * den := by
  have hN : 0 < N := by
    rcases Nat.eq_zero_or_pos N with hzero | hpos
    · have := Nat.mul_pos hq hM
      rw [← hratio, hzero] at this
      exact absurd this (Nat.lt_irrefl 0)
    · exact hpos
  have hNq : (0 : ℚ) < N := by
    exact_mod_cast hN
  have hqq : (0 : ℚ) < q := by
    exact_mod_cast hq
  have hratioq : (p : ℚ) * N = q * M := by
    exact_mod_cast hratio
  have hsame : Near (q * ((num : ℚ) / den)) p := by
    refine Near.of_mul hNq ?_
    have hproduct : Near (N * ((num : ℚ) / den) * q) (M * q) := by
      unfold Near at hnear ⊢
      rw [← sub_mul, abs_mul, abs_of_pos hqq]
      nlinarith
    rw [hratioq]
    convert hproduct using 1 <;> ring
  have hdenq : (0 : ℚ) < den := by
    exact_mod_cast hden
  have hcast : (accuracy : ℚ) * remoteness num den p q ≤ p * den := by
    rw [natCast_remoteness hden]
    have := mul_le_mul_of_nonneg_right hsame hdenq.le
    linarith
  exact_mod_cast hcast

theorem le_stepBits {exponent : Int} {k : Nat}
    (h : 5 * 2 ^ k ≤ 4 * Format.single.halfUnits (Scaled.value ⟨1, exponent⟩)) :
    k ≤ stepBits exponent := by
  have hstep : (0 : ℚ) < (Format.single.gridStep exponent).2 := by
    exact_mod_cast Format.snd_gridStep_pos _ _
  have h : 5 * 2 ^ k * (Format.single.gridStep exponent).2
      ≤ 4 * (Format.single.gridStep exponent).1 := by
    rw [Format.halfUnits_grid, Nat.cast_one, one_mul, ← mul_div_assoc, le_div_iff₀ hstep] at h
    exact_mod_cast h
  have hden : 0 < 5 * (Format.single.gridStep exponent).2 :=
    Nat.mul_pos (by decide) (Format.snd_gridStep_pos _ _)
  have hquotient : 2 ^ k ≤ 4 * (Format.single.gridStep exponent).1
      / (5 * (Format.single.gridStep exponent).2) := by
    rw [Nat.le_div_iff_mul_le hden]
    calc 2 ^ k * (5 * (Format.single.gridStep exponent).2)
        = 5 * 2 ^ k * (Format.single.gridStep exponent).2 := by ring
      _ ≤ 4 * (Format.single.gridStep exponent).1 := h
  have hne := (lt_of_lt_of_le (Nat.two_pow_pos k) hquotient).ne'
  exact (Nat.le_log2 hne).2 hquotient

/-- A point of a grid as a multiple of the ratio. -/
theorem halfUnits_eq_mul_stepRatio {digits k : Nat} {exponent : Int}
    (hk : k ≤ stepBits exponent) :
    Format.single.halfUnits (Scaled.value ⟨digits, exponent⟩)
      = (digits * 2 ^ (stepBits exponent - k) : Nat)
        * ((stepRatio exponent).1 / (stepRatio exponent).2) * 2 ^ k := by
  have hden : ((Format.single.gridStep exponent).2 : ℚ) ≠ 0 := by
    exact_mod_cast (Format.snd_gridStep_pos _ _).ne'
  have hpower : (2 : ℚ) ^ stepBits exponent = 2 ^ (stepBits exponent - k) * 2 ^ k := by
    rw [← pow_add, Nat.sub_add_cancel hk]
  rw [Format.halfUnits_grid, stepRatio]
  push_cast
  rw [hpower]
  field_simp

/-- Multiples in the ratio of a fraction that is the ratio itself. -/
theorem mul_ratio_eq {num den p q M N : Nat} (hden : 0 < den) (hq : 0 < q)
    (hequal : p * den = q * num) (hratio : p * N = q * M) : (N : ℚ) * (num / den) = M := by
  have hproduct : N * num = M * den := by
    refine Nat.eq_of_mul_eq_mul_left hq ?_
    calc q * (N * num) = N * (q * num) := by ring
      _ = p * N * den := by rw [← hequal]; ring
      _ = q * (M * den) := by rw [hratio]; ring
  have hdenq : (den : ℚ) ≠ 0 := by
    exact_mod_cast hden.ne'
  rw [← mul_div_assoc, div_eq_iff hdenq]
  exact_mod_cast hproduct

/-- Close multiples that have the ratio of the one exception are equal to it. -/
theorem mem_exceptionalDecimals {exponent : Int} {p q M digits shift : Nat} (hpos : 0 < M)
    (hM : M < endLimit) (hdvd : p ∣ M) (hratio : p * (digits * 2 ^ shift) = q * M)
    (h : (exponent, p, q) = exceptional) : ⟨digits, exponent⟩ ∈ exceptionalDecimals := by
  have hp : p = 22841339 := congrArg (·.2.1) h
  have hq : q = 14077062 := congrArg (·.2.2) h
  have hexponent : exponent = -32 := congrArg (·.1) h
  have hMp : M = p := by
    rcases hdvd with ⟨t, rfl⟩
    have ht : t = 1 := by
      simp only [endLimit] at hM
      rcases t with _ | _ | t
      · omega
      · rfl
      · rw [Nat.mul_add_one, Nat.mul_add_one] at hM
        omega
    rw [ht, Nat.mul_one]
  have hN : digits * 2 ^ shift = 14077062 := by
    rw [hMp, Nat.mul_comm q, hq] at hratio
    exact Nat.eq_of_mul_eq_mul_left (hMp ▸ hpos) hratio
  -- The denominator is even, but no multiple of four.
  have hdigits : digits = 14077062 ∨ digits = 7038531 := by
    rcases shift with _ | _ | shift
    · omega
    · omega
    · have hfour : 4 ∣ digits * 2 ^ (shift + 1 + 1) :=
        Dvd.dvd.mul_left (pow_dvd_pow 2 (Nat.le_add_left 2 shift)) digits
      omega
  simpa [exceptionalDecimals, hexponent] using hdigits

/-- A decimal near an odd multiple of a gap is equal to it, but for one case, where the gap is four
fifths of the grid step or less. -/
theorem eq_or_exceptional_of_near {exponent : Int} (hleast : -45 ≤ exponent)
    (hgreatest : exponent ≤ 38) {digits M k : Nat} (hpos : 0 < M) (hM : M < endLimit)
    (hgap : 5 * 2 ^ k ≤ 4 * Format.single.halfUnits (Scaled.value ⟨1, exponent⟩))
    (hnear : Near (Format.single.halfUnits (Scaled.value ⟨digits, exponent⟩)) (M * 2 ^ k)) :
    Format.single.halfUnits (Scaled.value ⟨digits, exponent⟩) = M * 2 ^ k ∨
      ⟨digits, exponent⟩ ∈ exceptionalDecimals := by
  have hexists := exists_settles (exponent + 45).toNat (by omega)
  have hexponent : (((exponent + 45).toNat : ℤ) - 45) = exponent := by omega
  rw [hexponent] at hexists
  rcases hexists with ⟨⟨p, q⟩, -, hq, hisolates, hcase⟩
  dsimp only at hq hisolates hcase
  have hnum : 0 < (stepRatio exponent).1 := Format.fst_gridStep_pos _ _
  have hden : 0 < (stepRatio exponent).2 :=
    Nat.mul_pos (Format.snd_gridStep_pos _ _) (Nat.two_pow_pos _)
  rw [halfUnits_eq_mul_stepRatio (le_stepBits hgap)] at hnear ⊢
  have hnear := hnear.of_mul (by positivity)
  have hratio := isolated hnum hden hisolates hM hnear
  rcases hcase with hequal | hremote | ⟨hcoprime, hlarge⟩
  · -- The fraction is the ratio itself.
    exact .inl (by rw [mul_ratio_eq hden hq hequal hratio])
  · exact absurd (remoteness_le_of_near hden hpos hq hratio hnear) (Nat.not_le_of_lt hremote)
  · have hdvd : p ∣ M := hcoprime.dvd_of_dvd_mul_left (hratio ▸ Dvd.intro _ rfl)
    rcases hlarge with hlarge | hexceptional
    · have := Nat.le_of_dvd hpos hdvd
      omega
    · exact .inr (mem_exceptionalDecimals hpos hM hdvd hratio hexceptional)

end SdfShader
