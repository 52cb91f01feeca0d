import SdfShader.Decimal.Layout
import SdfShader.Proofs.Decimal.Reading

/-!
# Notation — written numerals and their values

A numeral stands for the same value in every layout, and the shortest positional numeral of a number
determines its magnitude: the digits on both sides of the point give the decimal, the decimal the
code. Main statements:

* `Scaled.value_positional`, `Numeral.value_withFraction`: layouts keep the value;
* `Binary.eq_of_value_numeral`: the value of the shortest numeral and the sign determine a number;
* `Numeral.Plain.mem_toList`, `Binary.mem_fixedText`: the characters that numbers are written with.
-/

namespace SdfShader

/-! ## Values of numerals -/

/-- The value of a numeral, but for the sign. -/
def Numeral.value (n : Numeral) : ℚ :=
  Scaled.value ⟨n.significand, n.scale⟩

theorem Scaled.value_mul_pow (digits places : Nat) (exponent : Int) :
    Scaled.value ⟨digits * 10 ^ places, exponent⟩ = Scaled.value ⟨digits, exponent + places⟩ := by
  simp only [value, zpow_add₀ (show (10 : ℚ) ≠ 0 by norm_num), zpow_natCast]
  push_cast
  ring

/-- A whole number is written with its zeros; zero does not get further ones. -/
theorem Scaled.parts_positional_of_nonneg (negative : Bool) {s : Scaled} (h : 0 ≤ s.exponent) :
    (s.positional negative).significand = s.digits * 10 ^ s.exponent.toNat ∧
      (s.positional negative).scale = 0 := by
  have hdigits : Nat.ofDigitChars 10 (Nat.toDigits 10 s.digits) 0 = s.digits :=
    Nat.ofDigitChars_ten_toDigits
  rw [positional, if_pos h]
  refine ⟨?_, rfl⟩
  by_cases hzero : s.digits = 0
  · have hfirst : Nat.ofDigitChars 10 ['0'] 0 = 0 := rfl
    simp [Numeral.significand, hzero, hfirst]
  · simp only [Numeral.significand, hzero, if_false, Option.getD_none, List.append_nil,
      Nat.ofDigitChars_append, hdigits, Nat.ofDigitChars_replicate_zero]
    exact Nat.mul_comm _ _

/-- What has places behind the point is written with the digits it has. -/
theorem Scaled.parts_positional_of_neg (negative : Bool) {s : Scaled} (h : s.exponent < 0) :
    (s.positional negative).significand = s.digits ∧
      (s.positional negative).scale = s.exponent := by
  have hdigits : Nat.ofDigitChars 10 (Nat.toDigits 10 s.digits) 0 = s.digits :=
    Nat.ofDigitChars_ten_toDigits
  have hplaces : ((-s.exponent).toNat : ℤ) = -s.exponent := by omega
  rw [positional, if_neg (by omega)]
  by_cases hshort : (-s.exponent).toNat < (Nat.toDigits 10 s.digits).length
  · -- The digits before and behind the point are those of the decimal.
    simp only [hshort, if_true, Numeral.significand, Numeral.scale, Option.getD_some,
      Option.getD_none, List.take_append_drop, hdigits, List.length_drop, true_and]
    omega
  · -- The digits stand behind zeros that count nothing.
    have hfirst : Nat.ofDigitChars 10 ['0'] 0 = 0 := rfl
    simp only [hshort, if_false, Numeral.significand, Numeral.scale, Option.getD_some,
      Option.getD_none, List.length_append, List.length_replicate, Nat.ofDigitChars_append, hfirst,
      Nat.ofDigitChars_replicate_zero, Nat.mul_zero, hdigits, true_and]
    omega

theorem Scaled.fraction_positional_of_nonneg (negative : Bool) {s : Scaled} (h : 0 ≤ s.exponent) :
    (s.positional negative).fraction = none := by
  rw [positional, if_pos h]

theorem Scaled.fraction_positional_of_neg (negative : Bool) {s : Scaled} (h : s.exponent < 0) :
    ∃ digits, (s.positional negative).fraction = some digits := by
  rw [positional, if_neg (by omega)]
  split <;> exact ⟨_, rfl⟩

/-- Positional notation keeps the value. -/
theorem Scaled.value_positional (negative : Bool) (s : Scaled) :
    (s.positional negative).value = s.value := by
  by_cases hwhole : 0 ≤ s.exponent
  · rcases parts_positional_of_nonneg negative hwhole with ⟨hsignificand, hscale⟩
    have hexponent : (0 : ℤ) + s.exponent.toNat = s.exponent := by omega
    rw [Numeral.value, hsignificand, hscale, value_mul_pow, hexponent]
  · rcases parts_positional_of_neg negative (not_le.1 hwhole) with ⟨hsignificand, hscale⟩
    rw [Numeral.value, hsignificand, hscale]

/-- One digit stands before the point, and the exponent makes up for the places behind it. -/
theorem Scaled.parts_scientific (negative : Bool) (s : Scaled) :
    (s.scientific negative).significand = s.digits ∧
      (s.scientific negative).scale = s.exponent := by
  have hdigits : Nat.ofDigitChars 10 (Nat.toDigits 10 s.digits) 0 = s.digits :=
    Nat.ofDigitChars_ten_toDigits
  have hlength : 0 < (Nat.toDigits 10 s.digits).length := Nat.length_toDigits_pos
  have hfraction : (s.scientific negative).fraction.getD [] = (Nat.toDigits 10 s.digits).drop 1 := by
    simp only [scientific]
    split
    case isTrue hempty =>
        rw [Option.getD_none, List.isEmpty_iff.1 hempty]
    case isFalse =>
        rfl
  have hwhole : (s.scientific negative).whole = (Nat.toDigits 10 s.digits).take 1 := rfl
  have hexponent : (s.scientific negative).exponent = some s.leading := rfl
  rw [Numeral.significand, Numeral.scale, hfraction, hwhole, hexponent, List.take_append_drop,
    List.length_drop, Option.getD_some, leading]
  exact ⟨hdigits, by omega⟩

theorem Numeral.withFraction_of_some {n : Numeral} {digits : List Char}
    (h : n.fraction = some digits) : n.withFraction = n := by
  cases n
  simp_all [withFraction]

/-- A missing fraction is written as one zero. -/
theorem Numeral.parts_withFraction_of_none {n : Numeral} (h : n.fraction = none) :
    n.withFraction.significand = n.significand * 10 ∧ n.withFraction.scale = n.scale - 1 := by
  have hzero : ∀ init, Nat.ofDigitChars 10 ['0'] init = init * 10 := by
    intro init
    rw [Nat.ofDigitChars_cons, Nat.ofDigitChars_nil]
    exact Nat.mul_comm 10 init
  constructor
  · simp [significand, withFraction, h, Nat.ofDigitChars_append, hzero]
  · simp [scale, withFraction, h]

/-- A zero behind the point changes nothing. -/
theorem Numeral.value_withFraction (n : Numeral) : n.withFraction.value = n.value := by
  cases hfraction : n.fraction with
  | some digits =>
      rw [withFraction_of_some hfraction]
  | none =>
      rcases parts_withFraction_of_none hfraction with ⟨hsignificand, hscale⟩
      have hplace := Scaled.value_mul_pow n.significand 1 (n.scale - 1)
      rw [value, hsignificand, hscale]
      rw [pow_one, Nat.cast_one, Int.sub_add_cancel] at hplace
      exact hplace

/-- The sign and the value of the shortest numeral determine a number. -/
theorem Binary.eq_of_value_numeral {f : Format} {x y : Binary f} (hsign : x.negative = y.negative)
    (hvalue : x.numeral.value = y.numeral.value) : x = y := by
  rw [numeral, numeral, Scaled.value_positional, Scaled.value_positional] at hvalue
  have hcode : x.code = y.code := f.shortest_value_injective .away hvalue
  cases x
  cases y
  cases hsign
  cases hcode
  rfl

/-! ## Form of a positional numeral -/

/-- Digits on both sides of the point, if there is a point, and no exponent. -/
structure Numeral.Plain (n : Numeral) : Prop where
  whole_ne_nil : n.whole ≠ []
  whole : ∀ c ∈ n.whole, c.isDigit = true
  fraction_ne_nil : n.fraction ≠ some []
  fraction : ∀ c ∈ n.fraction.getD [], c.isDigit = true
  exponent : n.exponent = none

theorem isDigit_of_mem_toDigits {n : Nat} {c : Char} (h : c ∈ Nat.toDigits 10 n) :
    c.isDigit = true :=
  Nat.isDigit_of_mem_toDigits (by decide) (by decide) h

theorem Scaled.plain_positional (negative : Bool) (s : Scaled) : (s.positional negative).Plain := by
  have hdigits : ∀ c ∈ Nat.toDigits 10 s.digits, c.isDigit = true := by
    intro c hc
    exact isDigit_of_mem_toDigits hc
  have hzeros : ∀ (n : Nat), ∀ c ∈ List.replicate n '0', c.isDigit = true := by
    intro n c hc
    rw [List.eq_of_mem_replicate hc]
    rfl
  have hne : Nat.toDigits 10 s.digits ≠ [] := Nat.toDigits_ne_nil
  by_cases hwhole : 0 ≤ s.exponent
  · -- A whole number: digits, then zeros.
    rw [positional, if_pos hwhole]
    refine ⟨?_, fun c hc => ?_, by simp, by simp, rfl⟩
    · split <;> simp [hne]
    · split at hc
      · exact hdigits c hc
      · rcases List.mem_append.1 hc with hc | hc
        · exact hdigits c hc
        · exact hzeros _ c hc
  · have hplaces : 0 < (-s.exponent).toNat := by omega
    rw [positional, if_neg hwhole]
    by_cases hshort : (-s.exponent).toNat < (Nat.toDigits 10 s.digits).length
    · -- The point stands between two digits.
      have hsplit : 0 < (Nat.toDigits 10 s.digits).length - (-s.exponent).toNat := by omega
      simp only [hshort, if_true]
      refine ⟨?_, fun c hc => hdigits c (List.mem_of_mem_take hc), ?_,
        fun c hc => hdigits c (List.mem_of_mem_drop hc), rfl⟩
      · exact fun h => (List.take_eq_nil_iff.1 h).elim (Nat.ne_of_gt hsplit) hne
      · intro h
        have hlength := List.drop_eq_nil_iff.1 (Option.some.inj h)
        omega
    · -- Zeros stand between the point and the digits.
      simp only [hshort, if_false]
      refine ⟨by simp, by simp, by simp [hne], fun c hc => ?_, rfl⟩
      rcases List.mem_append.1 hc with hc | hc
      · exact hzeros _ c hc
      · exact hdigits c hc

theorem Scaled.negative_positional (negative : Bool) (s : Scaled) :
    (s.positional negative).negative = negative := by
  unfold positional
  split
  · rfl
  · dsimp only
    split <;> rfl

theorem Numeral.Plain.withFraction {n : Numeral} (h : n.Plain) : n.withFraction.Plain := by
  cases hfraction : n.fraction with
  | none =>
      refine ⟨h.whole_ne_nil, h.whole, ?_, ?_, h.exponent⟩
      · simp [Numeral.withFraction, hfraction]
      · simp [Numeral.withFraction, hfraction]
  | some digits =>
      rwa [Numeral.withFraction_of_some hfraction]

/-- A plain numeral has digits, a sign and a point. -/
theorem Numeral.Plain.mem_toList {n : Numeral} (h : n.Plain) {c : Char} (hc : c ∈ n.toList) :
    c.isDigit = true ∨ c = '-' ∨ c = '.' := by
  rw [Numeral.toList, h.exponent, Option.elim_none, List.append_nil, List.append_assoc] at hc
  rcases List.mem_append.1 hc with hsign | hc
  · split at hsign
    · exact .inr (.inl (List.mem_singleton.1 hsign))
    · exact absurd hsign List.not_mem_nil
  rcases List.mem_append.1 hc with hwhole | hfraction
  · exact .inl (h.whole c hwhole)
  · cases hdigits : n.fraction with
    | none =>
        rw [hdigits] at hfraction
        exact absurd hfraction List.not_mem_nil
    | some digits =>
        rw [hdigits, Option.elim_some] at hfraction
        rcases List.mem_cons.1 hfraction with rfl | hdigit
        · exact .inr (.inr rfl)
        · exact .inl (h.fraction c (by rwa [hdigits]))

/-! ## Fixed number of places -/

/-- At least one digit stands in front of the point, and the places behind it. -/
theorem Binary.plain_fixedNumeral {f : Format} (places : Nat) (x : Binary f) :
    (x.fixedNumeral places).Plain := by
  unfold fixedNumeral
  extract_lets scaled cs padded fraction
  have hdigits : ∀ c ∈ padded, c.isDigit = true := by
    intro c hc
    rcases List.mem_append.1 hc with hzero | hdigit
    · rw [List.eq_of_mem_replicate hzero]
      rfl
    · exact isDigit_of_mem_toDigits hdigit
  have hlength : places < padded.length := by
    simp only [padded, List.length_append, List.length_replicate]
    omega
  have hfraction : fraction.length = places := by
    simp only [fraction, List.length_drop]
    omega
  refine ⟨fun h => ?_, fun c hc => hdigits c (List.mem_of_mem_take hc), fun h => ?_, fun c hc => ?_,
    rfl⟩
  · rcases List.take_eq_nil_iff.1 h with hall | hnil
    · omega
    · rw [hnil] at hlength
      exact absurd hlength (Nat.not_lt_zero places)
  · split at h
    · exact nomatch h
    · next hplaces =>
        rw [Option.some.inj h] at hfraction
        exact hplaces hfraction.symm
  · split at hc
    · exact absurd hc List.not_mem_nil
    · exact hdigits c (List.mem_of_mem_drop hc)

/-- The characters of a number with a fixed number of places. -/
theorem Binary.mem_fixedText {f : Format} {places : Nat} {x : Binary f} {c : Char}
    (h : c ∈ (x.fixedText places).toList) : c.isAlphanum = true ∨ c = '-' ∨ c = '.' := by
  unfold fixedText at h
  split at h
  · rw [Numeral.toString, String.toList_ofList] at h
    refine ((x.plain_fixedNumeral places).mem_toList h).imp_left fun hdigit => ?_
    rw [Char.isAlphanum, hdigit, Bool.or_true]
  · have hmem : x.specialText ∈ ["NaN", "-inf", "inf"] := by
      unfold specialText
      split
      · simp
      · split <;> simp
    have hall : (["NaN", "-inf", "inf"].all fun text =>
        text.toList.all fun c => c.isAlphanum || c == '-') = true := rfl
    have hchar := List.all_eq_true.1 (List.all_eq_true.1 hall _ hmem) c h
    rw [Bool.or_eq_true, beq_iff_eq] at hchar
    exact hchar.imp_right .inl

end SdfShader
