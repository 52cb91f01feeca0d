import SdfShader.Proofs.Json.Lexeme
import SdfShader.Proofs.Json.Rereading
import SdfShader.Settings.Decode
import SdfShader.Settings.Encode

/-!
# Scalar — a number in settings is read back as it is

The numeral of a finite number stands for its shortest decimal, with the digits as they are or, for
a whole number, with all its zeros; so it is read back by way of a double, zeros with their signs
included (`Config.decodeScalar_encodeScalar`).
-/

namespace SdfShader

/-! ## The word of a numeral -/

/-- Digits that fit into a word together are read as they are written. -/
theorem Numeral.word_of_lt {n : Numeral} (h : n.significand < UInt64.size) :
    n.word = ⟨n.significand, n.scale⟩ := by
  have hsplit : n.significand
      = Nat.ofDigitChars 10 (n.fraction.getD []) (Nat.ofDigitChars 10 n.whole 0) :=
    Nat.ofDigitChars_append 0
  have hwhole : Nat.ofDigitChars 10 n.whole 0 < UInt64.size := by
    refine lt_of_le_of_lt ?_ h
    rw [hsplit]
    exact le_ofDigitChars _ _
  rw [hsplit] at h
  simp [word, takeDigits_of_lt hwhole, takeDigits_of_lt h, hsplit, scale]

/-- Digits without a sign are read as an integer if a word can hold it. -/
theorem Numeral.integer?_of_lt {digits : List Char}
    (h : Nat.ofDigitChars 10 digits 0 < UInt64.size) :
    (⟨false, digits, none, none⟩ : Numeral).integer?
      = some (Nat.ofDigitChars 10 digits 0 : Int) := by
  have hsignificand : (⟨false, digits, none, none⟩ : Numeral).significand
      = Nat.ofDigitChars 10 digits 0 := by
    simp [significand]
  have hleast : Int64.minValue.toInt ≤ 0 := by decide
  rw [integer?, hsignificand]
  simp only [Bool.false_eq_true, if_false, Bool.false_and]
  rw [if_pos ⟨rfl, rfl, by omega, by omega⟩]

/-- A natural number that fits into a word is read as an integer. -/
theorem Numeral.integer?_toDigits {n : Nat} (h : n < UInt64.size) :
    (⟨false, Nat.toDigits 10 n, none, none⟩ : Numeral).integer? = some (n : Int) := by
  have hdigits : Nat.ofDigitChars 10 (Nat.toDigits 10 n) 0 = n := Nat.ofDigitChars_ten_toDigits
  rw [integer?_of_lt (hdigits.symm ▸ h), hdigits]

/-! ## Sign -/

theorem Binary.convert_neg {f g : Format} {x : Binary f} (h : x.IsMagnitude) :
    (-x).convert g = -(x.convert g) := by
  have hneg : -x = { x with negative := !x.negative } := rfl
  have hnan : (-x).isNaN = false := h.isNaN
  have hinfinite : (-x).isInfinite = false := h.isInfinite
  have hunits : (-x).units = x.units := rfl
  have hsign : (-x).negative = !x.negative := rfl
  rw [convert, convert, hnan, hinfinite, h.isNaN, h.isInfinite, hunits, hsign]
  rfl

/-! ## Numerals of settings -/

/-- A whole number with thirteen digits at most, written with one place more. -/
theorem Scaled.lt_of_leading_le {s : Scaled} (hsign : 0 ≤ s.exponent) (hleading : s.leading ≤ 12) :
    s.digits * 10 ^ (s.exponent.toNat + 1) < 2 ^ 53 := by
  have hlength : 0 < (Nat.toDigits 10 s.digits).length := Nat.length_toDigits_pos
  have hdigits : s.digits < 10 ^ (Nat.toDigits 10 s.digits).length :=
    (Nat.length_toDigits_le_iff (by decide) hlength).1 (Nat.le_refl _)
  have hplaces : (Nat.toDigits 10 s.digits).length + (s.exponent.toNat + 1) ≤ 14 := by
    rw [leading] at hleading
    omega
  calc s.digits * 10 ^ (s.exponent.toNat + 1)
      < 10 ^ (Nat.toDigits 10 s.digits).length * 10 ^ (s.exponent.toNat + 1) :=
        Nat.mul_lt_mul_of_pos_right hdigits (Nat.pow_pos (by decide))
    _ = 10 ^ ((Nat.toDigits 10 s.digits).length + (s.exponent.toNat + 1)) := (Nat.pow_add ..).symm
    _ ≤ 10 ^ 14 := Nat.pow_le_pow_right (by decide) hplaces
    _ < 2 ^ 53 := by decide

namespace Binary

variable {x : Single}

theorem negative_settingsNumeral (x : Single) : x.settingsNumeral.negative = x.negative := by
  unfold settingsNumeral
  dsimp only
  split
  · exact Scaled.negative_positional _ _
  · rfl

theorem isInteger_settingsNumeral (x : Single) : x.settingsNumeral.isInteger = false := by
  unfold settingsNumeral
  dsimp only
  split
  · rfl
  · simp [Numeral.isInteger, Scaled.scientific]

/-- The numeral has the digits of the shortest decimal. -/
theorem isRewriting_settingsNumeral (hcode : 0 < x.code) :
    (Format.single.shortest .toEven x.code).IsRewriting x.settingsNumeral.word := by
  have hlimit := Format.single.digits_shortest_le .toEven hcode
  unfold settingsNumeral
  set s := Format.single.shortest .toEven x.code
  have hsize : s.digits < UInt64.size := lt_of_le_of_lt hlimit (by decide)
  dsimp only
  split
  case isTrue hleading =>
      rcases lt_or_ge s.exponent 0 with hneg | hnonneg
      · rcases Scaled.parts_positional_of_neg x.negative hneg with ⟨hsignificand, hscale⟩
        rcases Scaled.fraction_positional_of_neg x.negative hneg with ⟨digits, hfraction⟩
        rw [Numeral.withFraction_of_some hfraction, Numeral.word_of_lt (by rwa [hsignificand]),
          hsignificand, hscale]
        exact .inl rfl
      · rcases Scaled.parts_positional_of_nonneg x.negative hnonneg with ⟨hsignificand, hscale⟩
        have hfraction := Scaled.fraction_positional_of_nonneg x.negative hnonneg
        rcases Numeral.parts_withFraction_of_none hfraction with ⟨hsignificand', hscale'⟩
        have hshort := Scaled.lt_of_leading_le hnonneg hleading.2
        rw [hsignificand, mul_assoc, ← pow_succ] at hsignificand'
        rw [hscale] at hscale'
        rw [Numeral.word_of_lt (by rw [hsignificand']; exact hshort.trans (by decide)),
          hsignificand', hscale']
        exact .inr ⟨hnonneg, rfl, hshort⟩
  case isFalse =>
      rcases Scaled.parts_scientific x.negative s with ⟨hsignificand, hscale⟩
      rw [Numeral.word_of_lt (by rwa [hsignificand]), hsignificand, hscale]
      exact .inl rfl

end Binary

namespace Config

/-- A finite number is read back bit for bit. -/
theorem decodeScalar_encodeScalar {x : Single} (h : x.isFinite = true) :
    decodeScalar (encodeScalar x) = some x := by
  have hfinite : x.code < Format.single.infinity := of_decide_eq_true h
  rcases Nat.eq_zero_or_pos x.code with hzero | hcode
  · -- Both zeros have a numeral of their own.
    have hx : x = .zero x.negative := by
      obtain ⟨negative, code, hlt⟩ := x
      cases hzero
      rfl
    have hzeros : ∀ negative, decodeScalar (encodeScalar (.zero negative)) = some (.zero negative) := by
      decide +kernel
    rw [hx, hzeros]
  · rcases Binary.exists_reread .toEven hcode hfinite (Binary.isRewriting_settingsNumeral hcode) with
      ⟨y, hy, hmagnitude, hsign, hcode'⟩
    have hinteger : x.settingsNumeral.integer? = none := by
      simp [Numeral.integer?, Binary.isInteger_settingsNumeral]
    have hdouble : x.settingsNumeral.double? = some (if x.negative then -y else y) := by
      rw [Numeral.double?, hy, Option.map_some, Binary.negative_settingsNumeral]
    have hsingle : (if x.negative then -y else y).convert .single = x := by
      have hpositive : y.convert .single = ⟨false, x.code, x.code_lt⟩ := by
        cases hconvert : y.convert .single
        simp_all
      cases hnegative : x.negative with
      | false =>
          rw [if_neg Bool.false_ne_true, hpositive]
          cases x
          cases hnegative
          rfl
      | true =>
          rw [if_pos rfl, Binary.convert_neg hmagnitude, hpositive]
          cases x
          cases hnegative
          rfl
    simp [encodeScalar, h, decodeScalar, Numeral.number?, hinteger, hdouble,
      Json.Number.toSingle, hsingle]

end Config

/-! ## Text of the numerals -/

/-- The digits of a number begin with zero only if it is zero. -/
theorem head?_toDigits_ne {n : Nat} (h : 0 < n) : (Nat.toDigits 10 n).head? ≠ some '0' := by
  induction n using Nat.strongRecOn with
  | ind n ih =>
      rw [Nat.toDigits_eq_if (by decide)]
      split
      case isTrue hdigit =>
          have hall : ∀ d < 10, 0 < d → Nat.digitChar d ≠ '0' := by decide
          simpa using hall n hdigit h
      case isFalse hlong =>
          rw [List.head?_append_of_ne_nil _ Nat.toDigits_ne_nil]
          exact ih (n / 10) (by omega) (by omega)

theorem head?_toDigits_eq_or (n : Nat) :
    Nat.toDigits 10 n = ['0'] ∨ (Nat.toDigits 10 n).head? ≠ some '0' := by
  rcases Nat.eq_zero_or_pos n with rfl | hpos
  · exact .inl rfl
  · exact .inr (head?_toDigits_ne hpos)

namespace Numeral

theorem readable_toDigits (n : Nat) : Numeral.Readable ⟨false, Nat.toDigits 10 n, none, none⟩ where
  whole_ne_nil := Nat.toDigits_ne_nil
  whole := fun _ hc => isDigit_of_mem_toDigits hc
  leading := head?_toDigits_eq_or n
  fraction_ne_nil := by simp
  fraction := by simp

end Numeral

namespace Scaled

/-- In positional notation only a zero before the point begins with zero. -/
theorem leading_positional (negative : Bool) (s : Scaled) :
    (s.positional negative).whole = ['0'] ∨ (s.positional negative).whole.head? ≠ some '0' := by
  have hdigits := head?_toDigits_eq_or s.digits
  rcases lt_or_ge s.exponent 0 with hneg | hnonneg
  · rw [positional, if_neg (not_le.2 hneg)]
    split
    case isTrue hshort =>
        rcases hdigits with hzero | hhead
        · rw [hzero, List.length_singleton] at hshort
          omega
        · refine .inr ?_
          rwa [List.head?_take, if_neg (by omega)]
    case isFalse =>
        exact .inl rfl
  · rw [positional, if_pos hnonneg]
    dsimp only
    split
    case isTrue hzero =>
        exact .inl (by rw [hzero]; rfl)
    case isFalse hpos =>
        refine .inr ?_
        rw [List.head?_append_of_ne_nil _ Nat.toDigits_ne_nil]
        exact head?_toDigits_ne (Nat.pos_of_ne_zero hpos)

theorem readable_withFraction (negative : Bool) (s : Scaled) :
    (s.positional negative).withFraction.Readable := by
  have hplain := (plain_positional negative s).withFraction
  exact ⟨hplain.whole_ne_nil, hplain.whole, leading_positional negative s,
    hplain.fraction_ne_nil, hplain.fraction⟩

theorem readable_scientific (negative : Bool) (s : Scaled) :
    (s.scientific negative).Readable := by
  have hdigits : ∀ c ∈ Nat.toDigits 10 s.digits, c.isDigit = true := fun _ hc =>
    isDigit_of_mem_toDigits hc
  have hne : Nat.toDigits 10 s.digits ≠ [] := Nat.toDigits_ne_nil
  refine ⟨by simp [scientific, hne], fun c hc => hdigits c (List.mem_of_mem_take hc), ?_, ?_, ?_⟩
  · rcases head?_toDigits_eq_or s.digits with hzero | hhead
    · exact .inl (by simp [scientific, hzero])
    · exact .inr (by simpa [scientific, List.head?_take] using hhead)
  · simp only [scientific]
    split
    case isTrue =>
        simp
    case isFalse hrest =>
        simpa using hrest
  · intro c hc
    simp only [scientific] at hc
    split at hc
    case isTrue =>
        simp at hc
    case isFalse =>
        exact hdigits c (List.mem_of_mem_drop hc)

end Scaled

theorem Binary.readable_settingsNumeral (x : Single) : x.settingsNumeral.Readable := by
  unfold settingsNumeral
  dsimp only
  split
  · exact Scaled.readable_withFraction _ _
  · exact Scaled.readable_scientific _ _

end SdfShader
