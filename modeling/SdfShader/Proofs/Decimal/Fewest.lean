import Mathlib.Data.List.DropRight
import SdfShader.Proofs.Decimal.Choice
import SdfShader.Proofs.Decimal.Rounding
import SdfShader.Proofs.Settings.Scalar
import SdfShader.Shader.Literal

/-!
# Fewest — literals are exact, and no numeral with fewer digits is

A literal is read back as the number it was written for. Any other numeral that is read as this
number has at least as many significant digits: on the grid of the shortest decimal the digits can
only be fewer if a point of the next coarser grid lies in the reading interval, and then the search
would have stopped there. Main statements:

* `Numeral.significantDigits`: the digits of a numeral that count;
* `Format.length_shortest_le`: no decimal in an interval has fewer digits than the shortest one;
* `Binary.literal_exact`: form, value and length of literals.
-/

namespace SdfShader

/-! ## Significant digits -/

/-- The digits of a numeral without the zeros at its ends. -/
def Numeral.significantDigits (n : Numeral) : List Char :=
  ((n.whole ++ n.fraction.getD []).dropWhile (· = '0')).rdropWhile (· = '0')

theorem ofDigitChars_lt {cs : List Char} (h : ∀ c ∈ cs, c.isDigit = true) (init : Nat) :
    Nat.ofDigitChars 10 cs init < (init + 1) * 10 ^ cs.length := by
  induction cs generalizing init with
  | nil =>
      simp
  | cons c cs ih =>
      have hc : c.toNat - '0'.toNat ≤ 9 := by
        have hdigit := h c List.mem_cons_self
        have hnine : c.toNat ≤ '9'.toNat := (Char.isDigit_iff_toNat.1 hdigit).2
        have hvalues : '9'.toNat = '0'.toNat + 9 := rfl
        omega
      rw [Nat.ofDigitChars_cons, List.length_cons, Nat.pow_succ']
      calc Nat.ofDigitChars 10 cs (10 * init + (c.toNat - '0'.toNat))
          < (10 * init + (c.toNat - '0'.toNat) + 1) * 10 ^ cs.length :=
            ih (fun d hd => h d (List.mem_cons_of_mem c hd)) _
        _ ≤ ((init + 1) * 10) * 10 ^ cs.length := Nat.mul_le_mul_right _ (by omega)
        _ = (init + 1) * (10 * 10 ^ cs.length) := Nat.mul_assoc ..

namespace Numeral

/-- The zeros at the ends only give the others their place. -/
theorem exists_significand_eq {n : Numeral}
    (h : ∀ c ∈ n.whole ++ n.fraction.getD [], c.isDigit = true) :
    ∃ digits places, n.significand = digits * 10 ^ places ∧
      digits < 10 ^ n.significantDigits.length := by
  set cs := n.whole ++ n.fraction.getD [] with hcs
  set front := cs.takeWhile (· = '0')
  set rest := cs.dropWhile (· = '0')
  set core := rest.rdropWhile (· = '0') with hcore
  set behind := rest.rtakeWhile (· = '0')
  have hrest : rest = core ++ behind := (List.rdropWhile_append_rtakeWhile).symm
  have hsplit : cs = front ++ (core ++ behind) := by
    rw [← hrest]
    exact List.takeWhile_append_dropWhile.symm
  have hfront : front = List.replicate front.length '0' :=
    List.eq_replicate_of_mem fun c hc => by simpa using List.mem_takeWhile_imp hc
  have hbehind : behind = List.replicate behind.length '0' :=
    List.eq_replicate_of_mem fun c hc => by simpa using List.mem_rtakeWhile_imp hc
  have hdigits : ∀ c ∈ core, c.isDigit = true := by
    intro c hc
    refine h c ?_
    rw [hsplit]
    simp [hc]
  refine ⟨Nat.ofDigitChars 10 core 0, behind.length, ?_, ?_⟩
  · rw [significand, ← hcs, hsplit, Nat.ofDigitChars_append, Nat.ofDigitChars_append, hfront,
      Nat.ofDigitChars_replicate_zero, Nat.mul_zero, hbehind, Nat.ofDigitChars_replicate_zero,
      List.length_replicate, Nat.mul_comm]
  · have hbound := ofDigitChars_lt hdigits 0
    rwa [Nat.zero_add, Nat.one_mul] at hbound

/-- Zeros around digits do not count. -/
theorem length_significantDigits_le {n : Numeral} {front behind : Nat} {cs : List Char}
    (h : n.whole ++ n.fraction.getD []
      = List.replicate front '0' ++ (cs ++ List.replicate behind '0')) :
    n.significantDigits.length ≤ cs.length := by
  have hzeros : ∀ (k : Nat), ∀ c ∈ List.replicate k '0', decide (c = '0') = true := by
    intro k c hc
    exact decide_eq_true (List.eq_of_mem_replicate hc)
  rw [significantDigits, h, List.dropWhile_append_of_pos (hzeros front), List.dropWhile_append]
  split
  case isTrue =>
      rw [List.dropWhile_eq_nil_iff.2 (hzeros behind)]
      simp
  case isFalse =>
      rw [List.rdropWhile, List.reverse_append, List.reverse_replicate,
        List.dropWhile_append_of_pos (hzeros behind), List.length_reverse]
      calc (List.dropWhile (· = '0') (List.dropWhile (· = '0') cs).reverse).length
          ≤ (List.dropWhile (· = '0') cs).reverse.length := List.length_dropWhile_le _ _
        _ = (List.dropWhile (· = '0') cs).length := List.length_reverse
        _ ≤ cs.length := List.length_dropWhile_le _ _

end Numeral

/-! ## The shortest decimal -/

/-- Without trailing zeros the last digit is not zero. -/
theorem Scaled.digits_trim_mod_ten (s : Scaled) : s.trim.digits = 0 ∨ s.trim.digits % 10 ≠ 0 := by
  fun_induction Scaled.trim s with
  | case1 s h ih =>
      exact ih
  | case2 s h =>
      omega

theorem Scaled.value_le_value {s t : Scaled} (hdigits : s.digits ≤ t.digits)
    (hexponent : s.exponent ≤ t.exponent) : s.value ≤ t.value := by
  have hpower : (10 : ℚ) ^ s.exponent ≤ 10 ^ t.exponent :=
    zpow_le_zpow_right₀ (by norm_num) hexponent
  have hdigits' : (s.digits : ℚ) ≤ t.digits := by
    exact_mod_cast hdigits
  exact mul_le_mul hdigits' hpower (zpow_pos (by norm_num) _).le (Nat.cast_nonneg _)

namespace ReadingInterval

variable {i : ReadingInterval} {x y z : ℚ}

/-- An interval has all points between two of its points. -/
theorem Mem.between (hx : i.Mem x) (hy : i.Mem y) (hxz : x ≤ z) (hzy : z ≤ y) : i.Mem z := by
  unfold Mem at *
  split at hx
  case isTrue hclosed =>
      rw [if_pos hclosed] at hy ⊢
      exact ⟨hx.1.trans hxz, hzy.trans hy.2⟩
  case isFalse hopen =>
      rw [if_neg hopen] at hy ⊢
      exact ⟨hx.1.trans_le hxz, hzy.trans_lt hy.2⟩

end ReadingInterval

namespace Format

variable {f : Format} {tie : Tie} {code digits n : Nat} {exponent : Int}

theorem halfUnits_value_mono {m n : Nat} (h : m ≤ n) (exponent : Int) :
    f.halfUnits (Scaled.value ⟨m, exponent⟩) ≤ f.halfUnits (Scaled.value ⟨n, exponent⟩) := by
  rw [halfUnits_value, f.halfUnits_value n]
  exact mul_le_mul_of_nonneg_right (by exact_mod_cast h) (halfUnits_one_pos exponent).le

/-- If a grid has a point in the interval, then one of the two points next to the value is there. -/
theorem nearest?_ne_none_of_mem
    (h : (f.readingInterval code).Mem (f.halfUnits (Scaled.value ⟨n, exponent⟩))) :
    (f.readingInterval code).nearest? tie (f.gridStep exponent) ≠ none := by
  set i := f.readingInterval code with hi
  set step := f.gridStep exponent
  set below := i.value * step.2 / step.1 with hbelow
  have hden : (0 : ℚ) < step.2 := by
    exact_mod_cast f.snd_gridStep_pos exponent
  have hvalue : i.Mem i.value := by
    have hmagnitude := f.mem_magnitude code
    rw [halfUnits_magnitude, ← hi] at hmagnitude
    simpa [hi, readingInterval] using hmagnitude
  have hlower : f.halfUnits (Scaled.value ⟨below, exponent⟩) ≤ i.value := by
    rw [halfUnits_grid, div_le_iff₀ hden]
    exact_mod_cast Nat.div_mul_le_self _ _
  have hupper : i.value ≤ f.halfUnits (Scaled.value ⟨below + 1, exponent⟩) := by
    rw [halfUnits_grid, le_div_iff₀ hden]
    exact_mod_cast (Nat.lt_mul_of_div_lt (Nat.lt_succ_self _) (f.fst_gridStep_pos exponent)).le
  have hnext : i.contains step below = true ∨ i.contains step (below + 1) = true := by
    rcases Nat.lt_or_ge below n with hlt | hge
    · refine .inr (ReadingInterval.contains_iff.2 ?_)
      exact hvalue.between h hupper (halfUnits_value_mono hlt exponent)
    · refine .inl (ReadingInterval.contains_iff.2 ?_)
      exact h.between hvalue (halfUnits_value_mono hge exponent) hlower
  unfold ReadingInterval.nearest?
  dsimp only
  rw [← hbelow]
  rcases hnext with hcontains | hcontains
  · rw [hcontains]
    cases i.contains step (below + 1) <;> simp
  · rw [hcontains]
    cases i.contains step below <;> simp

/-- Between a decimal and a longer one on a coarser grid there is a power of ten, and it is a point
of the next coarser grid. -/
theorem mem_power_of_longer {i : ReadingInterval} {places : Nat} {grid : Int} {long : Scaled}
    (hplaces : 0 < places) (hmem : i.Mem (f.halfUnits (Scaled.value ⟨digits, exponent⟩)))
    (hdigits : digits < 10 ^ places) (hfine : exponent ≤ grid)
    (hlong : i.Mem (f.halfUnits long.value)) (hlength : 10 ^ places ≤ long.digits)
    (hcoarse : grid ≤ long.exponent) :
    i.Mem (f.halfUnits (Scaled.value ⟨10 ^ (places - 1), grid + 1⟩)) := by
  have hpower : Scaled.value ⟨10 ^ places, grid⟩
      = Scaled.value ⟨10 ^ (places - 1), grid + 1⟩ := by
    have hpoint := Scaled.value_mul_pow (10 ^ (places - 1)) 1 grid
    rwa [← Nat.pow_add, Nat.sub_add_cancel hplaces] at hpoint
  have hlower : Scaled.value ⟨digits, exponent⟩ ≤ Scaled.value ⟨10 ^ places, grid⟩ :=
    Scaled.value_le_value hdigits.le hfine
  have hupper : Scaled.value ⟨10 ^ places, grid⟩ ≤ long.value :=
    Scaled.value_le_value hlength hcoarse
  have hscale := f.halfUnits_strictMono.monotone
  rw [← hpower]
  exact hmem.between hlong (hscale hlower) (hscale hupper)

/-- No decimal in the interval has fewer digits than the shortest one. -/
theorem length_shortest_le (f : Format) (tie : Tie) {places : Nat} (hcode : 0 < code)
    (hmem : (f.readingInterval code).Mem (f.halfUnits (Scaled.value ⟨digits, exponent⟩)))
    (hdigits : digits < 10 ^ places) :
    (Nat.toDigits 10 (f.shortest tie code).digits).length ≤ places := by
  have hplaces : 0 < places := by
    rcases Nat.eq_zero_or_pos places with rfl | hpos
    · -- Zero does not lie in the interval.
      have hzero : digits = 0 := by simpa using hdigits
      have hpositive := pos_of_mem hcode hmem
      simp [halfUnits, Scaled.value, hzero] at hpositive
    · exact hpos
  rcases f.exists_of_shortest tie hcode with ⟨n, grid, hs, hn, hfirst⟩
  rw [Nat.length_toDigits_le_iff (by decide) hplaces]
  by_contra hlong
  rcases hfirst with hleading | hcoarse
  · -- On the first grid there is one digit.
    have hten : n ≤ 10 := digits_le_ten hcode hn hleading
    have htrim : (f.shortest tie code).digits ≤ n := by
      rw [hs]
      exact Scaled.digits_trim_le _
    have hlast := Scaled.digits_trim_mod_ten ⟨n, grid⟩
    have hpower : 10 ^ 1 ≤ 10 ^ places := Nat.pow_le_pow_right (by decide) hplaces
    rw [← hs] at hlast
    omega
  · rcases lt_or_ge grid exponent with hwide | hfine
    · -- The decimal itself is a point of the coarser grid.
      have hpoint := Scaled.value_mul_pow digits (exponent - (grid + 1)).toNat (grid + 1)
      have hexponent : grid + 1 + ((exponent - (grid + 1)).toNat : ℤ) = exponent := by omega
      rw [hexponent] at hpoint
      rw [← hpoint] at hmem
      exact nearest?_ne_none_of_mem hmem hcoarse
    · have hgrid : grid ≤ (f.shortest tie code).exponent := by
        rw [hs]
        exact Scaled.exponent_le_trim _
      have hbetween := mem_power_of_longer hplaces hmem hdigits hfine (mem_shortest tie hcode)
        (not_lt.1 hlong) hgrid
      exact nearest?_ne_none_of_mem hbetween hcoarse

end Format

/-! ## Literals -/

/-- A positional numeral has the digits of the decimal and zeros around them. -/
theorem Scaled.exists_digits_positional (negative : Bool) (s : Scaled) : ∃ front behind,
    (s.positional negative).withFraction.whole
        ++ (s.positional negative).withFraction.fraction.getD []
      = List.replicate front '0' ++ (Nat.toDigits 10 s.digits ++ List.replicate behind '0') := by
  set cs := Nat.toDigits 10 s.digits with hcs
  rcases lt_or_ge s.exponent 0 with hneg | hwhole
  · by_cases hshort : (-s.exponent).toNat < cs.length
    · refine ⟨0, 0, ?_⟩
      simp [positional, Numeral.withFraction, not_le.2 hneg, ← hcs, hshort]
    · refine ⟨(-s.exponent).toNat - cs.length + 1, 0, ?_⟩
      simp [positional, Numeral.withFraction, not_le.2 hneg, ← hcs, hshort, List.replicate_succ]
  · by_cases hzero : s.digits = 0
    · refine ⟨0, 1, ?_⟩
      have hsingle : cs = ['0'] := by
        rw [hcs, hzero]
        rfl
      simp [positional, Numeral.withFraction, hwhole, hsingle, hzero]
    · refine ⟨0, s.exponent.toNat + 1, ?_⟩
      simp [positional, Numeral.withFraction, hwhole, ← hcs, hzero, List.replicate_succ']

namespace Binary

theorem readable_literal (x : Single) : x.numeral.withFraction.Readable :=
  Scaled.readable_withFraction _ _

/-- The literal of a number stands for it. -/
theorem denotes_literal {x : Single} (h : x.isFinite = true) :
    x.numeral.withFraction.Denotes x := by
  have hfinite : x.code < Format.single.infinity := of_decide_eq_true h
  have hvalue : x.numeral.withFraction.value = (Format.single.shortest .away x.code).value := by
    rw [Numeral.value_withFraction]
    exact Scaled.value_positional _ _
  refine ⟨Scaled.negative_positional _ _, ?_⟩
  rw [hvalue, Format.rounds_iff_mem (Scaled.value_nonneg _) hfinite]
  rcases Nat.eq_zero_or_pos x.code with hzero | hcode
  · rw [Format.mem_iff_eq_zero (Scaled.value_nonneg _)]
    · exact hzero
    · simp [hzero, Format.shortest, Format.halfUnits, Scaled.value]
  · exact Format.mem_shortest .away hcode

/-- No numeral with fewer digits stands for the number. -/
theorem length_significantDigits_literal_le {x : Single} (h : x.isFinite = true)
    (hzero : x.isZero = false) {m : Numeral}
    (hm : ∀ c ∈ m.whole ++ m.fraction.getD [], c.isDigit = true) (hread : m.Denotes x) :
    x.numeral.withFraction.significantDigits.length ≤ m.significantDigits.length := by
  have hfinite : x.code < Format.single.infinity := of_decide_eq_true h
  have hcode : 0 < x.code := Nat.pos_of_ne_zero (of_decide_eq_false hzero)
  rcases Scaled.exists_digits_positional x.negative (Format.single.shortest .away x.code) with
    ⟨front, behind, hdigits⟩
  rcases Numeral.exists_significand_eq hm with ⟨digits, places, hsignificand, hbound⟩
  have hmem := (Format.rounds_iff_mem (Scaled.value_nonneg _) hfinite).1 hread.magnitude
  rw [hsignificand, Scaled.value_mul_pow] at hmem
  exact (Numeral.length_significantDigits_le hdigits).trans
    (Format.single.length_shortest_le .away hcode hmem hbound)

/-- The numeral of a literal with its parts. -/
theorem literal_parts (x : Single) : x.numeral.withFraction
    = ⟨x.negative, x.numeral.whole, some (x.numeral.fraction.getD ['0']), none⟩ := by
  have hplain : x.numeral.Plain := Scaled.plain_positional _ _
  have hsign : x.numeral.negative = x.negative := Scaled.negative_positional _ _
  rw [Numeral.withFraction, hsign, hplain.exponent]

theorem scanNumeral_literal (x : Single) :
    Json.scanNumeral x.numeral.withFraction.toList = some (x.numeral.withFraction, []) := by
  have hscan : Json.scanNumeral (x.numeral.withFraction.toList ++ [])
      = some (x.numeral.withFraction, []) := Json.scanNumeral_toList x.readable_literal rfl
  rwa [List.append_nil] at hscan

/-- The literal of a finite number is a plain decimal: a minus if and only if the sign is set,
digits with no superfluous zero in front, a point, and digits. It is read back bit for bit, where a
numeral is read as the number nearest to it, ties to even; for a number other than zero, no numeral
that is read as it has fewer significant digits; and no other number has the same literal. -/
theorem literal_exact (x : Single) (finite : x.isFinite = true) :
    ∃ whole fraction : List Char,
      let n : Numeral := ⟨x.negative, whole, some fraction, none⟩
      let text := (if x.negative then ['-'] else []) ++ whole ++ '.' :: fraction
      x.literal = .ok (String.ofList text) ∧
      (whole ≠ [] ∧ fraction ≠ [] ∧ ∀ c ∈ whole ++ fraction, c.isDigit = true) ∧
      (whole = ['0'] ∨ whole.head? ≠ some '0') ∧
      Json.scanNumeral text = some (n, []) ∧ n.nearest .single = x ∧
      (∀ m : Numeral, m.nearest .single = x ↔ m.Denotes x) ∧
      (x.isZero = false → ∀ m : Numeral,
        (∀ c ∈ m.whole ++ m.fraction.getD [], c.isDigit = true) → m.nearest .single = x →
        n.significantDigits.length ≤ m.significantDigits.length) ∧
      ∀ y : Single, y.literal = x.literal → y = x := by
  have hread : ∀ m : Numeral, m.nearest .single = x ↔ m.Denotes x := fun m =>
    Numeral.nearest_eq_iff finite
  have hreadable := x.readable_literal
  have hback := (hread _).2 (denotes_literal finite)
  have hscan := x.scanNumeral_literal
  have hliteral : x.literal = .ok x.numeral.withFraction.toString :=
    literal_eq_ok_iff.2 ⟨finite, rfl⟩
  have htext : x.numeral.withFraction.toList = (if x.negative then ['-'] else [])
      ++ x.numeral.whole ++ '.' :: x.numeral.fraction.getD ['0'] := by
    rw [literal_parts]
    simp [Numeral.toList]
  refine ⟨x.numeral.whole, x.numeral.fraction.getD ['0'], ?_⟩
  dsimp only
  rw [← htext, ← literal_parts]
  refine ⟨hliteral, ⟨hreadable.whole_ne_nil, ?_, ?_⟩, hreadable.leading, hscan, hback, hread, ?_, ?_⟩
  · intro hnil
    exact hreadable.fraction_ne_nil (congrArg some hnil)
  · intro c hc
    exact (List.mem_append.1 hc).elim (hreadable.whole c) (hreadable.fraction c)
  · intro hzero m hm hm'
    exact length_significantDigits_literal_le finite hzero hm ((hread m).1 hm')
  · intro y hy
    rw [hliteral, literal_eq_ok_iff] at hy
    rcases hy with ⟨hfinite, hsame⟩
    -- One text is read as one numeral.
    have hlist : x.numeral.withFraction.toList = y.numeral.withFraction.toList :=
      String.ofList_injective hsame
    have hscan' := y.scanNumeral_literal
    rw [← hlist, hscan] at hscan'
    have hnumeral : y.numeral.withFraction = x.numeral.withFraction :=
      (Prod.mk.inj (Option.some.inj hscan')).1.symm
    rw [← (Numeral.nearest_eq_iff hfinite).2 (denotes_literal hfinite), hnumeral, hback]

/-- At a power of two the numbers below are closer together than those above. -/
theorem literal_exact_two_pow_24 : (16777216 : Single).isFinite = true ∧
    (16777216 : Single).literal = .ok "16777216.0" ∧
    ∀ m : Numeral, (∀ c ∈ m.whole ++ m.fraction.getD [], c.isDigit = true) →
      m.nearest .single = 16777216 → 8 ≤ m.significantDigits.length := by
  have hfinite : (16777216 : Single).isFinite = true := by decide +kernel
  have hliteral : (16777216 : Single).literal = .ok "16777216.0" := by decide +kernel
  have hscanned : Json.scanNumeral "16777216.0".toList
      = some (⟨false, "16777216".toList, some ['0'], none⟩, []) := by decide +kernel
  have hcount : (⟨false, "16777216".toList, some ['0'], none⟩ : Numeral).significantDigits.length
      = 8 := by decide +kernel
  rcases literal_exact 16777216 hfinite with ⟨whole, fraction, htext, -, -, hscan, -, -, hfewest, -⟩
  refine ⟨hfinite, hliteral, fun m hm hread => ?_⟩
  have hlist : "16777216.0".toList = _ :=
    (congrArg String.toList (Except.ok.inj (hliteral.symm.trans htext))).trans String.toList_ofList
  rw [← hlist, hscanned] at hscan
  have hn := hfewest rfl m hm hread
  rwa [← (Prod.mk.inj (Option.some.inj hscan)).1, hcount] at hn

end Binary
end SdfShader
