import Mathlib.Data.List.TakeWhile
import SdfShader.Json.Lexer
import SdfShader.Json.Printer

/-!
# Lexeme — numerals and strings in a JSON text

A numeral is read up to the first character that cannot belong to it, a string up to its closing
quote. Both have several spellings; what the printer writes is one of them. Main statements:

* `Numeral.SpelledAs`, `Written.SpelledAs`: the spellings of a numeral and of a string;
* `Numeral.Readable`, `Piece.Readable`: the numerals and pieces that the printer spells so;
* `scanNumeral_append`: one numeral in front of a text that ends it;
* `scanString_append`: one string, escapes included.
-/

namespace SdfShader

/-- Digits on both sides of the point, if there is one, and no superfluous zero in front. -/
structure Numeral.Readable (n : Numeral) : Prop where
  whole_ne_nil : n.whole ≠ []
  whole : ∀ c ∈ n.whole, c.isDigit = true
  leading : n.whole = ['0'] ∨ n.whole.head? ≠ some '0'
  fraction_ne_nil : n.fraction ≠ some []
  fraction : ∀ c ∈ n.fraction.getD [], c.isDigit = true

/-- The spellings of an exponent: a letter in either case, perhaps a sign, and digits, which may
begin with zeros. -/
inductive Numeral.ExponentSpelledAs : Option Int → List Char → Prop
  | absent : ExponentSpelledAs none []
  | positive {letter : Char} {sign ds : List Char} (hletter : letter = 'e' ∨ letter = 'E')
      (hsign : sign = [] ∨ sign = ['+']) (hne : ds ≠ []) (hdigits : ∀ c ∈ ds, c.isDigit = true) :
      ExponentSpelledAs (some (Nat.ofDigitChars 10 ds 0 : Int)) (letter :: (sign ++ ds))
  | negative {letter : Char} {ds : List Char} (hletter : letter = 'e' ∨ letter = 'E')
      (hne : ds ≠ []) (hdigits : ∀ c ∈ ds, c.isDigit = true) :
      ExponentSpelledAs (some (-(Nat.ofDigitChars 10 ds 0 : Int))) (letter :: '-' :: ds)

/-- The spellings of a numeral. Only its exponent can be spelled in several ways. -/
def Numeral.SpelledAs (n : Numeral) (cs : List Char) : Prop :=
  n.Readable ∧ ∃ exponent, ExponentSpelledAs n.exponent exponent ∧
    cs = (if n.negative then ['-'] else [])
      ++ (n.whole ++ (n.fraction.elim [] ('.' :: ·) ++ exponent))

namespace Json

/-! ## Digits -/

/-- Whether a text begins with a character that satisfies `p`. -/
def Begins (p : Char → Bool) : List Char → Bool
  | [] => false
  | c :: _ => p c

theorem scanDigits_append {ds rest : List Char} (hne : ds ≠ [])
    (hdigits : ∀ c ∈ ds, c.isDigit = true) (hrest : Begins Char.isDigit rest = false) :
    scanDigits (ds ++ rest) = some (ds, rest) := by
  have htake : rest.takeWhile Char.isDigit = [] ∧ rest.dropWhile Char.isDigit = rest := by
    cases rest with
    | nil =>
        exact ⟨rfl, rfl⟩
    | cons c rest =>
        have hc : c.isDigit = false := hrest
        simp [hc]
  rw [scanDigits, List.takeWhile_append_of_pos hdigits, List.dropWhile_append_of_pos hdigits,
    htake.1, htake.2, List.append_nil]
  simp [hne]

/-! ## Numerals -/

/-- Whether a character can go on with a numeral. -/
def isNumeralPart (c : Char) : Bool :=
  c.isDigit || c = '.' || c = 'e' || c = 'E'

theorem begins_isDigit_of_not_isNumeralPart {rest : List Char}
    (h : Begins isNumeralPart rest = false) : Begins Char.isDigit rest = false := by
  cases rest with
  | nil =>
      rfl
  | cons c rest =>
      simp_all [Begins, isNumeralPart]

section Parts

variable {n : Numeral} (h : n.Readable) {rest : List Char}
include h

theorem scanWhole_append (hrest : Begins Char.isDigit rest = false) :
    scanWhole (n.whole ++ rest) = some (n.whole, rest) := by
  rcases h.leading with hzero | hleading
  · rw [hzero]
    rfl
  · cases hwhole : n.whole with
    | nil =>
        exact absurd hwhole h.whole_ne_nil
    | cons c cs =>
        rw [hwhole] at hleading
        have hc : c ≠ '0' := by simpa using hleading
        have hscan : scanWhole (c :: (cs ++ rest)) = scanDigits (c :: (cs ++ rest)) := by
          unfold scanWhole
          split
          · simp_all
          · rfl
        rw [List.cons_append, hscan]
        rw [← List.cons_append, ← hwhole]
        exact scanDigits_append h.whole_ne_nil h.whole hrest

theorem scanFraction_append (hrest : Begins Char.isDigit rest = false)
    (hpoint : Begins (· = '.') rest = false) :
    scanFraction (n.fraction.elim [] ('.' :: ·) ++ rest) = some (n.fraction, rest) := by
  cases hfraction : n.fraction with
  | none =>
      simp only [Option.elim_none, List.nil_append]
      unfold scanFraction
      split
      · simp_all [Begins]
      · rfl
  | some ds =>
      have hne : ds ≠ [] := by
        rintro rfl
        exact h.fraction_ne_nil hfraction
      have hdigits : ∀ c ∈ ds, c.isDigit = true := by
        simpa [hfraction] using h.fraction
      simp [scanFraction, scanDigits_append hne hdigits hrest]

end Parts

theorem scanExponentDigits_positive {sign ds rest : List Char} (hsign : sign = [] ∨ sign = ['+'])
    (hne : ds ≠ []) (hdigits : ∀ c ∈ ds, c.isDigit = true)
    (hrest : Begins Char.isDigit rest = false) :
    scanExponentDigits (sign ++ (ds ++ rest))
      = some (some (Nat.ofDigitChars 10 ds 0 : Int), rest) := by
  have hscan : scanSign (sign ++ (ds ++ rest)) = (false, ds ++ rest) := by
    rcases hsign with rfl | rfl
    · rcases List.exists_cons_of_ne_nil hne with ⟨c, cs, rfl⟩
      have hc : c.isDigit = true := hdigits c List.mem_cons_self
      -- A digit is no sign.
      rw [List.nil_append, List.cons_append, scanSign.eq_def]
      split <;> simp_all
    · rfl
  simp [scanExponentDigits, hscan, scanDigits_append hne hdigits hrest]

theorem scanExponentDigits_negative {ds rest : List Char} (hne : ds ≠ [])
    (hdigits : ∀ c ∈ ds, c.isDigit = true) (hrest : Begins Char.isDigit rest = false) :
    scanExponentDigits ('-' :: (ds ++ rest))
      = some (some (-(Nat.ofDigitChars 10 ds 0 : Int)), rest) := by
  simp [scanExponentDigits, scanSign, scanDigits_append hne hdigits hrest]

theorem scanExponent_letter {letter : Char} (h : letter = 'e' ∨ letter = 'E') (cs : List Char) :
    scanExponent (letter :: cs) = scanExponentDigits cs := by
  rcases h with rfl | rfl <;> rfl

theorem scanExponent_append {exponent : Option Int} {text rest : List Char}
    (h : Numeral.ExponentSpelledAs exponent text) (hrest : Begins isNumeralPart rest = false) :
    scanExponent (text ++ rest) = some (exponent, rest) := by
  have hdigit := begins_isDigit_of_not_isNumeralPart hrest
  cases h with
  | absent =>
      rw [List.nil_append]
      unfold scanExponent
      split
      · simp_all [Begins, isNumeralPart]
      · simp_all [Begins, isNumeralPart]
      · rfl
  | positive hletter hsign hne hdigits =>
      rw [List.cons_append, List.append_assoc, scanExponent_letter hletter]
      exact scanExponentDigits_positive hsign hne hdigits hdigit
  | negative hletter hne hdigits =>
      rw [List.cons_append, List.cons_append, scanExponent_letter hletter]
      exact scanExponentDigits_negative hne hdigits hdigit

/-- What a numeral has behind its digits does not begin with one. -/
theorem begins_isDigit_exponent {exponent : Option Int} {text rest : List Char}
    (h : Numeral.ExponentSpelledAs exponent text) (hrest : Begins isNumeralPart rest = false) :
    Begins Char.isDigit (text ++ rest) = false ∧ Begins (· = '.') (text ++ rest) = false := by
  cases h with
  | absent =>
      cases rest with
      | nil =>
          exact ⟨rfl, rfl⟩
      | cons c rest =>
          simp_all [Begins, isNumeralPart]
  | positive hletter _ _ _ | negative hletter _ _ =>
      rcases hletter with rfl | rfl <;> exact ⟨rfl, rfl⟩

theorem scanUnsigned_append {n : Numeral} (h : n.Readable) (negative : Bool)
    {exponent rest : List Char} (hexponent : Numeral.ExponentSpelledAs n.exponent exponent)
    (hrest : Begins isNumeralPart rest = false) :
    scanUnsigned negative (n.whole ++ (n.fraction.elim [] ('.' :: ·) ++ (exponent ++ rest)))
      = some (⟨negative, n.whole, n.fraction, n.exponent⟩, rest) := by
  rcases begins_isDigit_exponent hexponent hrest with ⟨hdigit, hpoint⟩
  have hfraction :
      Begins Char.isDigit (n.fraction.elim [] ('.' :: ·) ++ (exponent ++ rest)) = false := by
    cases n.fraction with
    | none =>
        exact hdigit
    | some ds =>
        rfl
  simp [scanUnsigned, scanWhole_append h hfraction, scanFraction_append h hdigit hpoint,
    scanExponent_append hexponent hrest]

/-- A numeral is read up to a character that cannot go on with it. -/
theorem scanNumeral_append {n : Numeral} {cs rest : List Char} (h : n.SpelledAs cs)
    (hrest : Begins isNumeralPart rest = false) :
    scanNumeral (cs ++ rest) = some (n, rest) := by
  rcases h with ⟨hreadable, exponent, hexponent, rfl⟩
  have hunsigned := fun negative => scanUnsigned_append hreadable negative hexponent hrest
  cases hsign : n.negative with
  | true =>
      rw [if_pos rfl]
      simp only [List.append_assoc, List.cons_append, List.nil_append]
      rw [scanNumeral, hunsigned, ← hsign]
  | false =>
      rw [if_neg Bool.false_ne_true]
      simp only [List.append_assoc, List.nil_append]
      cases hwhole : n.whole with
      | nil =>
          exact absurd hwhole hreadable.whole_ne_nil
      | cons c cs =>
          have hc : c ≠ '-' := by
            rintro rfl
            exact absurd (hreadable.whole '-' (by simp [hwhole])) (by decide)
          have hscan : ∀ more, scanNumeral (c :: more) = scanUnsigned false (c :: more) := by
            intro more
            unfold scanNumeral
            split
            · simp_all
            · rfl
          rw [List.cons_append, hscan, ← List.cons_append, ← hwhole, hunsigned, ← hsign]

/-- The printer writes the sign of an exponent and no superfluous zeros. -/
theorem exponentSpelledAs_exponentText (exponent : Option Int) :
    Numeral.ExponentSpelledAs exponent (exponent.elim [] Numeral.exponentText) := by
  cases exponent with
  | none =>
      exact .absent
  | some e =>
      have hdigits : ∀ c ∈ Nat.toDigits 10 e.natAbs, c.isDigit = true := fun c hc =>
        Nat.isDigit_of_mem_toDigits (by decide) (by decide) hc
      have hvalue : Nat.ofDigitChars 10 (Nat.toDigits 10 e.natAbs) 0 = e.natAbs :=
        Nat.ofDigitChars_ten_toDigits
      rw [Option.elim_some, Numeral.exponentText]
      split
      case isTrue hneg =>
          have he : -(e.natAbs : Int) = e := by omega
          have hspelled := Numeral.ExponentSpelledAs.negative (.inl rfl) Nat.toDigits_ne_nil hdigits
          rwa [hvalue, he] at hspelled
      case isFalse hneg =>
          have he : (e.natAbs : Int) = e := by omega
          have hspelled := Numeral.ExponentSpelledAs.positive (.inl rfl) (.inr rfl)
            Nat.toDigits_ne_nil hdigits
          rwa [hvalue, he] at hspelled

theorem spelledAs_toList {n : Numeral} (h : n.Readable) : n.SpelledAs n.toList :=
  ⟨h, _, exponentSpelledAs_exponentText n.exponent, by simp [Numeral.toList]⟩

/-- A printed numeral is read back. -/
theorem scanNumeral_toList {n : Numeral} (h : n.Readable) {rest : List Char}
    (hrest : Begins isNumeralPart rest = false) :
    scanNumeral (n.toList ++ rest) = some (n, rest) :=
  scanNumeral_append (spelledAs_toList h) hrest

/-! ## Strings -/

/-- The spellings of a piece: a character as it is or behind a backslash, a unit by its number. -/
inductive Piece.SpelledAs : Piece → List Char → Prop
  | plain {c : Char} (hquote : c ≠ '"') (hescape : c ≠ '\\') (hprintable : 0x20 ≤ c.toNat) :
      SpelledAs (.char c) [c]
  | escaped {e c : Char} (h : shortEscape? e = some c) : SpelledAs (.char c) ['\\', e]
  | numbered {a b c d : Char} {n : Nat} (h : Text.number? 16 [a, b, c, d] = some n) :
      SpelledAs (.unit n) ['\\', 'u', a, b, c, d]

/-- The spellings of a string between its quotes. -/
inductive Written.SpelledAs : Written → List Char → Prop
  | nil : SpelledAs [] []
  | cons {p : Piece} {w : Written} {cs ds : List Char} (hp : p.SpelledAs cs)
      (hw : SpelledAs w ds) : SpelledAs (p :: w) (cs ++ ds)

/-- The pieces that are read as they are written: units of sixteen bits, and characters that need no
escape by number. -/
def Piece.Readable : Piece → Prop
  | .char c => 0x20 ≤ c.toNat ∨ c ∈ ['\n', '\r', '\t', '\x08', '\x0c']
  | .unit n => n < 0x10000

theorem number?_hexText {n : Nat} (h : n < 0x10000) : Text.number? 16 (hexText 4 n) = some n := by
  have hdigit : ∀ d, d < 16 → Text.isDigitIn 16 (Nat.digitChar d) = true ∧
      Text.digitValue? (Nat.digitChar d) = some d := by
    decide
  have hvalue := fun m => hdigit (m % 16) (Nat.mod_lt m (by decide))
  simp [hexText, Text.number?, Text.numberOfDigits, hvalue]
  omega

/-- A backslash and one further character. -/
theorem scanString_escape {e c : Char} (h : shortEscape? e = some c) (cs : List Char) :
    scanString ('\\' :: e :: cs) = (scanString cs).map fun (ps, rest) => (.char c :: ps, rest) := by
  rw [scanString.eq_def]
  split
  case h_3 heq =>
      -- No short escape begins with a `u`.
      cases heq
      exact nomatch h
  case h_4 heq =>
      cases heq
      simp only [h, Option.bind_eq_bind, Option.bind_some]
      cases scanString cs <;> rfl
  case h_5 hescape heq =>
      cases heq
      exact absurd rfl (hescape e cs rfl)
  all_goals simp_all

/-- A character that stands for itself. -/
theorem scanString_char {c : Char} (hquote : c ≠ '"') (hescape : c ≠ '\\')
    (hprintable : 0x20 ≤ c.toNat) (cs : List Char) :
    scanString (c :: cs) = (scanString cs).map fun (ps, rest) => (.char c :: ps, rest) := by
  rw [scanString.eq_def]
  split
  case h_5 heq =>
      cases heq
      rw [if_neg (Nat.not_lt_of_le hprintable)]
      cases scanString cs <;> rfl
  all_goals simp_all

/-- A unit by its number. -/
theorem scanString_numbered {a b c d : Char} {n : Nat} (h : Text.number? 16 [a, b, c, d] = some n)
    (cs : List Char) : scanString ('\\' :: 'u' :: a :: b :: c :: d :: cs)
      = (scanString cs).map fun (ps, rest) => (.unit n :: ps, rest) := by
  simp only [scanString, h, Option.bind_eq_bind, Option.bind_some]
  cases scanString cs <;> rfl

theorem scanString_piece {p : Piece} {text : List Char} (h : p.SpelledAs text) (cs : List Char) :
    scanString (text ++ cs) = (scanString cs).map fun (ps, rest) => (p :: ps, rest) := by
  cases h with
  | plain hquote hescape hprintable =>
      exact scanString_char hquote hescape hprintable cs
  | escaped h =>
      exact scanString_escape h cs
  | numbered h =>
      exact scanString_numbered h cs

/-- A string is read up to its closing quote. -/
theorem scanString_append {w : Written} {text : List Char} (h : w.SpelledAs text)
    (rest : List Char) : scanString (text ++ '"' :: rest) = some (w, rest) := by
  induction h with
  | nil =>
      rfl
  | cons hp _ ih =>
      rw [List.append_assoc, scanString_piece hp, ih]
      rfl

theorem spelledAs_toChars {p : Piece} (h : p.Readable) : p.SpelledAs p.toChars := by
  cases p with
  | unit n =>
      obtain ⟨a, b, c, d, hdigits⟩ : ∃ a b c d, hexText 4 n = [a, b, c, d] := ⟨_, _, _, _, rfl⟩
      have hn := number?_hexText h
      rw [hdigits] at hn
      rw [Piece.toChars, hdigits]
      exact .numbered hn
  | char c =>
      have hreadable : 0x20 ≤ c.toNat ∨ c ∈ ['\n', '\r', '\t', '\x08', '\x0c'] := h
      unfold Piece.toChars
      split
      case h_1 heq =>
          exact nomatch heq
      case h_2 heq | h_3 heq | h_4 heq | h_5 heq | h_6 heq | h_7 heq | h_8 heq =>
          cases heq
          exact .escaped rfl
      case h_9 hquote hescape hline hreturn htab hback hfeed heq =>
          cases heq
          have hprintable : 0x20 ≤ c.toNat := by
            rcases hreadable with h | h
            · exact h
            · simp_all
          rw [if_neg (Nat.not_lt_of_le hprintable)]
          exact .plain (fun hc => hquote (hc ▸ rfl)) (fun hc => hescape (hc ▸ rfl)) hprintable

theorem spelledAs_flatMap {w : Written} (h : ∀ p ∈ w, p.Readable) :
    w.SpelledAs (w.flatMap Piece.toChars) := by
  induction w with
  | nil =>
      exact .nil
  | cons p w ih =>
      have hw := ih fun q hq => h q (List.mem_cons_of_mem p hq)
      exact .cons (spelledAs_toChars (h p List.mem_cons_self)) hw

end Json
end SdfShader
