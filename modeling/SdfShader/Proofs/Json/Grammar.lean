import Mathlib.Data.List.Chain
import SdfShader.Proofs.Json.Lexeme

/-!
# Grammar — the texts of a list of tokens

A list of tokens is written with each token in any of its spellings, and with any blanks before,
between and behind them. The lexer takes such texts and no others. Numerals are the one kind of
token that goes on with what stands behind it, so it finds the tokens of a text if no two of them
are numerals side by side. Main statements:

* `Token.SpelledAs`, `Layout`: the texts of a token and of a list of tokens;
* `Layout.scanTokens`: the lexer finds the tokens of a text;
* `layout_of_scanTokens`: what it reads has the tokens that it finds.
-/

namespace SdfShader
namespace Json

/-! ## Texts -/

/-- The spellings of a token. -/
inductive Token.SpelledAs : Token → List Char → Prop
  | openArray : SpelledAs .openArray ['[']
  | closeArray : SpelledAs .closeArray [']']
  | openObject : SpelledAs .openObject ['\x7b']
  | closeObject : SpelledAs .closeObject ['\x7d']
  | comma : SpelledAs .comma [',']
  | colon : SpelledAs .colon [':']
  | null : SpelledAs .null ['n', 'u', 'l', 'l']
  | trueWord : SpelledAs (.bool true) ['t', 'r', 'u', 'e']
  | falseWord : SpelledAs (.bool false) ['f', 'a', 'l', 's', 'e']
  | number {n : Numeral} {cs : List Char} (h : n.SpelledAs cs) : SpelledAs (.number n) cs
  | string {w : Written} {cs : List Char} (h : w.SpelledAs cs) :
      SpelledAs (.string w) ('"' :: (cs ++ ['"']))

/-- The texts of a list of tokens: each in some spelling, with any blanks around it. -/
inductive Layout : List Token → List Char → Prop
  | nil : Layout [] []
  | blank {ts : List Token} {c : Char} {cs : List Char} (hc : isBlank c = true)
      (h : Layout ts cs) : Layout ts (c :: cs)
  | token {t : Token} {ts : List Token} {cs rest : List Char} (ht : t.SpelledAs cs)
      (h : Layout ts rest) : Layout (t :: ts) (cs ++ rest)

/-! ## Every text is read -/

theorem scanTokens_mono {fuel more : Nat} (hmore : fuel ≤ more) {cs : List Char}
    {ts : List Token} (h : scanTokens fuel cs = some ts) : scanTokens more cs = some ts := by
  induction fuel generalizing more cs ts with
  | zero =>
      cases cs with
      | nil =>
          rw [scanTokens] at h ⊢
          exact h
      | cons c rest =>
          exact nomatch h
  | succ fuel ih =>
      obtain ⟨more, rfl⟩ : ∃ m, more = m + 1 := ⟨more - 1, by omega⟩
      have hfuel : fuel ≤ more := Nat.le_of_succ_le_succ hmore
      cases cs with
      | nil =>
          rw [scanTokens] at h ⊢
          exact h
      | cons c rest =>
          -- A blank or a token is taken off, and for what is left one step less is allowed.
          rw [scanTokens] at h ⊢
          split
          case isTrue hblank =>
              rw [if_pos hblank] at h
              exact ih hfuel h
          case isFalse hblank =>
              rw [if_neg hblank] at h
              simp only [Option.bind_eq_bind, Option.bind_eq_some_iff, Option.pure_def] at h ⊢
              rcases h with ⟨⟨t, rest'⟩, hscan, ts', hts', h⟩
              exact ⟨⟨t, rest'⟩, hscan, ts', ih hfuel hts', h⟩

/-- One lexeme. -/
theorem scanTokens_lexeme {c : Char} {cs rest : List Char} {t : Token} {fuel : Nat}
    {more : List Token} (hblank : isBlank c = false)
    (hscan : scanToken (c :: cs ++ rest) = some (t, rest))
    (hrest : scanTokens fuel rest = some more) :
    scanTokens ((c :: cs).length + fuel) (c :: cs ++ rest) = some (t :: more) := by
  have hlength : (c :: cs).length + fuel = cs.length + fuel + 1 := by
    rw [List.length_cons]
    omega
  have hmore := scanTokens_mono (Nat.le_add_left fuel cs.length) hrest
  rw [List.cons_append] at hscan
  rw [hlength, List.cons_append, scanTokens, hblank, if_neg Bool.false_ne_true, hscan]
  simp [hmore]

/-- What begins like a numeral is scanned as one. -/
theorem scanToken_of_isDigit {c : Char} (h : c.isDigit = true ∨ c = '-') (cs : List Char) :
    scanToken (c :: cs) = (scanNumeral (c :: cs)).map fun (n, rest) => (.number n, rest) := by
  rw [scanToken.eq_def]
  split
  case h_11 =>
      rfl
  all_goals
    rename_i heq
    cases heq
    exact absurd h (by decide)

theorem not_isBlank_of_isDigit {c : Char} (h : c.isDigit = true ∨ c = '-') : isBlank c = false := by
  by_contra hblank
  simp only [isBlank, Bool.not_eq_false, Bool.or_eq_true, decide_eq_true_eq] at hblank
  rcases hblank with ((rfl | rfl) | rfl) | rfl <;> exact absurd h (by decide)

def Token.isNumber : Token → Bool
  | .number _ => true
  | _ => false

theorem exists_cons_of_spelledAs {n : Numeral} {cs : List Char} (h : n.SpelledAs cs) :
    ∃ c rest, cs = c :: rest ∧ (c.isDigit = true ∨ c = '-') := by
  rcases h with ⟨hreadable, exponent, -, rfl⟩
  cases hsign : n.negative with
  | true =>
      exact ⟨'-', _, rfl, .inr rfl⟩
  | false =>
      rcases List.exists_cons_of_ne_nil hreadable.whole_ne_nil with ⟨c, cs, hwhole⟩
      have hc : c.isDigit = true := hreadable.whole c (by simp [hwhole])
      exact ⟨c, cs ++ (n.fraction.elim [] ('.' :: ·) ++ exponent), by simp [hwhole], .inl hc⟩

/-- A token begins with no blank, and only a numeral with what could go on with another one. -/
theorem Token.SpelledAs.exists_cons {t : Token} {cs : List Char} (h : t.SpelledAs cs) :
    ∃ c rest, cs = c :: rest ∧ isBlank c = false ∧
      (t.isNumber = false → isNumeralPart c = false) := by
  cases h with
  | number h =>
      rcases exists_cons_of_spelledAs h with ⟨c, rest, rfl, hc⟩
      exact ⟨c, rest, rfl, not_isBlank_of_isDigit hc, nofun⟩
  | string h =>
      exact ⟨'"', _, rfl, by decide, fun _ => by decide⟩
  | _ =>
      exact ⟨_, _, rfl, by decide, fun _ => by decide⟩

theorem scanToken_append {t : Token} {cs rest : List Char} (h : t.SpelledAs cs)
    (hrest : t.isNumber = true → Begins isNumeralPart rest = false) :
    scanToken (cs ++ rest) = some (t, rest) := by
  cases h with
  | number h =>
      have hscan := scanNumeral_append h (hrest rfl)
      rcases exists_cons_of_spelledAs h with ⟨c, cs, rfl, hc⟩
      rw [List.cons_append] at hscan ⊢
      rw [scanToken_of_isDigit hc, hscan]
      rfl
  | string h =>
      have hscan := scanString_append h rest
      simp only [List.cons_append, List.append_assoc, List.nil_append]
      rw [scanToken, hscan]
      rfl
  | _ =>
      rfl

/-- Whether no two numerals stand side by side, where they could be read as one. -/
def Spaced (ts : List Token) : Prop :=
  ts.IsChain fun s t => s.isNumber = true → t.isNumber = false

/-- If the first token is no numeral, the text cannot go on with one. -/
theorem Layout.begins {ts : List Token} {cs : List Char} (h : Layout ts cs)
    (hhead : ∀ t ∈ ts.head?, t.isNumber = false) : Begins isNumeralPart cs = false := by
  induction h with
  | nil =>
      rfl
  | @blank ts c cs hc _ _ =>
      -- No blank can go on with a numeral.
      simp only [isBlank, Bool.or_eq_true, decide_eq_true_eq] at hc
      rcases hc with ((rfl | rfl) | rfl) | rfl <;> rfl
  | token ht _ _ =>
      rcases ht.exists_cons with ⟨c, cs, rfl, -, hc⟩
      exact hc (hhead _ rfl)

/-- The lexer finds the tokens of a text. -/
theorem Layout.scanTokens {ts : List Token} {cs : List Char} (h : Layout ts cs)
    (hspaced : Spaced ts) : scanTokens cs.length cs = some ts := by
  induction h with
  | nil =>
      rfl
  | blank hc _ ih =>
      rw [List.length_cons, Json.scanTokens, if_pos hc]
      exact ih hspaced
  | @token t ts cs rest ht h ih =>
      -- Behind a numeral comes no other one, so what is left ends it.
      have hrest : t.isNumber = true → Begins isNumeralPart rest = false := fun hnumber =>
        h.begins fun next hnext => List.isChain_cons.1 hspaced |>.1 next hnext hnumber
      have hscan := scanToken_append ht hrest
      rcases ht.exists_cons with ⟨c, cs, rfl, hblank, -⟩
      rw [List.length_append]
      exact scanTokens_lexeme hblank hscan (ih (List.isChain_cons.1 hspaced).2)

theorem Spaced.cons {t : Token} {ts : List Token} (ht : t.isNumber = false) (h : Spaced ts) :
    Spaced (t :: ts) :=
  List.isChain_cons.2 ⟨fun _ _ hnumber => absurd (ht.symm.trans hnumber) Bool.false_ne_true, h⟩

/-! ## Nothing else is read -/

theorem eq_append_of_scanDigits {cs ds rest : List Char} (h : scanDigits cs = some (ds, rest)) :
    cs = ds ++ rest ∧ ds ≠ [] ∧ ∀ c ∈ ds, c.isDigit = true := by
  rw [scanDigits, Option.ite_none_left_eq_some] at h
  rcases h with ⟨hne, heq⟩
  cases heq
  refine ⟨List.takeWhile_append_dropWhile.symm, by simpa using hne, fun c hc => ?_⟩
  exact List.mem_takeWhile_imp hc

theorem eq_append_of_scanWhole {cs ds rest : List Char} (h : scanWhole cs = some (ds, rest)) :
    cs = ds ++ rest ∧ ds ≠ [] ∧ (∀ c ∈ ds, c.isDigit = true) ∧
      (ds = ['0'] ∨ ds.head? ≠ some '0') := by
  unfold scanWhole at h
  split at h
  case h_1 =>
      cases h
      exact ⟨rfl, by simp, by simp, .inl rfl⟩
  case h_2 hzero =>
      rcases eq_append_of_scanDigits h with ⟨rfl, hne, hdigits⟩
      refine ⟨rfl, hne, hdigits, .inr fun hhead => ?_⟩
      rcases List.head?_eq_some_iff.1 hhead with ⟨tail, rfl⟩
      exact hzero _ rfl

theorem eq_append_of_scanFraction {cs rest : List Char} {fraction : Option (List Char)}
    (h : scanFraction cs = some (fraction, rest)) :
    cs = fraction.elim [] ('.' :: ·) ++ rest ∧ fraction ≠ some [] ∧
      ∀ c ∈ fraction.getD [], c.isDigit = true := by
  unfold scanFraction at h
  split at h
  case h_1 =>
      rcases Option.map_eq_some_iff.1 h with ⟨⟨ds, more⟩, hscan, heq⟩
      cases heq
      rcases eq_append_of_scanDigits hscan with ⟨rfl, hne, hdigits⟩
      exact ⟨rfl, by simpa using hne, hdigits⟩
  case h_2 =>
      cases h
      exact ⟨rfl, nofun, nofun⟩

theorem eq_append_of_scanSign {cs rest : List Char} {negative : Bool}
    (h : scanSign cs = (negative, rest)) :
    (negative = true ∧ cs = '-' :: rest) ∨
      (negative = false ∧ ∃ sign, (sign = [] ∨ sign = ['+']) ∧ cs = sign ++ rest) := by
  unfold scanSign at h
  split at h
  case h_1 =>
      cases h
      exact .inl ⟨rfl, rfl⟩
  case h_2 =>
      cases h
      exact .inr ⟨rfl, ['+'], .inr rfl, rfl⟩
  case h_3 =>
      cases h
      exact .inr ⟨rfl, [], .inl rfl, rfl⟩

theorem exists_spelledAs_of_scanExponentDigits {letter : Char} {cs rest : List Char}
    {exponent : Option Int} (hletter : letter = 'e' ∨ letter = 'E')
    (h : scanExponentDigits cs = some (exponent, rest)) :
    ∃ text, Numeral.ExponentSpelledAs exponent text ∧ letter :: cs = text ++ rest := by
  unfold scanExponentDigits at h
  rcases hsign : scanSign cs with ⟨negative, signed⟩
  rw [hsign] at h
  rcases Option.map_eq_some_iff.1 h with ⟨⟨ds, more⟩, hscan, heq⟩
  rcases eq_append_of_scanDigits hscan with ⟨rfl, hne, hdigits⟩
  -- Only a minus changes the value; a plus may be there or not.
  rcases eq_append_of_scanSign hsign with ⟨rfl, rfl⟩ | ⟨rfl, sign, hplus, rfl⟩
  · cases heq
    exact ⟨letter :: '-' :: ds, .negative hletter hne hdigits, rfl⟩
  · cases heq
    refine ⟨letter :: (sign ++ ds), .positive hletter hplus hne hdigits, ?_⟩
    rw [List.cons_append, List.append_assoc]

theorem exists_spelledAs_of_scanExponent {cs rest : List Char} {exponent : Option Int}
    (h : scanExponent cs = some (exponent, rest)) :
    ∃ text, Numeral.ExponentSpelledAs exponent text ∧ cs = text ++ rest := by
  unfold scanExponent at h
  split at h
  case h_1 =>
      exact exists_spelledAs_of_scanExponentDigits (.inl rfl) h
  case h_2 =>
      exact exists_spelledAs_of_scanExponentDigits (.inr rfl) h
  case h_3 =>
      cases h
      exact ⟨[], .absent, rfl⟩

theorem exists_spelledAs_of_scanUnsigned {negative : Bool} {cs rest : List Char} {n : Numeral}
    (h : scanUnsigned negative cs = some (n, rest)) :
    ∃ text, n.SpelledAs ((if negative then ['-'] else []) ++ text) ∧ cs = text ++ rest := by
  simp only [scanUnsigned, Option.bind_eq_bind, Option.bind_eq_some_iff, Option.pure_def,
    Option.some.injEq, Prod.exists] at h
  rcases h with ⟨whole, _, hwhole, fraction, _, hfraction, exponent, _, hexponent, heq⟩
  cases heq
  rcases eq_append_of_scanWhole hwhole with ⟨rfl, hne, hdigits, hleading⟩
  rcases eq_append_of_scanFraction hfraction with ⟨rfl, hfractionNe, hfractionDigits⟩
  rcases exists_spelledAs_of_scanExponent hexponent with ⟨text, hspelled, rfl⟩
  refine ⟨whole ++ (fraction.elim [] ('.' :: ·) ++ text), ?_, by simp only [List.append_assoc]⟩
  exact ⟨⟨hne, hdigits, hleading, hfractionNe, hfractionDigits⟩, text, hspelled, rfl⟩

theorem exists_spelledAs_of_scanNumeral {cs rest : List Char} {n : Numeral}
    (h : scanNumeral cs = some (n, rest)) :
    ∃ text, n.SpelledAs text ∧ cs = text ++ rest := by
  unfold scanNumeral at h
  split at h
  case h_1 =>
      rcases exists_spelledAs_of_scanUnsigned h with ⟨text, hspelled, rfl⟩
      exact ⟨'-' :: text, hspelled, rfl⟩
  case h_2 =>
      rcases exists_spelledAs_of_scanUnsigned h with ⟨text, hspelled, rfl⟩
      exact ⟨text, hspelled, rfl⟩

theorem exists_spelledAs_of_scanString {cs rest : List Char} {w : Written}
    (h : scanString cs = some (w, rest)) :
    ∃ text, w.SpelledAs text ∧ cs = text ++ '"' :: rest := by
  fun_induction scanString cs generalizing w with
  | case1 =>
      exact nomatch h
  | case2 =>
      cases h
      exact ⟨[], .nil, rfl⟩
  | case3 a b c d more ih =>
      -- A unit, escaped by its number.
      simp only [Option.bind_eq_bind, Option.bind_eq_some_iff, Option.pure_def, Option.some.injEq,
        Prod.exists, Prod.mk.injEq] at h
      rcases h with ⟨n, hn, pieces, _, hmore, rfl, rfl⟩
      rcases ih hmore with ⟨text, hspelled, rfl⟩
      exact ⟨_, .cons (.numbered hn) hspelled, rfl⟩
  | case4 e more _ ih =>
      -- A character behind a backslash.
      simp only [Option.bind_eq_bind, Option.bind_eq_some_iff, Option.pure_def, Option.some.injEq,
        Prod.exists, Prod.mk.injEq] at h
      rcases h with ⟨c, hc, pieces, _, hmore, rfl, rfl⟩
      rcases ih hmore with ⟨text, hspelled, rfl⟩
      exact ⟨_, .cons (.escaped hc) hspelled, rfl⟩
  | case5 =>
      exact nomatch h
  | case6 c more hquote _ hescape hprintable ih =>
      -- A character that stands for itself.
      simp only [Option.bind_eq_bind, Option.bind_eq_some_iff, Option.pure_def, Option.some.injEq,
        Prod.exists, Prod.mk.injEq] at h
      rcases h with ⟨pieces, _, hmore, rfl, rfl⟩
      have hplain : c ≠ '\\' := by
        -- Behind a backslash the string goes on, and then it would be an escape.
        rintro rfl
        cases more with
        | nil =>
            exact nomatch hmore
        | cons e more =>
            exact hescape e more rfl rfl
      rcases ih hmore with ⟨text, hspelled, rfl⟩
      exact ⟨_, .cons (.plain hquote hplain (Nat.le_of_not_lt hprintable)) hspelled, rfl⟩

theorem exists_spelledAs_of_scanToken {cs rest : List Char} {t : Token}
    (h : scanToken cs = some (t, rest)) :
    ∃ text, t.SpelledAs text ∧ cs = text ++ rest := by
  unfold scanToken at h
  split at h
  -- All tokens but strings and numerals have one spelling.
  case h_10 =>
      rcases Option.map_eq_some_iff.1 h with ⟨⟨w, more⟩, hscan, heq⟩
      cases heq
      rcases exists_spelledAs_of_scanString hscan with ⟨text, hspelled, rfl⟩
      exact ⟨_, .string hspelled, by simp⟩
  case h_11 =>
      rcases Option.map_eq_some_iff.1 h with ⟨⟨n, more⟩, hscan, heq⟩
      cases heq
      rcases exists_spelledAs_of_scanNumeral hscan with ⟨text, hspelled, rfl⟩
      exact ⟨text, .number hspelled, rfl⟩
  all_goals
    cases h
    exact ⟨_, by constructor, rfl⟩

/-- What the lexer reads has the tokens that it finds. -/
theorem layout_of_scanTokens {fuel : Nat} {cs : List Char} {ts : List Token}
    (h : scanTokens fuel cs = some ts) : Layout ts cs := by
  induction fuel generalizing cs ts with
  | zero =>
      cases cs with
      | nil =>
          cases h
          exact .nil
      | cons c cs =>
          exact nomatch h
  | succ fuel ih =>
      cases cs with
      | nil =>
          cases h
          exact .nil
      | cons c cs =>
          rw [scanTokens] at h
          split at h
          case isTrue hblank =>
              exact .blank hblank (ih h)
          case isFalse =>
              simp only [Option.bind_eq_bind, Option.bind_eq_some_iff, Option.pure_def,
                Option.some.injEq, Prod.exists] at h
              rcases h with ⟨t, rest, hscan, ts, hrest, rfl⟩
              rcases exists_spelledAs_of_scanToken hscan with ⟨text, hspelled, hsplit⟩
              rw [hsplit]
              exact .token hspelled (ih hrest)

end Json
end SdfShader
