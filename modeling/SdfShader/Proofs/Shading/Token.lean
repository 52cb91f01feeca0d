import SdfShader.Shader.RegisterName

/-!
# Token — scanning text of the shading language

Text of the shading language is read as tokens first: words, numerals, operators, and punctuation.
A token is as long as it can be, so `a--b` holds one operator and not two. Blanks only separate.

* `scan` reads a text; its first argument is the token that has been begun.
* `scan_word` and `scan_numeral` read one token in front of a text that `Breaks` it off, `scan_digits`
  any numeral, whether it has a point or not.
-/

namespace SdfShader
namespace Shading

inductive Token
  | word (text : String)
  | numeral (text : String)
  | operator (text : String)
  | punctuation (c : Char)
  deriving DecidableEq

def isBlank (c : Char) : Bool :=
  c = ' ' || c = '\n'

def isPunctuation (c : Char) : Bool :=
  ['(', ')', '\x7b', '\x7d', ',', ';', '.'].contains c

/-- Whether a character belongs to the token that has been begun. -/
def continues : List Char → Char → Bool
  | [], _ => false
  | first :: _, c =>
    if isNameStart first then isNamePart c
    -- Letters behind digits belong to the numeral, so `1e5` is one token.
    else if first.isDigit then isNamePart c || c = '.'
    else !(isNamePart c || isBlank c || isPunctuation c)

/-- The token that has been begun, if there is one. -/
def close : List Char → List Token
  | [] => []
  | first :: rest =>
    let text := String.ofList (first :: rest)
    if isNameStart first then [.word text]
    else if first.isDigit then [.numeral text]
    else [.operator text]

/-- The tokens of a text in front of which `begun` has been read. -/
def scan (begun : List Char) : List Char → List Token
  | [] => close begun
  | c :: cs =>
    if continues begun c then scan (begun ++ [c]) cs
    else close begun ++
      if isBlank c then scan [] cs
      else if isPunctuation c then .punctuation c :: scan [] cs
      else scan [c] cs

/-! ## One token after the other -/

/-- Whether a text goes on with a character that ends every word. -/
def Breaks (cs : List Char) : Prop :=
  ∃ c rest, cs = c :: rest ∧ (isBlank c || isPunctuation c) = true

/-- Whether a text goes on with a character that ends an expression. -/
def Stops (cs : List Char) : Prop :=
  ∃ c rest, cs = c :: rest ∧ c ∈ [',', ')', ';']

/-- The characters of a word. -/
def IsWord (cs : List Char) : Prop :=
  ∃ first rest, cs = first :: rest ∧ isNameStart first = true ∧ ∀ c ∈ rest, isNamePart c = true

/-- The characters of a number with digits on both sides of its point. -/
def IsNumeral (cs : List Char) : Prop :=
  ∃ first whole fraction, cs = first :: (whole ++ '.' :: fraction) ∧ first.isDigit = true ∧
    (∀ c ∈ whole, c.isDigit = true) ∧ (∀ c ∈ fraction, c.isDigit = true) ∧ fraction ≠ []

theorem not_isNamePart_of_breaks {c : Char} (h : (isBlank c || isPunctuation c) = true) :
    isNamePart c = false := by
  have hall : [' ', '\n', '(', ')', '\x7b', '\x7d', ',', ';', '.'].all (!isNamePart ·) = true := rfl
  have hc : (!isNamePart c) = true := by
    apply List.all_eq_true.1 hall c
    simpa [isBlank, isPunctuation, or_assoc] using h
  simpa using hc

theorem isNamePart_of_isNameStart {c : Char} (h : isNameStart c = true) : isNamePart c = true := by
  rw [isNameStart, Bool.or_eq_true] at h
  rcases h with h | h <;> simp [isNamePart, Char.isAlphanum, h]

theorem isNamePart_of_isDigit {c : Char} (h : c.isDigit = true) : isNamePart c = true := by
  simp [isNamePart, Char.isAlphanum, h]

/-- No word begins with a digit. -/
theorem not_isNameStart_of_isDigit {c : Char} (h : c.isDigit = true) : isNameStart c = false := by
  -- Digits come before all letters.
  have hcode : c.toNat ≤ 57 := (Char.isDigit_iff_toNat.1 h).2
  have hupper : c.isUpper ≠ true := by
    intro hc
    have hbounds : 65 ≤ c.val ∧ c.val ≤ 90 := of_decide_eq_true hc
    exact absurd (Nat.le_trans (UInt32.le_iff_toNat_le.1 hbounds.1) hcode) (by decide)
  have hlower : c.isLower ≠ true := by
    intro hc
    have hbounds : decide (97 ≤ c.val) = true ∧ decide (c.val ≤ 122) = true :=
      (Bool.and_eq_true _ _).mp hc
    have hle : 97 ≤ c.val := of_decide_eq_true hbounds.1
    exact absurd (Nat.le_trans (UInt32.le_iff_toNat_le.1 hle) hcode) (by decide)
  have hunderscore : c ≠ '_' := by
    rintro rfl
    cases h
  rw [isNameStart, Bool.or_eq_false_iff, decide_eq_false_iff_not]
  exact ⟨Bool.or_eq_false_iff.2 ⟨Bool.eq_false_iff.2 hupper, Bool.eq_false_iff.2 hlower⟩,
    hunderscore⟩

/-- A token takes in all characters that continue it. -/
theorem scan_append {begun : List Char} (hbegun : begun ≠ []) {more : List Char}
    (h : ∀ c ∈ more, continues begun c = true) (cs : List Char) :
    scan begun (more ++ cs) = scan (begun ++ more) cs := by
  induction more generalizing begun with
  | nil =>
      simp
  | cons c more ih =>
      -- What a token takes in depends on its first character only.
      have hsame : ∀ d, continues (begun ++ [c]) d = continues begun d := by
        intro d
        cases begun with
        | nil =>
            exact absurd rfl hbegun
        | cons first rest =>
            rfl
      have hmore : ∀ d ∈ more, continues (begun ++ [c]) d = true := by
        intro d hd
        rw [hsame]
        exact h d (List.mem_cons_of_mem c hd)
      calc scan begun (c :: more ++ cs)
          = scan (begun ++ [c]) (more ++ cs) := by
            rw [List.cons_append, scan, if_pos (h c List.mem_cons_self)]
        _ = scan (begun ++ [c] ++ more) cs := ih (by simp) hmore
        _ = scan (begun ++ c :: more) cs := by
            rw [List.append_assoc, List.singleton_append]

/-- A token ends before a character that does not continue it. -/
theorem scan_of_not_continues {begun : List Char} {c : Char} (h : continues begun c = false)
    (cs : List Char) : scan begun (c :: cs) = close begun ++ scan [] (c :: cs) := by
  have hnil : continues [] c = false := rfl
  simp only [scan, h, hnil, Bool.false_eq_true, if_false]
  rfl

/-- The token that `first` begins and `more` continues, in front of a text that does not. -/
theorem scan_cons {first c : Char} {more : List Char} (hfirst : isNamePart first = true)
    (hmore : ∀ d ∈ more, continues [first] d = true) (hc : continues [first] c = false)
    (cs : List Char) :
    scan [] (first :: (more ++ c :: cs)) = close (first :: more) ++ scan [] (c :: cs) := by
  have hbreak : (isBlank first || isPunctuation first) = false := by
    cases h : isBlank first || isPunctuation first with
    | false =>
        rfl
    | true =>
        rw [not_isNamePart_of_breaks h] at hfirst
        cases hfirst
  have hsame : continues (first :: more) c = false := hc
  calc scan [] (first :: (more ++ c :: cs))
      = scan [first] (more ++ c :: cs) := by
        rcases Bool.or_eq_false_iff.1 hbreak with ⟨hblank, hpunctuation⟩
        simp [scan, continues, close, hblank, hpunctuation]
    _ = scan (first :: more) (c :: cs) := by
        rw [scan_append (by simp) hmore, List.singleton_append]
    _ = close (first :: more) ++ scan [] (c :: cs) := scan_of_not_continues hsame cs

theorem scan_word {word : String} (h : IsWord word.toList) {cs : List Char} (hcs : Breaks cs) :
    scan [] (word.toList ++ cs) = .word word :: scan [] cs := by
  rcases h with ⟨first, rest, hword, hstart, hpart⟩
  rcases hcs with ⟨c, cs, rfl, hbreak⟩
  have hcontinues : ∀ d, continues [first] d = isNamePart d := by
    intro d
    simp [continues, hstart]
  have hmore : ∀ d ∈ rest, continues [first] d = true := by
    intro d hd
    rw [hcontinues, hpart d hd]
  have hend : continues [first] c = false := by
    rw [hcontinues, not_isNamePart_of_breaks hbreak]
  rw [hword, List.cons_append, scan_cons (isNamePart_of_isNameStart hstart) hmore hend]
  simp only [close, hstart, if_true, ← hword, String.ofList_toList, List.singleton_append]

/-- A numeral takes in digits and points. -/
theorem scan_digits {text : String} {first : Char} {more : List Char}
    (htext : text.toList = first :: more) (hfirst : first.isDigit = true)
    (hmore : ∀ d ∈ more, d.isDigit = true ∨ d = '.') {cs : List Char} (hcs : Stops cs) :
    scan [] (text.toList ++ cs) = .numeral text :: scan [] cs := by
  rcases hcs with ⟨c, cs, rfl, hstop⟩
  have hstart : isNameStart first = false := not_isNameStart_of_isDigit hfirst
  have hcontinues : ∀ d, continues [first] d = (isNamePart d || d = '.') := by
    intro d
    simp [continues, hstart, hfirst]
  have hc : continues [first] c = false := by
    simp only [List.mem_cons, List.not_mem_nil, or_false] at hstop
    rw [hcontinues]
    rcases hstop with rfl | rfl | rfl <;> rfl
  have htaken : ∀ d ∈ more, continues [first] d = true := by
    intro d hd
    rw [hcontinues]
    rcases hmore d hd with hdigit | rfl
    · rw [isNamePart_of_isDigit hdigit, Bool.true_or]
    · rfl
  rw [htext, List.cons_append, scan_cons (isNamePart_of_isDigit hfirst) htaken hc]
  simp only [close, hstart, hfirst, if_true, ← htext, String.ofList_toList]
  rfl

theorem scan_numeral {numeral : String} (h : IsNumeral numeral.toList) {cs : List Char}
    (hcs : Stops cs) :
    scan [] (numeral.toList ++ cs) = .numeral numeral :: scan [] cs := by
  rcases h with ⟨first, whole, fraction, hnumeral, hfirst, hwhole, hfraction, _⟩
  refine scan_digits hnumeral hfirst (fun d hd => ?_) hcs
  rcases List.mem_append.1 hd with hd | hd
  · exact .inl (hwhole d hd)
  · rcases List.mem_cons.1 hd with rfl | hd
    · exact .inr rfl
    · exact .inl (hfraction d hd)

/-- An operator ends where a word or a numeral begins. -/
theorem scan_minus {first : Char} (h : isNamePart first = true) (cs : List Char) :
    scan [] ('-' :: first :: cs) = .operator "-" :: scan [] (first :: cs) := by
  have hc : continues ['-'] first = false := by
    have hstart : isNameStart '-' = false := by decide
    simp [continues, hstart, h]
  exact scan_of_not_continues hc cs

theorem IsNumeral.scan_minus {cs : List Char} (h : IsNumeral cs) (rest : List Char) :
    scan [] ('-' :: (cs ++ rest)) = .operator "-" :: scan [] (cs ++ rest) := by
  rcases h with ⟨first, whole, fraction, rfl, hfirst, _⟩
  exact Shading.scan_minus (isNamePart_of_isDigit hfirst) _

end Shading
end SdfShader
