import Mathlib.Data.List.Infix
import SdfShader.Text.Search

/-!
# Occurrence — where a pattern cannot begin

A text is apart from a pattern if no occurrence of the pattern begins in it, whatever follows. Then
the first occurrence is the one behind the text, so that cutting and substituting leave the text
alone. Texts that are apart can be put together. A text is apart if it lacks the first character of
the pattern, or if it lacks another one and ends with a character that the pattern does not have.
Main statements: `splice?_append` for the first occurrence and `substituteFrom_append_pattern` for
several patterns at once.
-/

namespace SdfShader.Text

/-! ## Texts apart from a pattern -/

/-- Whether no occurrence of the pattern begins in a text, whatever follows the text. -/
inductive Apart (pattern : List Char) : List Char → Prop
  | nil : Apart pattern []
  | cons {c : Char} {cs : List Char} (head : ∀ rest, ¬ pattern <+: c :: (cs ++ rest))
      (tail : Apart pattern cs) : Apart pattern (c :: cs)

variable {pattern before rest : List Char} {c : Char}

theorem Apart.append {more : List Char} (h : Apart pattern before) (hmore : Apart pattern more) :
    Apart pattern (before ++ more) := by
  induction h with
  | nil =>
      exact hmore
  | cons head _ ih =>
      rw [List.cons_append]
      refine .cons (fun rest => ?_) ih
      rw [List.append_assoc]
      exact head (more ++ rest)

/-- An occurrence begins with the first character of the pattern. -/
theorem apart_of_head_notMem (h : c ∉ before) : Apart (c :: pattern) before := by
  induction before with
  | nil =>
      exact .nil
  | cons d before ih =>
      refine .cons (fun rest hprefix => ?_) (ih fun hmem => h (List.mem_cons_of_mem d hmem))
      have hhead : c = d := (List.cons_prefix_cons.1 hprefix).1
      exact h (hhead ▸ List.mem_cons_self)

/-- An occurrence has every character of the pattern, and only those. -/
theorem not_prefix_append_cons {e : Char} (hc : c ∈ pattern) (hbefore : c ∉ before)
    (he : e ∉ pattern) : ¬ pattern <+: before ++ e :: rest := by
  intro hprefix
  have hwhole : before ++ [e] <+: before ++ e :: rest := ⟨rest, by simp⟩
  -- An occurrence that ends in the text would have `c` there; a longer one has `e`.
  rcases List.prefix_or_prefix_of_prefix hprefix hwhole with hin | hover
  · rcases List.prefix_concat_iff.1 hin with heq | hin
    · exact he (by simp [heq])
    · exact hbefore (hin.subset hc)
  · exact he (hover.subset (by simp))

theorem apart_concat {e : Char} (hc : c ∈ pattern) (hbefore : c ∉ before) (he : e ∉ pattern) :
    Apart pattern (before ++ [e]) := by
  induction before with
  | nil =>
      exact .cons (fun rest => not_prefix_append_cons hc hbefore he) .nil
  | cons d before ih =>
      rw [List.cons_append]
      refine .cons (fun rest => ?_) (ih fun hmem => hbefore (List.mem_cons_of_mem d hmem))
      have hsplit : d :: (before ++ [e] ++ rest) = (d :: before) ++ e :: rest := by simp
      rw [hsplit]
      exact not_prefix_append_cons hc hbefore he

theorem apart_of_getLast? {e : Char} (hc : c ∈ pattern) (hbefore : c ∉ before)
    (hlast : before.getLast? = some e) (he : e ∉ pattern) : Apart pattern before := by
  rcases List.getLast?_eq_some_iff.1 hlast with ⟨front, rfl⟩
  exact apart_concat hc (fun hmem => hbefore (List.mem_append_left _ hmem)) he

/-! ## The first occurrence -/

theorem rest?_eq_none_of_not_prefix {text : List Char} (h : ¬ pattern <+: text) :
    rest? pattern text = none := by
  cases hrest : rest? pattern text with
  | none =>
      rfl
  | some more =>
      exact absurd ⟨more, (rest?_eq_some_iff.1 hrest).symm⟩ h

/-- A text that begins with the pattern is cut there. -/
theorem cut?_pattern_append : cut? pattern (pattern ++ rest) = some ([], rest) := by
  have hrest : rest? pattern (pattern ++ rest) = some rest := rest?_eq_some_iff.2 rfl
  cases htext : pattern ++ rest with
  | nil =>
      rw [htext] at hrest
      simp [cut?, hrest]
  | cons c cs =>
      rw [htext] at hrest
      simp [cut?, hrest]

/-- Behind a text that is apart from it, a pattern is found. -/
theorem cut?_append (h : Apart pattern before) :
    cut? pattern (before ++ (pattern ++ rest)) = some (before, rest) := by
  induction h with
  | nil =>
      exact cut?_pattern_append
  | @cons c before head _ ih =>
      have hnone : rest? pattern (c :: (before ++ (pattern ++ rest))) = none :=
        rest?_eq_none_of_not_prefix (head (pattern ++ rest))
      rw [List.cons_append, cut?, hnone, ih]
      rfl

/-- What is spliced in stands between the text in front of the marker and the text behind it. -/
theorem splice?_append {front marker back : String} (h : Apart marker.toList front.toList)
    (code : String) :
    splice? (front ++ marker ++ back) marker code = some (front ++ code ++ back) := by
  simp [splice?, cut?_append h]

/-! ## Several patterns -/

variable {table : Table}

theorem substituteFrom_length (text rest : List Char) :
    substituteFrom table text.length (text ++ rest) = substituteFrom table 0 rest := by
  induction text with
  | nil =>
      rfl
  | cons c text ih =>
      exact ih

/-- Text that is apart from all patterns stays as it is. -/
theorem substituteFrom_append (h : ∀ entry ∈ table, Apart entry.1 before) (rest : List Char) :
    substituteFrom table 0 (before ++ rest) = before ++ substituteFrom table 0 rest := by
  induction before with
  | nil =>
      rfl
  | cons c before ih =>
      have hnone :
          table.find? (fun entry => entry.1.isPrefixOf (c :: (before ++ rest))) = none := by
        rw [List.find?_eq_none]
        intro entry hentry
        rw [List.isPrefixOf_iff_prefix]
        cases h entry hentry with
        | cons head _ =>
            exact head rest
      have htail : ∀ entry ∈ table, Apart entry.1 before := by
        intro entry hentry
        cases h entry hentry with
        | cons _ tail =>
            exact tail
      rw [List.cons_append, substituteFrom, hnone, ih htail]
      rfl

/-- The first pattern behind text that is apart from all of them is replaced. -/
theorem substituteFrom_append_pattern (h : ∀ entry ∈ table, Apart entry.1 before)
    {c : Char} {pattern new : List Char}
    (hfind : table.find? (fun entry => entry.1.isPrefixOf (c :: pattern ++ rest))
      = some (c :: pattern, new)) :
    substituteFrom table 0 (before ++ (c :: pattern ++ rest))
      = before ++ (new ++ substituteFrom table 0 rest) := by
  rw [substituteFrom_append h]
  rw [List.cons_append] at hfind ⊢
  rw [substituteFrom, hfind]
  simp only [List.length_cons, Nat.add_sub_cancel, substituteFrom_length]

end SdfShader.Text
