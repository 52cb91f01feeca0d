import Mathlib.Data.List.Find
import SdfShader.Proofs.Text.Passes

/-!
# Separation — patterns that keep out of each other's way

If no pattern of a table begins in another one, at most one of them fits at any place, so the order
of the table does not matter. If a character stands nowhere but at the beginning of patterns, no
occurrence reaches over it, so the text in front of it is substituted on its own. Main statements:

* `Separate.substituteFrom_congr`: a separate table counts as the set of its entries;
* `substituteFrom_append_cons`: a text is cut in front of a character that only begins patterns.
-/

namespace SdfShader.Text

variable {table other : Table} {pattern before rest : List Char}

/-! ## Tables without order -/

/-- Whether no pattern is empty and none begins in the pattern of another entry. -/
structure Separate (table : Table) : Prop where
  ne_nil : ∀ entry ∈ table, entry.1 ≠ []
  apart : ∀ entry ∈ table, ∀ found ∈ table, entry ≠ found → Apart entry.1 found.1

namespace Separate

/-- At most one pattern fits at a place. -/
theorem unique (h : Separate table) {entry found : List Char × List Char} {text : List Char}
    (hentry : entry ∈ table) (hfound : found ∈ table) (hbegins : entry.1 <+: text)
    (hfits : found.1 <+: text) : entry = found := by
  by_contra hne
  rcases hfits with ⟨rest, rfl⟩
  have hapart : Apart entry.1 found.1 := h.apart entry hentry found hfound hne
  cases hpattern : found.1 with
  | nil =>
      exact h.ne_nil found hfound hpattern
  | cons c cs =>
      rw [hpattern] at hapart hbegins
      -- Both begin the text, so the one would begin where the other does.
      cases hapart with
      | cons head _ =>
          exact head rest hbegins

theorem find?_eq_some (h : Separate table) {entry : List Char × List Char} {text : List Char}
    (hentry : entry ∈ table) (hfits : entry.1 <+: text) :
    table.find? (fun entry => entry.1.isPrefixOf text) = some entry := by
  cases hfind : table.find? (fun entry => entry.1.isPrefixOf text) with
  | none =>
      have hnone := List.find?_eq_none.1 hfind entry hentry
      exact absurd (List.isPrefixOf_iff_prefix.2 hfits) hnone
  | some found =>
      rcases prefix_of_find? hfind with ⟨hfound, hbegins⟩
      rw [h.unique hfound hentry hbegins hfits]

theorem find?_congr (h : Separate table) (hsame : ∀ entry, entry ∈ other ↔ entry ∈ table)
    (text : List Char) : other.find? (fun entry => entry.1.isPrefixOf text)
      = table.find? (fun entry => entry.1.isPrefixOf text) := by
  cases hfind : other.find? (fun entry => entry.1.isPrefixOf text) with
  | none =>
      have hnone : ∀ entry ∈ table, ¬ entry.1.isPrefixOf text = true := fun entry hentry =>
        List.find?_eq_none.1 hfind entry ((hsame entry).2 hentry)
      exact (List.find?_eq_none.2 hnone).symm
  | some entry =>
      rcases prefix_of_find? hfind with ⟨hentry, hfits⟩
      exact (h.find?_eq_some ((hsame entry).1 hentry) hfits).symm

/-- A separate table counts as the set of its entries. -/
theorem substituteFrom_congr (h : Separate table) (hsame : ∀ entry, entry ∈ other ↔ entry ∈ table)
    (skip : Nat) (text : List Char) :
    substituteFrom other skip text = substituteFrom table skip text := by
  induction text generalizing skip with
  | nil =>
      cases skip <;> rfl
  | cons c text ih =>
      cases skip with
      | succ skip =>
          exact ih skip
      | zero =>
          simp only [substituteFrom, h.find?_congr hsame, ih]

end Separate

/-! ## Texts cut in two -/

variable {c : Char}

/-- An occurrence does not reach over a character that the pattern has at its beginning only. -/
theorem prefix_append_cons_iff (hc : c ∉ pattern.tail) (hne : before ≠ []) :
    pattern <+: before ++ c :: rest ↔ pattern <+: before := by
  refine ⟨fun h => ?_, fun h => h.trans (List.prefix_append before (c :: rest))⟩
  rcases List.prefix_or_prefix_of_prefix h (List.prefix_append before (c :: rest)) with hin | hover
  · exact hin
  · rcases hover with ⟨more, rfl⟩
    cases more with
    | nil =>
        simp
    | cons d more =>
        -- What follows the text in the pattern begins with the character, behind the beginning.
        have hd : d = c := (List.cons_prefix_cons.1 ((List.prefix_append_right_inj before).1 h)).1
        rw [List.tail_append_of_ne_nil hne, hd] at hc
        exact absurd (List.mem_append_right _ List.mem_cons_self) hc

theorem find?_append_cons (hc : ∀ entry ∈ table, c ∉ entry.1.tail) (hne : before ≠ []) :
    table.find? (fun entry => entry.1.isPrefixOf (before ++ c :: rest))
      = table.find? (fun entry => entry.1.isPrefixOf before) := by
  refine List.find?_congr fun entry hentry => ?_
  rw [Bool.eq_iff_iff, List.isPrefixOf_iff_prefix, List.isPrefixOf_iff_prefix]
  exact prefix_append_cons_iff (hc entry hentry) hne

/-- The text in front of a character that only begins patterns is substituted on its own. -/
theorem substituteFrom_append_cons (hpatterns : ∀ entry ∈ table, entry.1 ≠ [])
    (hc : ∀ entry ∈ table, c ∉ entry.1.tail) (before rest : List Char) :
    substituteFrom table 0 (before ++ c :: rest)
      = substituteFrom table 0 before ++ substituteFrom table 0 (c :: rest) := by
  induction before using substitution_induction hpatterns with
  | nil =>
      rfl
  | replaced pattern value more hfind ih =>
      have hne : pattern ≠ [] := hpatterns _ (List.mem_of_find?_eq_some hfind)
      have hwhole : table.find? (fun entry => entry.1.isPrefixOf (pattern ++ (more ++ c :: rest)))
          = some (pattern, value) := by
        have hmore : pattern ++ more ≠ [] := List.append_ne_nil_of_left_ne_nil hne more
        rw [← List.append_assoc, find?_append_cons hc hmore, hfind]
      rw [List.append_assoc, substituteFrom_of_find? hwhole hne, substituteFrom_of_find? hfind hne,
        ih, List.append_assoc]
  | kept d more hfind ih =>
      have hwhole : table.find? (fun entry => entry.1.isPrefixOf (d :: (more ++ c :: rest)))
          = none := by
        rw [← List.cons_append, find?_append_cons hc (List.cons_ne_nil d more), hfind]
      rw [List.cons_append, substituteFrom_of_find?_eq_none hwhole,
        substituteFrom_of_find?_eq_none hfind, ih, List.cons_append]

end SdfShader.Text
