import SdfShader.Proofs.Text.Occurrence

/-!
# Passes — several patterns, one after the other

A pass replaces one pattern in what the passes before it have left, so it also searches the values
that they have put in. It finds the occurrences of the original text, and no others, if those values
have no part in an occurrence of its pattern, whatever stands around them. This is the side
condition `Inert`, which can be computed. Main statements:

* `substitution_induction`: a text is taken apart as a substitution does it;
* `Inert.prefix_of_prefix_substituteFrom`: inert values do not complete a pattern;
* `replaceFrom_substituteFrom`: a pass behind a substitution is one more entry of its table.
-/

namespace SdfShader.Text

variable {pattern value new text rest : List Char} {table : Table}

/-! ## Values that have no part in a pattern -/

/-- Whether a value has no part in an occurrence of a pattern, whatever stands around it: an
occurrence could lie within the value or around it, begin in it or end in it. -/
structure Inert (pattern value : List Char) : Prop where
  not_within : ¬ pattern <:+: value
  not_around : ¬ value <:+: pattern
  not_begun : ∀ part ∈ value.tails, part ≠ [] → ¬ part <+: pattern
  not_ended : ∀ part ∈ value.inits, part ≠ [] → ¬ part <:+ pattern

theorem inert_iff : Inert pattern value ↔ ¬ pattern <:+: value ∧ ¬ value <:+: pattern ∧
    (∀ part ∈ value.tails, part ≠ [] → ¬ part <+: pattern) ∧
    ∀ part ∈ value.inits, part ≠ [] → ¬ part <:+ pattern :=
  ⟨fun h => ⟨h.1, h.2, h.3, h.4⟩, fun h => ⟨h.1, h.2.1, h.2.2.1, h.2.2.2⟩⟩

instance : Decidable (Inert pattern value) :=
  decidable_of_iff' _ inert_iff

/-- A value has no part in a pattern if it has neither the first nor the last character of it, and
has one that does not stand between these two. -/
theorem inert_of_notMem {first last c : Char} {between : List Char} (hfirst : first ∉ value)
    (hlast : last ∉ value) (hvalue : c ∈ value) (hbetween : c ∉ between) :
    Inert (first :: (between ++ [last])) value where
  not_within hwithin := hfirst (hwithin.subset List.mem_cons_self)
  not_around haround := by
    have hmem : c ∈ first :: (between ++ [last]) := haround.subset hvalue
    simp only [List.mem_cons, List.mem_append, List.not_mem_nil, or_false] at hmem
    rcases hmem with rfl | hmem | rfl
    · exact hfirst hvalue
    · exact hbetween hmem
    · exact hlast hvalue
  not_begun part htail hne hbegins := by
    cases part with
    | nil =>
        exact hne rfl
    | cons d part =>
        have hd : d = first := (List.cons_prefix_cons.1 hbegins).1
        have hpart : d :: part ⊆ value := ((List.mem_tails _ _).1 htail).subset
        exact hfirst (hd ▸ hpart List.mem_cons_self)
  not_ended part hinit hne hends := by
    rw [← List.cons_append, List.suffix_concat_iff] at hends
    rcases hends with hnil | ⟨front, rfl, -⟩
    · exact hne hnil
    · exact hlast (((List.mem_inits _ _).1 hinit).subset List.mem_concat_self)

/-- No occurrence begins in an inert value. -/
theorem Inert.apart (h : Inert pattern value) : Apart pattern value := by
  have hpart : ∀ part, part <:+ value → Apart pattern part := by
    intro part hsuffix
    induction part with
    | nil =>
        exact .nil
    | cons c part ih =>
        refine .cons (fun rest hbegins => ?_) (ih ((List.suffix_cons c part).trans hsuffix))
        -- The pattern and what is left of the value begin the same text, so one begins the other.
        have hwhole : c :: part <+: c :: (part ++ rest) := ⟨rest, rfl⟩
        rcases List.prefix_or_prefix_of_prefix hbegins hwhole with hin | hover
        · exact h.not_within (hin.isInfix.trans hsuffix.isInfix)
        · exact h.not_begun _ ((List.mem_tails _ _).2 hsuffix) (List.cons_ne_nil c part) hover
  exact hpart value List.suffix_rfl

/-- The end of a pattern does not begin with an inert value, nor end in it. -/
theorem Inert.not_prefix_append (h : Inert pattern value) {part : List Char}
    (hsuffix : part <:+ pattern) (hne : part ≠ []) : ¬ part <+: value ++ rest := by
  intro hbegins
  rcases List.prefix_or_prefix_of_prefix hbegins (List.prefix_append value rest) with hin | hover
  · exact h.not_ended part ((List.mem_inits _ _).2 hin) hne hsuffix
  · exact h.not_around (hover.isInfix.trans hsuffix.isInfix)

/-! ## What a substitution does at the beginning of a text -/

theorem prefix_of_find? {entry : List Char × List Char}
    (h : table.find? (fun entry => entry.1.isPrefixOf text) = some entry) :
    entry ∈ table ∧ entry.1 <+: text := by
  have hfits := List.find?_some h
  exact ⟨List.mem_of_find?_eq_some h, List.isPrefixOf_iff_prefix.1 hfits⟩

/-- Where an entry fits, its value is put in the place of its pattern. -/
theorem substituteFrom_of_find?
    (h : table.find? (fun entry => entry.1.isPrefixOf (pattern ++ rest)) = some (pattern, value))
    (hne : pattern ≠ []) :
    substituteFrom table 0 (pattern ++ rest) = value ++ substituteFrom table 0 rest := by
  rcases List.exists_cons_of_ne_nil hne with ⟨c, cs, rfl⟩
  rw [List.cons_append] at h ⊢
  rw [substituteFrom, h]
  simp only [List.length_cons, Nat.add_sub_cancel, substituteFrom_length]

/-- Where none fits, a character stays. -/
theorem substituteFrom_of_find?_eq_none {c : Char}
    (h : table.find? (fun entry => entry.1.isPrefixOf (c :: text)) = none) :
    substituteFrom table 0 (c :: text) = c :: substituteFrom table 0 text := by
  rw [substituteFrom, h]

/-- What holds of the empty text, and with a text also behind a pattern that is replaced and behind
a character that stays, holds of every text. -/
theorem substitution_induction (hpatterns : ∀ entry ∈ table, entry.1 ≠ []) {P : List Char → Prop}
    (nil : P [])
    (replaced : ∀ pattern value rest,
      table.find? (fun entry => entry.1.isPrefixOf (pattern ++ rest)) = some (pattern, value) →
        P rest → P (pattern ++ rest))
    (kept : ∀ c rest, table.find? (fun entry => entry.1.isPrefixOf (c :: rest)) = none →
      P rest → P (c :: rest)) (text : List Char) : P text := by
  -- By induction on the length, since a whole pattern may be taken off the text.
  induction hlength : text.length using Nat.strong_induction_on generalizing text with
  | _ n ih =>
      cases text with
      | nil =>
          exact nil
      | cons c text =>
          cases hfind : table.find? (fun entry => entry.1.isPrefixOf (c :: text)) with
          | some entry =>
              rcases entry with ⟨pattern, value⟩
              rcases prefix_of_find? hfind with ⟨hmem, rest, hsplit⟩
              rw [← hsplit] at hfind hlength ⊢
              have hpattern : 0 < pattern.length := List.length_pos_of_ne_nil (hpatterns _ hmem)
              have hshorter : rest.length < n := by
                rw [← hlength, List.length_append]
                exact Nat.lt_add_of_pos_left hpattern
              exact replaced pattern value rest hfind (ih _ hshorter rest rfl)
          | none =>
              have hshorter : text.length < n := by
                rw [← hlength]
                exact Nat.lt_succ_self text.length
              exact kept c text hfind (ih _ hshorter text rfl)

/-! ## One pass more -/

/-- Inert values do not complete a pattern: what the substituted text begins with, the text itself
begins with. -/
theorem Inert.prefix_of_prefix_substituteFrom (hvalues : ∀ entry ∈ table, Inert pattern entry.2)
    (hpatterns : ∀ entry ∈ table, entry.1 ≠ []) {part : List Char} (hsuffix : part <:+ pattern)
    (h : part <+: substituteFrom table 0 text) : part <+: text := by
  induction part generalizing text with
  | nil =>
      exact List.nil_prefix
  | cons d part ih =>
      cases text with
      | nil =>
          exact h
      | cons c text =>
          cases hfind : table.find? (fun entry => entry.1.isPrefixOf (c :: text)) with
          | some entry =>
              -- The substituted text begins with a value, which is no part of the pattern.
              rcases prefix_of_find? hfind with ⟨hmem, rest, hsplit⟩
              rw [← hsplit] at h hfind
              rw [substituteFrom_of_find? hfind (hpatterns entry hmem)] at h
              exact absurd h
                ((hvalues entry hmem).not_prefix_append hsuffix (List.cons_ne_nil d part))
          | none =>
              rw [substituteFrom_of_find?_eq_none hfind, List.cons_prefix_cons] at h
              rcases h with ⟨rfl, hrest⟩
              exact List.cons_prefix_cons.2
                ⟨rfl, ih ((List.suffix_cons d part).trans hsuffix) hrest⟩

section Pass

variable (hvalues : ∀ entry ∈ table, Inert pattern entry.2)
  (hpatterns : ∀ entry ∈ table, entry.1 ≠ []) (hapart : ∀ entry ∈ table, Apart entry.1 pattern)
  (hne : pattern ≠ [])

include hvalues hpatterns in
/-- A pass leaves the values that the table has put in. -/
theorem pass_of_find? {found : List Char}
    (h : table.find? (fun entry => entry.1.isPrefixOf (found ++ rest)) = some (found, value)) :
    substituteFrom [(pattern, new)] 0 (substituteFrom table 0 (found ++ rest))
      = value ++ substituteFrom [(pattern, new)] 0 (substituteFrom table 0 rest) := by
  have hmem : (found, value) ∈ table := List.mem_of_find?_eq_some h
  have hvalue : Apart pattern value := (hvalues _ hmem).apart
  rw [substituteFrom_of_find? h (hpatterns _ hmem), substituteFrom_append]
  simpa using hvalue

include hapart hne in
/-- It finds the occurrences that the text has had from the beginning. -/
theorem pass_pattern_append :
    substituteFrom [(pattern, new)] 0 (substituteFrom table 0 (pattern ++ rest))
      = new ++ substituteFrom [(pattern, new)] 0 (substituteFrom table 0 rest) := by
  rw [substituteFrom_append hapart, substituteFrom_of_find? _ hne]
  simp

include hvalues hpatterns in
/-- It finds no others. -/
theorem pass_cons {c : Char}
    (h : table.find? (fun entry => entry.1.isPrefixOf (c :: text)) = none)
    (hbegins : ¬ pattern <+: c :: text) :
    substituteFrom [(pattern, new)] 0 (substituteFrom table 0 (c :: text))
      = c :: substituteFrom [(pattern, new)] 0 (substituteFrom table 0 text) := by
  have hnew : ¬ pattern <+: substituteFrom table 0 (c :: text) := fun hfits =>
    hbegins (Inert.prefix_of_prefix_substituteFrom hvalues hpatterns List.suffix_rfl hfits)
  rw [substituteFrom_of_find?_eq_none h] at hnew ⊢
  refine substituteFrom_of_find?_eq_none ?_
  simpa [List.isPrefixOf_iff_prefix] using hnew

include hvalues hpatterns hapart hne in
/-- A pass behind a substitution is one more entry of the table, if the values of the table have no
part in its pattern, and none of the table's patterns begins in it. -/
theorem replaceFrom_substituteFrom (text : List Char) :
    replaceFrom pattern new 0 (substituteFrom table 0 text)
      = substituteFrom (table ++ [(pattern, new)]) 0 text := by
  rw [← substituteFrom_singleton]
  have hboth : ∀ entry ∈ table ++ [(pattern, new)], entry.1 ≠ [] := by
    simpa [or_imp, forall_and] using And.intro hpatterns hne
  induction text using substitution_induction hboth with
  | nil =>
      rfl
  | replaced found value rest hfind ih =>
      rw [substituteFrom_of_find? hfind (hboth _ (List.mem_of_find?_eq_some hfind))]
      rw [List.find?_append] at hfind
      cases htable : table.find? (fun entry => entry.1.isPrefixOf (found ++ rest)) with
      | some entry =>
          -- The table comes first, and the pass leaves the value that it puts in.
          rw [htable, Option.some_or] at hfind
          rw [hfind] at htable
          rw [pass_of_find? hvalues hpatterns htable, ih]
      | none =>
          -- Only the new pattern fits; the table has not touched this occurrence.
          rw [htable, Option.none_or] at hfind
          have hnew : (found, value) = (pattern, new) :=
            List.mem_singleton.1 (List.mem_of_find?_eq_some hfind)
          cases hnew
          rw [pass_pattern_append hapart hne, ih]
  | kept c rest hfind ih =>
      -- Nothing fits, and the values that follow do not complete the pattern.
      rw [substituteFrom_of_find?_eq_none hfind]
      rw [List.find?_append, Option.or_eq_none_iff] at hfind
      have hbegins : ¬ pattern <+: c :: rest := by
        simpa [List.isPrefixOf_iff_prefix] using hfind.2
      rw [pass_cons hvalues hpatterns hfind.1 hbegins, ih]

end Pass

/-! ## Texts -/

/-- Without an entry nothing is replaced. -/
theorem substitute_nil (text : String) : substitute [] text = text := by
  have hapart : ∀ entry ∈ ([] : Table), Apart entry.1 text.toList := List.forall_mem_nil _
  have hchars : substituteFrom [] 0 text.toList = text.toList := by
    simpa [substituteFrom] using substituteFrom_append hapart []
  rw [substitute, List.map_nil]
  exact (congrArg String.ofList hchars).trans String.ofList_toList

/-- A pass over a text in which patterns have been replaced, as one more entry. -/
theorem replaceAll_substitute {table : List (String × String)} {pattern : String}
    (hvalues : ∀ entry ∈ table, Inert pattern.toList entry.2.toList)
    (hpatterns : ∀ entry ∈ table, entry.1.toList ≠ [])
    (hapart : ∀ entry ∈ table, Apart entry.1.toList pattern.toList)
    (hne : pattern.toList ≠ []) (new text : String) :
    replaceAll pattern new (substitute table text)
      = substitute (table ++ [(pattern, new)]) text := by
  let entries : Table := table.map fun entry => (entry.1.toList, entry.2.toList)
  have hvalues : ∀ entry ∈ entries, Inert pattern.toList entry.2 := List.forall_mem_map.2 hvalues
  have hpatterns : ∀ entry ∈ entries, entry.1 ≠ [] := List.forall_mem_map.2 hpatterns
  have hapart : ∀ entry ∈ entries, Apart entry.1 pattern.toList := List.forall_mem_map.2 hapart
  have hpass : replaceFrom pattern.toList new.toList 0 (substituteFrom entries 0 text.toList)
      = substituteFrom (entries ++ [(pattern.toList, new.toList)]) 0 text.toList :=
    replaceFrom_substituteFrom hvalues hpatterns hapart hne text.toList
  simp only [replaceAll, substitute, String.toList_ofList, List.map_append]
  exact congrArg String.ofList hpass

end SdfShader.Text
