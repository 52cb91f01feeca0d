/-!
# Finding and replacing text

`splice?` replaces the first occurrence of a marker, `replaceAll` all occurrences of a pattern from
left to right without overlaps. `substitute` replaces the occurrences of several patterns in one
pass: what it puts in is not searched again.
-/

namespace SdfShader.Text

/-! ## First occurrence -/

/-- What follows a pattern at the start of a text. -/
def rest? : (pattern text : List Char) → Option (List Char)
  | [], text => some text
  | p :: ps, c :: cs => if p = c then rest? ps cs else none
  | _ :: _, [] => none

/-- The texts before and after the first occurrence of a pattern. -/
def cut? (pattern : List Char) : List Char → Option (List Char × List Char)
  | [] => (rest? pattern []).map ([], ·)
  | c :: cs =>
    match rest? pattern (c :: cs) with
    | some rest => some ([], rest)
    | none => (cut? pattern cs).map fun (before, rest) => (c :: before, rest)

/-- Puts `code` in the place of the first occurrence of `marker`. -/
def splice? (template marker code : String) : Option String :=
  (cut? marker.toList template.toList).map fun (before, rest) =>
    String.ofList before ++ code ++ String.ofList rest

theorem rest?_eq_some_iff {pattern text rest : List Char} :
    rest? pattern text = some rest ↔ text = pattern ++ rest := by
  fun_induction rest? pattern text with
  | case1 text => simp
  | case2 p ps cs ih => simp [ih]
  | case3 p ps c cs h => simp [Ne.symm h]
  | case4 => simp

/-- Cutting loses nothing but the pattern. -/
theorem append_eq_of_cut? {pattern text before rest : List Char}
    (h : cut? pattern text = some (before, rest)) : before ++ pattern ++ rest = text := by
  induction text generalizing before with
  | nil =>
    obtain ⟨_, h1, h2⟩ := Option.map_eq_some_iff.1 h
    simp only [Prod.mk.injEq] at h2
    simp [← h2.1, ← h2.2, ← rest?_eq_some_iff.1 h1]
  | cons c cs ih =>
    unfold cut? at h
    split at h
    · rename_i h1
      simp only [Option.some.injEq, Prod.mk.injEq] at h
      simp [← h.1, ← h.2, ← rest?_eq_some_iff.1 h1]
    · obtain ⟨⟨b, r⟩, h1, h2⟩ := Option.map_eq_some_iff.1 h
      simp only [Prod.mk.injEq] at h2
      obtain ⟨rfl, rfl⟩ := h2
      simp [← ih h1]

/-! ## All occurrences -/

/-- Replaces the occurrences behind the next `skip` characters, which belong to one already
replaced. -/
def replaceFrom (pattern new : List Char) : Nat → List Char → List Char
  | _, [] => []
  | skip + 1, _ :: cs => replaceFrom pattern new skip cs
  | 0, c :: cs =>
    if pattern.isPrefixOf (c :: cs) then new ++ replaceFrom pattern new (pattern.length - 1) cs
    else c :: replaceFrom pattern new 0 cs

/-- Replaces all occurrences of a pattern that is not empty. -/
def replaceAll (pattern new text : String) : String :=
  String.ofList (replaceFrom pattern.toList new.toList 0 text.toList)

/-! ## Several patterns at once -/

/-- Pairs of a pattern and what stands for it. -/
abbrev Table := List (List Char × List Char)

def substituteFrom (table : Table) : Nat → List Char → List Char
  | _, [] => []
  | skip + 1, _ :: cs => substituteFrom table skip cs
  | 0, c :: cs =>
    match table.find? fun entry => entry.1.isPrefixOf (c :: cs) with
    | some (pattern, new) => new ++ substituteFrom table (pattern.length - 1) cs
    | none => c :: substituteFrom table 0 cs

/-- Replaces every occurrence of a pattern of the table by what stands for it there; at each place
the first pattern that fits counts. -/
def substitute (table : List (String × String)) (text : String) : String :=
  let entries := table.map fun (pattern, new) => (pattern.toList, new.toList)
  String.ofList (substituteFrom entries 0 text.toList)

theorem substituteFrom_singleton (pattern new : List Char) (skip : Nat) (text : List Char) :
    substituteFrom [(pattern, new)] skip text = replaceFrom pattern new skip text := by
  induction text generalizing skip with
  | nil => cases skip <;> rfl
  | cons c cs ih =>
    cases skip with
    | succ skip => exact ih skip
    | zero =>
      by_cases h : pattern.isPrefixOf (c :: cs) <;>
        simp [substituteFrom, replaceFrom, List.find?, h, ih]

end SdfShader.Text
