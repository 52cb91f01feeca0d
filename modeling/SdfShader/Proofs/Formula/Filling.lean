import SdfShader.Proofs.Formula.Shipped
import SdfShader.Proofs.Text.Passes

/-!
# Filling — templates filled in one field after the other

The placeholders of a template are filled in by one pass each, so a pass also searches the fields
that the passes before it have copied. The code is the template with all placeholders replaced at
once where no field has a part in a later placeholder, as it is in what is shipped. A field that
mentions a later placeholder is changed.

* `Undisturbed`: the condition on the fields, which can be computed;
* `fill_eq_substitute`: with it the passes make one substitution, whatever the template;
* `fields_copied`: the code for the host and for the shader.
-/

namespace SdfShader.Formula

open Text

/-! ## Placeholders -/

theorem toList_placeholder (name : String) :
    (placeholder name).toList = '\x7b' :: (name.toList ++ ['\x7d']) := by
  simp [placeholder]

theorem placeholder_ne_nil (name : String) : (placeholder name).toList ≠ [] := by
  rw [toList_placeholder]
  exact List.cons_ne_nil _ _

/-- Whether a name has no brace itself. -/
def Plain (name : String) : Prop :=
  '\x7b' ∉ name.toList ∧ '\x7d' ∉ name.toList

instance (name : String) : Decidable (Plain name) :=
  inferInstanceAs (Decidable (_ ∧ _))

/-- A name in braces ends at the first closing one. -/
theorem eq_of_append_prefix_append {c : Char} {cs ds rest : List Char} (hcs : c ∉ cs) (hds : c ∉ ds)
    (h : cs ++ [c] <+: ds ++ c :: rest) : cs = ds := by
  induction cs generalizing ds with
  | nil =>
      cases ds with
      | nil =>
          rfl
      | cons d ds =>
          have hd : c = d := (List.cons_prefix_cons.1 h).1
          exact absurd List.mem_cons_self (hd ▸ hds)
  | cons e cs ih =>
      cases ds with
      | nil =>
          have he : e = c := (List.cons_prefix_cons.1 h).1
          exact absurd List.mem_cons_self (he ▸ hcs)
      | cons d ds =>
          rcases List.cons_prefix_cons.1 h with ⟨rfl, hrest⟩
          rw [ih (List.not_mem_of_not_mem_cons hcs) (List.not_mem_of_not_mem_cons hds) hrest]

/-- No placeholder begins in another one. -/
theorem apart_placeholder {name other : String} (hname : Plain name) (hother : Plain other)
    (h : name ≠ other) : Apart (placeholder name).toList (placeholder other).toList := by
  rw [toList_placeholder, toList_placeholder]
  -- A placeholder can begin at the brace only, and then the names are the same.
  refine .cons (fun rest hbegins => h ?_) (apart_of_head_notMem (by simp [hother.1]))
  have hnames : name.toList ++ ['\x7d'] <+: other.toList ++ '\x7d' :: rest := by
    simpa using (List.cons_prefix_cons.1 hbegins).2
  exact String.toList_injective (eq_of_append_prefix_append hname.2 hother.2 hnames)

/-! ## One substitution -/

/-- The placeholders of some fields and what stands for them. -/
def placeholders (entries : List (String × String)) : List (String × String) :=
  entries.map fun (name, value) => (placeholder name, value)

theorem forall_mem_placeholders {entries : List (String × String)} {P : String × String → Prop} :
    (∀ filled ∈ placeholders entries, P filled) ↔
      ∀ entry ∈ entries, P (placeholder entry.1, entry.2) :=
  List.forall_mem_map

/-- Whether no field has a part in a placeholder that is filled in after it. -/
def Undisturbed (entries : List (String × String)) : Prop :=
  entries.Pairwise fun earlier later => Inert (placeholder later.1).toList earlier.2.toList

instance (entries : List (String × String)) : Decidable (Undisturbed entries) :=
  inferInstanceAs (Decidable (entries.Pairwise _))

theorem fill_concat (template : String) (entries : List (String × String))
    (entry : String × String) : fill template (entries ++ [entry])
      = replaceAll (placeholder entry.1) entry.2 (fill template entries) := by
  simp [fill]

/-- If no field has a part in a later placeholder, the passes make one substitution. -/
theorem fill_eq_substitute {entries : List (String × String)}
    (hnames : (entries.map Prod.fst).Nodup) (hplain : ∀ name ∈ entries.map Prod.fst, Plain name)
    (h : Undisturbed entries) (template : String) :
    fill template entries = substitute (placeholders entries) template := by
  -- By induction on the last pass, whose placeholder the earlier fields have no part in.
  induction entries using List.reverseRecOn with
  | nil =>
      exact (substitute_nil template).symm
  | append_singleton entries entry ih =>
      rw [List.map_append, List.map_singleton] at hnames hplain
      rcases List.pairwise_append.1 h with ⟨hinit, -, hlast⟩
      have hvalues : ∀ filled ∈ placeholders entries,
          Inert (placeholder entry.1).toList filled.2.toList :=
        forall_mem_placeholders.2 fun earlier hearlier =>
          hlast earlier hearlier entry List.mem_cons_self
      have hpatterns : ∀ filled ∈ placeholders entries, filled.1.toList ≠ [] :=
        forall_mem_placeholders.2 fun earlier _ => placeholder_ne_nil earlier.1
      have hapart : ∀ filled ∈ placeholders entries,
          Apart filled.1.toList (placeholder entry.1).toList := by
        refine forall_mem_placeholders.2 fun earlier hearlier => ?_
        have hmem : earlier.1 ∈ entries.map Prod.fst := List.mem_map_of_mem hearlier
        refine apart_placeholder (hplain _ (List.mem_append_left _ hmem))
          (hplain _ (List.mem_append_right _ List.mem_cons_self)) ?_
        exact (List.nodup_append.1 hnames).2.2 _ hmem _ List.mem_cons_self
      have hrest : fill template entries = substitute (placeholders entries) template :=
        ih (List.nodup_append.1 hnames).1
          (fun name hname => hplain name (List.mem_append_left _ hname)) hinit
      calc fill template (entries ++ [entry])
          = replaceAll (placeholder entry.1) entry.2 (fill template entries) :=
            fill_concat template entries entry
        _ = replaceAll (placeholder entry.1) entry.2
              (substitute (placeholders entries) template) := by rw [hrest]
        _ = substitute (placeholders entries ++ [(placeholder entry.1, entry.2)]) template :=
            replaceAll_substitute hvalues hpatterns hapart (placeholder_ne_nil entry.1) _ _
        _ = substitute (placeholders (entries ++ [entry])) template := by
            rw [placeholders, placeholders, List.map_append, List.map_singleton]

/-! ## Fields of a specification -/

/-- The code is the template with all its placeholders replaced at once, and what stands for them is
copied as it is, if no field has a part in a placeholder that is filled in after it. The template
may be any text, and so may the field that is filled in last. -/
theorem fields_copied (spec : Spec) :
    (Undisturbed spec.hostEntries →
      spec.hostCode = substitute (placeholders spec.hostEntries) spec.hostTemplate) ∧
    (Undisturbed spec.shaderEntries →
      spec.shaderCode = substitute (placeholders spec.shaderEntries) spec.shaderTemplate) := by
  have hhost : ∀ name ∈ ["name", "description", "verified_date", "step_docs", "pitfall_docs"],
      Plain name := by decide +kernel
  have hshader : ∀ name ∈ ["name", "description", "verified_date"], Plain name := by
    decide +kernel
  constructor
  · intro h
    have hnames : (spec.hostEntries.map Prod.fst).Nodup := by simp [Spec.hostEntries]
    exact fill_eq_substitute hnames hhost h spec.hostTemplate
  · intro h
    have hnames : (spec.shaderEntries.map Prod.fst).Nodup := by simp [Spec.shaderEntries]
    exact fill_eq_substitute hnames hshader h spec.shaderTemplate

/-- In the shipped smooth minimum, one of whose pitfalls is code in braces, no field disturbs a
placeholder. -/
theorem fields_copied_smoothMinimum : ∃ spec, Spec.ofToml? Shipped.smoothMinimum = some spec ∧
    Undisturbed spec.hostEntries ∧ Undisturbed spec.shaderEntries ∧
    spec.hostCode = substitute (placeholders spec.hostEntries) spec.hostTemplate ∧
    spec.shaderCode = substitute (placeholders spec.shaderEntries) spec.shaderTemplate := by
  have hspec : ∃ spec, Spec.ofToml? Shipped.smoothMinimum = some spec ∧
      decide (Undisturbed spec.hostEntries ∧ Undisturbed spec.shaderEntries) = true := by
    apply exists_spec_of_any
    · unfold Spelled
      repeat' constructor
    · decide +kernel
  rcases hspec with ⟨spec, hread, hdecide⟩
  rcases of_decide_eq_true hdecide with ⟨hhost, hshader⟩
  exact ⟨spec, hread, hhost, hshader, (fields_copied spec).1 hhost, (fields_copied spec).2 hshader⟩

/-- A formula whose description mentions the placeholder of the date. -/
def datedFormula : Spec where
  name := "sd_x"
  category := "primitive"
  description := "Verified on {verified_date}"
  verifiedDate := "2026-01-01"
  params := []
  result := ⟨"float", "distance"⟩
  steps := []
  pitfalls := []
  tests := []
  hostTemplate := "/// {description}
fn {name}() {}
"
  shaderTemplate := "// {description}
float {name}();
"
  testTemplate := "fn {name}_{test_name}() {}
"

/-- Its description is searched when the date is filled in, and loses the placeholder. -/
theorem datedFormula_description_changed :
    datedFormula.hostCode ≠
      substitute (placeholders datedFormula.hostEntries) datedFormula.hostTemplate ∧
    datedFormula.shaderCode ≠
      substitute (placeholders datedFormula.shaderEntries) datedFormula.shaderTemplate ∧
    datedFormula.hostCode = "/// Verified on 2026-01-01
fn sd_x() {}
" ∧
    substitute (placeholders datedFormula.hostEntries) datedFormula.hostTemplate
      = "/// Verified on {verified_date}
fn sd_x() {}
" := by
  decide +kernel

end SdfShader.Formula
