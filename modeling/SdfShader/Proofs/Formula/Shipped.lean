import SdfShader.Formula.Shipped
import SdfShader.Proofs.Text.Occurrence
import SdfShader.Proofs.Text.Spelling

/-!
# Shipped — the formula library of the shaders is generated

The three shipped specifications can be read, so the library is what is generated from them. What a
specification adds to the shader code are characters of its template and of the texts that are
filled in. None of them is an `H`, so no marker that has one begins in the library. Main statements:

* `Spec.notMem_shaderCode`: where the characters of the shader code come from;
* `build_eq_library`, `library_shader_eq`: the shipped directory gives the library, whose shader code
  is that of the specifications in the order of their files;
* `apart_library`: no marker with an `H` begins in its shader code.
-/

namespace SdfShader.Formula

open Text

/-! ## Characters of generated code -/

theorem mem_replaceFrom {pattern new text : List Char} {skip : Nat} {c : Char}
    (h : c ∈ replaceFrom pattern new skip text) : c ∈ new ∨ c ∈ text := by
  fun_induction replaceFrom pattern new skip text with
  | case1 =>
      exact .inr h
  | case2 skip d cs ih =>
      exact (ih h).imp_right (List.mem_cons_of_mem d)
  | case3 d cs _ ih =>
      rcases List.mem_append.1 h with h | h
      · exact .inl h
      · exact (ih h).imp_right (List.mem_cons_of_mem d)
  | case4 d cs _ ih =>
      rcases List.mem_cons.1 h with rfl | h
      · exact .inr List.mem_cons_self
      · exact (ih h).imp_right (List.mem_cons_of_mem d)

/-- Filling in placeholders adds the characters of the values only. -/
theorem notMem_fill {c : Char} {entries : List (String × String)} {template : String}
    (htemplate : c ∉ template.toList) (hentries : ∀ entry ∈ entries, c ∉ entry.2.toList) :
    c ∉ (fill template entries).toList := by
  induction entries generalizing template with
  | nil =>
      exact htemplate
  | cons entry entries ih =>
      have hrest : ∀ other ∈ entries, c ∉ other.2.toList := fun other hother =>
        hentries other (List.mem_cons_of_mem entry hother)
      have hfilled : c ∉ (replaceAll (placeholder entry.1) entry.2 template).toList := by
        rw [replaceAll, String.toList_ofList]
        intro hmem
        exact (mem_replaceFrom hmem).elim (hentries entry List.mem_cons_self) htemplate
      exact ih hfilled hrest

/-- The texts of a specification that its shader code is made of. -/
def Spec.shaderTexts (spec : Spec) : List String :=
  spec.shaderTemplate :: spec.shaderEntries.map Prod.snd

theorem Spec.notMem_shaderCode {spec : Spec} {c : Char}
    (h : ∀ s ∈ spec.shaderTexts, c ∉ s.toList) : c ∉ spec.shaderCode.toList := by
  have htemplate : c ∉ spec.shaderTemplate.toList := h _ List.mem_cons_self
  refine notMem_fill htemplate fun entry hentry => h _ ?_
  exact List.mem_cons_of_mem _ (List.mem_map_of_mem hentry)

/-! ## Reading specifications -/

/-- The specification that lines of a document give. -/
def Spec.ofLines? (found : List Toml.Line) : Option Spec := do
  let progress ← found.foldlM Toml.Progress.step ⟨[], []⟩
  ofDocument? false (.ofToml (.table (Toml.Item.valuesOf progress.root)))

/-- The specification in a text that is given by its characters. -/
def Spec.ofChars? (cs : List Char) : Option Spec :=
  match Toml.lines cs with
  | some (found, []) => ofLines? found
  | _ => none

theorem Spec.ofToml?_eq_some {text : String} {spec : Spec}
    (h : ofChars? text.toList = some spec) : ofToml? text = some spec := by
  unfold ofChars? at h
  split at h
  case h_1 found hfound =>
      have hrun : Toml.lines.run? text = some found := Parser.run?_eq_some_iff.2 hfound
      simpa [ofToml?, Toml.parse?, hrun, ofLines?, Option.bind_assoc] using h
  case h_2 =>
      exact nomatch h

/-- Whether no byte of the texts of the shader code is that of an `H`. -/
def Spec.lacksH (spec : Spec) : Bool :=
  spec.shaderTexts.all fun s => s.toByteArray.data.toList.all (· ≠ 0x48)

theorem Spec.notMem_of_lacksH {spec : Spec} (h : spec.lacksH = true) :
    'H' ∉ spec.shaderCode.toList := by
  refine notMem_shaderCode fun s hs => notMem_toList_of_byte (b := 0x48) (by decide) ?_
  have hbytes := List.all_eq_true.1 (List.all_eq_true.1 h s hs)
  exact fun hmem => absurd (hbytes _ hmem) (by decide)

/-- A text given by the characters of its lines is read, and what was computed of the specification
holds. -/
theorem exists_spec_of_any {ls : List String} {css : List (List Char)} (h : Spelled ls css)
    {check : Spec → Bool} (hread : (Spec.ofChars? (css.flatMap (· ++ ['\n']))).any check = true) :
    ∃ spec, Spec.ofToml? (unlines ls) = some spec ∧ check spec = true := by
  rcases (Option.any_eq_true_iff_get _ _).1 hread with ⟨hsome, hcheck⟩
  refine ⟨_, Spec.ofToml?_eq_some ?_, hcheck⟩
  rw [h.toList_unlines, Option.some_get]

theorem exists_spec {ls : List String} {css : List (List Char)} (h : Spelled ls css)
    (hread : (Spec.ofChars? (css.flatMap (· ++ ['\n']))).any Spec.lacksH = true) :
    ∃ spec, Spec.ofToml? (unlines ls) = some spec ∧ 'H' ∉ spec.shaderCode.toList := by
  rcases exists_spec_of_any h hread with ⟨spec, hspec, hlacks⟩
  exact ⟨spec, hspec, Spec.notMem_of_lacksH hlacks⟩

/-! ## The shipped directory -/

namespace Shipped

theorem exists_spec_of_mem {text : String} (h : text ∈ [box, sphere, smoothMinimum]) :
    ∃ spec, Spec.ofToml? text = some spec ∧ 'H' ∉ spec.shaderCode.toList := by
  simp only [List.mem_cons, List.not_mem_nil, or_false] at h
  rcases h with rfl | rfl | rfl
  all_goals
    apply exists_spec
    · -- Each line is compared with its characters as a literal, which are then read.
      unfold Spelled
      repeat' constructor
    · decide +kernel

theorem readEntry_file (name : String) {text : String} {spec : Spec}
    (h : Spec.ofToml? text = some spec) : Library.readEntry (name, .file text) = .ok spec := by
  unfold Library.readEntry
  simp only [h]

/-- All files are specifications, and they are listed in the order of their names. -/
theorem chosen_eq_directory :
    (directory.filter fun (name, _) => Library.isSpecName name).mergeSort
      (fun a b => Library.bytesLe a.1 b.1) = directory := by
  have hall : (directory.filter fun (name, _) => Library.isSpecName name) = directory := by
    refine List.filter_eq_self.2 fun entry hentry => ?_
    simp only [directory, List.mem_cons, List.not_mem_nil, or_false] at hentry
    rcases hentry with rfl | rfl | rfl <;> decide +kernel
  rw [hall]
  refine List.mergeSort_of_pairwise ?_
  simp only [directory, List.pairwise_cons, List.mem_cons, List.not_mem_nil, or_false]
  refine ⟨?_, ?_, ?_, List.Pairwise.nil⟩
  · rintro entry (rfl | rfl) <;> decide +kernel
  · rintro entry rfl
    decide +kernel
  · rintro entry ⟨⟩

/-- All three texts can be read, and the directory gives what is generated from them in the order of
their files. -/
theorem exists_build_eq_ok : ∃ specs, [box, sphere, smoothMinimum].mapM Spec.ofToml? = some specs ∧
    build = .ok (Library.ofSpecs specs) ∧ ∀ spec ∈ specs, 'H' ∉ spec.shaderCode.toList := by
  rcases @exists_spec_of_mem box (by simp) with ⟨b, hb, hlacksb⟩
  rcases @exists_spec_of_mem sphere (by simp) with ⟨s, hs, hlackss⟩
  rcases @exists_spec_of_mem smoothMinimum (by simp) with ⟨m, hm, hlacksm⟩
  refine ⟨[b, s, m], by simp [hb, hs, hm], ?_, by simp [hlacksb, hlackss, hlacksm]⟩
  have hread : directory.mapM Library.readEntry = .ok [b, s, m] := by
    unfold directory
    rw [List.mapM_cons, List.mapM_cons, List.mapM_cons, List.mapM_nil, readEntry_file _ hb,
      readEntry_file _ hs, readEntry_file _ hm]
    rfl
  unfold build Library.build
  dsimp only
  rw [chosen_eq_directory, hread]
  rfl

end Shipped

/-! ## The library -/

theorem library_eq_of_build_eq {built : Library} (h : Shipped.build = .ok built) :
    library = built := by
  unfold library
  rw [h]

theorem build_eq_library : Shipped.build = .ok library := by
  rcases Shipped.exists_build_eq_ok with ⟨specs, -, hbuild, -⟩
  exact hbuild.trans (congrArg Except.ok (library_eq_of_build_eq hbuild).symm)

/-- The shader code of a library, formula by formula. -/
theorem Library.shader_ofSpecs (specs : List Spec) : (ofSpecs specs).shader
    = codeNotice ++ String.join (specs.map fun spec => spec.shaderCode ++ "\n\n") := by
  have hfold : ∀ library : Library,
      (specs.foldl (fun library spec => library.append (ofSpec spec)) library).shader
        = library.shader ++ String.join (specs.map fun spec => spec.shaderCode ++ "\n\n") := by
    induction specs with
    | nil =>
        intro library
        rw [List.foldl_nil, List.map_nil, String.join_nil, String.append_empty]
    | cons spec specs ih =>
        intro library
        rw [List.foldl_cons, ih, List.map_cons, String.join_cons, ← String.append_assoc]
        rfl
  exact hfold headers

/-- The shader code of the library is a notice and then that of the three specifications. -/
theorem library_shader_eq : ∃ specs,
    [Shipped.box, Shipped.sphere, Shipped.smoothMinimum].mapM Spec.ofToml? = some specs ∧
    library.shader = Library.codeNotice
      ++ String.join (specs.map fun spec => spec.shaderCode ++ "\n\n") ∧
    ∀ spec ∈ specs, 'H' ∉ spec.shaderCode.toList := by
  rcases Shipped.exists_build_eq_ok with ⟨specs, hspecs, hbuild, hlacks⟩
  refine ⟨specs, hspecs, ?_, hlacks⟩
  rw [library_eq_of_build_eq hbuild, Library.shader_ofSpecs]

section Markers

variable {pattern : List Char} (hmember : 'H' ∈ pattern) (hline : '\n' ∉ pattern)
include hmember hline

theorem apart_codeNotice : Apart pattern Library.codeNotice.toList := by
  have hpart : ∀ (s : String) (cs : List Char), s = String.ofList cs →
      'H' ∉ cs ∧ cs.getLast? = some '\n' → Apart pattern s.toList := by
    rintro _ cs rfl ⟨hlacks, hlast⟩
    rw [String.toList_ofList]
    exact apart_of_getLast? hmember hlacks hlast hline
  unfold Library.codeNotice
  rw [String.toList_append]
  apply Apart.append
  · apply hpart
    · rfl
    · decide
  · apply hpart
    · rfl
    · decide

/-- No marker with an `H` begins in the shader code of the library. -/
theorem apart_library : Apart pattern library.shader.toList := by
  rcases library_shader_eq with ⟨specs, hspecs, hshader, hlacks⟩
  rw [hshader, String.toList_append]
  refine (apart_codeNotice hmember hline).append ?_
  clear hspecs hshader
  induction specs with
  | nil =>
      exact .nil
  | cons spec specs ih =>
      have hcode : 'H' ∉ (spec.shaderCode ++ "\n\n").toList := by
        simp [hlacks spec List.mem_cons_self]
      have hfirst : Apart pattern (spec.shaderCode ++ "\n\n").toList :=
        apart_of_getLast? hmember hcode (by simp) hline
      have hrest : ∀ other ∈ specs, 'H' ∉ other.shaderCode.toList := fun other hother =>
        hlacks other (List.mem_cons_of_mem spec hother)
      rw [List.map_cons, String.join_cons, String.toList_append]
      exact hfirst.append (ih hrest)

end Markers

end SdfShader.Formula
