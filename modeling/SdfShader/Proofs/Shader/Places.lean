import SdfShader.Proofs.Formula.Shipped
import SdfShader.Proofs.Shader.Totality

/-!
# Places — every part of a shader stands in the place of its marker

The markers are replaced one after the other, each time in a text that holds what has been put in
before. All the same each part goes to its own place. A marker is a comment in one line that has an
`H`, and

* no line of the template around the markers has both a slash and an `H`;
* the declarations of constants have no slash;
* the formula library has no `H`;
* the fragment is put in last.

So no marker begins in the text in front of it (`Text.Apart`), and its first occurrence is the one
that the template has. Main statement: `Scene.fragmentShader_fills_template`.
-/

namespace SdfShader

open Text

/-! ## Constants -/

/-- Texts stand in interpolated texts as they are. -/
@[simp] theorem toString_eq_self (s : String) : toString s = s := rfl

/-- A joined text has the characters of its parts only. -/
theorem notMem_of_join_mapM {ε α : Type} {f : α → Except ε String} {xs : List α} {c : Char}
    {text : String} (hparts : ∀ x ∈ xs, ∀ part, f x = .ok part → c ∉ part.toList)
    (h : (xs.mapM f).map String.join = .ok text) : c ∉ text.toList := by
  rcases map_eq_ok_iff.1 h with ⟨texts, htexts, rfl⟩
  clear h
  induction xs generalizing texts with
  | nil =>
      cases htexts
      simp
  | cons x xs ih =>
      rw [List.mapM_cons] at htexts
      simp only [bind_eq_ok_iff, pure_eq_ok_iff] at htexts
      rcases htexts with ⟨part, hpart, rest, hrest, rfl⟩
      have hmore : c ∉ (String.join rest).toList :=
        ih (fun y hy => hparts y (List.mem_cons_of_mem x hy)) rest hrest
      rw [String.join_cons, String.toList_append, List.mem_append, not_or]
      exact ⟨hparts x List.mem_cons_self part hpart, hmore⟩

theorem Binary.slash_notMem_literal {x : Single} {text : String} (h : x.literal = .ok text) :
    '/' ∉ text.toList := by
  rcases literal_eq_ok_iff.1 h with ⟨-, rfl⟩
  have hplain : x.numeral.withFraction.Plain := (Scaled.plain_positional _ _).withFraction
  intro hmem
  rw [Numeral.toString, String.toList_ofList] at hmem
  exact absurd (hplain.mem_toList hmem) (by decide)

theorem Vec3.slash_notMem_literal {v : Vec3 Single} {text : String} (h : v.literal = .ok text) :
    '/' ∉ text.toList := by
  simp only [literal, bind_eq_ok_iff, pure_eq_ok_iff] at h
  rcases h with ⟨x, hx, y, hy, z, hz, rfl⟩
  simp [Binary.slash_notMem_literal hx, Binary.slash_notMem_literal hy,
    Binary.slash_notMem_literal hz]

namespace Config

variable {c : Config}

theorem slash_notMem_constantLiteral {kind : Kind} {x : kind.Value} {type value : String}
    (h : constantLiteral kind x = .ok (type, value)) : '/' ∉ type.toList ∧ '/' ∉ value.toList := by
  cases kind with
  | count =>
      cases h
      have hdigits : '/' ∉ (toString x.toNat).toList := by
        rw [Nat.toString_eq_ofList_toDigits, String.toList_ofList]
        intro hmem
        exact absurd (isDigit_of_mem_toDigits hmem) (by decide)
      exact ⟨by simp, hdigits⟩
  | scalar =>
      rcases map_eq_ok_iff.1 h with ⟨literal, hliteral, heq⟩
      cases heq
      exact ⟨by simp, Binary.slash_notMem_literal hliteral⟩
  | vector =>
      rcases map_eq_ok_iff.1 h with ⟨literal, hliteral, heq⟩
      cases heq
      exact ⟨by simp, Vec3.slash_notMem_literal hliteral⟩

theorem slash_notMem_declaration {field : Field} {text : String}
    (h : c.declaration field = .ok text) : '/' ∉ text.toList := by
  simp only [declaration, bind_eq_ok_iff, pure_eq_ok_iff] at h
  rcases h with ⟨⟨type, value⟩, hliteral, rfl⟩
  have hname : '/' ∉ field.constant.toList := by
    cases field <;> simp [Field.constant]
  rcases slash_notMem_constantLiteral hliteral with ⟨htype, hvalue⟩
  simp [htype, hvalue, hname]

/-- Whatever the constants are, no comment begins in their declarations. -/
theorem slash_notMem_declarations {text : String} (h : c.declarations = .ok text) :
    '/' ∉ text.toList :=
  notMem_of_join_mapM (fun _ _ _ hpart => slash_notMem_declaration hpart) h

end Config

/-! ## Markers -/

namespace Marker

theorem exists_toList_text (m : Marker) :
    ∃ cs, m.text.toList = '/' :: cs ∧ 'H' ∈ cs ∧ '\n' ∉ cs := by
  refine ⟨m.text.toList.tail, ?_⟩
  cases m <;> simp [text]

/-- No marker begins in a text without a comment. -/
theorem apart_of_slash_notMem (m : Marker) {s : String} (h : '/' ∉ s.toList) :
    Apart m.text.toList s.toList := by
  rcases m.exists_toList_text with ⟨cs, htext, -⟩
  rw [htext]
  exact apart_of_head_notMem h

theorem apart_library (m : Marker) : Apart m.text.toList Formula.library.shader.toList := by
  rcases m.exists_toList_text with ⟨cs, htext, hmember, hline⟩
  rw [htext]
  exact Formula.apart_library (by simp [hmember]) (by simp [hline])

/-- No marker begins in lines of which none has both a slash and an `H`. -/
theorem apart_unlines (m : Marker) {ls : List String} {css : List (List Char)}
    (h : Spelled ls css) (hlines : ∀ cs ∈ css, '/' ∉ cs ∨ 'H' ∉ cs) :
    Apart m.text.toList (unlines ls).toList := by
  rcases m.exists_toList_text with ⟨marker, htext, hmember, hline⟩
  rw [htext, h.toList_unlines]
  clear h
  induction css with
  | nil =>
      exact .nil
  | cons cs css ih =>
      -- No occurrence goes on behind the end of the line.
      have hfirst : Apart ('/' :: marker) (cs ++ ['\n']) := by
        rcases hlines cs List.mem_cons_self with hslash | hH
        · exact apart_of_head_notMem (by simp [hslash])
        · exact apart_concat (c := 'H') (by simp [hmember]) hH (by simp [hline])
      rw [List.flatMap_cons]
      exact hfirst.append (ih fun ds hds => hlines ds (List.mem_cons_of_mem cs hds))

theorem apart_feed_unlines (m : Marker) {ls : List String} {css : List (List Char)}
    (h : Spelled ls css) (hlines : ∀ cs ∈ css, '/' ∉ cs ∨ 'H' ∉ cs) :
    Apart m.text.toList ("\n" ++ unlines ls).toList := by
  rw [String.toList_append]
  exact (m.apart_of_slash_notMem (by simp)).append (m.apart_unlines h hlines)

theorem splice_append (m : Marker) {front : String} (h : Apart m.text.toList front.toList)
    (code back : String) :
    splice (front ++ m.text ++ back) m.text code = .ok (front ++ code ++ back) := by
  rw [splice, splice?_append h]

end Marker

/-! ## The template -/

namespace Template

theorem apart_heading (m : Marker) : Apart m.text.toList heading.toList := by
  unfold heading
  apply m.apart_unlines
  · unfold Spelled
    repeat' constructor
  · decide +kernel

theorem apart_mapOpening (m : Marker) : Apart m.text.toList mapOpening.toList := by
  unfold mapOpening
  apply m.apart_feed_unlines
  · unfold Spelled
    repeat' constructor
  · decide +kernel

theorem apart_rendering (m : Marker) : Apart m.text.toList rendering.toList := by
  unfold rendering
  apply m.apart_feed_unlines
  · unfold Spelled
    repeat' constructor
  · decide +kernel

/-! ## Filling in the template -/

/-- The pieces of the template with a text in the place of each marker. -/
def filled (code : Marker → String) : String :=
  heading ++ code .constants ++ "\n\n" ++ code .formulas ++ mapOpening ++ code .scene ++ rendering

theorem filled_text : filled Marker.text = fragmentTemplate := rfl

/-- All markers, each with the text for its place. -/
def table (code : Marker → String) : List (String × String) :=
  [Marker.constants, Marker.formulas, Marker.scene].map fun m => (m.text, code m)

/-- What the table says in characters. -/
def entries (code : Marker → String) : Table :=
  (table code).map fun (marker, new) => (marker.toList, new.toList)

variable (code : Marker → String)

theorem exists_of_mem_entries {entry : List Char × List Char} (h : entry ∈ entries code) :
    ∃ m : Marker, entry = (m.text.toList, (code m).toList) := by
  rcases List.mem_map.1 h with ⟨_, hrow, rfl⟩
  rcases List.mem_map.1 hrow with ⟨m, _, rfl⟩
  exact ⟨m, rfl⟩

/-- Where a marker begins, no other one does. -/
theorem find?_entries (m : Marker) (rest : List Char) :
    (entries code).find? (fun entry => entry.1.isPrefixOf (m.text.toList ++ rest))
      = some (m.text.toList, (code m).toList) := by
  cases m <;> simp [entries, table, Marker.text, List.find?, List.isPrefixOf]

/-- Up to the next marker nothing is replaced, and then the marker is. -/
theorem substituteFrom_entries {front : String}
    (hfront : ∀ m : Marker, Apart m.text.toList front.toList) (m : Marker) (rest : List Char) :
    substituteFrom (entries code) 0 (front.toList ++ (m.text.toList ++ rest))
      = front.toList ++ ((code m).toList ++ substituteFrom (entries code) 0 rest) := by
  have hentries : ∀ entry ∈ entries code, Apart entry.1 front.toList := by
    intro entry hentry
    rcases exists_of_mem_entries code hentry with ⟨n, rfl⟩
    exact hfront n
  have hfind := find?_entries code m rest
  rcases m.exists_toList_text with ⟨cs, htext, -⟩
  rw [htext] at hfind ⊢
  exact substituteFrom_append_pattern hentries hfind

/-- Replacing all markers of the template at once fills their places, whatever the texts are. -/
theorem substitute_table : substitute (table code) fragmentTemplate = filled code := by
  have hgap : ∀ m : Marker, Apart m.text.toList "\n\n".toList := fun m =>
    m.apart_of_slash_notMem (by simp)
  -- Behind the last marker nothing is replaced any more.
  have hend : substituteFrom (entries code) 0 rendering.toList = rendering.toList := by
    have hentries : ∀ entry ∈ entries code, Apart entry.1 rendering.toList := by
      intro entry hentry
      rcases exists_of_mem_entries code hentry with ⟨m, rfl⟩
      exact apart_rendering m
    have happend := substituteFrom_append hentries []
    rwa [substituteFrom, List.append_nil] at happend
  have hchars : substituteFrom (entries code) 0 fragmentTemplate.toList = (filled code).toList := by
    simp only [fragmentTemplate, filled, String.toList_append, List.append_assoc]
    rw [substituteFrom_entries code apart_heading, substituteFrom_entries code hgap,
      substituteFrom_entries code apart_mapOpening, hend]
  exact (congrArg String.ofList hchars).trans String.ofList_toList

end Template

/-! ## Shaders -/

/-- The texts of a shader by the markers that they replace. -/
def shaderCode (constants scene : String) : Marker → String
  | .constants => constants
  | .formulas => Formula.library.shader
  | .scene => scene

/-- Replacing the markers one after the other fills their places. -/
theorem fragmentShader_eq_filled {g : Graph} {id : NodeId} {config : Config}
    {code : Marker → String} (hvalid : config.validate = .ok ())
    (hconstants : config.declarations = .ok (code .constants))
    (hformulas : code .formulas = Formula.library.shader)
    (hscene : g.fragment id = .ok (code .scene)) :
    fragmentShader g id config = .ok (Template.filled code) := by
  -- The texts in front of the second and the third marker hold what has been put in so far.
  have hfront : ∀ m : Marker, Apart m.text.toList
      (Template.heading ++ code .constants ++ "\n\n").toList := by
    intro m
    simp only [String.toList_append]
    have hslash : '/' ∉ (code .constants).toList := Config.slash_notMem_declarations hconstants
    exact ((Template.apart_heading m).append (m.apart_of_slash_notMem hslash)).append
      (m.apart_of_slash_notMem (by simp))
  have hlater : ∀ m : Marker, Apart m.text.toList (Template.heading ++ code .constants ++ "\n\n"
      ++ code .formulas ++ Template.mapOpening).toList := by
    intro m
    rw [String.toList_append, String.toList_append, hformulas]
    exact ((hfront m).append m.apart_library).append (Template.apart_mapOpening m)
  have hfirst := Marker.splice_append .constants (Template.apart_heading _) (code .constants)
    ("\n\n" ++ Marker.formulas.text ++ Template.mapOpening ++ Marker.scene.text
      ++ Template.rendering)
  have hsecond := Marker.splice_append .formulas (hfront _) (code .formulas)
    (Template.mapOpening ++ Marker.scene.text ++ Template.rendering)
  have hthird := Marker.splice_append .scene (hlater _) (code .scene) Template.rendering
  simp only [String.append_assoc] at hfirst hsecond hthird
  simp only [fragmentShader, fragmentTemplate, Template.filled, hvalid, hconstants, hscene,
    ← hformulas, String.append_assoc, bind_eq_ok_iff]
  exact ⟨(), rfl, _, rfl, _, rfl, _, hfirst, _, hsecond, hthird⟩

/-! ## Main result -/

/-- Whatever edits have made the scene: there is no shader exactly if the constants are refused,
which is found out first, or the node is unknown; no marker is ever missing. Else the shader is the
template with the declarations of the constants, the formula library and the fragment in the places
of its markers, as if all markers were replaced at once. The library is what is generated from the
shipped specifications: a notice, and then the shader code of the box, the sphere and the smooth
minimum. -/
theorem Scene.fragmentShader_fills_template (edits : List Edit) (id : NodeId) (config : Config) :
    let g := (Scene.empty.run edits).graph
    Formula.Shipped.build = .ok Formula.library ∧
    (∃ specs, [Formula.Shipped.box, Formula.Shipped.sphere, Formula.Shipped.smoothMinimum].mapM
        Formula.Spec.ofToml? = some specs ∧
      Formula.library.shader = Formula.Library.codeNotice
        ++ String.join (specs.map fun spec => spec.shaderCode ++ "\n\n")) ∧
    Template.filled Marker.text = fragmentTemplate ∧
    (∀ e, fragmentShader g id config = .error e ↔
      (∃ fault, config.validate = .error fault ∧ e = .config fault) ∨
      (config.validate = .ok () ∧ g.size ≤ id ∧ e = .scene (.unknownNode id))) ∧
    (∀ marker, fragmentShader g id config ≠ .error (.missingSplicePoint marker)) ∧
    ∀ text, fragmentShader g id config = .ok text →
      ∃ code : Marker → String, config.declarations = .ok (code .constants) ∧
        code .formulas = Formula.library.shader ∧ g.fragment id = .ok (code .scene) ∧
        text = Template.filled code ∧
        text = Text.substitute (Template.table code) fragmentTemplate := by
  intro g
  have h : (Scene.empty.run edits).Reachable := Reachable.empty.run edits
  rcases Formula.library_shader_eq with ⟨specs, hspecs, hshader, -⟩
  refine ⟨Formula.build_eq_library, ⟨specs, hspecs, hshader⟩, Template.filled_text, ?_⟩
  cases hvalid : config.validate with
  | error fault =>
      have hshader : fragmentShader g id config = .error (.config fault) :=
        fragmentShader_of_invalid hvalid
      rw [hshader]
      simp [eq_comm]
  | ok _ =>
      rcases Nat.lt_or_ge id g.size with known | hunknown
      · rcases (Config.validate_eq_ok_iff.1 hvalid).exists_declarations with ⟨constants, hconstants⟩
        rcases h.exists_fragment known with ⟨_, fragment, _, hfragment, _⟩
        have hshader : fragmentShader g id config
            = .ok (Template.filled (shaderCode constants fragment)) :=
          fragmentShader_eq_filled hvalid hconstants rfl hfragment
        rw [hshader]
        refine ⟨by simp [known], by simp, ?_⟩
        rintro _ ⟨⟩
        exact ⟨_, hconstants, rfl, hfragment, rfl, (Template.substitute_table _).symm⟩
      · have hshader : fragmentShader g id config = .error (.scene (.unknownNode id)) :=
          fragmentShader_of_fragment_eq_error hvalid (Graph.fragment_of_unknown hunknown)
        rw [hshader]
        simp [hunknown, eq_comm]

end SdfShader
