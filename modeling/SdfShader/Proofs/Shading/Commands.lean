import SdfShader.Proofs.Shading.Literal

/-!
# Commands — statements as commands of the shading language

Every statement of the map function stands for one command. The text of a statement is read as the
tokens of that command, whatever text follows; so the text of a list of statements is read as their
commands, one after the other.
-/

namespace SdfShader

open Shading

/-! ## Commands of statements -/

def DistanceTerm.expression : DistanceTerm → Expression
  | .solid position (.sphere radius) =>
    .call "sd_sphere"
      [.difference (.name "p") (vectorExpression position), numberExpression radius]
  | .solid position (.box halfExtents) =>
    .call "sd_box"
      [.difference (.name "p") (vectorExpression position), vectorExpression halfExtents]
  | .constant value => numberExpression value

def Join.expression (target source : String) : Join → Expression
  | .sharp => .call "min" [.member target "dist", .member source "dist"]
  | .smooth smoothness =>
    .call "op_smooth_min"
      [.member target "dist", .member source "dist", numberExpression smoothness]

def Statement.command : Statement → Command
  | .declare register color distance =>
    .declaration "MaterialDist" register
      (.call "MaterialDist" [vectorExpression color, .truth true, distance.expression])
  | .takeCloser source target =>
    .conditional (.comparison (.member source "dist") (.member target "dist"))
      [⟨target, "color", .member source "color"⟩, ⟨target, "is_lit", .member source "is_lit"⟩]
  | .join how target source => .assignment ⟨target, "dist", how.expression target source⟩

/-- The registers that a statement names. -/
def Statement.registers : Statement → List String
  | .declare register _ _ => [register]
  | .takeCloser source target => [source, target]
  | .join _ target source => [target, source]

namespace Shading

/-- Whether a name can be that of a register. -/
structure IsRegister (name : String) : Prop where
  word : IsWord name.toList
  not_reserved : name ∉ reservedWords
  ne_point : name ≠ "p"

/-! ## Text of statements -/

theorem Stops.breaks {cs : List Char} (h : Stops cs) : Breaks cs := by
  rcases h with ⟨c, rest, rfl, hc⟩
  refine ⟨c, rest, rfl, ?_⟩
  simp only [List.mem_cons, List.not_mem_nil, or_false] at hc
  rcases hc with rfl | rfl | rfl <;> rfl

theorem scan_member {register field : String} (hregister : IsWord register.toList)
    (hfield : IsWord field.toList) {cs : List Char} (hcs : Breaks cs) :
    scan [] (register.toList ++ '.' :: (field.toList ++ cs))
      = .word register :: .punctuation '.' :: .word field :: scan [] cs := by
  have hpoint : ∀ more, scan [] ('.' :: more) = .punctuation '.' :: scan [] more := fun _ => rfl
  rw [scan_word hregister ⟨'.', _, rfl, rfl⟩, hpoint, scan_word hfield hcs]

theorem isWord_field {field : String} (h : field ∈ ["color", "is_lit", "dist"]) :
    IsWord field.toList := by
  have hwords : ∀ w ∈ ["color", "is_lit", "dist"], IsWord (String.toList w) := by
    intro w hw
    simp only [List.mem_cons, List.not_mem_nil, or_false] at hw
    rcases hw with rfl | rfl | rfl <;> exact ⟨_, _, rfl, rfl, List.all_eq_true.1 rfl⟩
  exact hwords field h

theorem spells_member {register field : String} (hregister : IsWord register.toList)
    (hfield : field ∈ ["color", "is_lit", "dist"]) :
    Spells (register ++ "." ++ field) (.member register field) := by
  intro cs hcs
  have htext : (register ++ "." ++ field).toList ++ cs
      = register.toList ++ '.' :: (field.toList ++ cs) := by
    simp
  rw [htext, scan_member hregister (isWord_field hfield) hcs.breaks]
  rfl

theorem spells_dist {register : String} (h : IsWord register.toList) :
    Spells s!"{register}.dist" (.member register "dist") := by
  have htext : s!"{register}.dist" = register ++ "." ++ "dist" := by
    rw [String.append_assoc]
    rfl
  rw [htext]
  exact spells_member h (by simp)

/-- The sample point seen from a position. -/
theorem spells_difference {position : Vec3 Single} {center : String}
    (h : position.literal = .ok center) :
    Spells s!"p - {center}" (.difference (.name "p") (vectorExpression position)) := by
  intro cs hcs
  have htext : (s!"p - {center}").toList ++ cs = "p - ".toList ++ (center.toList ++ cs) := by
    have happend : s!"p - {center}" = "p - " ++ center := rfl
    rw [happend, String.toList_append, List.append_assoc]
  have hopening : ∀ more, scan [] ("p - ".toList ++ more)
      = .word "p" :: .operator "-" :: scan [] more := fun _ => rfl
  rw [htext, hopening, spells_vector h cs hcs]
  rfl

theorem spells_distance {d : DistanceTerm} {text : String} (h : d.render = .ok text) :
    Spells text d.expression := by
  cases d with
  | constant value =>
      exact spells_literal h
  | solid position solid =>
      cases solid with
      | sphere radius =>
          simp only [DistanceTerm.render, bind_eq_ok_iff, pure_eq_ok_iff] at h
          rcases h with ⟨center, hcenter, r, hr, rfl⟩
          have htext : s!"sd_sphere(p - {center}, {r})"
              = "sd_sphere(" ++ argumentsText [s!"p - {center}", r] := by
            simp only [argumentsText, String.append_assoc]
            rfl
          rw [htext]
          exact .call (fun _ => rfl)
            (.cons (spells_difference hcenter) (.cons (spells_literal hr) .nil))
      | box halfExtents =>
          simp only [DistanceTerm.render, bind_eq_ok_iff, pure_eq_ok_iff] at h
          rcases h with ⟨center, hcenter, b, hb, rfl⟩
          have htext : s!"sd_box(p - {center}, {b})"
              = "sd_box(" ++ argumentsText [s!"p - {center}", b] := by
            simp only [argumentsText, String.append_assoc]
            rfl
          rw [htext]
          exact .call (fun _ => rfl)
            (.cons (spells_difference hcenter) (.cons (spells_vector hb) .nil))

theorem spells_join {how : Join} {target source text : String} (htarget : IsWord target.toList)
    (hsource : IsWord source.toList) (h : how.render target source = .ok text) :
    Spells text (how.expression target source) := by
  cases how with
  | sharp =>
      cases h
      have htext : s!"min({target}.dist, {source}.dist)"
          = "min(" ++ argumentsText [s!"{target}.dist", s!"{source}.dist"] := by
        simp only [argumentsText, String.append_assoc]
        rfl
      rw [htext]
      exact .call (fun _ => rfl) (.cons (spells_dist htarget) (.cons (spells_dist hsource) .nil))
  | smooth smoothness =>
      simp only [Join.render, bind_eq_ok_iff, pure_eq_ok_iff] at h
      rcases h with ⟨k, hk, rfl⟩
      have htext : s!"op_smooth_min({target}.dist, {source}.dist, {k})"
          = "op_smooth_min(" ++ argumentsText [s!"{target}.dist", s!"{source}.dist", k] := by
        simp only [argumentsText, String.append_assoc]
        rfl
      rw [htext]
      exact .call (fun _ => rfl) (.cons (spells_dist htarget) (.cons (spells_dist hsource)
        (.cons (spells_literal hk) .nil)))

/-! ## Whole statements -/

theorem spells_true : Spells "true" (.truth true) := by
  intro cs hcs
  exact scan_word ⟨'t', ['r', 'u', 'e'], rfl, rfl, List.all_eq_true.1 rfl⟩ hcs.breaks

/-- What follows the name that gets a value: the value and the end of the line. -/
theorem scan_value {value : String} {e : Expression} (h : Spells value e) (cs : List Char) :
    scan [] (" = ".toList ++ (value.toList ++ (";\n".toList ++ cs)))
      = .operator "=" :: (e.tokens ++ .punctuation ';' :: scan [] cs) := by
  have hequals : ∀ more, scan [] (" = ".toList ++ more) = .operator "=" :: scan [] more :=
    fun _ => rfl
  have hend : ∀ more, scan [] (";\n".toList ++ more) = .punctuation ';' :: scan [] more :=
    fun _ => rfl
  have hstop : Stops (";\n".toList ++ cs) := ⟨';', _, rfl, by simp⟩
  rw [hequals, h _ hstop, hend]

theorem breaks_value (value : String) (cs : List Char) :
    Breaks (" = ".toList ++ (value.toList ++ (";\n".toList ++ cs))) :=
  ⟨' ', _, rfl, rfl⟩

/-- A line that gives a field a value, whatever its indentation. -/
theorem scan_assignment {indent register field value : String} {e : Expression}
    (hindent : ∀ more, scan [] (indent.toList ++ more) = scan [] more)
    (hregister : IsWord register.toList) (hfield : field ∈ ["color", "is_lit", "dist"])
    (hvalue : Spells value e) (cs : List Char) :
    scan [] ((indent ++ register ++ "." ++ field ++ " = " ++ value ++ ";\n").toList ++ cs)
      = (Assignment.mk register field e).tokens ++ scan [] cs := by
  calc scan [] ((indent ++ register ++ "." ++ field ++ " = " ++ value ++ ";\n").toList ++ cs)
      = scan [] (indent.toList ++ (register.toList ++ '.' :: (field.toList ++ (" = ".toList ++
          (value.toList ++ (";\n".toList ++ cs)))))) := by
        simp
    _ = .word register :: .punctuation '.' :: .word field :: scan [] (" = ".toList ++
          (value.toList ++ (";\n".toList ++ cs))) := by
        rw [hindent, scan_member hregister (isWord_field hfield) (breaks_value value cs)]
    _ = (Assignment.mk register field e).tokens ++ scan [] cs := by
        rw [scan_value hvalue]
        simp [Assignment.tokens]

theorem scan_declaration {register value : String} {e : Expression}
    (hregister : IsWord register.toList) (hvalue : Spells value e) (cs : List Char) :
    scan [] (("    MaterialDist " ++ register ++ " = " ++ value ++ ";\n").toList ++ cs)
      = (Command.declaration "MaterialDist" register e).tokens ++ scan [] cs := by
  have htype : ∀ more, scan [] ("    MaterialDist ".toList ++ more)
      = .word "MaterialDist" :: scan [] more := fun _ => rfl
  calc scan [] (("    MaterialDist " ++ register ++ " = " ++ value ++ ";\n").toList ++ cs)
      = scan [] ("    MaterialDist ".toList ++ (register.toList ++ (" = ".toList ++
          (value.toList ++ (";\n".toList ++ cs))))) := by
        simp
    _ = .word "MaterialDist" :: .word register :: scan [] (" = ".toList ++
          (value.toList ++ (";\n".toList ++ cs))) := by
        rw [htype, scan_word hregister (breaks_value value cs)]
    _ = (Command.declaration "MaterialDist" register e).tokens ++ scan [] cs := by
        rw [scan_value hvalue]
        simp [Command.tokens]

theorem scan_condition {left right : String} (hleft : IsWord left.toList)
    (hright : IsWord right.toList) (cs : List Char) :
    scan [] (("    if (" ++ left ++ ".dist < " ++ right ++ ".dist) \x7b\n").toList ++ cs)
      = .word "if" :: .punctuation '(' ::
        ((Expression.comparison (.member left "dist") (.member right "dist")).tokens ++
          .punctuation ')' :: .punctuation '\x7b' :: scan [] cs) := by
  have hif : ∀ more, scan [] ("    if (".toList ++ more)
      = .word "if" :: .punctuation '(' :: scan [] more := fun _ => rfl
  have hless : ∀ more, scan [] (" < ".toList ++ more) = .operator "<" :: scan [] more :=
    fun _ => rfl
  have hopen : ∀ more, scan [] (") \x7b\n".toList ++ more)
      = .punctuation ')' :: .punctuation '\x7b' :: scan [] more := fun _ => rfl
  have hdist : IsWord "dist".toList := isWord_field (by simp)
  have hstop : Breaks (") \x7b\n".toList ++ cs) := ⟨')', _, rfl, rfl⟩
  have hblank : Breaks (" < ".toList ++ (right.toList ++ '.' :: ("dist".toList ++
      (") \x7b\n".toList ++ cs)))) := ⟨' ', _, rfl, rfl⟩
  calc scan [] (("    if (" ++ left ++ ".dist < " ++ right ++ ".dist) \x7b\n").toList ++ cs)
      = scan [] ("    if (".toList ++ (left.toList ++ '.' :: ("dist".toList ++ (" < ".toList ++
          (right.toList ++ '.' :: ("dist".toList ++ (") \x7b\n".toList ++ cs))))))) := by
        simp
    _ = _ := by
        rw [hif, scan_member hleft hdist hblank, hless, scan_member hright hdist hstop, hopen]
        rfl

/-- The lines that take over color and lighting of a closer surface. -/
theorem scan_takeCloser {source target : String} (hsource : IsWord source.toList)
    (htarget : IsWord target.toList) (cs : List Char) :
    scan [] ((String.join [s!"    if ({source}.dist < {target}.dist) \x7b\n",
        s!"        {target}.color = {source}.color;\n",
        s!"        {target}.is_lit = {source}.is_lit;\n", "    \x7d\n"]).toList ++ cs)
      = (Statement.takeCloser source target).command.tokens ++ scan [] cs := by
  have hclose : ∀ more, scan [] ("    \x7d\n".toList ++ more)
      = .punctuation '\x7d' :: scan [] more := fun _ => rfl
  have hcolor : ∀ more, scan [] (("        " ++ target ++ "." ++ "color" ++ " = "
      ++ (source ++ "." ++ "color") ++ ";\n").toList ++ more)
      = (Assignment.mk target "color" (.member source "color")).tokens ++ scan [] more :=
    scan_assignment (fun _ => rfl) htarget (by simp) (spells_member hsource (by simp))
  have hlit : ∀ more, scan [] (("        " ++ target ++ "." ++ "is_lit" ++ " = "
      ++ (source ++ "." ++ "is_lit") ++ ";\n").toList ++ more)
      = (Assignment.mk target "is_lit" (.member source "is_lit")).tokens ++ scan [] more :=
    scan_assignment (fun _ => rfl) htarget (by simp) (spells_member hsource (by simp))
  -- The four lines, cut where the lemmas above read them.
  have htext : String.join [s!"    if ({source}.dist < {target}.dist) \x7b\n",
        s!"        {target}.color = {source}.color;\n",
        s!"        {target}.is_lit = {source}.is_lit;\n", "    \x7d\n"]
      = ("    if (" ++ source ++ ".dist < " ++ target ++ ".dist) \x7b\n")
        ++ (("        " ++ target ++ "." ++ "color" ++ " = " ++ (source ++ "." ++ "color")
          ++ ";\n")
        ++ (("        " ++ target ++ "." ++ "is_lit" ++ " = " ++ (source ++ "." ++ "is_lit")
          ++ ";\n") ++ "    \x7d\n")) := by
    simp only [String.join_cons, String.join_nil, String.append_assoc]
    rfl
  rw [htext, String.toList_append, List.append_assoc, scan_condition hsource htarget,
    String.toList_append, List.append_assoc, hcolor, String.toList_append, List.append_assoc,
    hlit, hclose]
  simp [Statement.command, Command.tokens]

/-- The text of a statement is read as its command, whatever follows. -/
theorem scan_statement {s : Statement} {text : String} (hnames : ∀ r ∈ s.registers, IsRegister r)
    (h : s.render = .ok text) (cs : List Char) :
    scan [] (text.toList ++ cs) = s.command.tokens ++ scan [] cs := by
  have hwords : ∀ r ∈ s.registers, IsWord r.toList := fun r hr => (hnames r hr).word
  cases s with
  | declare register color distance =>
      simp only [Statement.render, bind_eq_ok_iff, pure_eq_ok_iff] at h
      rcases h with ⟨d, hd, c, hc, rfl⟩
      have hregister : IsWord register.toList := hwords register (by simp [Statement.registers])
      have hvalue : Spells ("MaterialDist(" ++ argumentsText [c, "true", d])
          (.call "MaterialDist" [vectorExpression color, .truth true, distance.expression]) :=
        .call (fun _ => rfl) (.cons (spells_vector hc) (.cons spells_true
          (.cons (spells_distance hd) .nil)))
      have htext : s!"    MaterialDist {register} = MaterialDist({c}, true, {d});\n"
          = "    MaterialDist " ++ register ++ " = "
            ++ ("MaterialDist(" ++ argumentsText [c, "true", d]) ++ ";\n" := by
        simp only [argumentsText, String.append_assoc]
        rfl
      rw [htext]
      exact scan_declaration hregister hvalue cs
  | takeCloser source target =>
      cases h
      have hsource : IsWord source.toList := hwords source (by simp [Statement.registers])
      have htarget : IsWord target.toList := hwords target (by simp [Statement.registers])
      exact scan_takeCloser hsource htarget cs
  | join how target source =>
      simp only [Statement.render, bind_eq_ok_iff, pure_eq_ok_iff] at h
      rcases h with ⟨joined, hjoined, rfl⟩
      have hsource : IsWord source.toList := hwords source (by simp [Statement.registers])
      have htarget : IsWord target.toList := hwords target (by simp [Statement.registers])
      have htext : s!"    {target}.dist = {joined};\n"
          = "    " ++ target ++ "." ++ "dist" ++ " = " ++ joined ++ ";\n" := by
        simp only [String.append_assoc]
        rfl
      rw [htext]
      exact scan_assignment (fun _ => rfl) htarget (by simp)
        (spells_join htarget hsource hjoined) cs

/-! ## Reading a whole text -/

theorem readable_distance (d : DistanceTerm) : d.expression.Readable := by
  have hpoint : (Expression.name "p").Readable := by
    simp [Expression.Readable, reservedWords]
  cases d with
  | constant value =>
      exact readable_numberExpression value
  | solid position solid =>
      have hdifference : (Expression.difference (.name "p") (vectorExpression position)).Readable :=
        ⟨trivial, trivial, hpoint, readable_vectorExpression position⟩
      cases solid with
      | sphere radius =>
          exact ⟨by simp, hdifference, readable_numberExpression radius, trivial⟩
      | box halfExtents =>
          exact ⟨by simp, hdifference, readable_vectorExpression halfExtents, trivial⟩

theorem readable_join {target source : String} (htarget : target ∉ reservedWords)
    (hsource : source ∉ reservedWords) (how : Join) :
    (how.expression target source).Readable := by
  cases how with
  | sharp =>
      exact ⟨by simp, htarget, hsource, trivial⟩
  | smooth smoothness =>
      exact ⟨by simp, htarget, hsource, readable_numberExpression smoothness, trivial⟩

theorem readable_command {s : Statement} (hnames : ∀ r ∈ s.registers, IsRegister r) :
    s.command.Readable := by
  have hreserved : ∀ r ∈ s.registers, r ∉ reservedWords := fun r hr => (hnames r hr).not_reserved
  cases s with
  | declare register color distance =>
      exact ⟨hreserved register (by simp [Statement.registers]), by simp,
        readable_vectorExpression color, trivial, readable_distance distance, trivial⟩
  | takeCloser source target =>
      have hsource := hreserved source (by simp [Statement.registers])
      have htarget := hreserved target (by simp [Statement.registers])
      refine ⟨⟨trivial, trivial, hsource, htarget⟩, ?_⟩
      intro a ha
      simp only [List.mem_cons, List.not_mem_nil, or_false] at ha
      rcases ha with rfl | rfl <;> exact ⟨htarget, hsource⟩
  | join how target source =>
      have hsource := hreserved source (by simp [Statement.registers])
      have htarget := hreserved target (by simp [Statement.registers])
      exact ⟨htarget, readable_join htarget hsource how⟩

theorem scan_renderAll {statements : List Statement} {text : String}
    (hnames : ∀ s ∈ statements, ∀ r ∈ s.registers, IsRegister r)
    (h : renderAll statements = .ok text) :
    scan [] text.toList = (statements.map Statement.command).flatMap Command.tokens := by
  induction statements generalizing text with
  | nil =>
      cases h
      rfl
  | cons s statements ih =>
      rcases renderAll_cons_eq_ok_iff.1 h with ⟨first, rest, hfirst, hrest, rfl⟩
      have hmore : ∀ t ∈ statements, ∀ r ∈ t.registers, IsRegister r := by
        intro t ht
        exact hnames t (List.mem_cons_of_mem s ht)
      calc scan [] (first ++ rest).toList
          = s.command.tokens ++ scan [] rest.toList := by
            rw [String.toList_append, scan_statement (hnames s List.mem_cons_self) hfirst]
        _ = s.command.tokens ++ (statements.map Statement.command).flatMap Command.tokens := by
            rw [ih hmore hrest]
        _ = ((s :: statements).map Statement.command).flatMap Command.tokens := by
            rw [List.map_cons, List.flatMap_cons]

/-- The text of statements is read as their commands. -/
theorem read?_renderAll {statements : List Statement} {text : String}
    (hnames : ∀ s ∈ statements, ∀ r ∈ s.registers, IsRegister r)
    (h : renderAll statements = .ok text) :
    read? text = some (statements.map Statement.command) := by
  have hreadable : ∀ c ∈ statements.map Statement.command, c.Readable := by
    intro c hc
    rcases List.mem_map.1 hc with ⟨s, hs, rfl⟩
    exact readable_command (hnames s hs)
  -- The reader may take two steps for each token, and needs no more.
  rw [read?, scan_renderAll hnames h]
  exact readCommands_tokens hreadable (Nat.lt_succ_self _)

end Shading
end SdfShader
