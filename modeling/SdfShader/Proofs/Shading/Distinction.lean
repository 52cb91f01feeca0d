import SdfShader.Proofs.Decimal.Notation
import SdfShader.Proofs.Shading.Scope

/-!
# Distinction — different scenes have different text

A statement can be recovered from its command, number by number and bit by bit, and a tree from its
statements: each node begins with a declaration, and what follows it ends with the statement that
hands its register on. Only how an operation joins does not show where it has nothing to join. Main
statements:

* `numberExpression_injective`: no two numbers are written alike;
* `Statement.command_injective`: no two statements stand for the same command;
* `Tree.body_eq_iff`: trees have the same statements if and only if they look the same;
* `Scene.fragment_eq_iff`: and fragments are the same text if and only if their trees look the same.
-/

namespace SdfShader

open Shading

/-! ## Numbers -/

/-- The digits before the point and behind it can be read off the text. -/
theorem Numeral.Plain.value_eq {n m : Numeral} {places digits : List Char} (hn : n.Plain)
    (hm : m.Plain) (hplaces : n.fraction = some places) (hdigits : m.fraction = some digits)
    (h : n.whole ++ '.' :: places = m.whole ++ '.' :: digits) : n.value = m.value := by
  have hpoint : ∀ {cs : List Char}, (∀ c ∈ cs, c.isDigit = true) → '.' ∉ cs := by
    intro cs hcs hmem
    exact absurd (hcs '.' hmem) (by decide)
  have hfraction : ∀ c ∈ places, c.isDigit = true := by
    simpa [hplaces] using hn.fraction
  rcases (List.append_cons_inj_of_notMem (hpoint hn.whole) (hpoint hfraction)).1 h with
    ⟨hwhole, -, hrest⟩
  simp [Numeral.value, Numeral.significand, Numeral.scale, hplaces, hdigits, hwhole, hrest,
    hn.exponent, hm.exponent]

/-- No two numbers are written alike. -/
theorem Binary.eq_of_unsignedLiteral {x y : Single} (hsign : x.negative = y.negative)
    (h : x.unsignedLiteral = y.unsignedLiteral) : x = y := by
  have hx : x.numeral.withFraction.Plain := (Scaled.plain_positional _ _).withFraction
  have hy : y.numeral.withFraction.Plain := (Scaled.plain_positional _ _).withFraction
  have htext : x.numeral.withFraction.whole ++ '.' :: x.numeral.fraction.getD ['0']
      = y.numeral.withFraction.whole ++ '.' :: y.numeral.fraction.getD ['0'] := by
    rw [← toList_unsignedLiteral, ← toList_unsignedLiteral, h]
  have hvalue : x.numeral.withFraction.value = y.numeral.withFraction.value :=
    hx.value_eq hy rfl rfl htext
  rw [Numeral.value_withFraction, Numeral.value_withFraction] at hvalue
  exact Binary.eq_of_value_numeral hsign hvalue

theorem numberExpression_injective : Function.Injective numberExpression := by
  intro x y h
  unfold numberExpression at h
  cases hx : x.negative <;> cases hy : y.negative <;> simp [hx, hy] at h
  · exact Binary.eq_of_unsignedLiteral (hx.trans hy.symm) h
  · exact Binary.eq_of_unsignedLiteral (hx.trans hy.symm) h

theorem vectorExpression_injective : Function.Injective vectorExpression := by
  intro v w h
  simp only [vectorExpression, Expression.call.injEq, List.cons.injEq, and_true, true_and] at h
  rcases h with ⟨hx, hy, hz⟩
  cases v
  cases w
  cases numberExpression_injective hx
  cases numberExpression_injective hy
  cases numberExpression_injective hz
  rfl

/-! ## Statements -/

theorem numberExpression_ne_call (x : Single) (function : String) (arguments : List Expression) :
    numberExpression x ≠ .call function arguments := by
  unfold numberExpression
  split <;> simp

theorem DistanceTerm.expression_injective : Function.Injective DistanceTerm.expression := by
  intro d e h
  rcases d with ⟨position, radius | halfExtents⟩ | value <;>
    rcases e with ⟨other, radius' | halfExtents'⟩ | value' <;>
    simp only [expression, Expression.call.injEq, List.cons.injEq, Expression.difference.injEq,
      and_true, true_and, String.reduceEq, false_and] at h
  · rw [vectorExpression_injective h.1, numberExpression_injective h.2]
  · exact absurd h.symm (numberExpression_ne_call _ _ _)
  · rw [vectorExpression_injective h.1, vectorExpression_injective h.2]
  · exact absurd h.symm (numberExpression_ne_call _ _ _)
  · exact absurd h (numberExpression_ne_call _ _ _)
  · exact absurd h (numberExpression_ne_call _ _ _)
  · rw [numberExpression_injective h]

theorem Join.expression_inj {how other : Join} {target target' source source' : String}
    (h : how.expression target source = other.expression target' source') :
    how = other ∧ target = target' ∧ source = source' := by
  cases how <;> cases other <;>
    simp only [expression, Expression.call.injEq, List.cons.injEq, Expression.member.injEq,
      and_true, true_and, reduceCtorEq, String.reduceEq, and_false] at h
  · exact ⟨rfl, h⟩
  · exact ⟨by rw [numberExpression_injective h.2.2], h.1, h.2.1⟩

/-- No two statements stand for the same command. -/
theorem Statement.command_injective : Function.Injective Statement.command := by
  intro st other h
  cases st <;> cases other <;>
    simp only [command, Command.declaration.injEq, Command.conditional.injEq,
      Command.assignment.injEq, Assignment.mk.injEq, Expression.call.injEq,
      Expression.comparison.injEq, Expression.member.injEq, List.cons.injEq, and_true, true_and,
      reduceCtorEq] at h
  case declare.declare =>
      rw [h.1, vectorExpression_injective h.2.1, DistanceTerm.expression_injective h.2.2]
  case takeCloser.takeCloser =>
      rw [h.1.1, h.1.2]
  case join.join =>
      rcases Join.expression_inj h.2 with ⟨rfl, rfl, rfl⟩
      rfl

/-! ## Trees -/

namespace Tree

mutual

/-- The tree as its text shows it: how an operation joins cannot be seen if it has no children. -/
def visible : Tree → Tree
  | shape name s => shape name s
  | operation name join children =>
    operation name (if children.isEmpty then .sharp else join) (visibleList children)

def visibleList : List Tree → List Tree
  | [] => []
  | t :: ts => t.visible :: visibleList ts

end

theorem name_visible (t : Tree) : t.visible.name = t.name := by
  cases t <;> rfl

mutual

/-- What cannot be seen makes no difference to the statements. -/
theorem statements_visible (target : String) (t : Tree) :
    t.visible.statements target = t.statements target := by
  match t with
  | .shape name s =>
      rfl
  | .operation name join [] =>
      rfl
  | .operation name join (t :: ts) =>
      have hvisible : (operation name join (t :: ts)).visible
          = operation name join (visibleList (t :: ts)) := rfl
      rw [hvisible, statements, statements, childStatements_visible name join (t :: ts)]

theorem childStatements_visible (name : String) (join : Join) (ts : List Tree) :
    childStatements name join (visibleList ts) = childStatements name join ts := by
  match ts with
  | [] =>
      rfl
  | t :: ts =>
      rw [visibleList, childStatements, childStatements, statements_visible name t, name_visible,
        childStatements_visible name join ts]

end

/-- The statements of a tree begin with a declaration. -/
theorem exists_statements_eq (target : String) (t : Tree) :
    ∃ color distance rest, t.statements target = .declare t.name color distance :: rest := by
  cases t with
  | shape name s =>
      exact ⟨_, _, _, rfl⟩
  | operation name join ts =>
      exact ⟨_, _, _, rfl⟩

mutual

/-- A tree can be read off statements that begin with its own. -/
theorem statements_append_inj {target : String} {rest more : List Statement} (t u : Tree)
    (h : t.statements target ++ rest = u.statements target ++ more) :
    t.visible = u.visible ∧ rest = more := by
  match t, u with
  | .shape name s, .shape name' s' =>
      simp only [statements, List.cons_append, List.nil_append, List.cons.injEq,
        Statement.declare.injEq, DistanceTerm.solid.injEq] at h
      rcases h with ⟨⟨rfl, hcolor, hposition, hsolid⟩, -, hrest⟩
      cases s
      cases s'
      cases hcolor
      cases hposition
      cases hsolid
      exact ⟨rfl, hrest⟩
  | .shape name s, .operation name' join' us =>
      simp [statements, opening] at h
  | .operation name join ts, .shape name' s' =>
      simp [statements, opening] at h
  | .operation name join ts, .operation name' how us =>
      simp only [statements, opening, List.cons_append, List.append_assoc, List.nil_append,
        List.cons.injEq, Statement.declare.injEq, and_true] at h
      rcases h with ⟨rfl, hchildren⟩
      exact childStatements_append_inj ts us hchildren

/-- So can its children from those of an operation, which end where its register is handed on. -/
theorem childStatements_append_inj {name target : String} {join how : Join}
    {rest more : List Statement} (ts us : List Tree)
    (h : childStatements name join ts ++ .takeCloser name target :: rest
      = childStatements name how us ++ .takeCloser name target :: more) :
    (operation name join ts).visible = (operation name how us).visible ∧ rest = more := by
  match ts, us with
  | [], [] =>
      exact ⟨rfl, (List.cons.inj h).2⟩
  | [], u :: us =>
      rcases u.exists_statements_eq name with ⟨color, distance, first, hfirst⟩
      simp [childStatements, hfirst] at h
  | t :: ts, [] =>
      rcases t.exists_statements_eq name with ⟨color, distance, first, hfirst⟩
      simp [childStatements, hfirst] at h
  | t :: ts, u :: us =>
      simp only [childStatements, List.append_assoc, List.cons_append] at h
      rcases statements_append_inj t u h with ⟨hfirst, hjoined⟩
      simp only [List.cons.injEq, Statement.join.injEq] at hjoined
      rcases hjoined with ⟨⟨rfl, -, -⟩, hmore⟩
      rcases childStatements_append_inj ts us hmore with ⟨hvisible, hrest⟩
      have hlist : visibleList ts = visibleList us := by
        simp only [visible, operation.injEq] at hvisible
        exact hvisible.2.2
      refine ⟨?_, hrest⟩
      simp only [visible, visibleList, hfirst, hlist, List.isEmpty_cons]

end

/-- Trees have the same statements if and only if they look the same. -/
theorem body_eq_iff {t u : Tree} : t.body = u.body ↔ t.visible = u.visible := by
  constructor
  · intro h
    exact (statements_append_inj t u h).1
  · intro h
    rw [body, body, ← statements_visible, ← t.name_visible, h, name_visible, statements_visible]

end Tree

/-! ## Fragments -/

namespace Scene

/-- Whatever edits have made two scenes, the fragments of two nodes are the same text if and only if
the trees below the nodes look the same: the names and the order of the children agree at every
level, and so does every shape bit by bit and every way to join children where there are any. -/
theorem fragment_eq_iff (edits others : List Edit) :
    let g := (Scene.empty.run edits).graph
    let h := (Scene.empty.run others).graph
    ∀ a < g.size, ∀ b < h.size, ∃ t u, g.tree? a = some t ∧ h.tree? b = some u ∧
      (∃ text, g.fragment a = .ok text) ∧ (∃ text, h.fragment b = .ok text) ∧
      (g.fragment a = h.fragment b ↔ t.visible = u.visible) := by
  intro g h a ha b hb
  rcases (Reachable.empty.run edits).exists_fragment ha with ⟨t, text, ht, htext, hread⟩
  rcases (Reachable.empty.run others).exists_fragment hb with ⟨u, other, hu, hother, hreads⟩
  refine ⟨t, u, ht, hu, ⟨text, htext⟩, ⟨other, hother⟩, ?_⟩
  rw [← Tree.body_eq_iff]
  constructor
  · intro heq
    -- The same text is read as the same commands.
    have hsame : text = other := by
      rw [htext, hother] at heq
      exact Except.ok.inj heq
    have hcommands : commandsOf t.body = commandsOf u.body := by
      rw [hsame, hreads] at hread
      exact (Option.some.inj hread).symm
    exact List.map_injective_iff.2 Statement.command_injective hcommands
  · intro heq
    calc g.fragment a
        = (renderAll t.body).mapError .defect := by rw [Graph.fragment, ht]
      _ = (renderAll u.body).mapError .defect := by rw [heq]
      _ = h.fragment b := by rw [Graph.fragment, hu]

/-- A white ball. -/
def ballAt (x : Single) : List Edit :=
  [.addSphere ⟨x, 0, 0⟩ 1 ⟨1, 1, 1⟩]

/-- The sign of a zero can be seen. -/
theorem fragment_ne_of_negative_zero :
    0 < (Scene.empty.run (ballAt 0)).graph.size ∧
    0 < (Scene.empty.run (ballAt (-0))).graph.size ∧
    (Scene.empty.run (ballAt 0)).graph.fragment 0
      ≠ (Scene.empty.run (ballAt (-0))).graph.fragment 0 := by
  have hplus : 0 < (Scene.empty.run (ballAt 0)).graph.size := by decide +kernel
  have hminus : 0 < (Scene.empty.run (ballAt (-0))).graph.size := by decide +kernel
  refine ⟨hplus, hminus, ?_⟩
  rcases fragment_eq_iff (ballAt 0) (ballAt (-0)) 0 hplus 0 hminus with
    ⟨t, u, ht, hu, -, -, hiff⟩
  have htree : (Scene.empty.run (ballAt 0)).graph.tree? 0
      = some (.operation "op0" .sharp [.shape "s0" ⟨⟨0, 0, 0⟩, ⟨1, 1, 1⟩, .sphere 1⟩]) := rfl
  have hother : (Scene.empty.run (ballAt (-0))).graph.tree? 0
      = some (.operation "op0" .sharp [.shape "s0" ⟨⟨-0, 0, 0⟩, ⟨1, 1, 1⟩, .sphere 1⟩]) := rfl
  cases ht.symm.trans htree
  cases hu.symm.trans hother
  intro heq
  have hvisible := hiff.1 heq
  simp only [Tree.visible, Tree.visibleList, Tree.operation.injEq, List.cons.injEq,
    Tree.shape.injEq, Shape.mk.injEq, Vec3.mk.injEq, and_true, true_and] at hvisible
  exact absurd hvisible (by decide)

end Scene
end SdfShader
