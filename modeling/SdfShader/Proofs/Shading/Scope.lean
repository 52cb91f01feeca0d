import SdfShader.Proofs.Scene.Naming
import SdfShader.Proofs.Scene.Walk
import SdfShader.Proofs.Shading.Fragment

/-!
# Scope — fragments declare what they use

Read as commands, a fragment declares one register for each node below its own, in the order of
`descendants`, and no command uses a register before it is declared.

* `Command.declared?` and `Command.names`, what a command declares and what it mentions;
* `Scoped`, the rule of scopes for a list of commands, and what it says of one command in the middle
  of the list (`Scoped.of_append_cons`);
* `Tree.declared_statements` and `Tree.scoped_statements`, both sides for the statements of a tree;
* `Scene.scoped_fragment`, for the text of a fragment.
-/

namespace SdfShader

open Shading

namespace Shading

/-! ## Names in commands -/

mutual

/-- The names that an expression mentions. -/
def Expression.names : Expression → List String
  | .number _ => []
  | .truth _ => []
  | .name register => [register]
  | .member register _ => [register]
  | .negation e => e.names
  | .call _ arguments => argumentNames arguments
  | .difference left right => left.names ++ right.names
  | .comparison left right => left.names ++ right.names

def argumentNames : List Expression → List String
  | [] => []
  | e :: es => e.names ++ argumentNames es

end

def Assignment.names (a : Assignment) : List String :=
  a.register :: a.value.names

/-- The names that a command mentions, but for one that it declares. -/
def Command.names : Command → List String
  | .declaration _ _ value => value.names
  | .assignment a => a.names
  | .conditional condition body => condition.names ++ body.flatMap Assignment.names

/-- The register that a command declares. -/
def Command.declared? : Command → Option String
  | .declaration type register _ => if type = "MaterialDist" then some register else none
  | _ => none

/-- The registers that commands declare, in their order. -/
def declaredBy (commands : List Command) : List String :=
  commands.filterMap Command.declared?

/-! ## The rule of scopes -/

/-- Whether a command may stand where the names in `scope` have been declared. What is declared gets
a value that depends on the sample point only. -/
def Command.ScopedIn (scope : List String) (c : Command) : Prop :=
  match c.declared? with
  | some _ => ∀ name ∈ c.names, name = "p"
  | none => ∀ name ∈ c.names, name ∈ scope

/-- Whether commands use nothing but what is in scope or has been declared by one before. -/
def Scoped : List String → List Command → Prop
  | _, [] => True
  | scope, c :: cs => c.ScopedIn scope ∧ Scoped (scope ++ c.declared?.toList) cs

theorem declaredBy_cons (c : Command) (cs : List Command) :
    declaredBy (c :: cs) = c.declared?.toList ++ declaredBy cs := by
  cases h : c.declared? <;> simp [declaredBy, h]

@[simp] theorem declaredBy_append (cs ds : List Command) :
    declaredBy (cs ++ ds) = declaredBy cs ++ declaredBy ds :=
  List.filterMap_append

theorem scoped_append {scope : List String} {cs ds : List Command} :
    Scoped scope (cs ++ ds) ↔ Scoped scope cs ∧ Scoped (scope ++ declaredBy cs) ds := by
  induction cs generalizing scope with
  | nil =>
      simp [Scoped, declaredBy]
  | cons c cs ih =>
      rw [List.cons_append, Scoped, Scoped, ih, declaredBy_cons, List.append_assoc, and_assoc]

/-- What the rule says of a command with others before and behind it. -/
theorem Scoped.of_append_cons {scope : List String} {before after : List Command} {c : Command}
    (h : Scoped scope (before ++ c :: after)) : c.ScopedIn (scope ++ declaredBy before) :=
  (scoped_append.1 h).2.1

end Shading

/-! ## Statements -/

@[simp] theorem names_numberExpression (x : Single) : (numberExpression x).names = [] := by
  unfold numberExpression
  split <;> rfl

@[simp] theorem names_vectorExpression (v : Vec3 Single) : (vectorExpression v).names = [] := by
  simp [vectorExpression, Expression.names, argumentNames]

theorem DistanceTerm.names_expression (d : DistanceTerm) :
    ∀ name ∈ d.expression.names, name = "p" := by
  cases d with
  | constant value =>
      simp [DistanceTerm.expression]
  | solid position s =>
      cases s <;> simp [DistanceTerm.expression, Expression.names, argumentNames]

theorem Join.names_expression (target source : String) (how : Join) :
    (how.expression target source).names = [target, source] := by
  cases how <;> simp [Join.expression, Expression.names, argumentNames]

namespace Statement

variable {scope : List String} {name source target : String}

theorem scopedIn_declare (color : Vec3 Single) (d : DistanceTerm) :
    (declare name color d).command.ScopedIn scope := by
  have hnames : ∀ n ∈ (declare name color d).command.names, n = "p" := by
    simpa [command, Command.names, Expression.names, argumentNames] using d.names_expression
  exact hnames

theorem scopedIn_takeCloser (hsource : source ∈ scope) (htarget : target ∈ scope) :
    (takeCloser source target).command.ScopedIn scope := by
  have hnames : ∀ n ∈ (takeCloser source target).command.names, n ∈ scope := by
    simp [command, Command.names, Assignment.names, Expression.names, hsource, htarget]
  exact hnames

theorem scopedIn_join (how : Join) (hsource : source ∈ scope) (htarget : target ∈ scope) :
    (join how target source).command.ScopedIn scope := by
  have hnames : ∀ n ∈ (join how target source).command.names, n ∈ scope := by
    simp [command, Command.names, Assignment.names, Join.names_expression, hsource, htarget]
  exact hnames

end Statement

/-! ## Trees -/

/-- The commands that statements stand for. -/
def commandsOf (statements : List Statement) : List Command :=
  statements.map Statement.command

@[simp] theorem commandsOf_append (ss ts : List Statement) :
    commandsOf (ss ++ ts) = commandsOf ss ++ commandsOf ts :=
  List.map_append

namespace Tree

mutual

/-- The statements of a tree declare its names, in the order of the tree. -/
theorem declared_statements (target : String) (t : Tree) :
    declaredBy (commandsOf (t.statements target)) = t.names := by
  match t with
  | .shape name s =>
      rfl
  | .operation name join ts =>
      -- The opening declares the name, the children theirs, and the rest declares nothing.
      have hopening : declaredBy (commandsOf [opening name]) = [name] := rfl
      have hclosing : declaredBy (commandsOf [.takeCloser name target]) = [] := rfl
      have hstatements : (operation name join ts).statements target
          = [opening name] ++ childStatements name join ts ++ [.takeCloser name target] := rfl
      rw [hstatements, commandsOf_append, commandsOf_append, declaredBy_append, declaredBy_append,
        hopening, hclosing, declared_childStatements name join ts, List.append_nil]
      rfl

theorem declared_childStatements (name : String) (join : Join) (ts : List Tree) :
    declaredBy (commandsOf (childStatements name join ts)) = namesList ts := by
  match ts with
  | [] =>
      rfl
  | t :: ts =>
      have hjoin : declaredBy (commandsOf (.join join name t.name :: childStatements name join ts))
          = declaredBy (commandsOf (childStatements name join ts)) := rfl
      rw [childStatements, commandsOf_append, declaredBy_append, hjoin, declared_statements name t,
        declared_childStatements name join ts, namesList]

end

mutual

/-- The statements of a tree keep to the rule of scopes where their target is in scope. -/
theorem scoped_statements {scope : List String} {target : String} (t : Tree)
    (htarget : target ∈ scope) : Scoped scope (commandsOf (t.statements target)) := by
  match t with
  | .shape name s =>
      have hdeclare : (Statement.declare name s.color
          (.solid s.position s.solid)).command.ScopedIn scope := Statement.scopedIn_declare _ _
      have htake : (Statement.takeCloser name target).command.ScopedIn (scope ++ [name]) :=
        Statement.scopedIn_takeCloser (by simp) (by simp [htarget])
      exact ⟨hdeclare, htake, trivial⟩
  | .operation name join ts =>
      have hopening : (opening name).command.ScopedIn scope := Statement.scopedIn_declare _ _
      have hchildren : Scoped (scope ++ [name]) (commandsOf (childStatements name join ts)) :=
        scoped_childStatements join ts (by simp)
      have hclosing : (Statement.takeCloser name target).command.ScopedIn
          (scope ++ [name] ++ namesList ts) :=
        Statement.scopedIn_takeCloser (by simp) (by simp [htarget])
      have hstatements : (operation name join ts).statements target
          = [opening name] ++ (childStatements name join ts ++ [.takeCloser name target]) := rfl
      rw [hstatements, commandsOf_append, commandsOf_append, scoped_append, scoped_append,
        declared_childStatements]
      exact ⟨⟨hopening, trivial⟩, hchildren, hclosing, trivial⟩

theorem scoped_childStatements {scope : List String} {name : String} (join : Join)
    (ts : List Tree) (hname : name ∈ scope) :
    Scoped scope (commandsOf (childStatements name join ts)) := by
  match ts with
  | [] =>
      trivial
  | t :: ts =>
      rw [childStatements, commandsOf_append, scoped_append, declared_statements]
      have hjoin : (Statement.join join name t.name).command.ScopedIn (scope ++ t.names) :=
        Statement.scopedIn_join join (by simp [t.name_mem_names]) (by simp [hname])
      have hrest : Scoped (scope ++ t.names ++ []) (commandsOf (childStatements name join ts)) :=
        scoped_childStatements join ts (by simp [hname])
      exact ⟨scoped_statements t hname, hjoin, hrest⟩

end

theorem declared_body (t : Tree) : declaredBy (commandsOf t.body) = t.names := by
  rw [body, commandsOf_append, declaredBy_append, declared_statements]
  exact List.append_nil _

/-- Where the body begins, the result is in scope. -/
theorem scoped_body (t : Tree) : Scoped [resultRegister] (commandsOf t.body) := by
  rw [body, commandsOf_append, scoped_append, declared_statements]
  have hjoin : (Statement.join .sharp resultRegister t.name).command.ScopedIn
      ([resultRegister] ++ t.names) :=
    Statement.scopedIn_join .sharp (by simp [t.name_mem_names]) (by simp)
  exact ⟨t.scoped_statements (by simp), hjoin, trivial⟩

end Tree

/-! ## Names that may be declared -/

theorem hasDoubleUnderscore_of_notMem {cs : List Char} (h : '_' ∉ cs) :
    hasDoubleUnderscore cs = false := by
  induction cs with
  | nil =>
      rfl
  | cons c cs ih =>
      have hc : c ≠ '_' := fun heq => h (heq ▸ List.mem_cons_self)
      have hcs : '_' ∉ cs := fun hmem => h (List.mem_cons_of_mem c hmem)
      rw [hasDoubleUnderscore, ih hcs]
      intro rest heq
      exact absurd heq hc

/-- Every name that a scene gives may be declared. -/
theorem IsNodeName.isRegisterName_eq_true {name : String} (h : IsNodeName name) :
    isRegisterName name = true := by
  have hdeclared : name ∉ declaredNames := h.notMem_of_not_startsLikeNode (by decide)
  rcases h with ⟨kind, number, rfl⟩
  rcases isWord_name kind number with ⟨first, rest, hword, hstart, hpart⟩
  have hdigits : ∀ c ∈ Nat.toDigits 10 number, c.isDigit = true := fun c hc =>
    isDigit_of_mem_toDigits hc
  -- A stem of one or two letters, then digits: no underscore, and no `g` in front.
  have hunderscore : '_' ∉ (kind.stem ++ toString number).toList := by
    intro hmem
    have hnone : '_' ∉ Nat.toDigits 10 number := fun hc => absurd (hdigits _ hc) (by decide)
    cases kind <;> simp [NodeKind.stem, shapeStem, operationStem, hnone] at hmem
  have hprefix : "gl_".toList.isPrefixOf (kind.stem ++ toString number).toList = false := by
    cases kind <;> simp [NodeKind.stem, shapeStem, operationStem, List.isPrefixOf]
  have hall : (first :: rest).all isNamePart = true := by
    rw [List.all_cons, isNamePart_of_isNameStart hstart, Bool.true_and, List.all_eq_true]
    exact hpart
  have hhead : (first :: rest).head?.any isNameStart = true := by
    simp [hstart]
  rw [isRegisterName, hasDoubleUnderscore_of_notMem hunderscore, hprefix]
  rw [hword, hhead, hall]
  simpa using hdeclared

/-! ## Fragments -/

namespace Scene

variable {s : Scene} {id : NodeId}

/-- The fragment of a known node is the text of its tree, which can be read. -/
theorem Reachable.exists_fragment (h : s.Reachable) (known : id < s.graph.size) :
    ∃ t text, s.graph.tree? id = some t ∧ s.graph.fragment id = .ok text ∧
      read? text = some (commandsOf t.body) := by
  rcases h.forest.tree?_isSome id known with ⟨t, ht⟩
  have hsound : ∀ st ∈ t.body, st.Sound := h.sound_body known ht
  rcases exists_renderAll fun st hst => (hsound st hst).finite with ⟨text, htext⟩
  refine ⟨t, text, ht, ?_, read?_renderAll (fun st hst => (hsound st hst).registers) htext⟩
  simp [Graph.fragment, ht, mapError_eq_ok_iff, htext]

/-- Whatever edits have made the scene, the text of every fragment can be read; it declares the
names of the node and of all below it, in the order of `descendants`, each of them once and none
that is reserved or declared by `map`; and what is not a declaration mentions only the result and
registers declared before. Among all nodes, attached or not, names are given in order, one to each
node: a refused edit takes none, a name leads back to its node, and name and label stay for the rest
of the run. -/
theorem scoped_fragment (edits : List Edit) :
    let s := Scene.empty.run edits
    let g := s.graph
    (∀ id < g.size, ∃ text commands,
      g.fragment id = .ok text ∧ read? text = some commands ∧
      declaredBy commands = (g.descendants id).map g.nameOf ∧
      (declaredBy commands).Nodup ∧
      (∀ name ∈ declaredBy commands,
        isRegisterName name = true ∧ name ≠ "p" ∧ name ≠ resultRegister) ∧
      ∀ before c after, commands = before ++ c :: after →
        c.ScopedIn (resultRegister :: declaredBy before)) ∧
    (∀ id n, g.node? id = some n → g.find? n.name = some id) ∧
    (∀ id n, g.node? id = some n → n.name = n.kind.stem ++ toString (g.countBefore n.kind id)) ∧
    (∀ e cause, s.apply e = .error cause → s.step e = s) ∧
    ∀ id n, g.node? id = some n → ∀ more, ∃ m,
      (Scene.empty.run (edits ++ more)).graph.node? id = some m ∧
        m.name = n.name ∧ m.kind.label = n.kind.label := by
  intro s g
  have h : s.Reachable := Reachable.empty.run edits
  refine ⟨?_, fun _ _ hn => h.find?_eq hn, h.numbered.name, ?_, ?_⟩
  · intro id known
    rcases h.exists_fragment known with ⟨t, text, ht, hfragment, hread⟩
    have hdescendants : (g.descendants id).map g.nameOf = t.names := by
      rw [h.forest.descendants_eq_subtree known, h.forest.names_tree? id known t ht]
    rcases h.nodup_names known ht with ⟨hnodup, hresult⟩
    have hnode : ∀ name ∈ t.names, IsNodeName name := by
      intro name hname
      rw [h.forest.names_tree? id known t ht] at hname
      rcases List.mem_map.1 hname with ⟨a, ha, rfl⟩
      rcases Graph.exists_node?_iff.2 (h.forest.lt_size_of_mem_subtree known ha) with ⟨n, hn⟩
      rw [Graph.nameOf_of_node? hn]
      exact h.isNodeName hn
    refine ⟨text, commandsOf t.body, hfragment, hread, ?_, ?_, ?_, ?_⟩
    · rw [t.declared_body, hdescendants]
    · rwa [t.declared_body]
    · rw [t.declared_body]
      intro name hname
      exact ⟨(hnode name hname).isRegisterName_eq_true, (hnode name hname).isRegister.ne_point,
        hresult name hname⟩
    · intro before c after hsplit
      have hscoped := t.scoped_body
      rw [hsplit] at hscoped
      exact hscoped.of_append_cons
  · intro e cause he
    simp [step, he]
  · intro id n hn more
    have htitle := title?_run more (Graph.lt_size_of_node? hn)
    have hrun : (Scene.empty.run (edits ++ more)) = s.run more := by
      simp [s, run]
    rw [Graph.title?, Graph.title?, hn, Option.map_some] at htitle
    rcases Option.map_eq_some_iff.1 htitle with ⟨m, hm, heq⟩
    exact ⟨m, by rw [hrun, hm], congrArg Prod.fst heq, congrArg Prod.snd heq⟩

end Scene
end SdfShader
