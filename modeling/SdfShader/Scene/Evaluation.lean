import SdfShader.Scene.Fragment
import SdfShader.Shader.Execution

/-!
# Evaluation of trees

What a tree gives at a sample point, without registers: a shape gives its color and its distance,
an operation starts from black at the sentinel distance and takes in one child after the other.
Main statement: the body that is generated for a tree leaves the tree's sample, taken in, in the
result. All that it needs is that no name is used twice; then the block of a node touches no
registers but its own and that of its owner.
-/

namespace SdfShader

variable {Color Distance : Type}

/-- Takes in a sample: color and lighting if it is nearer than what has been taken in so far, and
its distance joined to the others. -/
def Device.takeIn (d : Device Color Distance) (how : Join) (source target : Sample Color Distance) :
    Sample Color Distance :=
  d.joinDistance how source (d.takeCloser source target)

/-- What an operation without children gives. -/
def Device.background (d : Device Color Distance) : Sample Color Distance :=
  ⟨d.color (.splat 0), true, d.constant sentinelDistance⟩

namespace Tree

mutual

/-- What a tree gives at the sample point. -/
def sample (d : Device Color Distance) : Tree → Sample Color Distance
  | shape _ s => ⟨d.color s.color, true, d.measure s.position s.solid⟩
  | operation _ join children => collect d join children d.background

/-- Takes in the samples of the trees, from the first to the last. -/
def collect (d : Device Color Distance) (join : Join) :
    List Tree → Sample Color Distance → Sample Color Distance
  | [], s => s
  | t :: ts, s => collect d join ts (d.takeIn join (t.sample d) s)

end

/-! ## Running a block -/

section Block

variable {d : Device Color Distance}

mutual

/-- The block of a tree leaves the tree's sample in the register of its own name, and color and
lighting in that of the owner; other registers stay as they are. -/
theorem runAll?_statements {r : Registers Color Distance} {target : String}
    {s : Sample Color Distance} (t : Tree) (owner : r target = some s)
    (fresh : ∀ n ∈ t.names, r n = none) (nodup : t.names.Nodup) :
    ∃ after, runAll? d r (t.statements target) = some after
      ∧ after t.name = some (t.sample d)
      ∧ after target = some (d.takeCloser (t.sample d) s)
      ∧ ∀ n, n ∉ t.names → n ≠ target → after n = r n := by
  have target_notMem : target ∉ t.names := fun h => by simp [fresh target h] at owner
  match t with
  | .shape name figure =>
    -- The shape declares its register, then the owner takes from it what is nearer.
    have name_ne : name ≠ target := by simp_all [names, eq_comm]
    have declared := run?_declare (d := d) (fresh name (by simp [names])) figure.color
      (.solid figure.position figure.solid)
    have own : (r.set name ((shape name figure).sample d)) name = _ := Registers.set_self
    have untouched : (r.set name ((shape name figure).sample d)) target = some s :=
      (Registers.set_of_ne name_ne.symm).trans owner
    have merged := run?_takeCloser (d := d) own untouched
    have block : runAll? d r (statements target (shape name figure)) = some _ :=
      (runAll?_cons declared _).trans (runAll?_cons merged [])
    refine ⟨_, block, ?_, Registers.set_self, ?_⟩
    · exact (Registers.set_of_ne name_ne).trans own
    · intro n hn hne
      rw [Registers.set_of_ne hne, Registers.set_of_ne (by simpa [names] using hn)]
  | .operation name join children =>
    -- The register is declared first, so the children find in it the background to start from.
    have name_ne : name ≠ target := by simp_all [names, eq_comm]
    have ⟨name_notMem, nodup⟩ := List.nodup_cons.1 nodup
    have declared := run?_declare (d := d) (fresh name (by simp [names])) (.splat 0)
      (.constant sentinelDistance)
    have children_fresh : ∀ n ∈ namesList children, (r.set name d.background) n = none := by
      intro n hn
      rw [Registers.set_of_ne (ne_of_mem_of_not_mem hn name_notMem)]
      exact fresh n (by simp [names, hn])
    obtain ⟨after, block, own, outside⟩ :=
      runAll?_childStatements join children Registers.set_self children_fresh nodup
    have untouched : after target = some s := by
      rw [outside target (by simp_all [names]) name_ne.symm, Registers.set_of_ne name_ne.symm,
        owner]
    have merged := run?_takeCloser (d := d) own untouched
    have whole : runAll? d r (statements target (operation name join children)) = some _ :=
      (runAll?_append ((runAll?_cons declared _).trans block) _).trans (runAll?_cons merged [])
    refine ⟨_, whole, ?_, Registers.set_self, ?_⟩
    · exact (Registers.set_of_ne name_ne).trans own
    · intro n hn hne
      have ⟨n_ne, hn⟩ := not_or.1 (mt List.mem_cons.2 hn)
      rw [Registers.set_of_ne hne, outside n hn n_ne, Registers.set_of_ne n_ne]

/-- The blocks of the children leave in the register of the operation what it collects. -/
theorem runAll?_childStatements {r : Registers Color Distance} {name : String}
    {s : Sample Color Distance} (join : Join) (ts : List Tree) (own : r name = some s)
    (fresh : ∀ n ∈ namesList ts, r n = none) (nodup : (namesList ts).Nodup) :
    ∃ after, runAll? d r (childStatements name join ts) = some after
      ∧ after name = some (collect d join ts s)
      ∧ ∀ n, n ∉ namesList ts → n ≠ name → after n = r n := by
  match ts with
  | [] => exact ⟨r, runAll?_nil, own, fun _ _ _ => rfl⟩
  | t :: ts =>
    have ⟨nodup_t, nodup_ts, disjoint⟩ := List.nodup_append.1 nodup
    -- The first child leaves its sample and its color, then its distance is joined.
    obtain ⟨r₁, block, child, merged, outside₁⟩ :=
      runAll?_statements t own (fun n hn => fresh n (by simp [namesList, hn])) nodup_t
    have joined := run?_join (d := d) join child merged
    -- No name of the other children has been declared by then.
    have fresh₂ : ∀ n ∈ namesList ts, (r₁.set name (d.takeIn join (t.sample d) s)) n = none := by
      intro n hn
      have n_fresh : r n = none := fresh n (by simp [namesList, hn])
      have n_ne : n ≠ name := fun h => by simp [h, own] at n_fresh
      rw [Registers.set_of_ne n_ne, outside₁ n (fun h => disjoint n h n hn rfl) n_ne, n_fresh]
    obtain ⟨r₂, blocks, collected, outside₂⟩ :=
      runAll?_childStatements join ts Registers.set_self fresh₂ nodup_ts
    refine ⟨r₂, ?_, collected, ?_⟩
    · rw [childStatements, runAll?_append block, runAll?_cons joined]
      exact blocks
    · intro n hn n_ne
      have ⟨hn₁, hn₂⟩ := not_or.1 (mt List.mem_append.2 hn)
      rw [outside₂ n hn₂ n_ne, Registers.set_of_ne n_ne, outside₁ n hn₁ n_ne]

end

/-- The body leaves the tree's sample in the register of its own name and takes it into the
result. -/
theorem runAll?_body {r : Registers Color Distance} {s : Sample Color Distance} (t : Tree)
    (result : r resultRegister = some s)
    (fresh : ∀ n ∈ t.names, r n = none) (nodup : t.names.Nodup) :
    ∃ after, runAll? d r t.body = some after
      ∧ after t.name = some (t.sample d)
      ∧ after resultRegister = some (d.takeIn .sharp (t.sample d) s) := by
  obtain ⟨after, block, own, merged, _⟩ := runAll?_statements (d := d) t result fresh nodup
  have name_ne : t.name ≠ resultRegister := fun h => by
    simp [← h, fresh t.name t.name_mem_names] at result
  refine ⟨after.set resultRegister (d.takeIn .sharp (t.sample d) s), ?_, ?_, Registers.set_self⟩
  · rw [body, runAll?_append block, runAll?_cons (run?_join .sharp own merged), runAll?_nil]
    rfl
  · rw [Registers.set_of_ne name_ne, own]

end Block

end Tree
end SdfShader
