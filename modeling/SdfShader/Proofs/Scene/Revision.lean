import SdfShader.Proofs.Scene.Naming
import SdfShader.Scene.Fragment

/-!
# Revision — the revision of a scene counts its changes

Every change of a scene raises the revision by one, and an edit that is refused or has nothing to do
leaves the whole scene as it is. So along a run of edits the revision never falls, and a scene that
still has its old revision is still the old scene. `Scene.Counts` tells the two kinds of edits apart,
and `Scene.revision_identifies_scene` is the law for any two moments of one run.
`Scene.counters_fit` says how long counters of a fixed width do the same as natural numbers.
-/

namespace SdfShader
namespace Scene

variable {s t : Scene}

theorem revision_foldl_attach {g : Graph} {parent : NodeId} (ids : List NodeId) :
    (ids.foldl (·.attach parent ·) g).revision = g.revision := by
  induction ids generalizing g with
  | nil =>
      rfl
  | cons c ids ih =>
      rw [List.foldl_cons, ih, Graph.revision_attach]

theorem Change.revision_eq (h : Change s t) : t.graph.revision = s.graph.revision + 1 := by
  cases h with
  | shape _ =>
      rfl
  | operation _ =>
      rfl
  | move _ _ _ =>
      rw [Graph.revision_bump, revision_foldl_attach]
  | detach _ =>
      rw [Graph.revision_bump, Graph.revision_unlink]
  | retune _ _ =>
      rw [Graph.revision_bump, Graph.revision_modify]

/-! ## One edit -/

/-- Whether an edit is accepted and asks for something that is not there already. -/
def Counts (s : Scene) (e : Edit) : Prop :=
  (∃ r, s.apply e = .ok r) ∧ ¬ s.Idle e

theorem revision_step_of_counts {e : Edit} (h : s.Counts e) :
    (s.step e).graph.revision = s.graph.revision + 1 := by
  rcases h with ⟨⟨r, hr⟩, hidle⟩
  rw [step_of_apply_eq_ok hr]
  rcases outcome_apply hr with ⟨hnothing, _⟩ | ⟨_, hchange⟩
  · exact absurd hnothing hidle
  · exact hchange.revision_eq

/-- An edit that is refused or asks for what is there already leaves the whole scene as it is. -/
theorem step_of_not_counts {e : Edit} (h : ¬ s.Counts e) : s.step e = s := by
  cases hr : s.apply e with
  | error cause =>
      exact step_of_apply_eq_error hr
  | ok r =>
      rw [step_of_apply_eq_ok hr]
      rcases outcome_apply hr with ⟨_, hsame⟩ | ⟨hidle, _⟩
      · exact hsame
      · exact absurd ⟨⟨r, hr⟩, hidle⟩ h

/-- An edit does nothing at all or counts as one change. -/
theorem step_eq_or_revision_eq (s : Scene) (e : Edit) :
    s.step e = s ∨ (s.step e).graph.revision = s.graph.revision + 1 := by
  rcases s.step_eq_or_change e with heq | hchange
  · exact .inl heq
  · exact .inr hchange.revision_eq

theorem revision_le_step (s : Scene) (e : Edit) :
    s.graph.revision ≤ (s.step e).graph.revision := by
  rcases s.step_eq_or_revision_eq e with heq | hnext
  · have hkept : (s.step e).graph.revision = s.graph.revision := by rw [heq]
    exact Nat.le_of_eq hkept.symm
  · rw [hnext]
    exact Nat.le_succ _

theorem revision_step_le (s : Scene) (e : Edit) :
    (s.step e).graph.revision ≤ s.graph.revision + 1 := by
  rcases s.step_eq_or_revision_eq e with heq | hnext
  · rw [heq]
    exact Nat.le_succ _
  · exact Nat.le_of_eq hnext

/-- A scene that kept its revision has not changed. -/
theorem step_eq_of_revision_eq {e : Edit} (h : (s.step e).graph.revision = s.graph.revision) :
    s.step e = s := by
  rcases s.step_eq_or_revision_eq e with heq | hnext
  · exact heq
  · exact absurd (hnext.symm.trans h) (Nat.succ_ne_self _)

/-! ## Runs -/

theorem run_append (s : Scene) (edits edits' : List Edit) :
    s.run (edits ++ edits') = (s.run edits).run edits' :=
  List.foldl_append

/-- What no edit lowers, and no edit raises by more than one, a run does not lower and raises by no
more than one for each edit. -/
theorem run_mem_of_step {count : Scene → Nat}
    (hstep : ∀ s e, count s ≤ count (s.step e) ∧ count (s.step e) ≤ count s + 1)
    (s : Scene) (edits : List Edit) :
    count s ≤ count (s.run edits) ∧ count (s.run edits) ≤ count s + edits.length := by
  induction edits generalizing s with
  | nil =>
      exact ⟨Nat.le_refl _, Nat.le_refl _⟩
  | cons e edits ih =>
      have hrun : s.run (e :: edits) = (s.step e).run edits := rfl
      rcases hstep s e with ⟨hkept, hraised⟩
      rcases ih (s.step e) with ⟨hlow, hhigh⟩
      rw [hrun, List.length_cons]
      exact ⟨Nat.le_trans hkept hlow, by omega⟩

theorem revision_run_mem (s : Scene) (edits : List Edit) :
    s.graph.revision ≤ (s.run edits).graph.revision ∧
      (s.run edits).graph.revision ≤ s.graph.revision + edits.length :=
  run_mem_of_step (fun s e => ⟨s.revision_le_step e, s.revision_step_le e⟩) s edits

/-- A run that ends at the revision it began with has done nothing. -/
theorem run_eq_of_revision_eq {edits : List Edit}
    (h : (s.run edits).graph.revision = s.graph.revision) : s.run edits = s := by
  induction edits generalizing s with
  | nil =>
      rfl
  | cons e edits ih =>
      have hend : ((s.step e).run edits).graph.revision = s.graph.revision := h
      -- The revision after the first edit lies between the two ends, which are equal.
      have hfirst : (s.step e).graph.revision = s.graph.revision :=
        Nat.le_antisymm (hend ▸ (revision_run_mem (s.step e) edits).1) (s.revision_le_step e)
      have hsame : s.step e = s := step_eq_of_revision_eq hfirst
      have hrest : (s.step e).run edits = s.step e := ih (hend.trans hfirst.symm)
      exact hrest.trans hsame

/-- A later moment of a run, from an earlier one on. -/
theorem run_take_of_le (s : Scene) (edits : List Edit) {i j : Nat} (h : i ≤ j) :
    s.run (edits.take j) = (s.run (edits.take i)).run ((edits.drop i).take (j - i)) := by
  rw [← run_append, ← List.take_add, Nat.add_sub_cancel' h]

theorem run_take_succ (s : Scene) {edits : List Edit} {i : Nat} {e : Edit}
    (h : edits[i]? = some e) :
    s.run (edits.take (i + 1)) = (s.run (edits.take i)).step e := by
  rw [List.take_add_one, run_append, h]
  rfl

/-- Along every run of edits a counter of 64 bits is enough for the revision, as long as there are
fewer edits than it has values, and the revision identifies the scene: two moments with the same
revision have the same scene, hence the same fragments. The revision never falls, it rises by one
with every edit that counts, and any other edit leaves the whole scene as it is. -/
theorem revision_identifies_scene (edits : List Edit) :
    let moment (i : Nat) := Scene.empty.run (edits.take i)
    (∀ i j, (moment i).graph.revision = (moment j).graph.revision →
      moment i = moment j ∧ ∀ id, (moment i).graph.fragment id = (moment j).graph.fragment id) ∧
    (∀ i j, i ≤ j → (moment i).graph.revision ≤ (moment j).graph.revision ∧
      (moment j).graph.revision ≤ (moment i).graph.revision + (j - i)) ∧
    (edits.length < UInt64.size → ∀ i, (moment i).graph.revision < UInt64.size) ∧
    (∀ i e, edits[i]? = some e → (moment i).Counts e →
      (moment (i + 1)).graph.revision = (moment i).graph.revision + 1) ∧
    ∀ i e, edits[i]? = some e → ¬ (moment i).Counts e → moment (i + 1) = moment i := by
  intro moment
  have hlater : ∀ i j, i ≤ j →
      moment j = (moment i).run ((edits.drop i).take (j - i)) := fun _ _ =>
    run_take_of_le empty edits
  have hsame : ∀ i j, i ≤ j → (moment i).graph.revision = (moment j).graph.revision →
      moment i = moment j := by
    intro i j hij hrevision
    rw [hlater i j hij] at hrevision ⊢
    exact (run_eq_of_revision_eq hrevision.symm).symm
  refine ⟨?_, ?_, ?_, ?_, ?_⟩
  · intro i j hrevision
    have hscene : moment i = moment j := by
      rcases Nat.le_total i j with hij | hji
      · exact hsame i j hij hrevision
      · exact (hsame j i hji hrevision.symm).symm
    exact ⟨hscene, fun id => by rw [hscene]⟩
  · intro i j hij
    have hlength : ((edits.drop i).take (j - i)).length ≤ j - i := List.length_take_le _ _
    rcases revision_run_mem (moment i) ((edits.drop i).take (j - i)) with ⟨hlow, hhigh⟩
    rw [hlater i j hij]
    exact ⟨hlow, Nat.le_trans hhigh (Nat.add_le_add_left hlength _)⟩
  · intro hfewer i
    have hbound : (moment i).graph.revision ≤ 0 + (edits.take i).length :=
      (revision_run_mem empty (edits.take i)).2
    have hlength : (edits.take i).length ≤ edits.length := List.length_take_le' _ _
    omega
  · intro i e he hcounts
    rw [show moment (i + 1) = (moment i).step e from run_take_succ empty he]
    exact revision_step_of_counts hcounts
  · intro i e he hcounts
    rw [show moment (i + 1) = (moment i).step e from run_take_succ empty he]
    exact step_of_not_counts hcounts

/-! ## Widths of counters -/

theorem size_le_step (s : Scene) (e : Edit) : s.graph.size ≤ (s.step e).graph.size := by
  rcases s.step_eq_or_change e with heq | hchange
  · have hkept : (s.step e).graph.size = s.graph.size := by rw [heq]
    exact Nat.le_of_eq hkept.symm
  · exact hchange.size_le

/-- No edit makes more than one node. -/
theorem size_step_le (s : Scene) (e : Edit) : (s.step e).graph.size ≤ s.graph.size + 1 := by
  rcases s.step_eq_or_change e with heq | hchange
  · rw [heq]
    exact Nat.le_succ _
  · rcases hchange.creation with ⟨hsize, _⟩ | ⟨hsize, _⟩
    · rw [hsize]
      exact Nat.le_succ _
    · exact Nat.le_of_eq hsize

theorem size_run_mem (s : Scene) (edits : List Edit) :
    s.graph.size ≤ (s.run edits).graph.size ∧
      (s.run edits).graph.size ≤ s.graph.size + edits.length :=
  run_mem_of_step (fun s e => ⟨s.size_le_step e, s.size_step_le e⟩) s edits

/-- A counter of names counts nodes. -/
theorem Reachable.counter_le_size (h : Reachable s) (kind : NodeKind) :
    s.counter kind ≤ s.graph.size := by
  have hcount : s.graph.countBefore kind s.graph.size ≤ (List.range s.graph.size).length :=
    List.countP_le_length
  rwa [← h.numbered.counter, List.length_range] at hcount

/-- With fewer than `2 ^ 32` nodes and `2 ^ 64` edits no counter leaves its width at any moment of a
run: 32 bits for ids and for the counters of names, 64 bits for the revision. There are no more
nodes than edits, the root apart. -/
theorem counters_fit (edits : List Edit)
    (nodes : (Scene.empty.run edits).graph.size < UInt32.size)
    (changes : edits.length < UInt64.size) (i : Nat) :
    let s := Scene.empty.run (edits.take i)
    (∀ id, id ≤ s.graph.size → id < UInt32.size) ∧ (∀ kind, s.counter kind < UInt32.size) ∧
      s.graph.revision < UInt64.size ∧ s.graph.size ≤ edits.length + 1 := by
  intro s
  have h : s.Reachable := Reachable.empty.run _
  -- The rest of the run takes no node away.
  have hrest : Scene.empty.run edits = s.run (edits.drop i) := by
    rw [← run_append, List.take_append_drop]
  have hsize : s.graph.size < UInt32.size := by
    rw [hrest] at nodes
    exact Nat.lt_of_le_of_lt (s.size_run_mem _).1 nodes
  have hlength : (edits.take i).length ≤ edits.length := List.length_take_le' _ _
  have hrevision : s.graph.revision ≤ 0 + (edits.take i).length :=
    (revision_run_mem Scene.empty _).2
  have hedits : s.graph.size ≤ 1 + (edits.take i).length := (size_run_mem Scene.empty _).2
  refine ⟨fun id hid => Nat.lt_of_le_of_lt hid hsize, fun kind => ?_, by omega, by omega⟩
  exact Nat.lt_of_le_of_lt (h.counter_le_size kind) hsize

end Scene
end SdfShader
