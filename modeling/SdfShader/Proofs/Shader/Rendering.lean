import SdfShader.Shader.Statement

/-!
# Rendering — statements with finite numbers have a text

A statement has a text as soon as all its numbers are finite, and the text of a list of statements
is put together from the texts of its members.
-/

namespace SdfShader

/-! ## Results -/

theorem bind_eq_ok_iff {ε α β : Type} {x : Except ε α} {f : α → Except ε β} {b : β} :
    (x >>= f) = .ok b ↔ ∃ a, x = .ok a ∧ f a = .ok b := by
  cases x <;> simp [bind, Except.bind]

theorem pure_eq_ok_iff {ε α : Type} {a b : α} : (pure a : Except ε α) = .ok b ↔ b = a := by
  simp [pure, Except.pure, eq_comm]

theorem mapError_eq_ok_iff {ε ε' α : Type} {f : ε → ε'} {x : Except ε α} {a : α} :
    x.mapError f = .ok a ↔ x = .ok a := by
  cases x with
  | error e =>
      have herror : (Except.error e : Except ε α).mapError f = .error (f e) := rfl
      simp [herror]
  | ok b =>
      have hok : (Except.ok b : Except ε α).mapError f = .ok b := rfl
      simp [hok]

theorem map_eq_ok_iff {ε α β : Type} {f : α → β} {x : Except ε α} {b : β} :
    x.map f = .ok b ↔ ∃ a, x = .ok a ∧ f a = b := by
  cases x <;> simp [Except.map]

/-! ## Literals -/

theorem Binary.exists_literal {x : Single} (h : x.isFinite = true) :
    ∃ text, x.literal = .ok text :=
  ⟨_, literal_eq_ok_iff.2 ⟨h, rfl⟩⟩

theorem Vec3.exists_literal {v : Vec3 Single} (h : v.isFinite = true) :
    ∃ text, v.literal = .ok text := by
  rw [isFinite, Bool.and_eq_true, Bool.and_eq_true] at h
  rcases Binary.exists_literal h.1.1 with ⟨x, hx⟩
  rcases Binary.exists_literal h.1.2 with ⟨y, hy⟩
  rcases Binary.exists_literal h.2 with ⟨z, hz⟩
  simp only [literal, bind_eq_ok_iff, pure_eq_ok_iff]
  exact ⟨_, x, hx, y, hy, z, hz, rfl⟩

/-- Only finite vectors have one. -/
theorem Vec3.isFinite_of_literal {v : Vec3 Single} {text : String} (h : v.literal = .ok text) :
    v.isFinite = true := by
  simp only [literal, bind_eq_ok_iff, pure_eq_ok_iff] at h
  rcases h with ⟨x, hx, y, hy, z, hz, -⟩
  rw [isFinite, (Binary.literal_eq_ok_iff.1 hx).1, (Binary.literal_eq_ok_iff.1 hy).1,
    (Binary.literal_eq_ok_iff.1 hz).1]
  rfl

/-! ## Statements -/

def Solid.Finite : Solid → Prop
  | .sphere radius => radius.isFinite = true
  | .box halfExtents => halfExtents.isFinite = true

def DistanceTerm.Finite : DistanceTerm → Prop
  | .solid position s => position.isFinite = true ∧ s.Finite
  | .constant value => value.isFinite = true

def Join.Finite : Join → Prop
  | .sharp => True
  | .smooth smoothness => smoothness.isFinite = true

/-- Whether all numbers of a statement are finite. -/
def Statement.Finite : Statement → Prop
  | .declare _ color distance => color.isFinite = true ∧ distance.Finite
  | .takeCloser _ _ => True
  | .join how _ _ => how.Finite

theorem DistanceTerm.exists_render {d : DistanceTerm} (h : d.Finite) :
    ∃ text, d.render = .ok text := by
  cases d with
  | constant value =>
      exact Binary.exists_literal h
  | solid position s =>
      rcases Vec3.exists_literal h.1 with ⟨center, hcenter⟩
      cases s with
      | sphere radius =>
          rcases Binary.exists_literal h.2 with ⟨r, hr⟩
          simp only [render, bind_eq_ok_iff, pure_eq_ok_iff]
          exact ⟨_, center, hcenter, r, hr, rfl⟩
      | box halfExtents =>
          rcases Vec3.exists_literal h.2 with ⟨b, hb⟩
          simp only [render, bind_eq_ok_iff, pure_eq_ok_iff]
          exact ⟨_, center, hcenter, b, hb, rfl⟩

theorem Join.exists_render {how : Join} (h : how.Finite) (target source : String) :
    ∃ text, how.render target source = .ok text := by
  cases how with
  | sharp =>
      exact ⟨_, rfl⟩
  | smooth smoothness =>
      rcases Binary.exists_literal h with ⟨k, hk⟩
      simp only [render, bind_eq_ok_iff, pure_eq_ok_iff]
      exact ⟨_, k, hk, rfl⟩

theorem Statement.exists_render {s : Statement} (h : s.Finite) : ∃ text, s.render = .ok text := by
  cases s with
  | declare register color distance =>
      rcases Vec3.exists_literal h.1 with ⟨c, hc⟩
      rcases DistanceTerm.exists_render h.2 with ⟨d, hd⟩
      simp only [render, bind_eq_ok_iff, pure_eq_ok_iff]
      exact ⟨_, d, hd, c, hc, rfl⟩
  | takeCloser source target =>
      exact ⟨_, rfl⟩
  | join how target source =>
      rcases Join.exists_render h target source with ⟨joined, hjoined⟩
      simp only [render, bind_eq_ok_iff, pure_eq_ok_iff]
      exact ⟨_, joined, hjoined, rfl⟩

/-! ## Lists of statements -/

theorem renderAll_cons_eq_ok_iff {s : Statement} {statements : List Statement} {text : String} :
    renderAll (s :: statements) = .ok text ↔
      ∃ first rest, s.render = .ok first ∧ renderAll statements = .ok rest ∧
        text = first ++ rest := by
  unfold renderAll
  rw [List.mapM_cons]
  cases s.render with
  | error d =>
      simp [bind, Except.bind, Except.map]
  | ok first =>
      cases statements.mapM Statement.render with
      | error d =>
          simp [bind, Except.bind, Except.map]
      | ok rest =>
          simp [bind, Except.bind, pure, Except.pure, Except.map, eq_comm]

theorem exists_renderAll {statements : List Statement} (h : ∀ s ∈ statements, s.Finite) :
    ∃ text, renderAll statements = .ok text := by
  induction statements with
  | nil =>
      exact ⟨"", rfl⟩
  | cons s statements ih =>
      have hmore : ∀ t ∈ statements, t.Finite := by
        intro t ht
        exact h t (List.mem_cons_of_mem s ht)
      rcases Statement.exists_render (h s List.mem_cons_self) with ⟨first, hfirst⟩
      rcases ih hmore with ⟨rest, hrest⟩
      exact ⟨_, renderAll_cons_eq_ok_iff.2 ⟨first, rest, hfirst, hrest, rfl⟩⟩

end SdfShader
