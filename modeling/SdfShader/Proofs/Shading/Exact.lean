import SdfShader.Proofs.Geometry.SmoothMin
import SdfShader.Proofs.Number.Value
import SdfShader.Proofs.Shading.Fragment

/-!
# Exact — devices and an interpretation without rounding

A device is exact if it computes with rational numbers on the values of the numbers in a scene,
whatever the distances of the shapes are; here vectors are measured by their greatest coordinate.
Where text is run, only numerals are rounded, each to the nearest number of the format. Since
literals are exact, such an interpretation has an exact device (`exact_exactInterpretation`).
-/

namespace SdfShader

open Shading

variable {Color : Type}

/-! ## Devices -/

/-- Whether a device computes without rounding, on the values of the numbers in a scene. -/
structure Device.Exact (d : Device Color ℚ) : Prop where
  constant : ∀ x, x.isFinite = true → d.constant x = x.value
  less : ∀ x y, d.less x y = decide (x < y)
  min : ∀ x y, d.min x y = Min.min x y
  smoothMin : ∀ k x y, k.isFinite = true → d.smoothMin k x y = SdfShader.smoothMin x y k.value

theorem value_sentinelDistance : sentinelDistance.value = 1000 := by
  decide +kernel

/-- The smoothness of a join, none for a hard union. -/
def Join.smoothness : Join → ℚ
  | sharp => 0
  | smooth k => k.value

theorem Join.Accepted.smoothness_nonneg {join : Join} (h : join.Accepted) :
    0 ≤ join.smoothness := by
  cases join with
  | sharp =>
      exact le_rfl
  | smooth k =>
      exact Binary.value_nonneg_of_zero_le h.2.1

namespace Device.Exact

variable {d : Device Color ℚ}

theorem distance_background (hd : d.Exact) : d.background.distance = 1000 :=
  (hd.constant sentinelDistance rfl).trans value_sentinelDistance

/-- A join of either kind is a smooth minimum. -/
theorem join_eq (hd : d.Exact) {join : Join} (h : join.Accepted) (x y : ℚ) :
    d.join join x y = SdfShader.smoothMin x y join.smoothness := by
  cases join with
  | sharp =>
      rw [Device.join, hd.min, Join.smoothness, smoothMin_of_nonpos le_rfl]
  | smooth k =>
      exact hd.smoothMin k x y h.1

end Device.Exact

/-- Exact arithmetic at the origin, with the greatest coordinate as the length of a vector. -/
def exactDevice : Device (Vec3 Single) ℚ where
  color := id
  constant := Binary.value
  measure position
    | .sphere radius => max position.x.abs.value (max position.y.abs.value position.z.abs.value)
        - radius.value
    | .box b => max (position.x.abs.value - b.x.value)
        (max (position.y.abs.value - b.y.value) (position.z.abs.value - b.z.value))
  less x y := x < y
  min x y := min x y
  smoothMin k x y := smoothMin x y k.value

theorem exact_exactDevice : exactDevice.Exact :=
  ⟨fun _ _ => rfl, fun _ _ => rfl, fun _ _ => rfl, fun _ _ _ _ => rfl⟩

/-! ## An interpretation -/

/-- Rational numbers, with the greatest coordinate as the length of a vector. -/
def exactInterpretation : Interpretation ℚ (ℚ × ℚ × ℚ) where
  numeral text := (Json.scanNumeral text.toList).elim 0 fun read => (read.1.nearest .single).value
  negate x := -x
  vector x y z := (x, y, z)
  subtract v w := (v.1 - w.1, v.2.1 - w.2.1, v.2.2 - w.2.2)
  less x y := x < y
  min x y := min x y
  smoothMin x y k := smoothMin x y k
  sphere p radius := max |p.1| (max |p.2.1| |p.2.2|) - radius
  box p b := max (|p.1| - b.1) (max (|p.2.1| - b.2.1) (|p.2.2| - b.2.2))

/-- Every numeral is read, and rounded once. -/
theorem reads_exactInterpretation : exactInterpretation.ReadsNearest Binary.value where
  numeral text n hscan := by
    simp [exactInterpretation, hscan]
  negate x _ := (Binary.value_neg x).symm

theorem exact_exactInterpretation (p : ℚ × ℚ × ℚ) : (exactInterpretation.device p).Exact where
  constant _ finite := reads_exactInterpretation.value_eq finite
  less _ _ := rfl
  min _ _ := rfl
  smoothMin _ x y finite := congrArg (smoothMin x y) (reads_exactInterpretation.value_eq finite)

end SdfShader
