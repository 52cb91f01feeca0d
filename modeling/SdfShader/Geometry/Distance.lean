import SdfShader.Geometry.Vector

/-!
# Distance formulas

Signed distances from a point to a sphere and to a box around the origin, and the polynomial smooth
minimum of two distances. The smooth minimum is written over any type of numbers, so that it can be
run in floating point and reasoned about in exact arithmetic.
-/

namespace SdfShader

/-! ## Shapes -/

section Shapes

variable {f : Format}

def sphereDistance (p : Vec3 (Binary f)) (radius : Binary f) : Binary f :=
  p.length - radius

/-- Outside the box the distance to its nearest point, inside it minus the distance to the nearest
face. -/
def boxDistance (p halfExtents : Vec3 (Binary f)) : Binary f :=
  let q := p.map Binary.abs - halfExtents
  (q.map (max · 0)).length + min q.greatest 0

end Shapes

/-! ## Smooth minimum -/

section SmoothMin

variable {α : Type} [OfNat α 0] [OfNat α 1] [OfNat α 2] [Add α] [Sub α] [Mul α] [Div α] [Min α]
  [LT α] [LE α] [DecidableLT α] [DecidableLE α]

/-- The value cut off at 0 and at 1; what is not comparable with them stays. -/
def clampUnit (x : α) : α :=
  if x < 0 then 0 else if 1 < x then 1 else x

/-- Blends two distances that differ by less than `k`; without a positive `k` it is their minimum.
-/
def smoothMin (a b k : α) : α :=
  if k ≤ 0 then min a b
  else
    let half : α := 1 / 2
    let h := clampUnit (half + half * (b - a) / k)
    b + (a - b) * h - k * h * (1 - h)

end SmoothMin
end SdfShader
