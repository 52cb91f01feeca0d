import SdfShader.Number.Arithmetic

/-!
# Vectors

Vectors of two and three components over any type of numbers. The operations work component by
component; sums of products are added from left to right, so that on floating-point numbers every
operation has one result.
-/

namespace SdfShader

structure Vec2 (α : Type) where
  x : α
  y : α
  deriving DecidableEq, Repr

structure Vec3 (α : Type) where
  x : α
  y : α
  z : α
  deriving DecidableEq, Repr

/-! ## Two components -/

namespace Vec2

variable {α β : Type}

def toList (v : Vec2 α) : List α :=
  [v.x, v.y]

def map (g : α → β) (v : Vec2 α) : Vec2 β :=
  ⟨g v.x, g v.y⟩

def zipWith (g : α → α → β) (v w : Vec2 α) : Vec2 β :=
  ⟨g v.x w.x, g v.y w.y⟩

def dot [Add α] [Mul α] (v w : Vec2 α) : α :=
  v.x * w.x + v.y * w.y

instance [Add α] : Add (Vec2 α) := ⟨zipWith (· + ·)⟩
instance [Sub α] : Sub (Vec2 α) := ⟨zipWith (· - ·)⟩
instance [Mul α] : HMul (Vec2 α) α (Vec2 α) := ⟨fun v s => v.map (· * s)⟩

end Vec2

/-! ## Three components -/

namespace Vec3

variable {α β : Type}

def toList (v : Vec3 α) : List α :=
  [v.x, v.y, v.z]

def map (g : α → β) (v : Vec3 α) : Vec3 β :=
  ⟨g v.x, g v.y, g v.z⟩

def zipWith (g : α → α → β) (v w : Vec3 α) : Vec3 β :=
  ⟨g v.x w.x, g v.y w.y, g v.z w.z⟩

/-- The vector with equal components. -/
def splat (a : α) : Vec3 α :=
  ⟨a, a, a⟩

def dot [Add α] [Mul α] (v w : Vec3 α) : α :=
  v.x * w.x + v.y * w.y + v.z * w.z

def cross [Sub α] [Mul α] (v w : Vec3 α) : Vec3 α :=
  ⟨v.y * w.z - w.y * v.z, v.z * w.x - w.z * v.x, v.x * w.y - w.x * v.y⟩

/-- The greatest component. -/
def greatest [Max α] (v : Vec3 α) : α :=
  max v.x (max v.y v.z)

instance [Add α] : Add (Vec3 α) := ⟨zipWith (· + ·)⟩
instance [Sub α] : Sub (Vec3 α) := ⟨zipWith (· - ·)⟩
instance [Mul α] : HMul (Vec3 α) α (Vec3 α) := ⟨fun v s => v.map (· * s)⟩

theorem mem_toList {v : Vec3 α} {a : α} : a ∈ v.toList ↔ a = v.x ∨ a = v.y ∨ a = v.z := by
  simp [toList]

end Vec3

/-! ## Length -/

section Length

variable {f : Format}

def Vec2.length (v : Vec2 (Binary f)) : Binary f :=
  (v.dot v).sqrt

def Vec3.length (v : Vec3 (Binary f)) : Binary f :=
  (v.dot v).sqrt

/-- The factor that gives a vector of this length the length one, if it is a positive number. -/
def unitScale? (length : Binary f) : Option (Binary f) :=
  let scale := 1 / length
  if scale.isFinite ∧ 0 < scale then some scale else none

/-- The vector of length one in the same direction, zero if there is none. -/
def Vec2.normalizeOrZero (v : Vec2 (Binary f)) : Vec2 (Binary f) :=
  (unitScale? v.length).elim ⟨0, 0⟩ (v * ·)

/-- The vector of length one in the same direction, zero if there is none. -/
def Vec3.normalizeOrZero (v : Vec3 (Binary f)) : Vec3 (Binary f) :=
  (unitScale? v.length).elim ⟨0, 0, 0⟩ (v * ·)

end Length
end SdfShader
