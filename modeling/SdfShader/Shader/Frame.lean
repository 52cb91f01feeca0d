import SdfShader.Geometry.Vector

/-!
# Frames

What the host sends to the shader for every frame: resolution, position of the camera and the point
it looks at. In the block's layout every member starts at a multiple of sixteen bytes.
-/

namespace SdfShader

structure Frame where
  resolution : Vec2 Single
  cameraOrigin : Vec3 Single
  lookAt : Vec3 Single
  deriving DecidableEq

namespace Frame

/-- Name of the block of uniforms in the fragment shader. -/
def blockName : String := "Frame"

/-- Names of the block's members, in the order of its layout. -/
def memberNames : List String := ["iResolution", "iCameraOrigin", "iLookAt"]

/-- The camera at the start looks at the origin from above and behind. -/
def default : Frame where
  resolution := ⟨1280, 720⟩
  cameraOrigin := ⟨3, 3, -3⟩
  lookAt := ⟨0, 0, 0⟩

instance : Inhabited Frame := ⟨default⟩

/-- All numbers of the block with the padding between its members. -/
def slots (frame : Frame) : List Single :=
  frame.resolution.toList ++ [0, 0] ++ frame.cameraOrigin.toList ++ [0]
    ++ frame.lookAt.toList ++ [0]

/-- The `count` lowest bytes of a number, the lowest one first. -/
def littleEndian : Nat → Nat → List UInt8
  | 0, _ => []
  | count + 1, n => n.toUInt8 :: littleEndian count (n / 256)

/-- The bytes of the block. -/
def bytes (frame : Frame) : List UInt8 :=
  frame.slots.flatMap fun x => littleEndian 4 x.toBits

/-- Whether all numbers have the same values. -/
def sameValues (u v : Frame) : Bool :=
  (u.slots.zip v.slots).all fun (x, y) => x.sameValue y

theorem length_littleEndian (count n : Nat) : (littleEndian count n).length = count := by
  induction count generalizing n with
  | zero => rfl
  | succ count ih => simp [littleEndian, ih]

theorem length_bytes (frame : Frame) : frame.bytes.length = 48 := by
  simp [bytes, slots, Vec2.toList, Vec3.toList, length_littleEndian]

end Frame
end SdfShader
