import SignedDistance.Geometry.Vec3

set_option autoImplicit false

/-! # Fields

A field gives the signed distance from any point to a surface: negative inside, positive outside.
Any function will do, also one that answers with infinities or NaNs; the queries in the other
modules promise their results for every field. Besides compiled scenes there are a few closed
forms, of the kind that a query is tried out on. -/

namespace SignedDistance

/-- A signed distance at every point. -/
abbrev Field := Vec3 → Float32

namespace Field

/-- The same distance everywhere. -/
def constant (c : Float32) : Field := fun _ => c

/-- An octahedron: the sum of the magnitudes of the lanes, less `c`. -/
def octahedron (c : Float32) : Field := fun p => p.x.abs + p.y.abs + p.z.abs - c

/-- A slope along the first axis. -/
def slopeX (c : Float32) : Field := fun p => c * p.x

/-- A slope along the third axis. -/
def slopeZ (c : Float32) : Field := fun p => c * p.z

/-- A slope away from height zero on both sides. -/
def slab (c : Float32) : Field := fun p => c * p.z.abs

/-- A staircase of unit steps along the third axis, raised by `c`. -/
def stairs (c : Float32) : Field := fun p => p.z.floor + c

/-- The squared distance from the origin, less `c`. -/
def paraboloid (c : Float32) : Field := fun p => p.x * p.x + p.y * p.y + p.z * p.z - c

end Field

end SignedDistance
