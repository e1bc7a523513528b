import SignedDistance.Field.Basic

set_option autoImplicit false

/-! # Surface normals

The normal of a surface is estimated from samples of its field a small step away. Four samples at
the corners of a tetrahedron are weighted by their directions and added up; where they cancel out,
differences along the three axes take over. Only where those cancel out too is the estimate zero. -/

namespace SignedDistance.Field

/-- The corners of the tetrahedron, in the order in which they are sampled. -/
def corners : List Vec3 := [⟨1, -1, -1⟩, ⟨-1, -1, 1⟩, ⟨-1, 1, -1⟩, ⟨1, 1, 1⟩]

/-- The sample step of `gradient`. -/
def defaultStep : Float32 := 1e-4

/-- The samples at the corners, each times its direction, added up from zero. -/
def cornerSum (field : Field) (p : Vec3) (step : Float32) : Vec3 :=
  corners.foldl (fun sum k => sum + k.scale (field (p + k.scale step))) .zero

/-- How much the field rises along each axis. -/
def forwardDifferences (field : Field) (p : Vec3) (step : Float32) : Vec3 :=
  let d := field p
  ⟨field (p + Vec3.scale ⟨1, 0, 0⟩ step) - d,
   field (p + Vec3.scale ⟨0, 1, 0⟩ step) - d,
   field (p + Vec3.scale ⟨0, 0, 1⟩ step) - d⟩

/-- The estimated unit normal at a point, from samples a given step away. -/
def estimate (field : Field) (p : Vec3) (step : Float32) : Vec3 :=
  let n := field.cornerSum p step
  if 0 < n.lengthSquared then n.normalize else (field.forwardDifferences p step).normalizeOrZero

/-- The estimated unit normal at a point. -/
def gradient (field : Field) (p : Vec3) : Vec3 := field.estimate p defaultStep

end SignedDistance.Field
