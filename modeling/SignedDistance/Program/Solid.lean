import SignedDistance.Geometry.Vec3
import SignedDistance.Program.Opcode

set_option autoImplicit false

/-! # Solids

The primitive shapes, centred at the origin of their own frame with the third axis up, and the
signed distance from a point to each: negative inside, positive outside. Sizes are radii and half
extents. A solid of revolution is measured in the half-plane of the distance from its axis and the
height. -/

namespace SignedDistance

/-- A primitive shape with its numbers. -/
inductive Solid where
  | sphere (radius : Float32)
  | ellipsoid (radii : Vec3)
  | box (halfExtents : Vec3)
  /-- A ring around the third axis. -/
  | torus (major minor : Float32)
  | cylinder (radius halfHeight : Float32)
  /-- A cone with its apex on top. -/
  | cone (radius halfHeight : Float32)
  /-- A cone cut off below its apex. -/
  | coninder (bottom top halfHeight : Float32)
  /-- The half-space behind a plane through the origin. -/
  | plane (normal : Vec3)

namespace Solid

def opcode : Solid → Opcode
  | .sphere _ => .sphere
  | .ellipsoid _ => .ellipsoid
  | .box _ => .box
  | .torus _ _ => .torus
  | .cylinder _ _ => .cylinder
  | .cone _ _ => .cone
  | .coninder _ _ _ => .coninder
  | .plane _ => .plane

@[simp] theorem operands_opcode (s : Solid) : s.opcode.operands = 0 := by
  cases s <;> rfl

@[simp] theorem isLeaf_opcode (s : Solid) : s.opcode.isLeaf = true := by
  cases s <;> rfl

/-- The numbers of a solid in the order of the word stream. -/
def immediates : Solid → List Float32
  | .sphere radius => [radius]
  | .ellipsoid r => [r.x, r.y, r.z]
  | .box h => [h.x, h.y, h.z]
  | .torus major minor => [major, minor]
  | .cylinder radius halfHeight => [radius, halfHeight]
  | .cone radius halfHeight => [radius, halfHeight]
  | .coninder bottom top halfHeight => [bottom, top, halfHeight]
  | .plane n => [n.x, n.y, n.z]

/-! ## Distances -/

/-- Distance from the third axis, and height. -/
def profile (p : Vec3) : Vec2 := ⟨(Vec2.mk p.x p.y).length, p.z⟩

/-- A bound rather than a distance; at the centre, where the bound is undefined, the least radius. -/
def ellipsoidDistance (p radii : Vec3) : Float32 :=
  let k0 := (p / radii).length
  let k1 := (p / (radii * radii)).length
  if k1 == 0 then -radii.leastLane else k0 * (k0 - 1) / k1

def boxDistance (p halfExtents : Vec3) : Float32 :=
  let q := p.abs - halfExtents
  q.atLeastZero.length + Single.least q.greatestLane 0

def torusDistance (p : Vec3) (major minor : Float32) : Float32 :=
  let q := profile p
  (Vec2.mk (q.x - major) q.y).length - minor

def cylinderDistance (p : Vec3) (radius halfHeight : Float32) : Float32 :=
  let d := (profile p).abs - ⟨radius, halfHeight⟩
  Single.least d.greatestLane 0 + d.atLeastZero.length

/-- The distance to a capped cone with radius `r1` at the bottom and `r2` at the top: the lesser
    distance to its caps and to its slope. -/
def cappedConeDistance (p : Vec3) (r1 r2 h : Float32) : Float32 :=
  let q := profile p
  let k1 : Vec2 := ⟨r2, h⟩
  let k2 : Vec2 := ⟨r2 - r1, 2 * h⟩
  let capRadius := if q.y < 0 then r1 else r2
  let ca : Vec2 := ⟨q.x - Single.least q.x capRadius, q.y.abs - h⟩
  let cb := q - k1 + k2.scale (Single.clamp 0 1 ((k1 - q).dot k2 / k2.lengthSquared))
  let sign : Float32 := if cb.x < 0 && ca.y < 0 then -1 else 1
  sign * (Single.least ca.lengthSquared cb.lengthSquared).sqrt

/-- The signed distance from a point to a solid, in the solid's own frame. -/
def distance (solid : Solid) (p : Vec3) : Float32 :=
  match solid with
  | .sphere radius => p.length - radius
  | .ellipsoid radii => ellipsoidDistance p radii
  | .box halfExtents => boxDistance p halfExtents
  | .torus major minor => torusDistance p major minor
  | .cylinder radius halfHeight => cylinderDistance p radius halfHeight
  | .cone radius halfHeight => cappedConeDistance p radius 0 halfHeight
  | .coninder bottom top halfHeight => cappedConeDistance p bottom top halfHeight
  | .plane normal => p.dot normal

end Solid

end SignedDistance
