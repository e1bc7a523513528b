import SignedDistance.Event
import SignedDistance.Field.Basic
import SignedDistance.March.Config
import SignedDistance.March.Rounds

set_option autoImplicit false

/-! # Tracing a ray to a surface

A ray starts at a point and marches along a direction, each time by the distance that the field
reports as free. It ends on a surface where a sample is small enough, and without one where a
sample is large or the direction is zero. The target only sets the direction: the ray goes on past
it. -/

namespace SignedDistance

/-- Where a ray has ended. -/
structure Hit where
  hit : Bool
  /-- The last sample point. -/
  point : Vec3
  /-- The distance marched. -/
  travel : Float32
  steps : Nat

namespace Surface

/-- A ray under way: its last sample point, the distance of its next one and the samples taken. -/
structure Ray where
  point : Vec3
  travel : Float32
  steps : Nat

def round (config : TraceConfig) (field : Field) (start dir : Vec3) (ray : Ray) :
    Progress Hit Ray :=
  let point := start + dir.scale ray.travel
  let d := field point
  let steps := ray.steps + 1
  if d ≤ config.hitEpsilon then .answer ⟨true, point, ray.travel, steps⟩
  else if config.farStep < d || dir.isZero then .answer ⟨false, point, ray.travel, steps⟩
  else .goOn ⟨point, ray.travel + d, steps⟩

end Surface

/-- The first surface along the ray from `start` towards `stop`. A ray that runs out of samples
    reports a miss and an event. -/
def trace (config : TraceConfig) (field : Field) (start stop : Vec3) : Hit × List Event :=
  let dir := (stop - start).normalizeOrZero
  match rounds (Surface.round config field start dir) config.maxSteps.toNat ⟨start, 0, 0⟩ with
  | .answer hit => (hit, [])
  | .goOn ray =>
    (⟨false, ray.point, ray.travel, ray.steps⟩,
      [.traceGaveUp start stop ray.travel config.maxSteps.toNat])

end SignedDistance
