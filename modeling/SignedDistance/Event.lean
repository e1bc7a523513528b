import SignedDistance.Fixed.Vector

set_option autoImplicit false

/-! # Events

What a query has to say besides its result. Queries return their events in the order in which they
happened; whoever calls them decides what becomes of them. -/

namespace SignedDistance

/-- Something worth a line in a log. -/
inductive Event where
  /-- A moving body has bounced off a surface. -/
  | bounce (position : FixedVec) (direction : Vec3) (speed remaining : Float32)
  /-- A movement step has used up its iterations with a budget left. -/
  | movementCapped (position : FixedVec) (remaining : Float32) (bounces : Nat)
  /-- A ray has used up its samples without a verdict. -/
  | traceGaveUp (start stop : Vec3) (travel : Float32) (steps : Nat)
  /-- A body's path has used up its samples without a verdict. -/
  | travelGaveUp (start direction : Vec3) (travel : Float32) (steps : Nat)

namespace Event

/-- Whether the event is only of interest when every detail is. -/
def isDetail : Event → Bool
  | .bounce .. => true
  | _ => false

def message : Event → String
  | .bounce .. => "bounce"
  | .movementCapped .. => "movement step hit the iteration cap"
  | .traceGaveUp _ _ _ steps => s!"trace gave up after {steps} steps"
  | .travelGaveUp _ _ _ steps => s!"travel trace gave up after {steps} steps"

end Event

end SignedDistance
