import SignedDistance.Parameter

set_option autoImplicit false

/-! # Settings of movement -/

namespace SignedDistance

/-- How a body moves and bounces. -/
structure MovementConfig where
  /-- How far a step looks ahead beyond its own length. -/
  overshoot : Float32
  /-- The budget at or below which a step ends. -/
  minTravel : Float32
  maxIterations : UInt32
  /-- How far a body keeps from surfaces. -/
  skin : Float32
  /-- What is left of the speed after a bounce off a wall. -/
  glancingDamping : Float32
  /-- What is left of the speed after a bounce straight back. -/
  headOnDamping : Float32

namespace MovementConfig

/-- The settings that hold unless others are given. -/
def default : MovementConfig := ⟨0.1, 0.01, 100, 0.125, 0.75, 0.5⟩

instance : Inhabited MovementConfig := ⟨default⟩

/-- The first value that is out of range is reported. -/
def validate (c : MovementConfig) : Except ParameterError Unit := do
  Parameter.nonNegative "overshoot" c.overshoot
  Parameter.nonNegative "min_travel" c.minTravel
  Parameter.nonNegative "skin" c.skin
  Parameter.unitInterval "glancing_damping" c.glancingDamping
  Parameter.unitInterval "head_on_damping" c.headOnDamping
  Parameter.atLeastOne "max_iterations" c.maxIterations

end MovementConfig

end SignedDistance
