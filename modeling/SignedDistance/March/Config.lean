import SignedDistance.Parameter

set_option autoImplicit false

/-! # Settings of the marching queries -/

namespace SignedDistance

/-- When a march ends. -/
structure TraceConfig where
  /-- A sample at or below this distance is on the surface. -/
  hitEpsilon : Float32
  /-- A sample above this distance is far from every surface. -/
  farStep : Float32
  maxSteps : UInt32
  /-- The least step of a shadow ray, so that it gets across thin features. -/
  shadowMinStep : Float32

namespace TraceConfig

/-- The settings that hold unless others are given. -/
def default : TraceConfig := ⟨1e-3, 100, 1000, 1e-2⟩

instance : Inhabited TraceConfig := ⟨default⟩

/-- The first value that is out of range is reported. -/
def validate (c : TraceConfig) : Except ParameterError Unit := do
  Parameter.positive "hit_epsilon" c.hitEpsilon
  Parameter.positive "far_step" c.farStep
  Parameter.positive "shadow_min_step" c.shadowMinStep
  Parameter.atLeastOne "max_steps" c.maxSteps

end TraceConfig

end SignedDistance
