import SignedDistance.Field.Basic
import SignedDistance.March.Config
import SignedDistance.March.Rounds

set_option autoImplicit false

/-! # Soft shadows

How much of a light is seen from a point. A ray marches towards the light and keeps the least ratio
of clearance to the width that the light has at that distance; the ratio, moved into `[-1, 1]`,
goes through a cubic with level ends. Nothing near the ray gives one, and a ray well inside a
surface gives zero. -/

namespace SignedDistance

namespace Light

/-- A shadow ray under way: the least ratio so far and the distance of its next sample. -/
structure Ray where
  ratio : Float32
  travel : Float32

/-- The least light size: one unit in the last place of one. -/
def leastSize : Float32 := .ofBits 0x34000000

/-- Take one sample, unless the light is reached; the answer is the least ratio. -/
def round (config : TraceConfig) (field : Field) (start dir : Vec3) (length size : Float32)
    (ray : Ray) : Progress Float32 Ray :=
  if ray.travel < length then
    let d := field (start + dir.scale ray.travel)
    let ratio := Single.least ray.ratio (d / (size * ray.travel))
    if ratio ≤ -1 then .answer ratio
    else .goOn ⟨ratio, ray.travel + Single.greatest d config.shadowMinStep⟩
  else .answer ray.ratio

/-- The visibility that a least ratio stands for. -/
def visibility (ratio : Float32) : Float32 :=
  let r := Single.clamp (-1) 1 ratio
  0.25 * (1 + r) * (1 + r) * (2 - r)

end Light

/-- How much of a light of the given size at `stop` is seen from `start`, between zero and one. -/
def lightTrace (config : TraceConfig) (field : Field) (start stop : Vec3) (lightSize : Float32) :
    Float32 :=
  let delta := stop - start
  let length := delta.length
  if length ≤ 0 || !length.isFinite then 1
  else
    let round :=
      Light.round config field start (delta.unscale length) length
        (Single.greatest lightSize Light.leastSize)
    match rounds round config.maxSteps.toNat ⟨1, config.shadowMinStep⟩ with
    | .answer ratio => Light.visibility ratio
    | .goOn ray => Light.visibility ray.ratio

end SignedDistance
