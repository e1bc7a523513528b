import SignedDistance.Event
import SignedDistance.Field.Gradient
import SignedDistance.March.Config
import SignedDistance.March.Rounds

set_option autoImplicit false

/-! # How far a body may travel

A body with a skin moves along a direction and must keep a margin from every surface. The field is
lowered by the margin, so the skin touches a surface where a sample is small enough. A touch counts
only while the body approaches the surface, so a body that rests on a surface can always move away
from it. The distance reported is never more than what was asked for. -/

namespace SignedDistance

/-- How far a body may go. -/
structure Travel where
  hit : Bool
  /-- The free distance. -/
  travel : Float32
  steps : Nat

namespace Travel

/-- A body under way: the distance of its next sample and the samples taken. -/
structure Path where
  travel : Float32
  steps : Nat

/-- Go on to a distance, unless it is past the limit. -/
def advance (maxTravel limit : Float32) (travel : Float32) (steps : Nat) : Progress Travel Path :=
  if limit ≤ travel then .answer ⟨false, maxTravel, steps⟩ else .goOn ⟨travel, steps⟩

def round (config : TraceConfig) (field : Field) (start dir : Vec3) (maxTravel margin : Float32)
    (path : Path) : Progress Travel Path :=
  let point := start + dir.scale path.travel
  let d := field point - margin
  let steps := path.steps + 1
  let limit := maxTravel + margin
  if d ≤ config.hitEpsilon then
    if (field.gradient point).dot dir < 0 then
      .answer ⟨true, Single.least path.travel maxTravel, steps⟩
    else
      -- The body leaves the surface, which is `d + margin` away.
      let away := Single.greatest (d + margin).abs config.hitEpsilon
      advance maxTravel limit (path.travel + away) steps
  else if config.farStep < d then
    .answer ⟨false, Single.least (path.travel + d) maxTravel, steps⟩
  else advance maxTravel limit (path.travel + d) steps

end Travel

/-- How far a body may go from `start` along `direction`, at most `maxTravel`, with `margin` kept
    from every surface. A path that runs out of samples reports how far it got and an event. -/
def travelTrace (config : TraceConfig) (field : Field) (start direction : Vec3)
    (maxTravel margin : Float32) : Travel × List Event :=
  let dir := direction.normalizeOrZero
  let maxTravel := Single.greatest maxTravel 0
  if dir.isZero || maxTravel == 0 then (⟨false, 0, 0⟩, [])
  else
    let round := Travel.round config field start dir maxTravel margin
    match rounds round config.maxSteps.toNat ⟨0, 0⟩ with
    | .answer travel => (travel, [])
    | .goOn path =>
      (⟨false, Single.least path.travel maxTravel, path.steps⟩,
        [.travelGaveUp start direction path.travel config.maxSteps.toNat])

end SignedDistance
