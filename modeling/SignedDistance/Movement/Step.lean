import SignedDistance.March.Travel
import SignedDistance.Movement.Config

set_option autoImplicit false

/-! # Moving a body

A step spends a budget of speed times duration plus a look-ahead. The body travels as far as its
skin allows; where the skin touches a surface it bounces. The normal is flattened to the horizontal
plane: if anything remains of it, the direction is reflected about it, else the direction is
reversed. Either way speed is lost. The look-ahead is never travelled; it only lets a body bounce
shortly before it would come to rest.

Positions are in fixed point, and their sum may not fit. A step that fails that way gives a fault
and the events up to it. -/

namespace SignedDistance

structure Body where
  position : FixedVec
  velocity : Vec3
  deriving DecidableEq, Inhabited

/-- Settings for movement, and for the tracing it rests on. -/
structure Integrator where
  movement : MovementConfig
  tracing : TraceConfig

/-- What a step has come to, and what happened on the way. -/
structure Outcome where
  result : Except Fault Body
  events : List Event

namespace Movement

/-- A body in the middle of a step. -/
structure Flight where
  position : FixedVec
  direction : Vec3
  speed : Float32
  /-- What is left of the budget. -/
  remaining : Float32
  bounces : Nat
  /-- What has happened so far, in order. -/
  events : List Event

/-- How the iterations of a step end of their own accord: the budget is spent, or a position did
    not fit. -/
inductive Ending where
  | spent (flight : Flight)
  | faulty (fault : Fault) (events : List Event)

/-- Reflect about a horizontal normal, or turn back where there is none. -/
def bounce (config : MovementConfig) (field : Field) (flight : Flight) : Flight :=
  let gradient := field.gradient flight.position.toVec3
  let flat : Vec3 := ⟨gradient.x, gradient.y, 0⟩
  let (direction, speed) :=
    if 0 < flat.lengthSquared then
      let normal := flat.normalize
      (flight.direction - normal.scale (2 * flight.direction.dot normal),
        flight.speed * config.glancingDamping)
    else (-flight.direction, flight.speed * config.headOnDamping)
  { flight with
    direction
    speed
    bounces := flight.bounces + 1
    events := flight.events ++ [.bounce flight.position direction speed flight.remaining] }

/-- One iteration: travel, and bounce where a surface was touched. -/
def round (integrator : Integrator) (field : Field) (flight : Flight) : Progress Ending Flight :=
  let config := integrator.movement
  if config.minTravel < flight.remaining then
    let (travel, events) :=
      travelTrace integrator.tracing field flight.position.toVec3 flight.direction flight.remaining
        config.skin
    let events := flight.events ++ events
    let advance :=
      Single.greatest (Single.least travel.travel (flight.remaining - config.overshoot)) 0
    match flight.position.add (.ofVec3 (flight.direction.scale advance)) with
    | .error fault => .answer (.faulty fault events)
    | .ok position =>
      let moved := { flight with position, remaining := flight.remaining - travel.travel, events }
      .goOn (if travel.hit then bounce config field moved else moved)
  else .answer (.spent flight)

/-- The body at the end of a flight; one that never bounced keeps its velocity as it was. -/
def Flight.land (flight : Flight) (velocity : Vec3) : Body :=
  ⟨flight.position,
    if flight.bounces = 0 then velocity else flight.direction.scale flight.speed⟩

end Movement

open Movement in
/-- Move a body for a duration. A body at rest, or one whose speed is no finite number, stays as it
    is, and so does any body for a duration that is not positive. -/
def Integrator.step (integrator : Integrator) (field : Field) (body : Body) (dt : Float32) :
    Outcome :=
  let speed := body.velocity.length
  if !Single.isPositiveFinite speed || dt ≤ 0 then ⟨.ok body, []⟩
  else
    let config := integrator.movement
    let start : Flight :=
      ⟨body.position, body.velocity.unscale speed, speed, speed * dt + config.overshoot, 0, []⟩
    match rounds (round integrator field) config.maxIterations.toNat start with
    | .answer (.spent flight) => ⟨.ok (flight.land body.velocity), flight.events⟩
    | .answer (.faulty fault events) => ⟨.error fault, events⟩
    | .goOn flight =>
      let capped : List Event :=
        if config.minTravel < flight.remaining then
          [.movementCapped flight.position flight.remaining flight.bounces]
        else []
      ⟨.ok (flight.land body.velocity), flight.events ++ capped⟩

namespace Integrator

/-- The settings that hold unless others are given. -/
def default : Integrator := ⟨.default, .default⟩

/-- Settings that are in range; those of movement are looked at first. -/
def checked (movement : MovementConfig) (tracing : TraceConfig) :
    Except ParameterError Integrator := do
  movement.validate
  tracing.validate
  return ⟨movement, tracing⟩

/-- Move every body for a duration, each on its own. -/
def stepAll (integrator : Integrator) (field : Field) (bodies : List Body) (dt : Float32) :
    Except Fault (List Body) :=
  bodies.mapM fun body => (integrator.step field body dt).result

end Integrator

end SignedDistance
