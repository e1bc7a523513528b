import SignedDistance.Json.Basic
import SignedDistance.Geometry.Transform
import SignedDistance.Movement.Step

set_option autoImplicit false

/-! # Stored records

Settings, positions, bodies and transforms are stored as records with a name for each field. A
record is read from a JSON object, in any order and with unknown fields passed over, or from a JSON
array that lists the fields in order. No field may be given twice. Settings have a default for
every field; in every other record each field has to be there. -/

namespace SignedDistance

/-- What a record is written as. -/
inductive Datum where
  | single (x : Float32)
  | integer (n : Int)
  | list (items : List Datum)
  | record (fields : List (String × Datum))

/-! ## Reading -/

namespace Json

/-- The values that a record gives to its fields, each at most once. -/
def recordFields? (names : List String) (json : Json) : Option (List (Option Json)) :=
  match json with
  | .array items =>
    if items.length ≤ names.length then
      some (items.map some ++ List.replicate (names.length - items.length) none)
    else none
  | .object fields =>
    if fields.any fun (key, _) => key.isNone then none
    else
      names.mapM fun name =>
        match json.valuesAt name with
        | [] => some none
        | [value] => some (some value)
        | _ => none
  | _ => none

/-- A single: any number, rounded to the nearest one. -/
def single? : Json → Option Float32
  | .number n =>
    match n.quantity? with
    | some (.integer i) => some (Single.ofInt i)
    | some (.real x) => some (Double.toSingle x)
    | none => none
  | _ => none

/-- An integer between two bounds, written as one. -/
def integer? (lo hi : Int) : Json → Option Int
  | .number n =>
    match n.quantity? with
    | some (.integer i) => if lo ≤ i ∧ i ≤ hi then some i else none
    | _ => none
  | _ => none

def count? (json : Json) : Option UInt32 :=
  (json.integer? 0 4294967295).map fun n => .ofNat n.toNat

/-- A list of exactly `n` singles. -/
def singles? (n : Nat) : Json → Option (List Float32)
  | .array items => if items.length = n then items.mapM single? else none
  | _ => none

def vec3? (json : Json) : Option Vec3 :=
  match json.singles? 3 with
  | some [x, y, z] => some ⟨x, y, z⟩
  | _ => none

def quat? (json : Json) : Option Quat :=
  match json.singles? 4 with
  | some [x, y, z, w] => some ⟨x, y, z, w⟩
  | _ => none

/-- The value of a field, or a default for a field that is not there. -/
def fieldOr {α : Type} (default : α) (read : Json → Option α) : Option Json → Option α
  | some json => read json
  | none => some default

end Json

/-- A fixed-point number is stored as its raw value. -/
def Fixed.ofJson? (json : Json) : Option Fixed :=
  (json.integer? (-9223372036854775808) 9223372036854775807).map saturate

/-- A position is stored by its lanes. -/
def FixedVec.ofJson? (json : Json) : Option FixedVec :=
  match json.recordFields? ["x", "y", "z"] with
  | some [some x, some y, some z] => do
    return ⟨← Fixed.ofJson? x, ← Fixed.ofJson? y, ← Fixed.ofJson? z⟩
  | _ => none

/-- A transform is stored as it is: nothing is checked and nothing brought to unit length. -/
def Transform.ofJson? (json : Json) : Option Transform :=
  match json.recordFields? ["rotation", "translation", "scalation"] with
  | some [some rotation, some translation, some scaling] => do
    return ⟨← rotation.quat?, ← translation.vec3?, ← scaling.single?⟩
  | _ => none

/-- A body is stored by its position and its velocity. -/
def Body.ofJson? (json : Json) : Option Body :=
  match json.recordFields? ["position", "velocity"] with
  | some [some position, some velocity] => do
    return ⟨← FixedVec.ofJson? position, ← velocity.vec3?⟩
  | _ => none

open Json in
/-- Settings of the marching queries; a field that is not there takes its default. -/
def TraceConfig.ofJson? (json : Json) : Option TraceConfig :=
  match json.recordFields? ["hit_epsilon", "far_step", "max_steps", "shadow_min_step"] with
  | some [hitEpsilon, farStep, maxSteps, shadowMinStep] => do
    return {
      hitEpsilon := ← fieldOr default.hitEpsilon single? hitEpsilon
      farStep := ← fieldOr default.farStep single? farStep
      maxSteps := ← fieldOr default.maxSteps count? maxSteps
      shadowMinStep := ← fieldOr default.shadowMinStep single? shadowMinStep }
  | _ => none

open Json in
/-- Settings of movement; a field that is not there takes its default. -/
def MovementConfig.ofJson? (json : Json) : Option MovementConfig :=
  match json.recordFields? ["overshoot", "min_travel", "max_iterations", "skin", "glancing_damping",
      "head_on_damping"] with
  | some [overshoot, minTravel, maxIterations, skin, glancingDamping, headOnDamping] => do
    return {
      overshoot := ← fieldOr default.overshoot single? overshoot
      minTravel := ← fieldOr default.minTravel single? minTravel
      maxIterations := ← fieldOr default.maxIterations count? maxIterations
      skin := ← fieldOr default.skin single? skin
      glancingDamping := ← fieldOr default.glancingDamping single? glancingDamping
      headOnDamping := ← fieldOr default.headOnDamping single? headOnDamping }
  | _ => none

/-! ## Writing -/

/-- A fixed-point number as its raw value. -/
def Fixed.toDatum (a : Fixed) : Datum := .integer a.raw

def FixedVec.toDatum (v : FixedVec) : Datum :=
  .record [("x", v.x.toDatum), ("y", v.y.toDatum), ("z", v.z.toDatum)]

def Vec3.toDatum (v : Vec3) : Datum := .list [.single v.x, .single v.y, .single v.z]

def Quat.toDatum (q : Quat) : Datum := .list [.single q.x, .single q.y, .single q.z, .single q.w]

def Transform.toDatum (t : Transform) : Datum :=
  .record [("rotation", t.rotation.toDatum), ("translation", t.translation.toDatum),
    ("scalation", .single t.scaling)]

def Body.toDatum (b : Body) : Datum :=
  .record [("position", b.position.toDatum), ("velocity", b.velocity.toDatum)]

def TraceConfig.toDatum (c : TraceConfig) : Datum :=
  .record [("hit_epsilon", .single c.hitEpsilon), ("far_step", .single c.farStep),
    ("max_steps", .integer c.maxSteps.toNat), ("shadow_min_step", .single c.shadowMinStep)]

def MovementConfig.toDatum (c : MovementConfig) : Datum :=
  .record [("overshoot", .single c.overshoot), ("min_travel", .single c.minTravel),
    ("max_iterations", .integer c.maxIterations.toNat), ("skin", .single c.skin),
    ("glancing_damping", .single c.glancingDamping),
    ("head_on_damping", .single c.headOnDamping)]

end SignedDistance
