import SignedDistance.Fixed.Basic
import SignedDistance.Geometry.Rotation

set_option autoImplicit false

/-! # Positions in fixed point

World positions are vectors of three fixed-point lanes. Lanes are computed in the order x, y, z,
and the first fault ends the computation. A dot product adds up the exact lane products in 128
signed bits before it is cut back to units, so only the sum of the three can fail to fit. -/

namespace SignedDistance

/-- A vector of three fixed-point lanes. -/
structure FixedVec where
  x : Fixed
  y : Fixed
  z : Fixed
  deriving DecidableEq, Inhabited

namespace FixedVec

def splat (a : Fixed) : FixedVec := ⟨a, a, a⟩

def zero : FixedVec := splat .zero

def ofInts (x y z : Int) : FixedVec := ⟨.ofInt x, .ofInt y, .ofInt z⟩

/-! ## Lane by lane -/

/-- Compute every lane, x first. -/
def lanes (f : Fixed → Except Fault Fixed) (v : FixedVec) : Except Fault FixedVec := do
  let x ← f v.x
  let y ← f v.y
  let z ← f v.z
  return ⟨x, y, z⟩

/-- Combine two vectors lane by lane, x first. -/
def zipLanes (f : Fixed → Fixed → Except Fault Fixed) (v w : FixedVec) : Except Fault FixedVec := do
  let x ← f v.x w.x
  let y ← f v.y w.y
  let z ← f v.z w.z
  return ⟨x, y, z⟩

def add : FixedVec → FixedVec → Except Fault FixedVec := zipLanes Fixed.add

def sub : FixedVec → FixedVec → Except Fault FixedVec := zipLanes Fixed.sub

def mul (v w : FixedVec) : FixedVec := ⟨v.x.mul w.x, v.y.mul w.y, v.z.mul w.z⟩

def div : FixedVec → FixedVec → Except Fault FixedVec := zipLanes Fixed.div

def rem : FixedVec → FixedVec → Except Fault FixedVec := zipLanes Fixed.rem

def neg : FixedVec → Except Fault FixedVec := lanes Fixed.neg

/-- The point a part `t` of the way from `v` to `w`. -/
def lerp (v w : FixedVec) (t : Fixed) : Except Fault FixedVec := do
  let offset ← w.sub v
  v.add (offset.mul (splat t))

/-! ## Lengths -/

/-- A sum in 128 signed bits. -/
def wideAdd (m n : Int) : Except Fault Int :=
  if -170141183460469231731687303715884105728 ≤ m + n ∧
      m + n ≤ 170141183460469231731687303715884105727 then .ok (m + n)
  else .error .addition

/-- The exact sum of the three products of raw values. -/
def rawDot (v w : FixedVec) : Except Fault Int := do
  let xy ← wideAdd (v.x.raw * w.x.raw) (v.y.raw * w.y.raw)
  wideAdd xy (v.z.raw * w.z.raw)

/-- The dot product, rounded down to a whole number of units. -/
def dot (v w : FixedVec) : Except Fault Fixed := do
  let n ← v.rawDot w
  return .saturate (n / Fixed.unit)

def lengthSquared (v : FixedVec) : Except Fault Fixed := v.dot v

/-- The length, by way of double precision. -/
def length (v : FixedVec) : Except Fault Fixed := do
  let n ← v.rawDot v
  return .ofRawDouble (Double.ofInt n).sqrt

/-- The direction and the length; a vector of no length has no direction, and zero stands in. -/
def normalize (v : FixedVec) : Except Fault (FixedVec × Fixed) := do
  let magnitude ← v.length
  if magnitude = .zero then return (zero, .zero)
  let direction ← v.div (splat magnitude)
  return (direction, magnitude)

/-! ## Floating point -/

/-- The position nearest to a vector of singles. -/
def ofVec3 (v : Vec3) : FixedVec := ⟨.ofSingle v.x, .ofSingle v.y, .ofSingle v.z⟩

/-- The position nearest to three doubles. -/
def ofDoubles (x y z : Float) : FixedVec := ⟨.ofDouble x, .ofDouble y, .ofDouble z⟩

/-- The position in single precision. -/
def toVec3 (v : FixedVec) : Vec3 := ⟨v.x.toSingle, v.y.toSingle, v.z.toSingle⟩

/-- The offset from `origin` in single precision. The difference is taken first, so it is as
    precise far from the world's origin as it is near it. -/
def relativeTo (v origin : FixedVec) : Except Fault Vec3 := do
  let offset ← v.sub origin
  return offset.toVec3

/-- Turn the position about the world's origin, by way of double precision. -/
def rotate (v : FixedVec) (q : Quat) : FixedVec :=
  let (x, y, z) :=
    turn (2 : Float) (Single.toDouble q.x) (Single.toDouble q.y) (Single.toDouble q.z)
      (Single.toDouble q.w) v.x.toDouble v.y.toDouble v.z.toDouble
  ofDoubles x y z

end FixedVec

end SignedDistance
