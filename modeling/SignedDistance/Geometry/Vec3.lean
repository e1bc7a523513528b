import SignedDistance.Number.Single
import SignedDistance.Decimal.Text

set_option autoImplicit false

/-! # Vectors in single precision

Points, offsets and directions of two and three lanes. Operators work lane by lane. The order in
which lanes are added up is part of what every operation means, since single-precision addition is
not associative: a dot product adds the first two lanes and then the third. -/

namespace SignedDistance

/-- A vector of three singles. -/
structure Vec3 where
  x : Float32
  y : Float32
  z : Float32
  deriving DecidableEq, Inhabited

namespace Vec3

/-- The same value in every lane. -/
@[inline] def splat (a : Float32) : Vec3 := ⟨a, a, a⟩

def zero : Vec3 := splat 0

@[inline] protected def add (v w : Vec3) : Vec3 := ⟨v.x + w.x, v.y + w.y, v.z + w.z⟩

@[inline] protected def sub (v w : Vec3) : Vec3 := ⟨v.x - w.x, v.y - w.y, v.z - w.z⟩

@[inline] protected def mul (v w : Vec3) : Vec3 := ⟨v.x * w.x, v.y * w.y, v.z * w.z⟩

@[inline] protected def div (v w : Vec3) : Vec3 := ⟨v.x / w.x, v.y / w.y, v.z / w.z⟩

@[inline] protected def neg (v : Vec3) : Vec3 := ⟨-v.x, -v.y, -v.z⟩

instance : Add Vec3 := ⟨Vec3.add⟩
instance : Sub Vec3 := ⟨Vec3.sub⟩
instance : Mul Vec3 := ⟨Vec3.mul⟩
instance : Div Vec3 := ⟨Vec3.div⟩
instance : Neg Vec3 := ⟨Vec3.neg⟩

/-- Every lane times a number. -/
@[inline] def scale (v : Vec3) (a : Float32) : Vec3 := ⟨v.x * a, v.y * a, v.z * a⟩

@[inline] def unscale (v : Vec3) (a : Float32) : Vec3 := ⟨v.x / a, v.y / a, v.z / a⟩

@[inline] def dot (v w : Vec3) : Float32 := (v.x * w.x + v.y * w.y) + v.z * w.z

@[inline] def cross (v w : Vec3) : Vec3 :=
  ⟨v.y * w.z - v.z * w.y, v.z * w.x - v.x * w.z, v.x * w.y - v.y * w.x⟩

@[inline] def lengthSquared (v : Vec3) : Float32 := v.dot v

@[inline] def length (v : Vec3) : Float32 := v.lengthSquared.sqrt

/-- The vector times the reciprocal of its length. -/
def normalize (v : Vec3) : Vec3 := v.scale (1 / v.length)

/-- The vector times the reciprocal of its length, or zero where that reciprocal is of no use. -/
def normalizeOrZero (v : Vec3) : Vec3 :=
  let r := 1 / v.length
  if Single.isPositiveFinite r then v.scale r else zero

@[inline] def abs (v : Vec3) : Vec3 := ⟨v.x.abs, v.y.abs, v.z.abs⟩

/-- Every lane moved up to zero. -/
@[inline] def atLeastZero (v : Vec3) : Vec3 :=
  ⟨Single.greatest v.x 0, Single.greatest v.y 0, Single.greatest v.z 0⟩

/-- The greatest lane. -/
@[inline] def greatestLane (v : Vec3) : Float32 := Single.greatest v.x (Single.greatest v.y v.z)

/-- The least lane. -/
@[inline] def leastLane (v : Vec3) : Float32 := Single.least v.x (Single.least v.y v.z)

@[inline] def isZero (v : Vec3) : Bool := v.x == 0 && v.y == 0 && v.z == 0

def isFinite (v : Vec3) : Bool := v.x.isFinite && v.y.isFinite && v.z.isFinite

/-- The lanes in brackets. -/
def text (v : Vec3) : String :=
  s!"[{Single.text v.x}, {Single.text v.y}, {Single.text v.z}]"

end Vec3

/-! ## Two lanes -/

/-- A vector of two singles: a point of the half-plane that a solid of revolution is drawn in. -/
structure Vec2 where
  x : Float32
  y : Float32
  deriving Inhabited

namespace Vec2

@[inline] protected def add (v w : Vec2) : Vec2 := ⟨v.x + w.x, v.y + w.y⟩

@[inline] protected def sub (v w : Vec2) : Vec2 := ⟨v.x - w.x, v.y - w.y⟩

instance : Add Vec2 := ⟨Vec2.add⟩
instance : Sub Vec2 := ⟨Vec2.sub⟩

@[inline] def scale (v : Vec2) (a : Float32) : Vec2 := ⟨v.x * a, v.y * a⟩

@[inline] def dot (v w : Vec2) : Float32 := v.x * w.x + v.y * w.y

@[inline] def lengthSquared (v : Vec2) : Float32 := v.dot v

@[inline] def length (v : Vec2) : Float32 := v.lengthSquared.sqrt

@[inline] def abs (v : Vec2) : Vec2 := ⟨v.x.abs, v.y.abs⟩

@[inline] def atLeastZero (v : Vec2) : Vec2 := ⟨Single.greatest v.x 0, Single.greatest v.y 0⟩

/-- The greater lane. -/
@[inline] def greatestLane (v : Vec2) : Float32 := Single.greatest v.x v.y

end Vec2

end SignedDistance
