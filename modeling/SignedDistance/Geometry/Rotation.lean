import SignedDistance.Geometry.Vec3

set_option autoImplicit false

/-! # Rotations

A rotation is a quaternion, given by three imaginary lanes and a real one. It turns a vector by a
formula that assumes nothing about its length; a quaternion that is not of unit length therefore
also stretches the vector. The formula is stated once, over any numbers, because directions turn in
single precision and world positions in double. -/

namespace SignedDistance

/-- Turn the vector `v = (x, y, z)` by the quaternion with imaginary lanes `b = (i, j, k)` and real
    lane `w`: `v * (w * w - b · b) + b * ((v · b) * 2) + (b × v) * (w * 2)`, lane by lane. -/
@[inline] def turn {α : Type} [Add α] [Sub α] [Mul α] (two : α) (i j k w x y z : α) : α × α × α :=
  let a := w * w - ((i * i + j * j) + k * k)
  let s := ((x * i + y * j) + z * k) * two
  let t := w * two
  ((x * a + i * s) + (j * z - k * y) * t,
   (y * a + j * s) + (k * x - i * z) * t,
   (z * a + k * s) + (i * y - j * x) * t)

/-- A quaternion: three imaginary lanes and a real one. -/
structure Quat where
  x : Float32
  y : Float32
  z : Float32
  w : Float32
  deriving Inhabited

namespace Quat

/-- The rotation that turns nothing. -/
def identity : Quat := ⟨0, 0, 0, 1⟩

/-- The product `a * b`, which turns by `b` first and then by `a`. -/
protected def mul (a b : Quat) : Quat where
  x := (a.w * b.x + a.x * b.w) + (a.y * b.z - a.z * b.y)
  y := (a.w * b.y - a.x * b.z) + (a.y * b.w + a.z * b.x)
  z := (a.w * b.z + a.x * b.y) + (a.z * b.w - a.y * b.x)
  w := (a.w * b.w - a.x * b.x) + (-(a.y * b.y) - a.z * b.z)

instance : Mul Quat := ⟨Quat.mul⟩

/-- The square of the length, adding the even lanes and the odd lanes first. -/
def lengthSquared (q : Quat) : Float32 := (q.x * q.x + q.z * q.z) + (q.y * q.y + q.w * q.w)

def length (q : Quat) : Float32 := q.lengthSquared.sqrt

/-- Every lane divided by the length. -/
def normalize (q : Quat) : Quat :=
  let n := q.length
  ⟨q.x / n, q.y / n, q.z / n, q.w / n⟩

/-- The opposite imaginary lanes: for a quaternion of unit length, the inverse rotation. -/
@[inline] def conjugate (q : Quat) : Quat := ⟨-q.x, -q.y, -q.z, q.w⟩

@[inline] def rotate (q : Quat) (v : Vec3) : Vec3 :=
  let (x, y, z) := turn 2 q.x q.y q.z q.w v.x v.y v.z
  ⟨x, y, z⟩

/-! ## Angles -/

/-- Sine and cosine of half an angle, computed in double precision. -/
def halfAngle (angle : Float32) : Float32 × Float32 :=
  let a := Single.toDouble (angle * 0.5)
  (Double.toSingle a.sin, Double.toSingle a.cos)

def aboutX (angle : Float32) : Quat :=
  let (s, c) := halfAngle angle
  ⟨s, 0, 0, c⟩

def aboutY (angle : Float32) : Quat :=
  let (s, c) := halfAngle angle
  ⟨0, s, 0, c⟩

def aboutZ (angle : Float32) : Quat :=
  let (s, c) := halfAngle angle
  ⟨0, 0, s, c⟩

end Quat

end SignedDistance
