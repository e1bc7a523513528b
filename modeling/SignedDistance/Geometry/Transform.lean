import SignedDistance.Geometry.Rotation

set_option autoImplicit false

/-! # Rigid transforms with a uniform scale

A transform places a solid in the world: scale it, turn it, move it. Every operation below puts one
more step behind an existing transform, about the world's origin. The composed rotation is brought
back to unit length each time so that it does not drift; the translation is turned by the rotation
as it is given. -/

namespace SignedDistance

/-- A rotation, a translation and a uniform scale. -/
structure Transform where
  rotation : Quat
  translation : Vec3
  scaling : Float32
  deriving Inhabited

/-- A scale that is not a positive finite number. -/
structure InvalidScale where
  factor : Float32

def InvalidScale.message (e : InvalidScale) : String :=
  s!"transform scale must be positive and finite, got {Single.text e.factor}"

namespace Transform

def identity : Transform := ⟨.identity, .zero, 1⟩

def checkScale (factor : Float32) : Except InvalidScale Float32 :=
  if Single.isPositiveFinite factor then .ok factor else .error ⟨factor⟩

/-- A transform from its parts, with the rotation brought to unit length. -/
def new (rotation : Quat) (translation : Vec3) (factor : Float32) : Except InvalidScale Transform := do
  let factor ← checkScale factor
  return ⟨rotation.normalize, translation, factor⟩

def translate (t : Transform) (offset : Vec3) : Transform :=
  ⟨t.rotation, t.translation + offset, t.scaling⟩

/-- Turn about the world's origin. -/
def rotate (t : Transform) (q : Quat) : Transform :=
  ⟨(q * t.rotation).normalize, q.rotate t.translation, t.scaling⟩

/-- Scale about the world's origin. -/
def scale (t : Transform) (factor : Float32) : Except InvalidScale Transform := do
  let factor ← checkScale factor
  return ⟨t.rotation, t.translation.scale factor, t.scaling * factor⟩

/-- From the solid's own frame to the world. -/
def apply (t : Transform) (p : Vec3) : Vec3 := t.rotation.rotate (p.scale t.scaling) + t.translation

/-- From the world to the solid's own frame. -/
@[inline] def applyInverse (t : Transform) (p : Vec3) : Vec3 :=
  (t.rotation.conjugate.rotate (p - t.translation)).unscale t.scaling

end Transform

end SignedDistance
