import SignedDistance.Program.Machine

set_option autoImplicit false

/-! # Scenes as trees

A scene is a tree: primitives at the leaves, combinations and flations above them, and motions
anywhere in between. It can be compiled to a program, each node by the function of `Program` that is
named after it, and it can be measured directly by recursion. A motion applies to every leaf below
it, so a leaf stands where the motions on its way to the root put it, the innermost one first. -/

namespace SignedDistance

/-! ## Leaves -/

/-- A solid as it is asked for: by its full diameters and extents. -/
inductive Primitive where
  | sphere (diameter : Float32)
  | ellipsoid (dx dy dz : Float32)
  | box (sx sy sz : Float32)
  | cube (size : Float32)
  | torus (majorDiameter minorDiameter : Float32)
  | cylinder (diameter height : Float32)
  | cone (diameter height : Float32)
  | coninder (bottomDiameter topDiameter height : Float32)
  | plane (normal : Vec3)
  | ground

namespace Primitive

/-- The program of a primitive in place. -/
def program : Primitive → Except BuildError Program
  | .sphere diameter => .ok (.sphere diameter)
  | .ellipsoid dx dy dz => .ok (.ellipsoid dx dy dz)
  | .box sx sy sz => .ok (.box sx sy sz)
  | .cube size => .ok (.cube size)
  | .torus majorDiameter minorDiameter => .ok (.torus majorDiameter minorDiameter)
  | .cylinder diameter height => .ok (.cylinder diameter height)
  | .cone diameter height => .ok (.cone diameter height)
  | .coninder bottomDiameter topDiameter height =>
    .ok (.coninder bottomDiameter topDiameter height)
  | .plane normal => Program.plane normal
  | .ground => .ok .ground

/-- The solid that is asked for: half of every size, and a normal of unit length. -/
def solid : Primitive → Solid
  | .sphere diameter => .sphere (diameter * 0.5)
  | .ellipsoid dx dy dz => .ellipsoid ⟨dx * 0.5, dy * 0.5, dz * 0.5⟩
  | .box sx sy sz => .box ⟨sx * 0.5, sy * 0.5, sz * 0.5⟩
  | .cube size => .box ⟨size * 0.5, size * 0.5, size * 0.5⟩
  | .torus majorDiameter minorDiameter => .torus (majorDiameter * 0.5) (minorDiameter * 0.5)
  | .cylinder diameter height => .cylinder (diameter * 0.5) (height * 0.5)
  | .cone diameter height => .cone (diameter * 0.5) (height * 0.5)
  | .coninder bottomDiameter topDiameter height =>
    .coninder (bottomDiameter * 0.5) (topDiameter * 0.5) (height * 0.5)
  | .plane normal => .plane normal.normalize
  | .ground => .plane ⟨0, 0, 1⟩

end Primitive

/-! ## Inner nodes -/

/-- Combine two programs. -/
def Combination.joinPrograms (c : Combination) (p q : Program) : Except BuildError Program :=
  match c with
  | .union => .ok (p.union q)
  | .inter => .ok (p.inter q)
  | .diff => .ok (p.diff q)
  | .blendUnion threshold => p.blendUnion q threshold
  | .blendInter threshold => p.blendInter q threshold
  | .blendDiff threshold => p.blendDiff q threshold

/-- A way to place a whole subtree. -/
inductive Motion where
  | translate (offset : Vec3)
  | rotate (q : Quat)
  | rotateX (angle : Float32)
  | rotateY (angle : Float32)
  | rotateZ (angle : Float32)
  | scale (factor : Float32)

namespace Motion

/-- Put the motion behind a transform. -/
def moveTransform (m : Motion) (t : Transform) : Except InvalidScale Transform :=
  match m with
  | .translate offset => .ok (t.translate offset)
  | .rotate q => .ok (t.rotate q)
  | .rotateX angle => .ok (t.rotate (.aboutX angle))
  | .rotateY angle => .ok (t.rotate (.aboutY angle))
  | .rotateZ angle => .ok (t.rotate (.aboutZ angle))
  | .scale factor => t.scale factor

def moveProgram (m : Motion) (p : Program) : Except BuildError Program :=
  match m with
  | .translate offset => .ok (p.translate offset)
  | .rotate q => .ok (p.rotate q)
  | .rotateX angle => .ok (p.rotateX angle)
  | .rotateY angle => .ok (p.rotateY angle)
  | .rotateZ angle => .ok (p.rotateZ angle)
  | .scale factor => p.scale factor

/-- Where a sequence of motions puts a solid, the first one applied first. -/
def frame (ms : List Motion) : Except InvalidScale Transform :=
  ms.foldlM (fun t m => m.moveTransform t) .identity

end Motion

inductive Shape where
  | leaf (l : Primitive)
  | combine (c : Combination) (a b : Shape)
  | flate (a : Shape) (amount : Float32)
  | place (m : Motion) (a : Shape)

namespace Shape

/-! ## Building -/

def sphere (diameter : Float32) : Shape := .leaf (.sphere diameter)

def box (sx sy sz : Float32) : Shape := .leaf (.box sx sy sz)

def cube (size : Float32) : Shape := .leaf (.cube size)

def torus (majorDiameter minorDiameter : Float32) : Shape :=
  .leaf (.torus majorDiameter minorDiameter)

def cylinder (diameter height : Float32) : Shape := .leaf (.cylinder diameter height)

def ground : Shape := .leaf .ground

def union (a b : Shape) : Shape := .combine .union a b

/-- What `b` leaves of `a`. -/
def diff (a b : Shape) : Shape := .combine .diff a b

def blendUnion (a b : Shape) (threshold : Float32) : Shape := .combine (.blendUnion threshold) a b

def translate (a : Shape) (x y z : Float32) : Shape := .place (.translate ⟨x, y, z⟩) a

def rotateX (a : Shape) (angle : Float32) : Shape := .place (.rotateX angle) a

def rotateZ (a : Shape) (angle : Float32) : Shape := .place (.rotateZ angle) a

/-! ## Two meanings -/

def compile : Shape → Except BuildError Program
  | .leaf l => l.program
  | .combine c a b => do
    let p ← a.compile
    let q ← b.compile
    c.joinPrograms p q
  | .flate a amount => do
    let p ← a.compile
    return p.flate amount
  | .place m a => do
    let p ← a.compile
    m.moveProgram p

/-- The distance from a point to a solid that the motions `ms` have put in place. -/
def leafDistance (ms : List Motion) (p : Vec3) (s : Solid) : Except BuildError Float32 :=
  match Motion.frame ms with
  | .ok t => .ok (s.distance (t.applyInverse p) * t.scaling)
  | .error e => .error (.scale e)

/-- The distance from a point to a scene that the motions `ms` have put in place. -/
def distance (ms : List Motion) (p : Vec3) : Shape → Except BuildError Float32
  | .leaf l => leafDistance ms p l.solid
  | .combine c a b => do
    let x ← a.distance ms p
    let y ← b.distance ms p
    return c.apply x y
  | .flate a amount => do
    let x ← a.distance ms p
    return x - amount
  | .place m a => a.distance (m :: ms) p

end Shape

end SignedDistance
