import SignedDistance.Geometry.Transform
import SignedDistance.Program.Validate

set_option autoImplicit false

/-! # Programs

A program is a scene compiled for the stack machine: its instructions as one flat stream of words,
in the order in which they run, one transform for each solid in the order of the solids, and the
stack depth that evaluation needs. Programs are built from smaller ones by concatenation. Two
operands run one after the other, the second on top of the value that the first has left, which is
where the depth of a combination comes from. -/

namespace SignedDistance

/-- A compiled scene. -/
structure Program where
  words : List Word
  transforms : List Transform
  depth : Nat

inductive BuildError where
  | scale (e : InvalidScale)
  | normal (n : Vec3)
  | threshold (opcode : Opcode) (t : Float32)

def BuildError.message : BuildError → String
  | .scale e => e.message
  | .normal n => s!"plane normal must be non-zero and finite, got {n.text}"
  | .threshold opcode t =>
    s!"{opcode.name} threshold must be positive and finite, got {Single.text t}"

namespace Program

def leafCount (p : Program) : Nat := p.transforms.length

/-- The text of words: an opcode starts a new line, unless nothing stands before it, and a number
    goes behind a blank. -/
def wordsText (first : Bool) : List Word → String
  | [] => ""
  | .op o :: rest => (if first then "" else "\n") ++ o.name ++ wordsText false rest
  | .imm v :: rest => " " ++ Single.text v ++ wordsText first rest

/-- One opcode a line, with its numbers. -/
def text (p : Program) : String := wordsText true p.words

/-! ## From parts -/

/-- A program from a word stream, transforms and a declared depth, if they fit together. -/
def ofParts (words : List Word) (transforms : List Transform) (depth : Nat) :
    Except ProgramError Program := do
  checkWords words transforms.length depth
  return ⟨words, transforms, depth⟩

def validate (p : Program) : Except ProgramError Unit :=
  checkWords p.words p.transforms.length p.depth

/-- Whether two programs have the same words, transforms and depth; numbers compare as numbers. -/
protected def beq (p q : Program) : Bool :=
  let sameQuat (a b : Quat) := a.x == b.x && a.y == b.y && a.z == b.z && a.w == b.w
  let sameVec (a b : Vec3) := a.x == b.x && a.y == b.y && a.z == b.z
  let sameTransform (a b : Transform) :=
    sameQuat a.rotation b.rotation && sameVec a.translation b.translation && a.scaling == b.scaling
  p.words == q.words && p.transforms.length == q.transforms.length &&
    (p.transforms.zip q.transforms).all (fun (a, b) => sameTransform a b) && p.depth == q.depth

instance : BEq Program := ⟨Program.beq⟩

/-! ## Solids

Sizes are given as full diameters and extents. -/

/-- A program of one solid, in place. -/
def leaf (s : Solid) : Program := ⟨(Instruction.solid s).words, [.identity], 1⟩

def sphere (diameter : Float32) : Program := leaf (.sphere (diameter * 0.5))

def ellipsoid (dx dy dz : Float32) : Program := leaf (.ellipsoid ⟨dx * 0.5, dy * 0.5, dz * 0.5⟩)

def box (sx sy sz : Float32) : Program := leaf (.box ⟨sx * 0.5, sy * 0.5, sz * 0.5⟩)

def cube (size : Float32) : Program := box size size size

/-- A torus: the diameter of its centre line, and that of its tube. -/
def torus (majorDiameter minorDiameter : Float32) : Program :=
  leaf (.torus (majorDiameter * 0.5) (minorDiameter * 0.5))

def cylinder (diameter height : Float32) : Program := leaf (.cylinder (diameter * 0.5) (height * 0.5))

def cone (diameter height : Float32) : Program := leaf (.cone (diameter * 0.5) (height * 0.5))

/-- A cone cut off below its apex. -/
def coninder (bottomDiameter topDiameter height : Float32) : Program :=
  leaf (.coninder (bottomDiameter * 0.5) (topDiameter * 0.5) (height * 0.5))

/-- The half-space behind a plane through the origin; the normal is brought to unit length. -/
def plane (n : Vec3) : Except BuildError Program :=
  if 0 < n.lengthSquared && n.isFinite then .ok (leaf (.plane n.normalize)) else .error (.normal n)

/-- Everything below height zero. -/
def ground : Program := leaf (.plane (Vec3.normalize ⟨0, 0, 1⟩))

/-! ## Combinations -/

/-- Run `p`, then `q`, then combine the two values they leave. -/
def combine (c : Combination) (p q : Program) : Program where
  words := p.words ++ q.words ++ (Instruction.combine c).words
  transforms := p.transforms ++ q.transforms
  depth := max p.depth (q.depth + 1)

def union (p q : Program) : Program := combine .union p q

def inter (p q : Program) : Program := combine .inter p q

/-- What `q` leaves of `p`. -/
def diff (p q : Program) : Program := combine .diff p q

/-- Combine two programs; a blend has to have a threshold that is fit for use. -/
def combineChecked (c : Combination) (p q : Program) : Except BuildError Program :=
  match c.threshold? with
  | some t => if Single.isPositiveFinite t then .ok (combine c p q) else .error (.threshold c.opcode t)
  | none => .ok (combine c p q)

/-- A union with a fillet where the two surfaces meet. -/
def blendUnion (p q : Program) (threshold : Float32) : Except BuildError Program :=
  combineChecked (.blendUnion threshold) p q

def blendInter (p q : Program) (threshold : Float32) : Except BuildError Program :=
  combineChecked (.blendInter threshold) p q

def blendDiff (p q : Program) (threshold : Float32) : Except BuildError Program :=
  combineChecked (.blendDiff threshold) p q

/-- Move the surface outward by an amount. -/
def flate (p : Program) (amount : Float32) : Program :=
  { p with words := p.words ++ (Instruction.flate amount).words }

/-! ## Placement -/

def mapTransforms (f : Transform → Transform) (p : Program) : Program :=
  { p with transforms := p.transforms.map f }

def translate (p : Program) (offset : Vec3) : Program := p.mapTransforms (·.translate offset)

def rotate (p : Program) (q : Quat) : Program := p.mapTransforms (·.rotate q)

def rotateX (p : Program) (angle : Float32) : Program := p.rotate (.aboutX angle)

def rotateY (p : Program) (angle : Float32) : Program := p.rotate (.aboutY angle)

def rotateZ (p : Program) (angle : Float32) : Program := p.rotate (.aboutZ angle)

/-- Scale about the world's origin. Every transform is scaled on its own, and the first that
    refuses the factor ends the work. -/
def scale (p : Program) (factor : Float32) : Except BuildError Program :=
  match p.transforms.mapM fun t : Transform => t.scale factor with
  | .ok transforms => .ok { p with transforms }
  | .error e => .error (.scale e)

end Program

end SignedDistance
