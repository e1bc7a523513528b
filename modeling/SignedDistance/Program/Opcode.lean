set_option autoImplicit false

/-! # Opcodes

The operations of the stack machine that evaluates a scene. A solid pushes one distance; a
combination pops two and pushes one; `flate` pops one and pushes one. -/

namespace SignedDistance

/-- An operation, without its numbers. -/
inductive Opcode where
  | sphere
  | ellipsoid
  | box
  | torus
  | cylinder
  | cone
  | coninder
  | plane
  | union
  | inter
  | diff
  | blendUnion
  | blendInter
  | blendDiff
  | flate
  deriving DecidableEq, Repr

namespace Opcode

def all : List Opcode :=
  [.sphere, .ellipsoid, .box, .torus, .cylinder, .cone, .coninder, .plane, .union, .inter, .diff,
    .blendUnion, .blendInter, .blendDiff, .flate]

def name : Opcode → String
  | .sphere => "sphere"
  | .ellipsoid => "ellipsoid"
  | .box => "box"
  | .torus => "torus"
  | .cylinder => "cylinder"
  | .cone => "cone"
  | .coninder => "coninder"
  | .plane => "plane"
  | .union => "union"
  | .inter => "inter"
  | .diff => "diff"
  | .blendUnion => "blend_union"
  | .blendInter => "blend_inter"
  | .blendDiff => "blend_diff"
  | .flate => "flate"

def ofName? (name : String) : Option Opcode := all.find? fun o => o.name = name

/-- How many numbers follow the opcode in the word stream. -/
def immediates : Opcode → Nat
  | .union | .inter | .diff => 0
  | .sphere | .blendUnion | .blendInter | .blendDiff | .flate => 1
  | .torus | .cylinder | .cone => 2
  | .ellipsoid | .box | .coninder | .plane => 3

/-- How many values the opcode pops. -/
def operands : Opcode → Nat
  | .union | .inter | .diff | .blendUnion | .blendInter | .blendDiff => 2
  | .flate => 1
  | _ => 0

/-- Whether the opcode is a solid, which uses up one transform. -/
def isLeaf : Opcode → Bool
  | .sphere | .ellipsoid | .box | .torus | .cylinder | .cone | .coninder | .plane => true
  | _ => false

end Opcode

end SignedDistance
