import SignedDistance.Number.Single
import SignedDistance.Program.Opcode

set_option autoImplicit false

/-! # Combinations

How two distances become one. Union, intersection and difference are the lesser, the greater and
the greater against the opposite. Their blends add a fillet: where the two distances are within a
threshold of each other, a quadratic bump rounds off the edge; elsewhere they agree with the sharp
combinations. -/

namespace SignedDistance

/-- A way to combine two distances. -/
inductive Combination where
  | union
  | inter
  | diff
  | blendUnion (threshold : Float32)
  | blendInter (threshold : Float32)
  | blendDiff (threshold : Float32)

namespace Combination

def opcode : Combination → Opcode
  | .union => .union
  | .inter => .inter
  | .diff => .diff
  | .blendUnion _ => .blendUnion
  | .blendInter _ => .blendInter
  | .blendDiff _ => .blendDiff

@[simp] theorem operands_opcode (c : Combination) : c.opcode.operands = 2 := by
  cases c <;> rfl

@[simp] theorem isLeaf_opcode (c : Combination) : c.opcode.isLeaf = false := by
  cases c <;> rfl

/-- The numbers of a combination in the order of the word stream. -/
def immediates : Combination → List Float32
  | .union | .inter | .diff => []
  | .blendUnion threshold | .blendInter threshold | .blendDiff threshold => [threshold]

def threshold? : Combination → Option Float32
  | .union | .inter | .diff => none
  | .blendUnion threshold | .blendInter threshold | .blendDiff threshold => some threshold

/-- The height of the fillet where two surfaces are `gap` apart. -/
@[inline] def fillet (threshold gap : Float32) : Float32 :=
  let h := Single.greatest (threshold - gap.abs) 0
  h * h * 0.25 / threshold

def apply (c : Combination) (a b : Float32) : Float32 :=
  match c with
  | .union => Single.least a b
  | .inter => Single.greatest a b
  | .diff => Single.greatest a (-b)
  | .blendUnion t => Single.least a b - fillet t (a - b)
  | .blendInter t => Single.greatest a b + fillet t (a - b)
  | .blendDiff t => Single.greatest a (-b) + fillet t (a + b)

end Combination

end SignedDistance
