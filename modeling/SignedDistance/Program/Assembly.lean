import SignedDistance.Program.Machine

set_option autoImplicit false

/-! # Assemblies

An assembly is an expression tree whose solids have been put in place: every leaf carries a
transform of its own. Written out in post-order it is the word stream of a program, its leaves from
left to right are the transforms, and the values that have to be kept while a tree is worked out,
left operand first, are the stack depth. -/

namespace SignedDistance

/-- An expression tree of placed solids. -/
inductive Assembly where
  | solid (s : Solid) (t : Transform)
  | combine (c : Combination) (a b : Assembly)
  | flate (a : Assembly) (amount : Float32)

namespace Assembly

/-- The instructions of a tree, operands first. -/
def code : Assembly → List Instruction
  | .solid s _ => [.solid s]
  | .combine c a b => a.code ++ b.code ++ [.combine c]
  | .flate a amount => a.code ++ [.flate amount]

/-- The word stream of a tree. -/
def words (e : Assembly) : List Word := e.code.flatMap Instruction.words

/-- The transforms of the leaves from left to right. -/
def transforms : Assembly → List Transform
  | .solid _ t => [t]
  | .combine _ a b => a.transforms ++ b.transforms
  | .flate a _ => a.transforms

/-- The values that have to be kept at the same time: while the right operand is worked out, the
    value of the left one is kept as well. -/
def need : Assembly → Nat
  | .solid _ _ => 1
  | .combine _ a b => max a.need (b.need + 1)
  | .flate a _ => a.need

/-- The program of a tree. -/
def program (e : Assembly) : Program := ⟨e.words, e.transforms, e.need⟩

/-- The signed distance from a point to a tree, by recursion on the tree. -/
def value (p : Vec3) : Assembly → Float32
  | .solid s t => s.distance (t.applyInverse p) * t.scaling
  | .combine c a b => c.apply (a.value p) (b.value p)
  | .flate a amount => a.value p - amount

/-- Pass every transform through a function that may refuse it, from left to right. -/
def mapM {ε : Type} (f : Transform → Except ε Transform) : Assembly → Except ε Assembly
  | .solid s t => do
    let t ← f t
    return .solid s t
  | .combine c a b => do
    let a ← a.mapM f
    let b ← b.mapM f
    return .combine c a b
  | .flate a amount => do
    let a ← a.mapM f
    return .flate a amount

@[simp] theorem words_solid (s : Solid) (t : Transform) :
    (solid s t).words = (Instruction.solid s).words := by
  simp [words, code]

@[simp] theorem words_combine (c : Combination) (a b : Assembly) :
    (combine c a b).words = a.words ++ b.words ++ (Instruction.combine c).words := by
  simp [words, code]

@[simp] theorem words_flate (a : Assembly) (amount : Float32) :
    (flate a amount).words = a.words ++ (Instruction.flate amount).words := by
  simp [words, code]

theorem need_pos (e : Assembly) : 0 < e.need := by
  induction e with
  | solid s t => exact Nat.one_pos
  | combine c a b iha ihb =>
    rw [need]
    omega
  | flate a amount ih => exact ih

end Assembly

end SignedDistance
