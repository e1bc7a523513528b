import SignedDistance.Program.Solid
import SignedDistance.Program.Combination

set_option autoImplicit false

/-! # Instructions and words

An instruction is an opcode with exactly its numbers. A program is a flat stream of words, each an
opcode or a number, and any stream at all may arrive. What an opcode says about the words behind it
is only how many numbers it takes; reading an instruction is to look at that many words and find a
number in every one of them. -/

namespace SignedDistance

/-- A step of the stack machine. -/
inductive Instruction where
  | solid (s : Solid)
  | combine (c : Combination)
  | flate (amount : Float32)

/-- One cell of a word stream. -/
inductive Word where
  | op (o : Opcode)
  | imm (v : Float32)
  deriving BEq

namespace Instruction

def opcode : Instruction → Opcode
  | .solid s => s.opcode
  | .combine c => c.opcode
  | .flate _ => .flate

def immediates : Instruction → List Float32
  | .solid s => s.immediates
  | .combine c => c.immediates
  | .flate amount => [amount]

/-- The instruction as words: its opcode, then its numbers. -/
def words (i : Instruction) : List Word := .op i.opcode :: i.immediates.map .imm

/-- The instruction that an opcode and a list of numbers make up, if the numbers are as many as the
    opcode needs. -/
def ofImmediates? : Opcode → List Float32 → Option Instruction
  | .sphere, [radius] => some (.solid (.sphere radius))
  | .ellipsoid, [x, y, z] => some (.solid (.ellipsoid ⟨x, y, z⟩))
  | .box, [x, y, z] => some (.solid (.box ⟨x, y, z⟩))
  | .torus, [major, minor] => some (.solid (.torus major minor))
  | .cylinder, [radius, halfHeight] => some (.solid (.cylinder radius halfHeight))
  | .cone, [radius, halfHeight] => some (.solid (.cone radius halfHeight))
  | .coninder, [bottom, top, halfHeight] => some (.solid (.coninder bottom top halfHeight))
  | .plane, [x, y, z] => some (.solid (.plane ⟨x, y, z⟩))
  | .union, [] => some (.combine .union)
  | .inter, [] => some (.combine .inter)
  | .diff, [] => some (.combine .diff)
  | .blendUnion, [t] => some (.combine (.blendUnion t))
  | .blendInter, [t] => some (.combine (.blendInter t))
  | .blendDiff, [t] => some (.combine (.blendDiff t))
  | .flate, [amount] => some (.flate amount)
  | _, _ => none

theorem ofImmediates?_self (i : Instruction) : ofImmediates? i.opcode i.immediates = some i := by
  cases i with
  | solid s => cases s <;> rfl
  | combine c => cases c <;> rfl
  | flate _ => rfl

theorem length_immediates (i : Instruction) : i.immediates.length = i.opcode.immediates := by
  cases i with
  | solid s => cases s <;> rfl
  | combine c => cases c <;> rfl
  | flate _ => rfl

/-- The first `n` words, if they are there and are all numbers. -/
def leadingNumbers : Nat → List Word → Option (List Float32)
  | 0, _ => some []
  | n + 1, .imm v :: rest => (leadingNumbers n rest).map (v :: ·)
  | _ + 1, _ => none

theorem leadingNumbers_map_imm (vs : List Float32) (rest : List Word) :
    leadingNumbers vs.length (vs.map .imm ++ rest) = some vs := by
  induction vs with
  | nil => simp [leadingNumbers]
  | cons v vs ih => simp [leadingNumbers, ih]

/-- The instruction of an opcode with the words `rest` behind it. -/
def read? (o : Opcode) (rest : List Word) : Option Instruction :=
  (leadingNumbers o.immediates rest).bind (ofImmediates? o)

theorem read?_append (i : Instruction) (rest : List Word) :
    read? i.opcode (i.immediates.map .imm ++ rest) = some i := by
  rw [read?, ← length_immediates, leadingNumbers_map_imm, Option.bind_some, ofImmediates?_self]

end Instruction

end SignedDistance
