import SignedDistance.Program.Walk

set_option autoImplicit false

/-! # Validating a word stream

A stream is walked with a tally of the stack: its height, its highest mark and the count of solids.
The first defect decides the error; only where the walk comes to the end are the final height, the
count of transforms and the declared depth looked at, in that order. -/

namespace SignedDistance

/-- What is wrong with a program assembled from parts. -/
inductive ProgramError where
  | empty
  | strayImmediate (index : Nat)
  | missingImmediates (index : Nat) (opcode : Opcode) (expected : Nat)
  | stackUnderflow (index : Nat) (opcode : Opcode)
  | unbalanced (remaining : Nat)
  | transformCount (leaves transforms : Nat)
  | stackDepth (declared required : Nat)
  deriving DecidableEq, Repr

def ProgramError.message : ProgramError → String
  | .empty => "Program has no words"
  | .strayImmediate index => s!"Expected an opcode at word {index}, found an immediate"
  | .missingImmediates index opcode expected =>
    s!"Opcode {opcode.name} at word {index} needs {expected} immediates"
  | .stackUnderflow index opcode =>
    s!"Opcode {opcode.name} at word {index} underflows the value stack"
  | .unbalanced remaining => s!"Program leaves {remaining} values on the stack, expected 1"
  | .transformCount leaves transforms =>
    s!"Program has {leaves} leaves but {transforms} transforms"
  | .stackDepth declared required =>
    s!"Declared stack depth {declared}, but evaluation needs {required}"

/-- What is known of the stack at some point of a program. -/
structure Tally where
  height : Nat
  peak : Nat
  leaves : Nat
  deriving DecidableEq, Repr

namespace Tally

def start : Tally := ⟨0, 0, 0⟩

/-- After one more opcode, which pops its operands and pushes its value. -/
def after (t : Tally) (o : Opcode) : Tally :=
  let height := t.height - o.operands + 1
  ⟨height, max t.peak height, t.leaves + if o.isLeaf then 1 else 0⟩

/-- One instruction, which has to find its operands on the stack. -/
def step (index : Nat) (t : Tally) (i : Instruction) : Except ProgramError Tally :=
  if t.height < i.opcode.operands then .error (.stackUnderflow index i.opcode)
  else .ok (t.after i.opcode)

/-- The walk that checks a stream. -/
def walk : Walk ProgramError Tally where
  strayImmediate index := .strayImmediate index
  missingImmediates index opcode := .missingImmediates index opcode opcode.immediates
  step := step

/-- Whether the tally behind a stream is that of one value, with as many solids as transforms and
    the depth that was declared. -/
def check (t : Tally) (transforms depth : Nat) : Except ProgramError Unit :=
  if t.height ≠ 1 then .error (.unbalanced t.height)
  else if t.leaves ≠ transforms then .error (.transformCount t.leaves transforms)
  else if t.peak ≠ depth then .error (.stackDepth depth t.peak)
  else .ok ()

end Tally

/-- Whether a stream is fit to run with a count of transforms and a stack depth. -/
def checkWords (words : List Word) (transforms depth : Nat) : Except ProgramError Unit :=
  if words.isEmpty then .error .empty
  else (Tally.walk.run 0 0 .start words).bind fun t => t.check transforms depth

end SignedDistance
