import SignedDistance.Program.Basic

set_option autoImplicit false

/-! # The stack machine

A program is run at a point. A solid takes the next transform, maps the point into the solid's own
frame and pushes the distance, scaled back to the world; a combination pops its right operand, then
its left; `flate` lowers the value on top. The machine checks each of its steps, so it also runs
programs that are not fit to run and says what went wrong. -/

namespace SignedDistance

/-- The state of the machine: its values, the last one first, and the transforms that are still to
    be used. -/
structure Machine where
  stack : List Float32
  pending : List Transform

/-- What goes wrong in a program that is not fit to run. -/
inductive Malfunction where
  | strayImmediate (index : Nat)
  | missingImmediates (index : Nat) (opcode : Opcode)
  /-- The index is that of the word behind the leaf and its numbers. -/
  | noTransform (index : Nat) (leaf : Opcode)
  | underflow (opcode : Opcode)
  | overflow (depth : Nat)
  | leftOver (values : Nat)
  deriving DecidableEq, Repr

def Malfunction.message : Malfunction → String
  | .strayImmediate index =>
    s!"malformed program: immediate at word {index} where an opcode was expected"
  | .missingImmediates index opcode =>
    s!"malformed program: {opcode.name} at word {index} is missing immediates"
  | .noTransform index leaf =>
    s!"malformed program: no transform left for {leaf.name} at word {index}"
  | .underflow opcode => s!"malformed program: stack underflow at {opcode.name}"
  | .overflow depth => s!"malformed program: value stack exceeds declared depth {depth}"
  | .leftOver values => s!"malformed program: {values} values left on the stack"

namespace Machine

def start (transforms : List Transform) : Machine := ⟨[], transforms⟩

/-- Push a value, which needs a stack below the declared depth. -/
def push (depth : Nat) (m : Machine) (v : Float32) : Except Malfunction Machine :=
  if m.stack.length < depth then .ok { m with stack := v :: m.stack } else .error (.overflow depth)

def step (p : Vec3) (depth index : Nat) (m : Machine) (i : Instruction) :
    Except Malfunction Machine :=
  match i with
  | .solid s =>
    match m.pending with
    | [] => .error (.noTransform (index + 1 + s.opcode.immediates) s.opcode)
    | t :: rest =>
      push depth { m with pending := rest } (s.distance (t.applyInverse p) * t.scaling)
  | .combine c =>
    match m.stack with
    | b :: a :: rest => push depth { m with stack := rest } (c.apply a b)
    | _ => .error (.underflow c.opcode)
  | .flate amount =>
    match m.stack with
    | a :: rest => push depth { m with stack := rest } (a - amount)
    | [] => .error (.underflow .flate)

/-- The walk that runs a stream. -/
def walk (p : Vec3) (depth : Nat) : Walk Malfunction Machine where
  strayImmediate index := .strayImmediate index
  missingImmediates index opcode := .missingImmediates index opcode
  step := step p depth

/-- The one value that a finished machine holds. -/
def result (m : Machine) : Except Malfunction Float32 :=
  match m.stack with
  | [v] => .ok v
  | stack => .error (.leftOver stack.length)

end Machine

namespace Program

/-- Run a program at a point. -/
def evaluate (prog : Program) (p : Vec3) : Except Malfunction Float32 := do
  let m ← (Machine.walk p prog.depth).run 0 0 (.start prog.transforms) prog.words
  m.result

/-- The signed distance from a point to the scene. A program that is not fit to run has no
    distance anywhere. -/
def distance (prog : Program) (p : Vec3) : Float32 :=
  match prog.evaluate p with
  | .ok v => v
  | .error _ => 0 / 0

end Program

end SignedDistance
