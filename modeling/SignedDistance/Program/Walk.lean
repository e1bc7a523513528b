import SignedDistance.Program.Instruction

set_option autoImplicit false

/-! # Walking a word stream

Checking a program and running it are walks of one kind. A walk goes over the words from the left,
reads one instruction at a time and passes a state along; it ends early at a number where an opcode
is due, at an opcode whose numbers are not all there, and at an instruction that its state refuses,
whichever comes first. An instruction is read where its opcode stands, and its numbers are passed
over one by one afterwards, so that the walk is a recursion on the stream itself. -/

namespace SignedDistance

variable {ε σ : Type}

/-- What sets one walk apart from another: what it calls the two defects of a stream, and what it
    does with an instruction that starts at a given word. -/
structure Walk (ε σ : Type) where
  strayImmediate (index : Nat) : ε
  missingImmediates (index : Nat) (opcode : Opcode) : ε
  step (index : Nat) (s : σ) (i : Instruction) : Except ε σ

namespace Walk

/-- The state behind a stream that starts at word `index`, of which the first `skip` words belong
    to an instruction that has been read. -/
@[specialize] def run (w : Walk ε σ) : (skip index : Nat) → σ → List Word → Except ε σ
  | _, _, s, [] => .ok s
  | skip + 1, index, s, _ :: rest => w.run skip (index + 1) s rest
  | 0, index, _, .imm _ :: _ => .error (w.strayImmediate index)
  | 0, index, s, .op o :: rest =>
    match Instruction.read? o rest with
    | none => .error (w.missingImmediates index o)
    | some i =>
      match w.step index s i with
      | .ok s => w.run o.immediates (index + 1) s rest
      | .error e => .error e

/-- Words that belong to an instruction already read make no difference but to the count. -/
theorem run_skip (w : Walk ε σ) (index : Nat) (s : σ) (skipped rest : List Word) :
    w.run skipped.length index s (skipped ++ rest) = w.run 0 (index + skipped.length) s rest := by
  induction skipped generalizing index with
  | nil => rfl
  | cons word skipped ih =>
    rw [List.length_cons, List.cons_append, run, ih, Nat.add_assoc, Nat.add_comm 1]

/-- An instruction at the head of a stream is one step. -/
theorem run_words (w : Walk ε σ) (index : Nat) (s : σ) (i : Instruction) (rest : List Word) :
    w.run 0 index s (i.words ++ rest) =
      (w.step index s i).bind fun s => w.run 0 (index + i.words.length) s rest := by
  rw [Instruction.words, List.cons_append, run, Instruction.read?_append]
  cases hstep : w.step index s i with
  | error e => simp [hstep, Except.bind]
  | ok s' =>
    have hskip := w.run_skip (index + 1) s' (i.immediates.map .imm) rest
    rw [List.length_map, Instruction.length_immediates] at hskip
    simp only [hstep, Except.bind, hskip, List.length_cons, List.length_map,
      Instruction.length_immediates, Nat.add_assoc, Nat.add_comm 1]

end Walk

end SignedDistance
