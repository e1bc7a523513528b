import SignedDistance.Program.Walk

set_option autoImplicit false

/-! # How walks go

A walk that comes to the end of its stream has cut the stream into instructions and taken one step
for each of them. `Walk.Steps` says so without the counter of words to pass over, and what a walk
keeps up, or gives at its end, is proved by induction on it. A walk that ends early has gone by
steps over the words in front of the one where it stops (`Walk.StopsAt`). -/

namespace SignedDistance

variable {ε σ : Type}

/-- Two computations in a row succeed if both do. -/
theorem bind_eq_ok_iff {α β : Type} {x : Except ε α} {f : α → Except ε β} {b : β} :
    (x >>= f) = .ok b ↔ ∃ a, x = .ok a ∧ f a = .ok b := by
  cases x with
  | error e => simp [bind, Except.bind]
  | ok a => simp [bind, Except.bind]

/-- Of two computations in a row the first that fails is at fault. -/
theorem bind_eq_error_iff {α β : Type} {x : Except ε α} {f : α → Except ε β} {e : ε} :
    (x >>= f) = .error e ↔ x = .error e ∨ ∃ a, x = .ok a ∧ f a = .error e := by
  cases x with
  | error e => simp [bind, Except.bind]
  | ok a => simp [bind, Except.bind]

/-! ## What has been read -/

namespace Instruction

theorem ofImmediates?_eq_some {o : Opcode} {vs : List Float32} {i : Instruction}
    (h : ofImmediates? o vs = some i) : i.opcode = o ∧ i.immediates = vs := by
  unfold ofImmediates? at h
  -- a row of the table holds the opcode and the numbers of its instruction; the last row is empty
  split at h <;> cases h
  all_goals exact ⟨rfl, rfl⟩

theorem leadingNumbers_eq_some {n : Nat} {ws : List Word} {vs : List Float32}
    (h : leadingNumbers n ws = some vs) : vs.length = n ∧ ∃ rest, ws = vs.map .imm ++ rest := by
  induction n generalizing ws vs with
  | zero =>
    rw [leadingNumbers] at h
    cases Option.some.inj h
    exact ⟨rfl, ws, rfl⟩
  | succ n ih =>
    cases ws with
    | nil => cases h
    | cons word ws =>
      cases word with
      | op o => cases h
      | imm v =>
        rw [leadingNumbers, Option.map_eq_some_iff] at h
        obtain ⟨vs, hvs, rfl⟩ := h
        obtain ⟨hlength, rest, rfl⟩ := ih hvs
        exact ⟨congrArg (· + 1) hlength, rest, rfl⟩

/-- The words of an instruction that has been read are its opcode and what stood behind it. -/
theorem read?_eq_some {o : Opcode} {ws : List Word} {i : Instruction} (h : read? o ws = some i) :
    i.opcode = o ∧ ∃ rest, .op o :: ws = i.words ++ rest := by
  rw [read?, Option.bind_eq_some_iff] at h
  obtain ⟨vs, hvs, hi⟩ := h
  obtain ⟨rfl, rfl⟩ := ofImmediates?_eq_some hi
  obtain ⟨-, rest, rfl⟩ := leadingNumbers_eq_some hvs
  exact ⟨rfl, rest, rfl⟩

/-- The right count of numbers makes up an instruction of any opcode. -/
theorem exists_ofImmediates? {o : Opcode} {vs : List Float32} (h : vs.length = o.immediates) :
    ∃ i, ofImmediates? o vs = some i := by
  rcases vs with _ | ⟨x, _ | ⟨y, _ | ⟨z, _ | ⟨w, vs⟩⟩⟩⟩ <;> cases o
  all_goals simp [Opcode.immediates] at h
  all_goals exact ⟨_, rfl⟩

theorem leadingNumbers_isSome_iff {n : Nat} {ws : List Word} :
    (leadingNumbers n ws).isSome ↔ ∀ j < n, ∃ v, ws[j]? = some (.imm v) := by
  induction n generalizing ws with
  | zero => simp [leadingNumbers]
  | succ n ih =>
    cases ws with
    | nil =>
      refine iff_of_false Bool.false_ne_true fun h => ?_
      obtain ⟨v, hv⟩ := h 0 (Nat.succ_pos n)
      cases hv
    | cons word ws =>
      cases word with
      | op o =>
        refine iff_of_false Bool.false_ne_true fun h => ?_
        obtain ⟨v, hv⟩ := h 0 (Nat.succ_pos n)
        cases hv
      | imm v =>
        rw [leadingNumbers, Option.isSome_map, ih, Nat.forall_lt_succ_left]
        simp

/-- An opcode is read exactly if there is a number at each place where it needs one. -/
theorem exists_read?_iff {o : Opcode} {ws : List Word} :
    (∃ i, read? o ws = some i) ↔ ∀ j < o.immediates, ∃ v, ws[j]? = some (.imm v) := by
  rw [← leadingNumbers_isSome_iff, Option.isSome_iff_exists]
  simp only [read?, Option.bind_eq_some_iff]
  constructor
  · rintro ⟨i, vs, hvs, -⟩
    exact ⟨vs, hvs⟩
  · rintro ⟨vs, hvs⟩
    obtain ⟨i, hi⟩ := exists_ofImmediates? (leadingNumbers_eq_some hvs).1
    exact ⟨i, vs, hvs, hi⟩

theorem words_append_inj {i i' : Instruction} {ws ws' : List Word}
    (h : i.words ++ ws = i'.words ++ ws') : i = i' ∧ ws = ws' := by
  have hread := read?_append i ws
  rw [words, words, List.cons_append, List.cons_append, List.cons.injEq, Word.op.injEq] at h
  rw [h.1, h.2, read?_append, Option.some_inj] at hread
  subst hread
  exact ⟨rfl, List.append_cancel_left h.2⟩

/-- An instruction starts at the head of a stream or behind the instruction at the head: its opcode
    is none of the numbers in between. -/
theorem words_append_cons {i i' : Instruction} {word : Word} {done ws rest : List Word}
    (h : i'.words ++ ws = word :: done ++ (i.words ++ rest)) :
    ∃ more, word :: done = i'.words ++ more ∧ ws = more ++ (i.words ++ rest) := by
  rw [words, List.cons_append, List.cons_append, List.cons.injEq] at h
  obtain ⟨rfl, h⟩ := h
  rcases List.append_eq_append_iff.1 h with ⟨more, rfl, hmore⟩ | ⟨left, himms, hleft⟩
  · exact ⟨more, rfl, hmore⟩
  · cases left with
    | nil =>
      rw [List.append_nil] at himms
      exact ⟨[], by rw [List.append_nil, words, himms], hleft.symm⟩
    | cons x left =>
      rw [words, List.cons_append, List.cons_append, List.cons.injEq] at hleft
      have hmem : Word.op i.opcode ∈ i'.immediates.map Word.imm := by simp [himms, hleft.1]
      simp at hmem

end Instruction

/-! ## Steps -/

namespace Walk

/-- A walk over a whole stream from one state to another, one step for each instruction. -/
inductive Steps (w : Walk ε σ) : Nat → σ → List Word → σ → Prop
  | nil (index : Nat) (s : σ) : Steps w index s [] s
  | cons {index : Nat} {s s' s'' : σ} {i : Instruction} {rest : List Word}
      (head : w.step index s i = .ok s') (tail : Steps w (index + i.words.length) s' rest s'') :
      Steps w index s (i.words ++ rest) s''

variable {w : Walk ε σ} {index : Nat} {s s' s'' : σ} {ws ws' : List Word}

theorem Steps.single {i : Instruction} (h : w.step index s i = .ok s') :
    w.Steps index s i.words s' := by
  have hsteps := Steps.cons h (.nil _ s')
  rwa [List.append_nil] at hsteps

/-- Walks over two streams make up a walk over both. -/
theorem Steps.append (h : w.Steps index s ws s') (h' : w.Steps (index + ws.length) s' ws' s'') :
    w.Steps index s (ws ++ ws') s'' := by
  induction h with
  | nil index s => exact h'
  | cons head tail ih =>
    rw [List.length_append, ← Nat.add_assoc] at h'
    rw [List.append_assoc]
    exact .cons head (ih h')

theorem Steps.run_eq (h : w.Steps index s ws s') : w.run 0 index s ws = .ok s' := by
  induction h with
  | nil index s => rfl
  | cons head tail ih => rw [run_words, head, Except.bind, ih]

/-- Behind the words it has gone over, a walk goes on as if it started there. -/
theorem Steps.run_append (h : w.Steps index s ws s') (rest : List Word) :
    w.run 0 index s (ws ++ rest) = w.run 0 (index + ws.length) s' rest := by
  induction h with
  | nil index s => rfl
  | cons head tail ih =>
    rw [List.append_assoc, run_words, head, Except.bind, ih, List.length_append, Nat.add_assoc]

/-- What makes a walk stop at the head of a stream: a number, an opcode without its numbers, or an
    instruction that its state refuses. -/
inductive StopsAt (w : Walk ε σ) (index : Nat) (s : σ) : List Word → ε → Prop
  | stray (v : Float32) (rest : List Word) :
      StopsAt w index s (.imm v :: rest) (w.strayImmediate index)
  | missing {o : Opcode} {rest : List Word} (unread : Instruction.read? o rest = none) :
      StopsAt w index s (.op o :: rest) (w.missingImmediates index o)
  | refused {i : Instruction} {e : ε} (step : w.step index s i = .error e) (rest : List Word) :
      StopsAt w index s (i.words ++ rest) e

theorem StopsAt.run_eq {e : ε} (h : w.StopsAt index s ws e) : w.run 0 index s ws = .error e := by
  cases h with
  | stray v rest => rfl
  | missing unread => rw [run, unread]
  | refused step rest => rw [run_words, step, Except.bind]

/-- A walk goes by steps, to the end of its stream or to words that make it stop. -/
theorem exists_steps (w : Walk ε σ) (index : Nat) (s : σ) (ws : List Word) :
    ∃ done rest s', ws = done ++ rest ∧ w.Steps index s done s' ∧
      (rest = [] ∨ ∃ e, w.StopsAt (index + done.length) s' rest e) := by
  -- the rest of a stream behind an instruction is no direct part of it, only shorter
  induction hn : ws.length using Nat.strongRecOn generalizing index s ws with
  | _ n ih =>
    subst hn
    match ws with
    | [] => exact ⟨[], [], s, rfl, .nil index s, .inl rfl⟩
    | .imm v :: ws => exact ⟨[], _, s, rfl, .nil index s, .inr ⟨_, .stray v ws⟩⟩
    | .op o :: ws =>
      cases hread : Instruction.read? o ws with
      | none => exact ⟨[], _, s, rfl, .nil index s, .inr ⟨_, .missing hread⟩⟩
      | some i =>
        obtain ⟨-, rest, hrest⟩ := Instruction.read?_eq_some hread
        rw [hrest] at ih ⊢
        cases hstep : w.step index s i with
        | error e => exact ⟨[], _, s, rfl, .nil index s, .inr ⟨e, .refused hstep rest⟩⟩
        | ok t =>
          have hshorter : rest.length < (i.words ++ rest).length := by
            rw [List.length_append, Instruction.words, List.length_cons]
            omega
          obtain ⟨done, left, s', hleft, hsteps, hend⟩ :=
            ih rest.length hshorter (index + i.words.length) t rest rfl
          rw [Nat.add_assoc, ← List.length_append] at hend
          exact ⟨i.words ++ done, left, s', by rw [hleft, List.append_assoc],
            .cons hstep hsteps, hend⟩

/-- **A walk comes to its end exactly by steps.** -/
theorem run_eq_ok_iff : w.run 0 index s ws = .ok s' ↔ w.Steps index s ws s' := by
  refine ⟨fun h => ?_, Steps.run_eq⟩
  obtain ⟨done, rest, t, rfl, hsteps, hend⟩ := w.exists_steps index s ws
  rw [hsteps.run_append] at h
  rcases hend with rfl | ⟨e, hstop⟩
  · cases h
    rwa [List.append_nil]
  · cases hstop.run_eq.symm.trans h

/-- **A walk fails exactly by steps to words that make it stop.** -/
theorem run_eq_error_iff {e : ε} :
    w.run 0 index s ws = .error e ↔
      ∃ done rest s', ws = done ++ rest ∧ w.Steps index s done s' ∧
        w.StopsAt (index + done.length) s' rest e := by
  constructor
  · intro h
    obtain ⟨done, rest, t, rfl, hsteps, hend⟩ := w.exists_steps index s ws
    rw [hsteps.run_append] at h
    rcases hend with rfl | ⟨e', hstop⟩
    · cases h
    · cases hstop.run_eq.symm.trans h
      exact ⟨done, rest, t, rfl, hsteps, hstop⟩
  · rintro ⟨done, rest, t, rfl, hsteps, hstop⟩
    rw [hsteps.run_append, hstop.run_eq]

/-- A walk over a stream goes over the end of it behind words it has gone over. -/
theorem Steps.of_append (h : w.Steps index s (ws ++ ws') s'') (hws : w.Steps index s ws s') :
    w.Steps (index + ws.length) s' ws' s'' := by
  rw [← run_eq_ok_iff, ← hws.run_append, h.run_eq]

/-- A walk takes a step for every instruction of its stream. -/
theorem Steps.exists_step (h : w.Steps index s ws s'') {done rest : List Word} {i : Instruction}
    (hws : ws = done ++ (i.words ++ rest)) :
    ∃ s₁ s₂, w.Steps index s done s₁ ∧ w.step (index + done.length) s₁ i = .ok s₂ := by
  induction h generalizing done with
  | nil index s => simp [Instruction.words] at hws
  | @cons index s s' s'' i' ws head tail ih =>
    cases done with
    | nil =>
      obtain ⟨rfl, -⟩ := Instruction.words_append_inj hws
      exact ⟨s, s', .nil index s, head⟩
    | cons word done =>
      obtain ⟨more, hdone, hmore⟩ := Instruction.words_append_cons hws
      obtain ⟨s₁, s₂, hsteps, hstep⟩ := ih hmore
      rw [hdone, List.length_append, ← Nat.add_assoc]
      exact ⟨s₁, s₂, .cons head hsteps, hstep⟩

theorem Steps.unique (h : w.Steps index s ws s') (h' : w.Steps index s ws s'') : s' = s'' :=
  Except.ok.inj (h.run_eq.symm.trans h'.run_eq)

end Walk

end SignedDistance
