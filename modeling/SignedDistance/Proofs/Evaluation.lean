import SignedDistance.Proofs.Validation

set_option autoImplicit false

/-! # Running programs that pass

The machine is the other image of a growing forest: on its stack it has the values of the trees
(`Forest.machine`), as long as the declared depth leaves room for them. Since a program that passes
is written out from a tree, running it gives the value of the tree, and the room it takes is the
need of the tree, which the declared depth is equal to. -/

namespace SignedDistance

/-! ## One step of the machine -/

/-- Whether a word is the opcode of a solid. -/
def Word.isLeaf : Word → Bool
  | .op o => o.isLeaf
  | .imm _ => false

/-- Of the words of an instruction only its opcode counts, if numbers do not. -/
theorem Instruction.countP_words {f : Word → Bool} (hnumber : ∀ v, f (.imm v) = false)
    (i : Instruction) : i.words.countP f = if f (.op i.opcode) then 1 else 0 := by
  have hnumbers : (i.immediates.map Word.imm).countP f = 0 := by
    rw [List.countP_map]
    exact List.countP_eq_zero.2 fun v _ => by simp [hnumber v]
  rw [Instruction.words, List.countP_cons, hnumbers, Nat.zero_add]

theorem Instruction.countP_isLeaf_words (i : Instruction) :
    i.words.countP Word.isLeaf = if i.opcode.isLeaf then 1 else 0 :=
  i.countP_words fun _ => rfl

/-- A tree has as many leaves in its words as transforms. -/
theorem Assembly.countP_isLeaf_words (e : Assembly) :
    e.words.countP Word.isLeaf = e.transforms.length := by
  induction e with
  | solid s t =>
    rw [words_solid, Instruction.countP_isLeaf_words, Instruction.opcode, s.isLeaf_opcode]
    rfl
  | combine c a b iha ihb =>
    rw [words_combine, List.countP_append, List.countP_append, iha, ihb,
      Instruction.countP_isLeaf_words, Instruction.opcode, c.isLeaf_opcode, transforms,
      List.length_append]
    rfl
  | flate a amount ih =>
    rw [words_flate, List.countP_append, ih, Instruction.countP_isLeaf_words]
    rfl

namespace Machine

variable {p : Vec3} {depth index : Nat} {m m' : Machine} {ws : List Word}

theorem push_eq_ok {v : Float32} (h : push depth m v = .ok m') :
    m.stack.length < depth ∧ m' = ⟨v :: m.stack, m.pending⟩ := by
  rw [push] at h
  split at h
  · next hlt =>
    cases h
    exact ⟨hlt, rfl⟩
  · cases h

/-- A combination finds its operands on the stack and leaves its value there. -/
theorem step_combine_eq_ok {c : Combination}
    (h : (walk p depth).step index m (.combine c) = .ok m') :
    ∃ a b below, m.stack = b :: a :: below ∧ below.length < depth ∧
      m' = ⟨c.apply a b :: below, m.pending⟩ := by
  obtain ⟨stack, pending⟩ := m
  rcases stack with _ | ⟨b, _ | ⟨a, below⟩⟩
  · cases h
  · cases h
  · change push depth ⟨below, pending⟩ (c.apply a b) = .ok m' at h
    obtain ⟨hlt, rfl⟩ := push_eq_ok h
    exact ⟨a, b, below, rfl, hlt, rfl⟩

/-- A step stays within the declared depth, and takes a transform if it is that of a solid. -/
theorem step_eq_ok {i : Instruction} (h : (walk p depth).step index m i = .ok m') :
    m'.stack.length ≤ depth ∧ m'.pending = m.pending.drop (i.words.countP Word.isLeaf) := by
  obtain ⟨stack, pending⟩ := m
  rw [Instruction.countP_isLeaf_words]
  cases i with
  | solid s =>
    rw [Instruction.opcode, s.isLeaf_opcode, if_pos rfl]
    cases pending with
    | nil => cases h
    | cons t pending =>
      change push depth ⟨stack, pending⟩ (s.distance (t.applyInverse p) * t.scaling) = .ok m' at h
      obtain ⟨hlt, rfl⟩ := push_eq_ok h
      exact ⟨hlt, rfl⟩
  | combine c =>
    rw [Instruction.opcode, c.isLeaf_opcode, if_neg Bool.false_ne_true]
    obtain ⟨a, b, below, -, hlt, rfl⟩ := step_combine_eq_ok h
    exact ⟨hlt, rfl⟩
  | flate amount =>
    cases stack with
    | nil => cases h
    | cons a stack =>
      change push depth ⟨stack, pending⟩ (a - amount) = .ok m' at h
      obtain ⟨hlt, rfl⟩ := push_eq_ok h
      exact ⟨hlt, rfl⟩

theorem length_le_of_steps (h : (walk p depth).Steps index m ws m') (hm : m.stack.length ≤ depth) :
    m'.stack.length ≤ depth := by
  induction h with
  | nil index m => exact hm
  | cons head tail ih => exact ih (step_eq_ok head).1

/-- The transforms are used up in order, one for each solid. -/
theorem pending_of_steps (h : (walk p depth).Steps index m ws m') :
    m'.pending = m.pending.drop (ws.countP Word.isLeaf) := by
  induction h with
  | nil index m => rfl
  | cons head tail ih => rw [ih, (step_eq_ok head).2, List.drop_drop, List.countP_append]

end Machine

/-! ## The machine of a forest -/

namespace Forest

/-- The machine whose values are those of the trees. -/
def machine (p : Vec3) (f : Forest) : Machine := ⟨f.trees.map (·.value p), f.pending⟩

/-- An instruction does to the values of a forest what the machine makes of it. -/
theorem Grows.machine_step {f f' : Forest} {i : Instruction} (h : Grows f i f') (p : Vec3)
    {depth : Nat} (index : Nat) (hdepth : f'.trees.length ≤ depth) :
    (Machine.walk p depth).step index (f.machine p) i = .ok (f'.machine p) := by
  have hroom : ∀ (trees : List Assembly), trees.length + 1 ≤ depth →
      (trees.map (·.value p)).length < depth := by
    intro trees hle
    rwa [List.length_map]
  cases h with
  | solid s t trees pending => exact if_pos (hroom trees hdepth)
  | combine c a b trees pending => exact if_pos (hroom trees hdepth)
  | flate amount a trees pending => exact if_pos (hroom trees hdepth)

theorem need_singleton (e : Assembly) : need [e] = e.need := by
  rw [need, need, List.length_nil, Nat.zero_max, Nat.zero_add]

theorem Grows.need_eq {f f' : Forest} {i : Instruction} (h : Grows f i f') :
    need f'.trees = max (need f.trees) f'.trees.length := by
  -- the tally of a forest keeps its need as the peak, and the validator raises that by height
  have hheight := congrArg Tally.height h.tally_eq
  have hpeak := congrArg Tally.peak h.tally_eq
  simp only [tally, Tally.after] at hheight hpeak
  rw [hpeak, hheight]

theorem need_le_of_steps {index : Nat} {f f' : Forest} {ws : List Word}
    (h : walk.Steps index f ws f') : need f.trees ≤ need f'.trees := by
  induction h with
  | nil index f => exact Nat.le_refl _
  | cons head tail ih =>
    rw [(grows_of_step head).need_eq] at ih
    exact Nat.le_trans (Nat.le_max_left _ _) ih

/-- **Where trees grow, the machine goes along with their values**, given the depth they need. -/
theorem machine_steps {index : Nat} {f f' : Forest} {ws : List Word}
    (h : walk.Steps index f ws f') (p : Vec3) {depth : Nat} (hdepth : need f'.trees ≤ depth) :
    (Machine.walk p depth).Steps index (f.machine p) ws (f'.machine p) := by
  induction h with
  | nil index f => exact .nil index _
  | cons head tail ih =>
    have hgrows := grows_of_step head
    have hneed := need_le_of_steps tail
    rw [hgrows.need_eq] at hneed
    exact .cons (hgrows.machine_step p _ (by omega)) (ih hdepth)

/-- A need that was not there at the start is, at some point of the walk, the number of trees. -/
theorem exists_steps_length_eq_need {index : Nat} {f f' : Forest} {ws : List Word}
    (h : walk.Steps index f ws f') (hlt : need f.trees < need f'.trees) :
    ∃ done g, done <+: ws ∧ walk.Steps index f done g ∧ need g.trees = need f'.trees ∧
      g.trees.length = need f'.trees := by
  induction h with
  | nil index f => exact absurd hlt (Nat.lt_irrefl _)
  | @cons index f g f' i rest head tail ih =>
    rcases Nat.lt_or_ge (need g.trees) (need f'.trees) with hg | hg
    · -- the need is met further on
      obtain ⟨done, g', hpre, hsteps, hneed, hlength⟩ := ih hg
      exact ⟨i.words ++ done, g', (List.prefix_append_right_inj _).2 hpre, .cons head hsteps,
        hneed, hlength⟩
    · -- this step has raised the need to what it is in the end, and only a new height does that
      have hneed : need g.trees = need f'.trees := Nat.le_antisymm (need_le_of_steps tail) hg
      have hmax := (grows_of_step head).need_eq
      exact ⟨i.words, g, List.prefix_append _ _, .single head, hneed, by omega⟩

end Forest

/-! ## Programs that pass -/

namespace Program

/-- The machine that a program has become at a point once it has run the words `done`. -/
def Reaches (prog : Program) (p : Vec3) (done : List Word) (m : Machine) : Prop :=
  done <+: prog.words ∧
    (Machine.walk p prog.depth).run 0 0 (.start prog.transforms) done = .ok m

theorem reaches_of_steps (e : Assembly) (p : Vec3) {done : List Word} {g : Forest}
    (hpre : done <+: e.words) (hsteps : Forest.walk.Steps 0 ⟨[], e.transforms⟩ done g)
    (hneed : Forest.need g.trees ≤ e.need) : e.program.Reaches p done (g.machine p) :=
  ⟨hpre, (Forest.machine_steps hsteps p hneed).run_eq⟩

/-- A tree's program has the tree's value on its stack in the end, and nothing else is left. -/
theorem reaches_value (e : Assembly) (p : Vec3) :
    e.program.Reaches p e.words ⟨[e.value p], []⟩ := by
  have hsteps := Forest.steps_words e 0 [] []
  rw [List.append_nil] at hsteps
  exact reaches_of_steps e p List.prefix_rfl hsteps (Nat.le_of_eq (Forest.need_singleton e))

/-- **Running the program of a tree gives the value of the tree.** -/
theorem evaluate_assembly (e : Assembly) (p : Vec3) : e.program.evaluate p = .ok (e.value p) := by
  rw [evaluate, show e.program.words = e.words from rfl, (reaches_value e p).2]
  rfl

/-- **A program that passes runs to its end.** It meets none of the machine's malfunctions and
    leaves one value; behind every run of its words it has used as many transforms as there were
    solids, in order and all of them in the end; and the most values it ever has on its stack are
    as many as were declared. -/
theorem evaluate_ofParts {words : List Word} {transforms : List Transform} {depth : Nat}
    {prog : Program} (h : ofParts words transforms depth = .ok prog) (p : Vec3) :
    (∃ v, prog.evaluate p = .ok v ∧ prog.Reaches p words ⟨[v], []⟩) ∧
    words.countP Word.isLeaf = transforms.length ∧
    (∀ done m, prog.Reaches p done m →
      m.pending = transforms.drop (done.countP Word.isLeaf) ∧ m.stack.length ≤ depth) ∧
    ∃ done m, prog.Reaches p done m ∧ m.stack.length = depth := by
  obtain ⟨hcheck, rfl⟩ := ofParts_eq_ok_iff.1 h
  obtain ⟨e, rfl, rfl, rfl⟩ := exists_assembly_of_checkWords hcheck
  refine ⟨⟨e.value p, evaluate_assembly e p, reaches_value e p⟩, ?_, ?_, ?_⟩
  · exact e.countP_isLeaf_words
  · -- no tree is needed here: the machine itself refuses a step past its depth
    intro done m hreach
    have hsteps := Walk.run_eq_ok_iff.1 hreach.2
    exact ⟨Machine.pending_of_steps hsteps, Machine.length_le_of_steps hsteps (Nat.zero_le _)⟩
  · have hsteps := Forest.steps_words e 0 [] []
    have hneed := Forest.need_singleton e
    have hpos : Forest.need [] < Forest.need [e] := by
      rw [hneed]
      exact e.need_pos
    rw [List.append_nil] at hsteps
    obtain ⟨done, g, hpre, hgrown, hg, hlength⟩ :=
      Forest.exists_steps_length_eq_need hsteps hpos
    have hle := Nat.le_of_eq (hg.trans hneed)
    refine ⟨done, g.machine p, reaches_of_steps e p hpre hgrown hle, ?_⟩
    rw [Forest.machine, List.length_map, hlength, hneed]

/-- Three solids, the deeper operand on the right. -/
theorem evaluate_ofParts_right_nested :
    ∃ (prog : Program) (v : Float32),
      ofParts [.op .sphere, .imm 1, .op .cylinder, .imm 1, .imm 2, .op .sphere, .imm 3,
        .op .flate, .imm 0.5, .op .union, .op .blendDiff, .imm 0.25]
        [.identity, .identity, .identity] 3 = .ok prog ∧
      prog.evaluate ⟨1, 2, 3⟩ = .ok v ∧
      ∃ done m, prog.Reaches ⟨1, 2, 3⟩ done m ∧ m.stack.length = 3 := by
  obtain ⟨prog, h⟩ : ∃ prog, ofParts [.op .sphere, .imm 1, .op .cylinder, .imm 1, .imm 2,
      .op .sphere, .imm 3, .op .flate, .imm 0.5, .op .union, .op .blendDiff, .imm 0.25]
      [.identity, .identity, .identity] 3 = .ok prog := ⟨_, rfl⟩
  obtain ⟨⟨v, hevaluate, -⟩, -, -, hpeak⟩ := evaluate_ofParts h ⟨1, 2, 3⟩
  exact ⟨prog, v, h, hevaluate, hpeak⟩

end Program

end SignedDistance
