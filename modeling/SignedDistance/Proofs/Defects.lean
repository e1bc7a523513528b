import Mathlib.Order.Bounds.Basic
import SignedDistance.Proofs.Evaluation

set_option autoImplicit false

/-! # What the validator finds

A stream may have several defects; the validator tells of one. Which one is said here without the
validator: an opcode is due at a word (`Due`) if every instruction in front of it is in order,
so that what is wrong there (`Flaw`) is the first flaw of the stream. The program as a whole is
looked at only where there is none (`Program.FirstDefect`). A flaw stays whatever comes behind it,
except that numbers beyond the end of the stream may still come. -/

namespace SignedDistance

/-! ## Arriving at a word -/

/-- There is a number in each of the `n` places behind word `i`. -/
def NumbersBehind (ws : List Word) (i n : Nat) : Prop :=
  ∀ j < n, ∃ v, ws[i + 1 + j]? = some (.imm v)

/-- Reading instructions from the first word on, each of which has its numbers and finds its
    operands, one arrives at word `i` with so many values on the stack. -/
inductive Due (ws : List Word) : (i height : Nat) → Prop
  | start : Due ws 0 0
  | next {i height : Nat} {o : Opcode} (here : Due ws i height) (opcode : ws[i]? = some (.op o))
      (numbers : NumbersBehind ws i o.immediates) (operands : o.operands ≤ height) :
      Due ws (i + 1 + o.immediates) (height - o.operands + 1)

variable {ws more : List Word} {i height n : Nat}

/-- A word stays where it is if others come behind. -/
theorem getElem?_append_of_eq_some {word : Word} (h : ws[i]? = some word) :
    (ws ++ more)[i]? = some word := by
  rw [List.getElem?_append_left (List.getElem?_eq_some_iff.1 h).1, h]

/-- The word behind others is the head of the rest. -/
theorem getElem?_append_length {done rest : List Word} {word : Word} :
    (done ++ rest)[done.length]? = some word ↔ ∃ tail, rest = word :: tail := by
  rw [List.getElem?_append_right (Nat.le_refl _), Nat.sub_self]
  cases rest with
  | nil => simp
  | cons head tail => simp

theorem NumbersBehind.append (h : NumbersBehind ws i n) : NumbersBehind (ws ++ more) i n := by
  intro j hj
  obtain ⟨v, hv⟩ := h j hj
  exact ⟨v, getElem?_append_of_eq_some hv⟩

/-- Further words change nothing on the way to a word. -/
theorem Due.append (h : Due ws i height) : Due (ws ++ more) i height := by
  induction h with
  | start => exact .start
  | next here opcode numbers operands ih =>
    exact .next ih (getElem?_append_of_eq_some opcode) numbers.append operands

/-- An instruction leaves a value. -/
theorem Due.height_pos_iff (h : Due ws i height) : 0 < height ↔ 0 < i := by
  cases h with
  | start => rfl
  | next here opcode numbers operands => exact iff_of_true (Nat.succ_pos _) (by omega)

/-! ## The walk of the validator -/

theorem Instruction.length_words (i : Instruction) :
    i.words.length = i.opcode.immediates + 1 := by
  rw [words, List.length_cons, List.length_map, length_immediates]

theorem numbersBehind_iff (done : List Word) (o : Opcode) (rest : List Word) :
    NumbersBehind (done ++ .op o :: rest) done.length o.immediates ↔
      ∃ i, Instruction.read? o rest = some i := by
  rw [Instruction.exists_read?_iff, NumbersBehind]
  simp [List.getElem?_append_right, Nat.add_assoc, Nat.add_comm 1]

namespace Tally

variable {index : Nat} {t t' : Tally}

theorem height_le_peak_of_steps (h : walk.Steps index t ws t') (ht : t.height ≤ t.peak) :
    t'.height ≤ t'.peak := by
  induction h with
  | nil index t => exact ht
  | cons head tail ih =>
    refine ih ?_
    rw [(step_eq_ok_iff.1 head).2]
    exact Nat.le_max_right _ _

theorem peak_le_of_steps (h : walk.Steps index t ws t') : t.peak ≤ t'.peak := by
  induction h with
  | nil index t => exact Nat.le_refl _
  | cons head tail ih =>
    rw [(step_eq_ok_iff.1 head).2] at ih
    exact Nat.le_trans (Nat.le_max_left _ _) ih

theorem leaves_of_steps (h : walk.Steps index t ws t') :
    t'.leaves = t.leaves + ws.countP Word.isLeaf := by
  induction h with
  | nil index t => simp
  | cons head tail ih =>
    rw [ih, (step_eq_ok_iff.1 head).2, after, List.countP_append,
      Instruction.countP_isLeaf_words, Nat.add_assoc]

/-- The peak is a height that has been reached, if it is not that of the beginning. -/
theorem exists_peak_of_steps (h : walk.Steps index t ws t') :
    t'.peak = t.peak ∨ ∃ done rest t₁, ws = done ++ rest ∧ walk.Steps index t done t₁ ∧
      t'.peak = t₁.height := by
  induction h with
  | nil index t => exact .inl rfl
  | @cons index t t₁ t' i rest head tail ih =>
    rcases ih with hpeak | ⟨done, left, t₂, rfl, hsteps, hpeak⟩
    · have hafter := (step_eq_ok_iff.1 head).2
      rcases Nat.le_total t₁.height t.peak with hle | hle
      · left
        rw [hpeak, hafter]
        rw [hafter] at hle
        exact Nat.max_eq_left hle
      · right
        refine ⟨i.words, rest, t₁, rfl, .single head, ?_⟩
        rw [hpeak, hafter]
        rw [hafter] at hle
        exact Nat.max_eq_right hle
    · right
      exact ⟨i.words ++ done, left, t₂, (List.append_assoc ..).symm, .cons head hsteps, hpeak⟩

end Tally

/-- Where an opcode is due the validator arrives by its steps. -/
theorem Due.exists_steps (h : Due ws i height) :
    ∃ done rest t, ws = done ++ rest ∧ done.length = i ∧
      Tally.walk.Steps 0 .start done t ∧ t.height = height := by
  induction h with
  | start => exact ⟨[], ws, .start, rfl, rfl, .nil 0 _, rfl⟩
  | @next i height o here opcode numbers operands ih =>
    obtain ⟨done, rest, t, rfl, rfl, hsteps, rfl⟩ := ih
    obtain ⟨rest, rfl⟩ := getElem?_append_length.1 opcode
    obtain ⟨i, hread⟩ := (numbersBehind_iff done o rest).1 numbers
    obtain ⟨rfl, left, hwords⟩ := Instruction.read?_eq_some hread
    have hstep : Tally.walk.step (0 + done.length) t i = .ok (t.after i.opcode) :=
      Tally.step_eq_ok_iff.2 ⟨operands, rfl⟩
    refine ⟨done ++ i.words, left, t.after i.opcode, ?_, ?_, hsteps.append (.single hstep), rfl⟩
    · rw [hwords, List.append_assoc]
    · rw [List.length_append, i.length_words, Nat.add_assoc, Nat.add_comm 1]

theorem Due.words {done rest : List Word} {i : Instruction}
    (h : Due (done ++ (i.words ++ rest)) done.length height) (hop : i.opcode.operands ≤ height) :
    Due (done ++ (i.words ++ rest)) (done.length + i.words.length)
      (height - i.opcode.operands + 1) := by
  rw [i.length_words, Nat.add_comm _ 1, ← Nat.add_assoc]
  refine h.next ?_ ?_ hop
  · exact getElem?_append_length.2 ⟨_, rfl⟩
  · exact (numbersBehind_iff done i.opcode (i.immediates.map .imm ++ rest)).2
      ⟨i, Instruction.read?_append i rest⟩

/-- What the validator goes over by steps is in order. -/
theorem Due.of_steps {index : Nat} {t t' : Tally} {mid : List Word}
    (h : Tally.walk.Steps index t mid t') {done rest : List Word} (hdone : done.length = index)
    (hdue : Due (done ++ (mid ++ rest)) index t.height) :
    Due (done ++ (mid ++ rest)) (index + mid.length) t'.height := by
  induction h generalizing done with
  | nil index t => exact hdue
  | @cons index t t₁ t' i mid head tail ih =>
    subst hdone
    obtain ⟨hop, rfl⟩ := Tally.step_eq_ok_iff.1 head
    rw [List.append_assoc] at hdue ⊢
    have hnext := hdue.words hop
    rw [← List.append_assoc] at hnext ⊢
    rw [List.length_append, ← Nat.add_assoc]
    exact ih (List.length_append ..) hnext

theorem due_of_steps {done : List Word} {t : Tally} (h : Tally.walk.Steps 0 .start done t)
    (rest : List Word) : Due (done ++ rest) done.length t.height := by
  have hdue : Due ([] ++ (done ++ rest)) (0 + done.length) t.height :=
    Due.of_steps h rfl .start
  rwa [List.nil_append, Nat.zero_add] at hdue

/-- The peak behind a stream is the greatest height on the way. -/
theorem Tally.isGreatest_peak {t : Tally} (h : Tally.walk.Steps 0 .start ws t) :
    IsGreatest {height | ∃ i, Due ws i height} t.peak := by
  constructor
  · rcases exists_peak_of_steps h with hpeak | ⟨done, rest, t₁, rfl, hsteps, hpeak⟩
    · exact ⟨0, hpeak ▸ .start⟩
    · exact ⟨done.length, hpeak ▸ due_of_steps hsteps rest⟩
  · rintro height ⟨i, hdue⟩
    obtain ⟨done, rest, t₁, rfl, rfl, hsteps, rfl⟩ := hdue.exists_steps
    have hheight := height_le_peak_of_steps hsteps (Nat.le_refl 0)
    exact Nat.le_trans hheight (peak_le_of_steps (h.of_append hsteps))

/-- The tally behind a stream is told by the stream. -/
theorem Tally.spec_of_steps {t : Tally} (h : Tally.walk.Steps 0 .start ws t) :
    Due ws ws.length t.height ∧ t.leaves = ws.countP Word.isLeaf ∧
      IsGreatest {height | ∃ i, Due ws i height} t.peak := by
  refine ⟨?_, ?_, isGreatest_peak h⟩
  · simpa using due_of_steps h []
  · rw [leaves_of_steps h, start, Nat.zero_add]

/-- Where an opcode is due behind the last word, the validator has come to the end. -/
theorem Due.exists_steps_of_end (h : Due ws ws.length height) :
    ∃ t, Tally.walk.Steps 0 .start ws t ∧ t.height = height := by
  obtain ⟨done, rest, t, hws, hlength, hsteps, hheight⟩ := h.exists_steps
  obtain rfl : rest = [] := by
    have hsum := congrArg List.length hws
    rw [List.length_append, hlength] at hsum
    exact List.eq_nil_of_length_eq_zero (by omega)
  rw [List.append_nil] at hws
  exact ⟨t, hws ▸ hsteps, hheight⟩

/-! ## Flaws of an instruction -/

/-- What is wrong at word `i`, where an opcode is due and there are so many values on the stack: a
    number stands there; or the opcode has not all its numbers; or it has them and not its
    operands. -/
inductive Flaw (ws : List Word) (i height : Nat) : ProgramError → Prop
  | stray {v : Float32} (number : ws[i]? = some (.imm v)) : Flaw ws i height (.strayImmediate i)
  | missing {o : Opcode} (opcode : ws[i]? = some (.op o))
      (numbers : ¬NumbersBehind ws i o.immediates) :
      Flaw ws i height (.missingImmediates i o o.immediates)
  | underflow {o : Opcode} (opcode : ws[i]? = some (.op o))
      (numbers : NumbersBehind ws i o.immediates) (operands : height < o.operands) :
      Flaw ws i height (.stackUnderflow i o)

theorem Tally.step_eq_error_iff {index : Nat} {t : Tally} {i : Instruction} {e : ProgramError} :
    walk.step index t i = .error e ↔
      t.height < i.opcode.operands ∧ e = .stackUnderflow index i.opcode := by
  show step index t i = .error e ↔ _
  rw [step]
  split
  · next hlt => simp [hlt, eq_comm]
  · next hle => simp [hle]

/-- What stops the walk of the validator is a flaw. -/
theorem Tally.stopsAt_iff {done rest : List Word} {t : Tally} {e : ProgramError} :
    walk.StopsAt done.length t rest e ↔ Flaw (done ++ rest) done.length t.height e := by
  constructor
  · intro h
    cases h with
    | stray v rest => exact .stray (getElem?_append_length.2 ⟨rest, rfl⟩)
    | @missing o rest unread =>
      refine .missing (getElem?_append_length.2 ⟨rest, rfl⟩) fun numbers => ?_
      obtain ⟨i, hread⟩ := (numbersBehind_iff done o rest).1 numbers
      simp [unread] at hread
    | @refused i e step rest =>
      obtain ⟨hlt, rfl⟩ := step_eq_error_iff.1 step
      refine .underflow (getElem?_append_length.2 ⟨_, rfl⟩) ?_ hlt
      exact (numbersBehind_iff done i.opcode (i.immediates.map .imm ++ rest)).2
        ⟨i, Instruction.read?_append i rest⟩
  · intro h
    cases h with
    | @stray v number =>
      obtain ⟨rest, rfl⟩ := getElem?_append_length.1 number
      exact .stray v rest
    | @missing o opcode numbers =>
      obtain ⟨rest, rfl⟩ := getElem?_append_length.1 opcode
      rw [numbersBehind_iff, not_exists] at numbers
      exact .missing (Option.eq_none_iff_forall_ne_some.2 numbers)
    | @underflow o opcode numbers operands =>
      obtain ⟨rest, rfl⟩ := getElem?_append_length.1 opcode
      obtain ⟨i, hread⟩ := (numbersBehind_iff done o rest).1 numbers
      obtain ⟨rfl, left, hwords⟩ := Instruction.read?_eq_some hread
      rw [hwords]
      exact .refused (step_eq_error_iff.2 ⟨operands, rfl⟩) left

theorem Tally.run_eq_error_iff {e : ProgramError} :
    walk.run 0 0 .start ws = .error e ↔ ∃ i height, Due ws i height ∧ Flaw ws i height e := by
  rw [Walk.run_eq_error_iff]
  constructor
  · rintro ⟨done, rest, t, rfl, hsteps, hstop⟩
    rw [Nat.zero_add] at hstop
    exact ⟨done.length, t.height, due_of_steps hsteps rest, stopsAt_iff.1 hstop⟩
  · rintro ⟨i, height, hdue, hflaw⟩
    obtain ⟨done, rest, t, rfl, rfl, hsteps, rfl⟩ := hdue.exists_steps
    exact ⟨done, rest, t, rfl, hsteps, by rw [Nat.zero_add]; exact stopsAt_iff.2 hflaw⟩

theorem Tally.check_eq_error_iff {t : Tally} {transforms depth : Nat} {e : ProgramError} :
    t.check transforms depth = .error e ↔
      (t.height ≠ 1 ∧ e = .unbalanced t.height) ∨
      (t.height = 1 ∧ t.leaves ≠ transforms ∧ e = .transformCount t.leaves transforms) ∨
      (t.height = 1 ∧ t.leaves = transforms ∧ depth ≠ t.peak ∧ e = .stackDepth depth t.peak) := by
  rw [check]
  split
  · next hheight => simp [hheight, eq_comm]
  · next hheight =>
    split
    · next hleaves => simp [Decidable.not_not.1 hheight, hleaves, eq_comm]
    · next hleaves =>
      split
      · next hpeak =>
        simp [Decidable.not_not.1 hheight, Decidable.not_not.1 hleaves, Ne.symm hpeak, eq_comm]
      · next hpeak =>
        simp [Decidable.not_not.1 hheight, Decidable.not_not.1 hleaves,
          Decidable.not_not.1 hpeak]

/-- The first thing wrong with a program: a flaw of the first instruction that has one, or what is
    wrong behind the last. -/
inductive Program.FirstDefect (p : Program) : ProgramError → Prop
  | empty (nil : p.words = []) : FirstDefect p .empty
  | flaw {i height : Nat} {e : ProgramError} (due : Due p.words i height)
      (flaw : Flaw p.words i height e) : FirstDefect p e
  | unbalanced {height : Nat} (ne_nil : p.words ≠ []) (due : Due p.words p.words.length height)
      (height_ne : height ≠ 1) : FirstDefect p (.unbalanced height)
  | transformCount (due : Due p.words p.words.length 1)
      (leaves_ne : p.words.countP Word.isLeaf ≠ p.transforms.length) :
      FirstDefect p (.transformCount (p.words.countP Word.isLeaf) p.transforms.length)
  | stackDepth {required : Nat} (due : Due p.words p.words.length 1)
      (leaves : p.words.countP Word.isLeaf = p.transforms.length)
      (greatest : IsGreatest {height | ∃ i, Due p.words i height} required)
      (depth_ne : p.depth ≠ required) : FirstDefect p (.stackDepth p.depth required)

/-- The errors that no word behind a stream can mend: all those of instructions, but not that there
    are too few words behind an opcode. -/
def Lasting (ws : List Word) : ProgramError → Prop
  | .strayImmediate _ | .stackUnderflow _ _ => True
  | .missingImmediates i _ n => ∃ j < n, ∃ o, ws[i + 1 + j]? = some (.op o)
  | _ => False

theorem Flaw.append {e : ProgramError} (h : Flaw ws i height e) (hlasting : Lasting ws e) :
    Flaw (ws ++ more) i height e := by
  cases h with
  | stray number => exact .stray (getElem?_append_of_eq_some number)
  | missing opcode numbers =>
    refine .missing (getElem?_append_of_eq_some opcode) fun hnumbers => ?_
    obtain ⟨j, hj, o', hop⟩ := hlasting
    obtain ⟨v, hv⟩ := hnumbers j hj
    rw [getElem?_append_of_eq_some hop] at hv
    cases hv
  | underflow opcode numbers operands =>
    exact .underflow (getElem?_append_of_eq_some opcode) numbers.append operands

/-! ## What the validator reports -/

namespace Program

variable {p : Program} {e : ProgramError}

theorem validate_of_ne_nil (h : p.words ≠ []) :
    p.validate =
      (Tally.walk.run 0 0 .start p.words).bind fun t => t.check p.transforms.length p.depth := by
  rw [validate, checkWords, if_neg (by simpa using h)]

theorem FirstDefect.of_validate (h : p.validate = .error e) : p.FirstDefect e := by
  by_cases hnil : p.words = []
  · simp only [validate, checkWords, hnil, List.isEmpty_nil, if_true, Except.error.injEq] at h
    subst h
    exact .empty hnil
  · rw [validate_of_ne_nil hnil] at h
    cases hrun : Tally.walk.run 0 0 .start p.words with
    | error e' =>
      rw [hrun] at h
      cases h
      obtain ⟨i, height, hdue, hflaw⟩ := Tally.run_eq_error_iff.1 hrun
      exact .flaw hdue hflaw
    | ok t =>
      rw [hrun] at h
      obtain ⟨hdue, hleaves, hpeak⟩ := Tally.spec_of_steps (Walk.run_eq_ok_iff.1 hrun)
      rcases Tally.check_eq_error_iff.1 h with ⟨hheight, rfl⟩ | ⟨hheight, hne, rfl⟩ |
        ⟨hheight, heq, hne, rfl⟩
      · exact .unbalanced hnil hdue hheight
      · rw [hheight] at hdue
        rw [hleaves] at hne ⊢
        exact .transformCount hdue hne
      · rw [hheight] at hdue
        rw [hleaves] at heq
        exact .stackDepth hdue heq hpeak hne

/-- Where every instruction is in order the tally is looked at, which the stream tells. -/
theorem exists_validate_eq_check {height : Nat} (hnil : p.words ≠ [])
    (hdue : Due p.words p.words.length height) :
    ∃ t : Tally, p.validate = t.check p.transforms.length p.depth ∧ t.height = height ∧
      t.leaves = p.words.countP Word.isLeaf ∧
      IsGreatest {height | ∃ i, Due p.words i height} t.peak := by
  obtain ⟨t, hsteps, hheight⟩ := hdue.exists_steps_of_end
  rw [validate_of_ne_nil hnil, hsteps.run_eq]
  exact ⟨t, rfl, hheight, (Tally.spec_of_steps hsteps).2⟩

theorem FirstDefect.validate_eq (h : p.FirstDefect e) : p.validate = .error e := by
  have hne_nil : Due p.words p.words.length 1 → p.words ≠ [] := by
    intro hdue
    exact List.length_pos_iff.1 (hdue.height_pos_iff.1 Nat.one_pos)
  cases h with
  | empty nil =>
    rw [validate, checkWords, nil]
    rfl
  | @flaw i height e due flaw =>
    have hnil : p.words ≠ [] := by
      intro hnil
      rw [hnil] at flaw
      cases flaw <;> simp_all
    rw [validate_of_ne_nil hnil, Tally.run_eq_error_iff.2 ⟨i, height, due, flaw⟩]
    rfl
  | unbalanced ne_nil due height_ne =>
    obtain ⟨t, hvalidate, rfl, -⟩ := exists_validate_eq_check ne_nil due
    rw [hvalidate, Tally.check_eq_error_iff]
    exact .inl ⟨height_ne, rfl⟩
  | transformCount due leaves_ne =>
    obtain ⟨t, hvalidate, hheight, hleaves, -⟩ := exists_validate_eq_check (hne_nil due) due
    rw [hvalidate, Tally.check_eq_error_iff, ← hleaves]
    exact .inr (.inl ⟨hheight, hleaves ▸ leaves_ne, rfl⟩)
  | stackDepth due leaves greatest depth_ne =>
    obtain ⟨t, hvalidate, hheight, hleaves, hpeak⟩ := exists_validate_eq_check (hne_nil due) due
    obtain rfl := greatest.unique hpeak
    rw [hvalidate, Tally.check_eq_error_iff]
    exact .inr (.inr ⟨hheight, hleaves.trans leaves, depth_ne, rfl⟩)

theorem validate_eq_error_iff : p.validate = .error e ↔ p.FirstDefect e :=
  ⟨FirstDefect.of_validate, FirstDefect.validate_eq⟩

/-- **The validator reports the first defect.** Whatever the words, the transforms and the depth,
    the error is the flaw of the first instruction that has one; only where there is none it is
    that of the whole, and then values are left over, never missing. An error that no word behind
    the stream can mend is still reported if words are put there and the rest is replaced. -/
theorem validate_first_defect (p : Program) :
    (∀ e, p.validate = .error e ↔ p.FirstDefect e) ∧
    (∀ height, p.validate = .error (.unbalanced height) → 2 ≤ height) ∧
    ∀ e, p.validate = .error e → Lasting p.words e →
      ∀ (more : List Word) (transforms : List Transform) (depth : Nat),
        (Program.mk (p.words ++ more) transforms depth).validate = .error e := by
  refine ⟨fun e => validate_eq_error_iff, ?_, ?_⟩
  · intro height h
    cases validate_eq_error_iff.1 h with
    | flaw due flaw => cases flaw
    | unbalanced ne_nil due height_ne =>
      have hpos := due.height_pos_iff.2 (List.length_pos_iff.2 ne_nil)
      omega
  · intro e h hlasting more transforms depth
    rw [validate_eq_error_iff] at h ⊢
    cases h with
    | flaw due flaw => exact .flaw due.append (flaw.append hlasting)
    | empty _ | unbalanced _ _ _ | transformCount _ _ | stackDepth _ _ _ _ => exact hlasting.elim

theorem validate_first_defect_union_short :
    (Program.mk [.op .sphere, .imm 1, .op .union] [] 0).validate =
        .error (.stackUnderflow 2 .union) ∧
      (Program.mk [.op .sphere, .imm 1, .op .union, .imm 2] [.identity] 1).validate =
        .error (.stackUnderflow 2 .union) ∧
      (Program.mk [.op .sphere, .imm 1, .op .sphere, .imm 1] [] 0).validate =
        .error (.unbalanced 2) ∧ 2 ≤ 2 :=
  ⟨rfl, (validate_first_defect ⟨[.op .sphere, .imm 1, .op .union], [], 0⟩).2.2 _ rfl trivial
      [.imm 2] [.identity] 1, rfl,
    (validate_first_defect ⟨[.op .sphere, .imm 1, .op .sphere, .imm 1], [], 0⟩).2.1 2 rfl⟩

end Program

end SignedDistance
