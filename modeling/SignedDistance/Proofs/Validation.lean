import SignedDistance.Proofs.Forest

set_option autoImplicit false

/-! # What the validator accepts

The validator keeps three numbers and knows nothing of trees. This file shows that the numbers are
those of the forest that grows from the same words (`Forest.tally`): each of its steps is the image
of a growing step, and a stream that it walks over to the end has a forest behind it as soon as
there are as many transforms as solids. Passing is therefore the same as being written out from a
tree, which is the one tree of its words and transforms. -/

namespace SignedDistance

/-! ## The walk of the validator -/

namespace Tally

theorem step_eq_ok_iff {index : Nat} {t t' : Tally} {i : Instruction} :
    walk.step index t i = .ok t' ↔ i.opcode.operands ≤ t.height ∧ t' = t.after i.opcode := by
  show step index t i = .ok t' ↔ _
  rw [step]
  split
  · next hlt => simp [Nat.not_le.2 hlt]
  · next hle =>
    rw [Except.ok.injEq]
    exact ⟨fun h => ⟨Nat.not_lt.1 hle, h.symm⟩, fun h => h.2.symm⟩

theorem leaves_le_of_steps {index : Nat} {t t' : Tally} {ws : List Word}
    (h : walk.Steps index t ws t') : t.leaves ≤ t'.leaves := by
  induction h with
  | nil index t => exact Nat.le_refl _
  | cons head tail ih =>
    rw [(step_eq_ok_iff.1 head).2] at ih
    exact Nat.le_trans (Nat.le_add_right _ _) ih

theorem check_eq_ok_iff {t : Tally} {transforms depth : Nat} :
    t.check transforms depth = .ok () ↔ t = ⟨1, depth, transforms⟩ := by
  obtain ⟨height, peak, leaves⟩ := t
  rw [check, Tally.mk.injEq]
  split
  · next hheight => simp [hheight]
  · next hheight =>
    split
    · next hleaves => simp [hleaves]
    · next hleaves =>
      split
      · next hpeak => simp [hpeak]
      · next hpeak =>
        exact ⟨fun _ => ⟨Decidable.not_not.1 hheight, Decidable.not_not.1 hpeak,
          Decidable.not_not.1 hleaves⟩, fun _ => rfl⟩

end Tally

/-- A stream passes exactly if the tally behind it is that of one value, with the leaves and the
    peak that were declared. -/
theorem checkWords_eq_ok_iff {ws : List Word} {transforms depth : Nat} :
    checkWords ws transforms depth = .ok () ↔
      Tally.walk.Steps 0 .start ws ⟨1, depth, transforms⟩ := by
  rw [← Walk.run_eq_ok_iff]
  match ws with
  | [] => simp [checkWords, Walk.run, Tally.start]
  | word :: ws =>
    rw [checkWords, List.isEmpty_cons, if_neg Bool.false_ne_true]
    cases hrun : Tally.walk.run 0 0 .start (word :: ws) with
    | error e => simp [Except.bind]
    | ok t => rw [Except.bind, Tally.check_eq_ok_iff, Except.ok.injEq]

/-! ## The tally of a forest -/

namespace Forest

/-- The most values kept while a stack of trees is worked out, the oldest tree first. -/
def need : List Assembly → Nat
  | [] => 0
  | e :: trees => max (need trees) (trees.length + e.need)

/-- What the validator knows of a forest. -/
def tally (f : Forest) : Tally := ⟨f.trees.length, need f.trees, (transforms f.trees).length⟩

theorem Grows.operands_le {f f' : Forest} {i : Instruction} (h : Grows f i f') :
    i.opcode.operands ≤ f.tally.height := by
  cases h with
  | solid s t trees pending => simp [Instruction.opcode]
  | combine c a b trees pending => simp [Instruction.opcode, tally]
  | flate amount a trees pending => simp [Instruction.opcode, Opcode.operands, tally]

/-- An instruction does to the tally of a forest what the validator makes of its opcode. -/
theorem Grows.tally_eq {f f' : Forest} {i : Instruction} (h : Grows f i f') :
    f'.tally = f.tally.after i.opcode := by
  cases h with
  | solid s t trees pending =>
    simp [tally, Tally.after, Instruction.opcode, need, Assembly.need, transforms,
      Assembly.transforms]
  | combine c a b trees pending =>
    -- the new value stands where that of `a` stood, at a height `a` has already needed
    have ha := a.need_pos
    simp only [tally, Tally.after, Instruction.opcode, need, Assembly.need, transforms,
      Assembly.transforms, Combination.operands_opcode, Combination.isLeaf_opcode,
      List.length_cons, List.append_assoc, Tally.mk.injEq]
    exact ⟨by omega, by omega, rfl⟩
  | flate amount a trees pending =>
    have ha := a.need_pos
    simp only [tally, Tally.after, Instruction.opcode, need, Assembly.need, transforms,
      Assembly.transforms, Opcode.operands, Opcode.isLeaf, List.length_cons, Tally.mk.injEq]
    exact ⟨by omega, by omega, rfl⟩

/-- Where trees grow, the validator goes along with their tally. -/
theorem tally_steps {index : Nat} {f f' : Forest} {ws : List Word}
    (h : walk.Steps index f ws f') : Tally.walk.Steps index f.tally ws f'.tally := by
  induction h with
  | nil index f => exact .nil index f.tally
  | cons head tail ih =>
    have hgrows := grows_of_step head
    exact .cons (Tally.step_eq_ok_iff.2 ⟨hgrows.operands_le, hgrows.tally_eq⟩) ih

/-- Where the validator comes to its end, trees can grow, given a transform for each solid. -/
theorem exists_steps_of_tally {index : Nat} {t t' : Tally} {ws : List Word}
    (h : Tally.walk.Steps index t ws t') :
    ∀ f : Forest, f.tally = t → t.leaves + f.pending.length = t'.leaves →
      ∃ trees, walk.Steps index f ws ⟨trees, []⟩ ∧ Forest.tally ⟨trees, []⟩ = t' := by
  induction h with
  | nil index t =>
    intro f htally hpending
    obtain ⟨trees, pending⟩ := f
    have hnil : pending = [] := List.eq_nil_of_length_eq_zero (by simpa using hpending)
    rw [hnil] at htally ⊢
    exact ⟨trees, .nil index _, htally⟩
  | @cons index t t₁ t' i rest head tail ih =>
    intro f htally hpending
    obtain ⟨hop, hafter⟩ := Tally.step_eq_ok_iff.1 head
    have hleaves : t.leaves + (if i.opcode.isLeaf then 1 else 0) ≤ t'.leaves := by
      have hle := Tally.leaves_le_of_steps tail
      rwa [hafter] at hle
    -- a solid is counted among the leaves, so that its transform is still there
    have hleaf : i.opcode.isLeaf = true → f.pending ≠ [] := by
      intro hl hnil
      rw [if_pos hl] at hleaves
      rw [hnil, List.length_nil] at hpending
      omega
    -- the heights agree, so that the operands are there as well
    rw [← htally] at hop
    obtain ⟨f₁, hgrows⟩ := exists_grows f i hop hleaf
    have htally₁ : f₁.tally = t₁ := by rw [hgrows.tally_eq, htally, hafter]
    have hpending₁ : t₁.leaves + f₁.pending.length = t'.leaves := by
      have hlength := congrArg List.length hgrows.transforms_eq
      rw [List.length_append, List.length_append] at hlength
      rw [← htally₁, ← hpending, ← htally]
      exact hlength
    obtain ⟨trees, hsteps, hfinal⟩ := ih f₁ htally₁ hpending₁
    exact ⟨trees, .cons (hgrows.step_eq index) hsteps, hfinal⟩

end Forest

/-! ## Programs and trees -/

/-- The word stream of a tree passes with the tree's transforms and need. -/
theorem checkWords_assembly (e : Assembly) :
    checkWords e.words e.transforms.length e.need = .ok () := by
  have hsteps := Forest.tally_steps (Forest.steps_words e 0 [] [])
  rw [checkWords_eq_ok_iff]
  simpa [Forest.tally, Forest.need, Forest.transforms, Tally.start] using hsteps

/-- A stream that passes is written out from a tree. -/
theorem exists_assembly_of_checkWords {ws : List Word} {transforms : List Transform} {depth : Nat}
    (h : checkWords ws transforms.length depth = .ok ()) :
    ∃ e : Assembly, e.words = ws ∧ e.transforms = transforms ∧ e.need = depth := by
  rw [checkWords_eq_ok_iff] at h
  obtain ⟨trees, hsteps, htally⟩ :=
    Forest.exists_steps_of_tally h ⟨[], transforms⟩ rfl (Nat.zero_add _)
  have hwords := Forest.words_of_steps hsteps
  have htransforms := Forest.transforms_of_steps hsteps
  simp only [Forest.tally, Tally.mk.injEq] at htally
  obtain ⟨hheight, hneed, -⟩ := htally
  -- the height at the end is one, so the forest is a single tree
  obtain ⟨e, rfl⟩ := List.length_eq_one_iff.1 hheight
  simp only [Forest.words, Forest.transforms, Forest.need, List.nil_append, List.append_nil,
    List.length_nil, Nat.zero_add, Nat.zero_max] at hwords htransforms hneed
  exact ⟨e, hwords, htransforms, hneed⟩

namespace Program

theorem ofParts_eq_ok_iff {words : List Word} {transforms : List Transform} {depth : Nat}
    {prog : Program} :
    ofParts words transforms depth = .ok prog ↔
      checkWords words transforms.length depth = .ok () ∧ prog = ⟨words, transforms, depth⟩ := by
  rw [ofParts]
  cases hcheck : checkWords words transforms.length depth with
  | error e => simp [bind, Except.bind]
  | ok u => simp [bind, Except.bind, pure, Except.pure, eq_comm]

theorem ofParts_assembly (e : Assembly) :
    ofParts e.words e.transforms e.need = .ok e.program :=
  ofParts_eq_ok_iff.2 ⟨checkWords_assembly e, rfl⟩

/-- A program put together from parts is the program of a tree. -/
theorem exists_assembly_of_ofParts {words : List Word} {transforms : List Transform} {depth : Nat}
    {prog : Program} (h : ofParts words transforms depth = .ok prog) :
    ∃ e : Assembly, prog = e.program := by
  obtain ⟨hcheck, rfl⟩ := ofParts_eq_ok_iff.1 h
  obtain ⟨e, rfl, rfl, rfl⟩ := exists_assembly_of_checkWords hcheck
  exact ⟨e, rfl⟩

/-- **The parts that pass are those of the trees, each of just one tree.** -/
theorem ofParts_ok_iff_assembly (words : List Word) (transforms : List Transform) (depth : Nat) :
    ((∃ prog, ofParts words transforms depth = .ok prog) ↔
      ∃ e : Assembly, e.words = words ∧ e.transforms = transforms ∧ e.need = depth) ∧
    ∀ e e' : Assembly, e.words = e'.words → e.transforms = e'.transforms → e = e' := by
  refine ⟨⟨?_, ?_⟩, fun e e' => Forest.assembly_unique⟩
  · rintro ⟨prog, h⟩
    exact exists_assembly_of_checkWords (ofParts_eq_ok_iff.1 h).1
  · rintro ⟨e, rfl, rfl, rfl⟩
    exact ⟨e.program, ofParts_assembly e⟩

end Program

end SignedDistance
