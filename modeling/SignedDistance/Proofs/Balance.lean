import SignedDistance.Proofs.Defects
import SignedDistance.Proofs.Scaling

set_option autoImplicit false

/-! # Solids and combinations in balance

A solid puts a value on the stack, a combination puts one in the place of two, and `flate` puts one
in the place of one. The height behind a stream therefore tells by how many the solids in it
outnumber the combinations, and behind a program, which leaves one value, that is one. So every
program has a leaf, and what is asked of the leaves one by one is asked at least once: a factor
that is not fit to scale by does not get past all of them. -/

namespace SignedDistance

/-- Whether a word is the opcode of an operation on two values. -/
def Word.isBinary : Word → Bool
  | .op o => o.operands == 2
  | .imm _ => false

theorem Instruction.countP_isBinary_words (i : Instruction) :
    i.words.countP Word.isBinary = if i.opcode.operands == 2 then 1 else 0 :=
  i.countP_words fun _ => rfl

namespace Tally

variable {index : Nat} {t t' : Tally} {ws : List Word} {i : Instruction}

/-- What an instruction does to the height, if it finds its operands. -/
theorem height_after (h : i.opcode.operands ≤ t.height) :
    (t.after i.opcode).height + i.words.countP Word.isBinary =
      t.height + i.words.countP Word.isLeaf := by
  rw [Instruction.countP_isBinary_words, Instruction.countP_isLeaf_words, after]
  cases i with
  | solid s => simp [Instruction.opcode]
  | combine c =>
    simp only [Instruction.opcode, Combination.operands_opcode] at h
    simp [Instruction.opcode]
    omega
  | flate amount =>
    simp only [Instruction.opcode, Opcode.operands] at h
    simp [Instruction.opcode, Opcode.operands, Opcode.isLeaf]
    omega

/-- **The height tells by how many the solids outnumber the combinations.** -/
theorem height_of_steps (h : walk.Steps index t ws t') :
    t'.height + ws.countP Word.isBinary = t.height + ws.countP Word.isLeaf := by
  induction h with
  | nil index t => simp
  | @cons index t t₁ t' i rest head tail ih =>
    obtain ⟨hoperands, rfl⟩ := step_eq_ok_iff.1 head
    have hstep := height_after hoperands
    rw [List.countP_append, List.countP_append]
    omega

end Tally

namespace Program

variable {p : Program} {factor : Float32}

theorem balance_of_validate (h : p.validate = .ok ()) :
    p.words.countP Word.isLeaf = p.words.countP Word.isBinary + 1 ∧
      p.words.countP Word.isLeaf = p.leafCount := by
  have hsteps := checkWords_eq_ok_iff.1 h
  have hheight := Tally.height_of_steps hsteps
  have hleaves := Tally.leaves_of_steps hsteps
  simp only [Tally.start, Nat.zero_add] at hheight hleaves
  exact ⟨by omega, hleaves.symm⟩

/-! ## Factors -/

theorem scale_of_fit (p : Program) (h : Single.isPositiveFinite factor = true) :
    ∃ q, p.scale factor = .ok q := by
  have hscale : (fun t : Transform => t.scale factor) =
      fun t => .ok ⟨t.rotation, t.translation.scale factor, t.scaling * factor⟩ := by
    funext t
    exact bind_eq_ok_iff.2 ⟨factor, Placing.checkScale_eq_ok.2 ⟨h, rfl⟩, rfl⟩
  obtain ⟨ts, hts⟩ : ∃ ts, p.transforms.mapM (fun t : Transform => t.scale factor) = .ok ts := by
    rw [hscale]
    exact ⟨_, List.mapM_pure⟩
  rw [scale, hts]
  exact ⟨_, rfl⟩

/-- The first leaf is enough to stop a factor that is not fit. -/
theorem scale_of_unfit (hleaf : 0 < p.leafCount) (h : Single.isPositiveFinite factor = false) :
    p.scale factor = .error (.scale ⟨factor⟩) := by
  have hcheck : Transform.checkScale factor = .error ⟨factor⟩ := by simp [Transform.checkScale, h]
  obtain ⟨t, ts, htransforms⟩ := List.exists_cons_of_length_pos hleaf
  have hfirst : t.scale factor = .error ⟨factor⟩ := bind_eq_error_iff.2 (.inl hcheck)
  have hall : p.transforms.mapM (fun t => t.scale factor) = .error ⟨factor⟩ := by
    rw [htransforms, List.mapM_cons]
    exact bind_eq_error_iff.2 (.inl hfirst)
  rw [scale, hall]

end Program

/-- **No factor that is not fit slips through.** A program of a session has one solid more than
    combinations, and a transform for each solid, so that there is at least one; scaling it fails,
    and says by which factor, exactly if the factor is not a positive finite number. -/
theorem Session.scale_fails_iff {programs : List Program} (h : Session programs) {p : Program}
    (hp : p ∈ programs) :
    p.words.countP Word.isLeaf = p.words.countP Word.isBinary + 1 ∧
    p.words.countP Word.isLeaf = p.leafCount ∧ 0 < p.leafCount ∧
    ∀ factor : Float32,
      ((∃ e, p.scale factor = .error e) ↔ ¬(0 < factor ∧ factor.isFinite = true)) ∧
      (∀ e, p.scale factor = .error e → e = .scale ⟨factor⟩) ∧
      (factor.isNaN = true → p.scale factor = .error (.scale ⟨factor⟩)) := by
  obtain ⟨hvalid, -⟩ := h.validate_of_mem hp
  obtain ⟨hbalance, hleaves⟩ := Program.balance_of_validate hvalid
  have hpos : 0 < p.leafCount := by omega
  refine ⟨hbalance, hleaves, hpos, fun factor => ?_⟩
  rw [← Single.isPositiveFinite_iff]
  cases hfactor : Single.isPositiveFinite factor with
  | false =>
    have herror := Program.scale_of_unfit hpos hfactor
    simp [herror]
  | true =>
    obtain ⟨q, hq⟩ := p.scale_of_fit hfactor
    have hnan : factor.isNaN = false :=
      Single.isNaN_right_of_le (Single.le_of_lt (Single.isPositiveFinite_iff.1 hfactor).1)
    exact ⟨by simp [hq], by simp [hq], fun h => by rw [hnan] at h; cases h⟩

/-- A scene of three solids does not let a NaN pass, nor a zero, and is scaled by a half. -/
theorem Session.scale_fails_iff_three :
    ∃ p : Program, p = ((Program.sphere 2).union (Program.cube 1)).diff (Program.sphere 2) ∧
      p.words.countP Word.isLeaf = 3 ∧ p.words.countP Word.isBinary = 2 ∧ p.leafCount = 3 ∧
      p.scale (0 / 0) = .error (.scale ⟨0 / 0⟩) ∧ (∃ e, p.scale 0 = .error e) ∧
      ¬∃ e, p.scale 0.5 = .error e := by
  have hsphere : Session [Program.sphere 2] := .call .start (.sphere 2)
  have hcube := Session.call hsphere (.cube 1)
  have hunion := Session.call hcube (.union (.tail _ (.head _)) (.head _))
  have hdiff := Session.call hunion (.diff (.head _) (.tail _ (.tail _ (.head _))))
  obtain ⟨hbalance, hleaves, -, hscale⟩ := hdiff.scale_fails_iff (.head _)
  have hcount : (((Program.sphere 2).union (Program.cube 1)).diff (Program.sphere 2)).leafCount =
      3 := rfl
  refine ⟨_, rfl, by omega, by omega, hcount, (hscale (0 / 0)).2.2 (by decide +kernel), ?_, ?_⟩
  · exact (hscale 0).1.2 (by decide +kernel)
  · rw [(hscale 0.5).1]
    decide +kernel

end SignedDistance
