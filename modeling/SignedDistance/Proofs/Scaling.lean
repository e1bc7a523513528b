import SignedDistance.Proofs.Construction
import SignedDistance.Proofs.Number.Range

set_option autoImplicit false

/-! # The scale of a transform

Every factor that a transform is scaled by has to be positive and finite, but nothing is asked of
the product. It is rounded, to zero if it is too small and to infinity if it is too large, and then
no further factor brings it back: only a transform made from new parts does. -/

namespace SignedDistance

/-- A step in which a transform is made: from parts, or moved on. -/
inductive Placing where
  | new (rotation : Quat) (translation : Vec3) (factor : Float32)
  | move (m : Motion)

namespace Placing

def apply (s : Placing) (t : Transform) : Except InvalidScale Transform :=
  match s with
  | .new rotation translation factor => Transform.new rotation translation factor
  | .move m => m.moveTransform t

/-- The transform that comes of a sequence of steps, the first one taken from the identity. -/
def run (steps : List Placing) : Except InvalidScale Transform :=
  steps.foldlM (fun t s => s.apply t) .identity

/-- Whether a step makes a transform from parts. -/
def isNew : Placing → Bool
  | .new .. => true
  | .move _ => false

/-- One of the steps scales the transform `u` by the factor, and no later one starts anew. -/
def Scales (steps : List Placing) (u : Transform) (factor : Float32) : Prop :=
  ∃ before after, steps = before ++ .move (.scale factor) :: after ∧ run before = .ok u ∧
    ∀ s ∈ after, s.isNew = false

variable {steps : List Placing} {s : Placing} {t u : Transform} {factor : Float32}

/-! ## One more step -/

theorem run_concat_eq_ok :
    run (steps ++ [s]) = .ok t ↔ ∃ u, run steps = .ok u ∧ s.apply u = .ok t := by
  rw [run, List.foldlM_append, bind_eq_ok_iff]
  simp [run]

theorem scales_concat : Scales (steps ++ [s]) u factor ↔
    s = .move (.scale factor) ∧ run steps = .ok u ∨ s.isNew = false ∧ Scales steps u factor := by
  constructor
  · rintro ⟨before, after, heq, hrun, hafter⟩
    rcases List.eq_nil_or_concat after with rfl | ⟨after, s', rfl⟩
    · obtain ⟨rfl, hs⟩ := List.append_inj' heq rfl
      cases hs
      exact .inl ⟨rfl, hrun⟩
    · rw [List.concat_eq_append] at heq hafter
      rw [← List.cons_append, ← List.append_assoc] at heq
      obtain ⟨rfl, hs⟩ := List.append_inj' heq rfl
      cases hs
      refine .inr ⟨hafter s (by simp), before, after, rfl, hrun, fun s' hs' => hafter s' ?_⟩
      exact List.mem_append_left _ hs'
  · rintro (⟨rfl, hrun⟩ | ⟨hs, before, after, rfl, hrun, hafter⟩)
    · exact ⟨steps, [], rfl, hrun, by simp⟩
    · refine ⟨before, after ++ [s], by simp, hrun, fun s' hs' => ?_⟩
      rcases List.mem_append.1 hs' with hs' | hs'
      · exact hafter s' hs'
      · rwa [List.mem_singleton.1 hs']

theorem checkScale_eq_ok {f : Float32} :
    Transform.checkScale factor = .ok f ↔ Single.isPositiveFinite factor = true ∧ f = factor := by
  rw [Transform.checkScale]
  split_ifs with h
  · rw [Except.ok.injEq]
    exact ⟨fun heq => ⟨h, heq.symm⟩, fun heq => heq.2.symm⟩
  · simp [h]

/-- What a step does to the scale. -/
theorem apply_cases (h : s.apply u = .ok t) :
    s.isNew = true ∧ Single.isPositiveFinite t.scaling = true ∨
    (∃ factor, s = .move (.scale factor) ∧ Single.isPositiveFinite factor = true ∧
      t.scaling = u.scaling * factor) ∨
    s.isNew = false ∧ (∀ factor, s ≠ .move (.scale factor)) ∧ t.scaling = u.scaling := by
  cases s with
  | new rotation translation factor =>
    rw [apply, Transform.new, bind_eq_ok_iff] at h
    obtain ⟨f, hf, h⟩ := h
    obtain ⟨hfactor, rfl⟩ := checkScale_eq_ok.1 hf
    cases h
    exact .inl ⟨rfl, hfactor⟩
  | move m =>
    cases m with
    | scale factor =>
      rw [apply, Motion.moveTransform, Transform.scale, bind_eq_ok_iff] at h
      obtain ⟨f, hf, h⟩ := h
      obtain ⟨hfactor, rfl⟩ := checkScale_eq_ok.1 hf
      cases h
      exact .inr (.inl ⟨_, rfl, hfactor, rfl⟩)
    | translate | rotate | rotateX | rotateY | rotateZ =>
      cases h
      exact .inr (.inr ⟨rfl, by simp, rfl⟩)

/-! ## Whole sequences -/

/-- **What the scale of a transform is**: not negative, and positive and finite exactly where every
    product on the way fitted, as far back as the transform was last made from parts. -/
theorem scaling_of_run (h : run steps = .ok t) :
    0 ≤ t.scaling ∧ (Single.isPositiveFinite t.scaling = true ↔
      ∀ u factor, Scales steps u factor → Single.ProductFits u.scaling factor) := by
  induction steps using List.reverseRecOn generalizing t with
  | nil =>
    cases h
    have hone : Single.isPositiveFinite 1 = true := by decide +kernel
    refine ⟨Single.le_of_lt (Single.isPositiveFinite_iff.1 hone).1, iff_of_true hone ?_⟩
    rintro u factor ⟨before, after, heq, -⟩
    exact absurd heq (by simp)
  | append_singleton steps s ih =>
    obtain ⟨u, hu, hs⟩ := run_concat_eq_ok.1 h
    obtain ⟨hnonneg, hfits⟩ := ih hu
    simp only [scales_concat]
    obtain ⟨hnew, hpos⟩ | ⟨factor, rfl, hfactor, heq⟩ | ⟨hmove, hne, heq⟩ := apply_cases hs
    · -- whatever came before no longer matters
      refine ⟨Single.le_of_lt (Single.isPositiveFinite_iff.1 hpos).1, iff_of_true hpos ?_⟩
      rintro v factor (⟨rfl, -⟩ | ⟨hmove, -⟩)
      · cases hnew
      · rw [hnew] at hmove
        cases hmove
    · rw [heq]
      refine ⟨Single.mul_nonneg hnonneg hfactor, ?_⟩
      rw [Single.isPositiveFinite_mul_iff hnonneg hfactor]
      constructor
      · -- where this product fits the scale before it is in range, so all the earlier ones fitted
        intro hproduct v f
        rintro (⟨hstep, hv⟩ | ⟨-, hscales⟩)
        · cases hstep
          cases hu.symm.trans hv
          exact hproduct
        · exact hfits.1 (hproduct.isPositiveFinite hfactor) v f hscales
      · intro hall
        exact hall u factor (.inl ⟨rfl, hu⟩)
    · rw [heq, hfits]
      refine ⟨hnonneg, forall₂_congr fun v f => ?_⟩
      simp [hne f, hmove]

end Placing

/-! ## Leaves of programs -/

/-- What comes out of a list was made of something in it. -/
theorem exists_of_mem_mapM {α β ε : Type} {f : α → Except ε β} {as : List α} {bs : List β} {b : β}
    (h : as.mapM f = .ok bs) (hb : b ∈ bs) : ∃ a ∈ as, f a = .ok b := by
  induction as generalizing bs with
  | nil =>
    cases h
    cases hb
  | cons a as ih =>
    rw [List.mapM_cons, bind_eq_ok_iff] at h
    obtain ⟨b', hb', h⟩ := h
    obtain ⟨bs', hbs', h⟩ := bind_eq_ok_iff.1 h
    cases h
    rcases List.mem_cons.1 hb with rfl | hb
    · exact ⟨a, List.mem_cons_self, hb'⟩
    · obtain ⟨a', ha', heq⟩ := ih hbs' hb
      exact ⟨a', List.mem_cons_of_mem _ ha', heq⟩

theorem Motion.exists_of_mem_moveProgram {m : Motion} {p q : Program} {t : Transform}
    (h : m.moveProgram p = .ok q) (ht : t ∈ q.transforms) :
    ∃ u ∈ p.transforms, m.moveTransform u = .ok t := by
  obtain ⟨ts, hts, rfl⟩ := moveProgram_eq_ok h
  exact exists_of_mem_mapM hts ht

/-- Every leaf of a program stands where motions have put it. -/
theorem Shape.exists_motions_of_mem {s : Shape} {prog : Program} (h : s.compile = .ok prog)
    {t : Transform} (ht : t ∈ prog.transforms) :
    ∃ ms : List Motion, Placing.run (ms.map .move) = .ok t := by
  induction s generalizing prog t with
  | leaf l =>
    rw [Primitive.program_eq_ok h] at ht
    cases List.mem_singleton.1 ht
    exact ⟨[], rfl⟩
  | combine c a b iha ihb =>
    rw [compile, bind_eq_ok_iff] at h
    obtain ⟨pa, ha, h⟩ := h
    obtain ⟨pb, hb, h⟩ := bind_eq_ok_iff.1 h
    rw [Combination.joinPrograms_eq_ok h] at ht
    rcases List.mem_append.1 ht with ht | ht
    · exact iha ha ht
    · exact ihb hb ht
  | flate a amount ih =>
    rw [compile, bind_eq_ok_iff] at h
    obtain ⟨pa, ha, h⟩ := h
    cases h
    exact ih ha ht
  | place m a ih =>
    rw [compile, bind_eq_ok_iff] at h
    obtain ⟨pa, ha, h⟩ := h
    obtain ⟨u, hu, hmove⟩ := Motion.exists_of_mem_moveProgram h ht
    obtain ⟨ms, hms⟩ := ih ha hu
    refine ⟨ms ++ [m], ?_⟩
    rw [List.map_append]
    exact Placing.run_concat_eq_ok.2 ⟨u, hms, hmove⟩

/-! ## Positive scales -/

namespace Placing

/-- **A scale is positive and finite exactly as long as its products fit**, and it is zero or
    infinite from the first one on that does not. The leaves of programs are no exception, since
    they are placed by such sequences of steps. -/
theorem scaling_pos_iff (steps : List Placing) (s : Shape) :
    (∀ t, run steps = .ok t → 0 ≤ t.scaling ∧
      (Single.isPositiveFinite t.scaling = true ↔
        ∀ u factor, Scales steps u factor → Single.ProductFits u.scaling factor)) ∧
    ∀ prog, s.compile = .ok prog → ∀ t ∈ prog.transforms,
      ∃ ms : List Motion, run (ms.map .move) = .ok t :=
  ⟨fun _ h => scaling_of_run h, fun _ h _ ht => Shape.exists_motions_of_mem h ht⟩

/-- A transform that is scaled, moved and scaled again, and a scene with a scaled leaf. -/
theorem scaling_pos_iff_moved :
    let steps := [.move (.scale 4), .move (.translate ⟨1, 2, 3⟩), .move (.scale 2)]
    (∃ t, run steps = .ok t ∧ Single.isPositiveFinite t.scaling = true ∧
      ∀ u factor, Scales steps u factor → Single.ProductFits u.scaling factor) ∧
    ∃ prog, (Shape.place (.scale 2) (.cube 1)).compile = .ok prog ∧
      ∀ t ∈ prog.transforms, ∃ ms : List Motion, run (ms.map .move) = .ok t := by
  intro steps
  obtain ⟨hrun, hleaf⟩ := scaling_pos_iff steps (.place (.scale 2) (.cube 1))
  constructor
  · have hsteps : run steps =
        .ok ⟨.identity, (Vec3.zero.scale 4 + ⟨1, 2, 3⟩).scale 2, 1 * 4 * 2⟩ := rfl
    have hpos : Single.isPositiveFinite (1 * 4 * 2) = true := by decide +kernel
    exact ⟨_, hsteps, hpos, (hrun _ hsteps).2.1 hpos⟩
  · obtain ⟨prog, hprog⟩ : ∃ prog, (Shape.place (.scale 2) (.cube 1)).compile = .ok prog := ⟨_, rfl⟩
    exact ⟨prog, hprog, hleaf _ hprog⟩

/-- Factors in range are no protection: two of them come to a scale of zero, and what is brought
    back to the own frame of the solid is divided by it. -/
theorem scaling_vanishes :
    ∃ t, run [.move (.scale (.ofBits 0x0d800000)), .move (.scale (.ofBits 0x0d800000))] = .ok t ∧
      Single.isPositiveFinite t.scaling = false ∧ (t.applyInverse ⟨1, 2, 3⟩).isFinite = false :=
  ⟨_, rfl, by decide +kernel, by decide +kernel⟩

end Placing

end SignedDistance
