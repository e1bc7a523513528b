import SignedDistance.Proofs.Construction
import SignedDistance.Proofs.Evaluation
import SignedDistance.Proofs.Number.Alike

set_option autoImplicit false

/-! # The algebra of combinations

Programs that put the same solids together in different ways have different words, yet at every
point they come to the same distance, up to the sign of zero. Running a combination is to run its
operands and to combine the two values, so the laws of programs are those of the lesser and the
greater of singles. A value that is no number is dropped by both, which breaks the laws that have
one operand on two sides; all the others hold of any values. -/

namespace SignedDistance

variable {p : Vec3} {a b c : Program}

/-! ## Running combinations -/

theorem Program.exists_assembly_of_validate (h : a.validate = .ok ()) :
    ∃ e : Assembly, a = e.program := by
  obtain ⟨e, hwords, htransforms, hneed⟩ := exists_assembly_of_checkWords h
  refine ⟨e, ?_⟩
  rw [Assembly.program, hwords, htransforms, hneed]

namespace Program

/-- Both programs run to their end at the point, and with values that are alike. -/
def Agree (p : Vec3) (a b : Program) : Prop :=
  ∃ x y, a.evaluate p = .ok x ∧ b.evaluate p = .ok y ∧ Single.Alike x y

theorem agree_assembly_iff {e e' : Assembly} :
    Agree p e.program e'.program ↔ Single.Alike (e.value p) (e'.value p) := by
  simp [Agree, evaluate_assembly]

theorem distance_assembly (e : Assembly) (p : Vec3) : e.program.distance p = e.value p := by
  rw [distance, evaluate_assembly]

end Program

namespace Combination

/-- The fillet is the same from both sides. -/
theorem fillet_comm (threshold x y : Float32) :
    fillet threshold (x - y) = fillet threshold (y - x) := by
  unfold fillet
  rw [Single.abs_sub_comm]

theorem apply_blendUnion_comm (t x y : Float32) :
    Single.Alike ((blendUnion t).apply x y) ((blendUnion t).apply y x) := by
  show Single.Alike (_ - fillet t (x - y)) (_ - fillet t (y - x))
  rw [fillet_comm]
  exact (Single.least_comm x y).sub (.refl _)

theorem apply_blendInter_comm (t x y : Float32) :
    Single.Alike ((blendInter t).apply x y) ((blendInter t).apply y x) := by
  show Single.Alike (_ + fillet t (x - y)) (_ + fillet t (y - x))
  rw [fillet_comm]
  exact (Single.greatest_comm x y).add (.refl _)

end Combination

/-! ## Laws -/

namespace Program

/-- The laws that hold of any values, infinities and NaNs included. -/
structure Laws (p : Vec3) (a b c : Program) : Prop where
  union_comm : Agree p (a.union b) (b.union a)
  union_assoc : Agree p ((a.union b).union c) (a.union (b.union c))
  union_self : Agree p (a.union a) a
  inter_comm : Agree p (a.inter b) (b.inter a)
  inter_assoc : Agree p ((a.inter b).inter c) (a.inter (b.inter c))
  inter_self : Agree p (a.inter a) a
  diff_union : Agree p (a.diff (b.union c)) ((a.diff b).diff c)
  blendUnion_comm : ∀ t, Single.isPositiveFinite t = true →
    ∃ r s, a.blendUnion b t = .ok r ∧ b.blendUnion a t = .ok s ∧ Agree p r s
  blendInter_comm : ∀ t, Single.isPositiveFinite t = true →
    ∃ r s, a.blendInter b t = .ok r ∧ b.blendInter a t = .ok s ∧ Agree p r s

/-- The laws in which one operand is on two sides. -/
structure LatticeLaws (p : Vec3) (a b c : Program) : Prop where
  union_inter_self : Agree p (a.union (a.inter b)) a
  inter_union_self : Agree p (a.inter (a.union b)) a
  union_inter : Agree p (a.union (b.inter c)) ((a.union b).inter (a.union c))
  inter_union : Agree p (a.inter (b.union c)) ((a.inter b).union (a.inter c))

theorem combineChecked_of_accepted {combination : Combination} {t : Float32}
    (ht : combination.threshold? = some t) (h : Single.isPositiveFinite t = true) (a b : Program) :
    combineChecked combination a b = .ok (combine combination a b) := by
  rw [combineChecked, ht]
  exact if_pos h

/-- **Union and intersection are a lattice, as far as NaNs let them**; a difference is taken by
    parts, and blends are symmetric. -/
theorem evaluate_algebra (ha : a.validate = .ok ()) (hb : b.validate = .ok ())
    (hc : c.validate = .ok ()) (p : Vec3) :
    Laws p a b c ∧
      ((a.distance p).isNaN = false → (b.distance p).isNaN = false →
        (c.distance p).isNaN = false → LatticeLaws p a b c) := by
  obtain ⟨a, rfl⟩ := exists_assembly_of_validate ha
  obtain ⟨b, rfl⟩ := exists_assembly_of_validate hb
  obtain ⟨c, rfl⟩ := exists_assembly_of_validate hc
  simp only [distance_assembly]
  constructor
  · constructor
    case blendUnion_comm =>
      intro t ht
      refine ⟨_, _, combineChecked_of_accepted rfl ht _ _,
        combineChecked_of_accepted rfl ht _ _, ?_⟩
      rw [← Assembly.program_combine, ← Assembly.program_combine, agree_assembly_iff]
      exact Combination.apply_blendUnion_comm t _ _
    case blendInter_comm =>
      intro t ht
      refine ⟨_, _, combineChecked_of_accepted rfl ht _ _,
        combineChecked_of_accepted rfl ht _ _, ?_⟩
      rw [← Assembly.program_combine, ← Assembly.program_combine, agree_assembly_iff]
      exact Combination.apply_blendInter_comm t _ _
    all_goals simp only [union, inter, diff, ← Assembly.program_combine, agree_assembly_iff]
    case union_comm => exact Single.least_comm _ _
    case union_assoc => exact Single.least_assoc _ _ _
    case union_self => exact Single.least_self _
    case inter_comm => exact Single.greatest_comm _ _
    case inter_assoc => exact Single.greatest_assoc _ _ _
    case inter_self => exact Single.greatest_self _
    case diff_union => exact Single.greatest_neg_least _ _ _
  · intro ha hb hc
    constructor
    all_goals simp only [union, inter, ← Assembly.program_combine, agree_assembly_iff]
    case union_inter_self => exact Single.least_greatest_self ha hb
    case inter_union_self => exact Single.greatest_least_self ha hb
    case union_inter => exact Single.least_greatest_distrib ha hb hc
    case inter_union => exact Single.greatest_least_distrib ha hb hc

/-- A ball, a cube and the ground, seen from outside all of them. -/
theorem evaluate_algebra_outside :
    let a := sphere 2
    let b := cube 1
    let c := ground
    let p : Vec3 := ⟨1, 2, 3⟩
    a.validate = .ok () ∧ b.validate = .ok () ∧ c.validate = .ok () ∧
      (a.distance p).isNaN = false ∧ (b.distance p).isNaN = false ∧
        (c.distance p).isNaN = false ∧ Laws p a b c ∧ LatticeLaws p a b c := by
  have ha : ((sphere 2).distance ⟨1, 2, 3⟩).isNaN = false := by decide +kernel
  have hb : ((cube 1).distance ⟨1, 2, 3⟩).isNaN = false := by decide +kernel
  have hc : (ground.distance ⟨1, 2, 3⟩).isNaN = false := by decide +kernel
  obtain ⟨hlaws, hlattice⟩ :=
    evaluate_algebra (a := sphere 2) (b := cube 1) (c := ground) rfl rfl rfl ⟨1, 2, 3⟩
  exact ⟨rfl, rfl, rfl, ha, hb, hc, hlaws, hlattice ha hb hc⟩

end Program

end SignedDistance
