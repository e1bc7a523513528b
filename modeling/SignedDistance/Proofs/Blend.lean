import SignedDistance.Proofs.Algebra
import SignedDistance.Proofs.Number.Special

set_option autoImplicit false

/-! # Blends beside sharp combinations

A blend is the sharp combination of its operands, moved to one side by a fillet. The fillet is not
negative, so the blend is on its side of the sharp value. It is zero wherever the gap is not less
than the threshold, a gap that is a NaN included; where the gap is less, the gap is finite, and so
are both operands. Nothing that is added is then opposite to the sharp value, and no NaN comes up
that was not there. -/

namespace SignedDistance

/-! ## Fillets -/

namespace Combination

open Single

variable {t gap hard f : Float32} {y : EReal}

/-- How far the gap stays behind the threshold. -/
def overlap (threshold gap : Float32) : Float32 := greatest (threshold - gap.abs) 0

theorem fillet_eq (t gap : Float32) :
    fillet t gap = overlap t gap * overlap t gap * 0.25 / t := rfl

theorem overlap_nonneg (t gap : Float32) : 0 ≤ overlap t gap := le_greatest_right denotes_zero.isNaN

theorem isPositiveFinite_quarter : isPositiveFinite 0.25 = true := by decide +kernel

theorem fillet_nonneg (ht : isPositiveFinite t = true) (gap : Float32) : 0 ≤ fillet t gap := by
  have hsquare := Single.mul_self_nonneg (overlap_nonneg t gap)
  exact Single.div_nonneg (Single.mul_nonneg hsquare isPositiveFinite_quarter) ht

/-- Outside the band there is no overlap, and a NaN is outside. -/
theorem overlap_of_not_lt (h : ¬gap.abs < t) : Denotes (overlap t gap) 0 := by
  cases hnan : (t - gap.abs).isNaN
  · have hle : t - gap.abs ≤ 0 := sub_le_zero_of_not_lt h hnan
    exact denotes_zero_of_le (overlap_nonneg t gap)
      (greatest_le hle (Single.le_refl denotes_zero.isNaN))
  · rw [overlap, greatest_of_isNaN hnan]
    exact denotes_zero

theorem fillet_of_not_lt (ht : Denotes t y) (hy : y ≠ 0) (h : ¬gap.abs < t) :
    Denotes (fillet t gap) 0 := by
  have hoverlap := overlap_of_not_lt h
  have hsquare := denotes_zero_mul hoverlap hoverlap
  exact (denotes_zero_mul hsquare denotes_quarter).zero_div ht hy

/-! ## Softening -/

/-- What becomes of the value `hard` of a sharp combination: it is moved to one side, if at all,
    stays a number, and is moved only if the gap is less than the threshold. -/
structure Softens (side : Float32 → Float32 → Prop) (t gap hard soft : Float32) : Prop where
  side : hard.isNaN = false → side soft hard
  isNaN : hard.isNaN = false → soft.isNaN = false
  alike : ¬gap.abs < t → Alike soft hard

/-- Adding a number softens, if inside the band the sharp value is finite and outside of it nothing
    is added. -/
theorem softens_add {side : Float32 → Float32 → Prop} (hf : f.isNaN = false)
    (hinside : gap.abs < t → hard.isFinite = true) (houtside : ¬gap.abs < t → Denotes f 0)
    (hside : (hard + f).isNaN = false → side (hard + f) hard) :
    Softens side t gap hard (hard + f) := by
  have hnan : hard.isNaN = false → (hard + f).isNaN = false := by
    intro hhard
    by_cases hlt : gap.abs < t
    · obtain ⟨x, hx⟩ := isFinite_iff.1 (hinside hlt)
      obtain ⟨z, hz⟩ := exists_denotes hf
      exact (hx.add hz (not_opposite_coe x z)).isNaN
    · obtain ⟨y, hy⟩ := exists_denotes hhard
      exact (hy.add (houtside hlt) (by simp [Opposite])).isNaN
  constructor
  case side => exact fun hhard => hside (hnan hhard)
  case isNaN => exact hnan
  case alike => exact fun hlt => (houtside hlt).alike_add hard

section
variable (ht : isPositiveFinite t = true)
include ht

theorem isNaN_fillet (gap : Float32) : (fillet t gap).isNaN = false :=
  isNaN_right_of_le (fillet_nonneg ht gap)

theorem fillet_outside (h : ¬gap.abs < t) : Denotes (fillet t gap) 0 := by
  obtain ⟨x, hx, hpos⟩ := exists_real_of_isPositiveFinite ht
  exact fillet_of_not_lt hx (EReal.coe_ne_zero.2 hpos.ne') h

/-- Inside the band the gap is finite. -/
theorem isFinite_inside (h : gap.abs < t) : gap.isFinite = true :=
  isFinite_of_abs_le (isPositiveFinite_iff.1 ht).2 (Single.le_of_lt h)

theorem softens_blendUnion (a b : Float32) :
    Softens (· ≤ ·) t (a - b) (union.apply a b) ((blendUnion t).apply a b) := by
  show Softens _ t _ (least a b) (least a b - fillet t (a - b))
  rw [Single.sub_eq_add_neg _ (fillet t (a - b))]
  apply softens_add
  · exact (isNaN_neg _).trans (isNaN_fillet ht (a - b))
  · intro hlt
    obtain ⟨ha, hb⟩ := isFinite_of_isFinite_sub (isFinite_inside ht hlt)
    exact least_rec (P := (·.isFinite = true)) ha hb
  · intro hlt
    have hneg := (fillet_outside ht hlt).neg
    rwa [neg_zero] at hneg
  · intro h
    rw [← Single.sub_eq_add_neg] at h ⊢
    exact Single.sub_le_self (fillet_nonneg ht (a - b)) h

theorem softens_blendInter (a b : Float32) :
    Softens (· ≥ ·) t (a - b) (inter.apply a b) ((blendInter t).apply a b) := by
  show Softens _ t _ (greatest a b) (greatest a b + fillet t (a - b))
  apply softens_add (isNaN_fillet ht _)
  · intro hlt
    obtain ⟨ha, hb⟩ := isFinite_of_isFinite_sub (isFinite_inside ht hlt)
    exact greatest_rec (P := (·.isFinite = true)) ha hb
  · exact fillet_outside ht
  · exact le_add_self (fillet_nonneg ht _)

theorem softens_blendDiff (a b : Float32) :
    Softens (· ≥ ·) t (a + b) (diff.apply a b) ((blendDiff t).apply a b) := by
  show Softens _ t _ (greatest a (-b)) (greatest a (-b) + fillet t (a + b))
  apply softens_add (isNaN_fillet ht _)
  · intro hlt
    obtain ⟨ha, hb⟩ := isFinite_of_isFinite_add (isFinite_inside ht hlt)
    exact greatest_rec (P := (·.isFinite = true)) ha ((isFinite_neg b).trans hb)
  · exact fillet_outside ht
  · exact le_add_self (fillet_nonneg ht _)

end

end Combination

/-! ## Programs -/

namespace Program

variable {a b : Program} {t : Float32}

/-- The blend of two programs and their sharp combination run at a point, and the value of the one
    is what becomes of that of the other. -/
def Blends (p : Vec3) (side : Float32 → Float32 → Prop) (t gap : Float32)
    (blend : Except BuildError Program) (sharp : Program) : Prop :=
  ∃ r hard soft, blend = .ok r ∧ sharp.evaluate p = .ok hard ∧ r.evaluate p = .ok soft ∧
    Combination.Softens side t gap hard soft

/-- **A blend acts inside its band only, and to one side**: a blended union is at most the union, a
    blended intersection or difference at least the sharp one. Neither is a NaN unless the sharp
    value is, and both are alike wherever the gap between the operands is not less than the
    threshold. -/
theorem evaluate_blend (ha : a.validate = .ok ()) (hb : b.validate = .ok ())
    (ht : Single.isPositiveFinite t = true) (p : Vec3) :
    ∃ x y, a.evaluate p = .ok x ∧ b.evaluate p = .ok y ∧
      Blends p (· ≤ ·) t (x - y) (a.blendUnion b t) (a.union b) ∧
      Blends p (· ≥ ·) t (x - y) (a.blendInter b t) (a.inter b) ∧
      Blends p (· ≥ ·) t (x + y) (a.blendDiff b t) (a.diff b) := by
  obtain ⟨a, rfl⟩ := exists_assembly_of_validate ha
  obtain ⟨b, rfl⟩ := exists_assembly_of_validate hb
  have hrun (c : Combination) : (combine c a.program b.program).evaluate p =
      .ok (c.apply (a.value p) (b.value p)) := by
    rw [← Assembly.program_combine, evaluate_assembly]
    rfl
  refine ⟨a.value p, b.value p, evaluate_assembly a p, evaluate_assembly b p, ?_, ?_, ?_⟩
  · exact ⟨_, _, _, combineChecked_of_accepted rfl ht _ _, hrun .union, hrun _,
      Combination.softens_blendUnion ht _ _⟩
  · exact ⟨_, _, _, combineChecked_of_accepted rfl ht _ _, hrun .inter, hrun _,
      Combination.softens_blendInter ht _ _⟩
  · exact ⟨_, _, _, combineChecked_of_accepted rfl ht _ _, hrun .diff, hrun _,
      Combination.softens_blendDiff ht _ _⟩

/-- A ball and a cube, seen from where their distances are within the band. -/
theorem evaluate_blend_near_edge :
    let a := sphere 2
    let b := cube 1
    let p : Vec3 := ⟨1, 1, 0⟩
    a.validate = .ok () ∧ b.validate = .ok () ∧ Single.isPositiveFinite 0.5 = true ∧
      ∃ x y, a.evaluate p = .ok x ∧ b.evaluate p = .ok y ∧
        Blends p (· ≤ ·) 0.5 (x - y) (a.blendUnion b 0.5) (a.union b) ∧
        Blends p (· ≥ ·) 0.5 (x - y) (a.blendInter b 0.5) (a.inter b) ∧
        Blends p (· ≥ ·) 0.5 (x + y) (a.blendDiff b 0.5) (a.diff b) := by
  have ht : Single.isPositiveFinite 0.5 = true := by decide +kernel
  exact ⟨rfl, rfl, ht, evaluate_blend (a := sphere 2) (b := cube 1) rfl rfl ht ⟨1, 1, 0⟩⟩

end Program

end SignedDistance
