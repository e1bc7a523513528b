import SignedDistance.Proofs.Number.Special

set_option autoImplicit false

/-! # Signs

A float that is a number has a sign, a zero too. Products and quotients have a minus if one of their
operands has it and the other has not, whatever is rounded. So a number and a sign make up a single,
where a number alone leaves two of them for zero. -/

namespace SignedDistance

open Float.Model (Format UnpackedFloat)
open Float.Model.UnpackedFloat

namespace Unpacked

variable {S : Format} {u v : UnpackedFloat} {x y : ℝ}

/-- Whether a float is written with a minus in front. -/
def isNegative : UnpackedFloat → Bool
  | .infinity .negative | .zero .negative | .finite .negative _ _ _ => true
  | _ => false

theorem ite_neg_abs (u : UnpackedFloat) : (if isNegative u then u.abs.neg else u.abs) = u := by
  rcases u with (_ | _) | _ | (_ | _) | ⟨_ | _, m, e, hm⟩ <;> rfl

theorem eq_of_abs_eq (h : u.abs = v.abs) (hsign : isNegative u = isNegative v) : u = v := by
  rw [← ite_neg_abs u, ← ite_neg_abs v, h, hsign]

/-- Floats of one magnitude differ by their signs only. -/
theorem Holds.abs_eq (hu : Holds S u x) (hv : Holds S v y) (h : |x| = |y|) : u.abs = v.abs := by
  rcases eq_or_ne |x| 0 with hzero | hne
  · rw [abs_eq_zero.1 hzero] at hu
    rw [abs_eq_zero.1 (h.symm.trans hzero)] at hv
    obtain ⟨s, rfl⟩ := hu.exists_eq_zero
    obtain ⟨s', rfl⟩ := hv.exists_eq_zero
    rfl
  · exact hu.abs_real.eq_of_ne_zero (h ▸ hv.abs_real) (EReal.coe_ne_zero.2 hne)

/-- Unless it is zero, a number tells its sign. -/
theorem Holds.isNegative_eq (h : Holds S u x) (hx : x ≠ 0) : isNegative u = decide (x < 0) := by
  have hvalue := h.value
  rcases u with (_ | _) | _ | s | ⟨_ | _, m, e, hm⟩
  · cases EReal.bot_ne_coe x hvalue
  · cases EReal.top_ne_coe x hvalue
  · cases h.isNaN
  · cases hx (EReal.coe_eq_zero.1 hvalue.symm)
  · have hneg := value_negative_neg m e hm
    rw [hvalue] at hneg
    exact (decide_eq_true (EReal.coe_neg'.1 hneg)).symm
  · have hpos := value_positive_pos m e hm
    rw [hvalue] at hpos
    exact (decide_eq_false (EReal.coe_pos.1 hpos).not_gt).symm

/-! ## Results -/

theorem isNegative_neg (h : u.isNaN = false) : isNegative u.neg = !isNegative u := by
  rcases u with (_ | _) | _ | (_ | _) | ⟨_ | _, m, e, hm⟩
  case notANumber => cases h
  all_goals rfl

/-- Rounding keeps the sign. -/
theorem isNegative_roundWithAccuracy (S : Format) (s : Sign) (m : ℕ) (e : ℤ) (acc : Accuracy) :
    isNegative (roundWithAccuracy S s m e acc) = isNegative (.zero s) := by
  unfold roundWithAccuracy
  dsimp only
  split_ifs <;> cases s <;> rfl

theorem isNegative_mul (h : (mul S u v).isNaN = false) :
    isNegative (mul S u v) = (isNegative u ^^ isNegative v) := by
  rcases u with (_ | _) | _ | (_ | _) | ⟨_ | _, m, e, hm⟩ <;>
    rcases v with (_ | _) | _ | (_ | _) | ⟨_ | _, m', e', hm'⟩
  all_goals first
    | rfl
    | exact isNegative_roundWithAccuracy _ _ _ _ _
    | cases h

theorem isNegative_div (h : (div S u v).isNaN = false) :
    isNegative (div S u v) = (isNegative u ^^ isNegative v) := by
  rcases u with (_ | _) | _ | (_ | _) | ⟨_ | _, m, e, hm⟩ <;>
    rcases v with (_ | _) | _ | (_ | _) | ⟨_ | _, m', e', hm'⟩
  all_goals first
    | rfl
    | exact isNegative_roundWithAccuracy _ _ _ _ _
    | cases h

theorem isNegative_unpack_pack (h : Canonical S u) (hnan : u.isNaN = false) :
    isNegative (unpack S (pack S u)) = isNegative u := by
  rcases u with s | _ | s | ⟨s, m, e, hm⟩
  · rw [pack, unpack_packedInfinity]
  · cases hnan
  · rw [pack, unpack_packedZero]
  · by_cases he : e ≤ S.exponentBias - S.mantissaBitsWithoutImplicit
    · rw [unpack_pack_finite h hm he]
    · rw [pack_finite_of_lt (not_le.1 he), unpack_packedInfinity]
      cases s <;> rfl

end Unpacked

namespace Single

variable {a b : Float32} {x : ℝ}

/-- Whether a single is written with a minus in front. -/
def isNegative (a : Float32) : Bool := Unpacked.isNegative a.toModel.unpack

/-- A number and a sign make up a single. -/
theorem Denotes.eq_of_isNegative {y : EReal} (ha : Denotes a y) (hb : Denotes b y)
    (hsign : isNegative a = isNegative b) : a = b := by
  rcases eq_or_ne y 0 with rfl | hne
  · rw [← EReal.coe_zero] at ha hb
    exact eq_of_unpack_eq (Unpacked.eq_of_abs_eq (Unpacked.Holds.abs_eq ha hb rfl) hsign)
  · exact ha.eq_of_ne_zero hb hne

/-- Unless it is zero, a number tells its sign. -/
theorem Denotes.isNegative_eq (ha : Denotes a x) (hx : x ≠ 0) : isNegative a = decide (x < 0) :=
  Unpacked.Holds.isNegative_eq ha hx

theorem isNegative_neg (h : a.isNaN = false) : isNegative (-a) = !isNegative a := by
  rw [isNegative, unpack_neg]
  exact Unpacked.isNegative_neg h

theorem isNegative_mul (h : (a * b).isNaN = false) :
    isNegative (a * b) = (isNegative a ^^ isNegative b) := by
  have hnan := Unpacked.isNaN_of_isNaN_unpack_pack h
  have hcanonical : Unpacked.Canonical .binary32
      (mul .binary32 a.toModel.unpack b.toModel.unpack) :=
    Unpacked.canonical_mul (Unpacked.canonical_unpack _ _) (Unpacked.canonical_unpack _ _)
  exact (Unpacked.isNegative_unpack_pack hcanonical hnan).trans (Unpacked.isNegative_mul hnan)

theorem isNegative_div (h : (a / b).isNaN = false) :
    isNegative (a / b) = (isNegative a ^^ isNegative b) := by
  have hnan := Unpacked.isNaN_of_isNaN_unpack_pack h
  have hcanonical : Unpacked.Canonical .binary32
      (div .binary32 a.toModel.unpack b.toModel.unpack) :=
    Unpacked.canonical_div (Unpacked.canonical_unpack _ _) (Unpacked.canonical_unpack _ _)
  exact (Unpacked.isNegative_unpack_pack hcanonical hnan).trans (Unpacked.isNegative_div hnan)

/-- Where nothing is left of two numbers, there is a minus only if both had one. -/
theorem isNegative_add_of_opposite (ha : Denotes a x) (hb : Denotes b (-x : ℝ)) :
    isNegative (a + b) = (isNegative a && isNegative b) := by
  rcases eq_or_ne x 0 with rfl | hx
  · have hzeros : ∀ z ∈ [0, -0], ∀ z' ∈ [0, -0],
        isNegative (z + z') = (isNegative z && isNegative z') := by decide +kernel
    rw [neg_zero] at hb
    exact hzeros a ha.mem_of_zero b hb.mem_of_zero
  · have hneg : b = -a := by
      refine hb.eq_of_ne_zero ?_ (EReal.coe_ne_zero.2 (neg_ne_zero.2 hx))
      rw [EReal.coe_neg]
      exact ha.neg
    have hsum : (a + -a).toModel.unpack = .zero .positive := by
      change unpack .binary32 (pack .binary32 (add _ a.toModel.unpack (-a).toModel.unpack)) = _
      rw [unpack_neg, Unpacked.add_neg_self (Unpacked.Holds.isFinite ha) (ha.unpack_ne_zero hx),
        pack, unpack_packedZero]
    rw [hneg, isNegative_neg ha.isNaN, Bool.and_not_self, isNegative, hsum]
    rfl

end Single

end SignedDistance
