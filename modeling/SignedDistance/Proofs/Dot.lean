import SignedDistance.Fixed.Vector
import SignedDistance.Proofs.Walk
import Mathlib

set_option autoImplicit false

/-! # Dot products of positions

A product of two raw values takes up to 126 bits and a sign, so three of them may be too large for
the 128 bits in which they are added. As long as the two sums fit, the result is the exact one,
moved into the range of positions; where one of them does not, there is no result. -/

namespace SignedDistance

/-! ## Products of lanes -/

namespace Fixed

variable {a b : Fixed}

theorem natAbs_raw_le (a : Fixed) : a.raw.natAbs ≤ 2 ^ 63 := by
  have hlower := a.lower
  have hupper := a.upper
  omega

/-- Only the least number is that far from zero. -/
theorem natAbs_raw_eq_iff : a.raw.natAbs = 2 ^ 63 ↔ a = least := by
  have hupper := a.upper
  constructor
  · intro h
    refine ext_raw ?_
    change a.raw = -9223372036854775808
    omega
  · rintro rfl
    rfl

theorem abs_mul_raw_le (a b : Fixed) : |a.raw * b.raw| ≤ 2 ^ 126 := by
  rw [Int.abs_eq_natAbs, Int.natAbs_mul]
  exact_mod_cast Nat.mul_le_mul (natAbs_raw_le a) (natAbs_raw_le b)

/-- The greatest product there is, is that of the least number with itself. -/
theorem mul_raw_eq_iff : a.raw * b.raw = 2 ^ 126 ↔ a = least ∧ b = least := by
  constructor
  · intro h
    have hproduct : a.raw.natAbs * b.raw.natAbs = 2 ^ 63 * 2 ^ 63 := by
      rw [← Int.natAbs_mul, h]
      rfl
    have ha := natAbs_raw_le a
    have hb := natAbs_raw_le b
    have hb₀ : 0 < b.raw.natAbs := Nat.pos_of_ne_zero fun hzero => by simp [hzero] at hproduct
    rw [← natAbs_raw_eq_iff, ← natAbs_raw_eq_iff]
    exact (mul_eq_mul_iff_eq_and_eq_of_pos' ha hb (by positivity) hb₀).1 hproduct
  · rintro ⟨rfl, rfl⟩
    rfl

end Fixed

namespace FixedVec

variable {v w : FixedVec}

/-! ## Sums in 128 bits -/

/-- The exact sum of the products of raw values. -/
def exactDot (v w : FixedVec) : Int := v.x.raw * w.x.raw + v.y.raw * w.y.raw + v.z.raw * w.z.raw

/-- The integer fits in 128 signed bits. -/
def Wide (n : Int) : Prop := -2 ^ 127 ≤ n ∧ n < 2 ^ 127

/-- The first two products are the greatest there are, or the sum of all three does not fit. -/
def DotOverflows (v w : FixedVec) : Prop :=
  (v.x = .least ∧ v.y = .least ∧ w.x = .least ∧ w.y = .least) ∨ ¬Wide (v.exactDot w)

theorem wideAdd_of_wide {m n : Int} (h : Wide (m + n)) : wideAdd m n = .ok (m + n) := by
  rw [Wide] at h
  exact if_pos (by omega)

theorem wideAdd_of_not_wide {m n : Int} (h : ¬Wide (m + n)) : wideAdd m n = .error .addition := by
  rw [Wide] at h
  exact if_neg (by omega)

/-- Two products do not fit only if both are the greatest there is. -/
theorem not_wide_partial_iff :
    ¬Wide (v.x.raw * w.x.raw + v.y.raw * w.y.raw) ↔
      v.x = .least ∧ v.y = .least ∧ w.x = .least ∧ w.y = .least := by
  have hx := abs_le.1 (Fixed.abs_mul_raw_le v.x w.x)
  have hy := abs_le.1 (Fixed.abs_mul_raw_le v.y w.y)
  have hxy : (v.x.raw * w.x.raw = 2 ^ 126 ∧ v.y.raw * w.y.raw = 2 ^ 126) ↔
      v.x = .least ∧ v.y = .least ∧ w.x = .least ∧ w.y = .least := by
    rw [Fixed.mul_raw_eq_iff, Fixed.mul_raw_eq_iff]
    tauto
  rw [← hxy, Wide]
  omega

theorem rawDot_of_not_overflows (h : ¬v.DotOverflows w) : v.rawDot w = .ok (v.exactDot w) := by
  rw [DotOverflows, ← not_wide_partial_iff, not_or, not_not, not_not] at h
  rw [rawDot, wideAdd_of_wide h.1]
  exact wideAdd_of_wide h.2

theorem rawDot_of_overflows (h : v.DotOverflows w) : v.rawDot w = .error .addition := by
  rw [DotOverflows, ← not_wide_partial_iff] at h
  rw [rawDot]
  by_cases hxy : Wide (v.x.raw * w.x.raw + v.y.raw * w.y.raw)
  · rw [wideAdd_of_wide hxy]
    exact wideAdd_of_not_wide (h.resolve_left (not_not.2 hxy))
  · rw [wideAdd_of_not_wide hxy]
    rfl

/-! ## Dot products -/

/-- The exact dot product in units, moved into range. -/
def saturatedDot (v w : FixedVec) : Fixed := .saturate (v.exactDot w / Fixed.unit)

theorem dot_of_not_overflows (h : ¬v.DotOverflows w) : v.dot w = .ok (v.saturatedDot w) := by
  rw [dot, rawDot_of_not_overflows h]
  rfl

theorem dot_of_overflows (h : v.DotOverflows w) : v.dot w = .error .addition := by
  rw [dot, rawDot_of_overflows h]
  rfl

theorem exactDot_self_nonneg (v : FixedVec) : 0 ≤ v.exactDot v := by
  have hx := mul_self_nonneg v.x.raw
  have hy := mul_self_nonneg v.y.raw
  have hz := mul_self_nonneg v.z.raw
  rw [exactDot]
  omega

/-- A sum of squares does not fit only if it is too large. -/
theorem dotOverflows_self_iff : v.DotOverflows v ↔ 2 ^ 127 ≤ v.exactDot v := by
  have hnonneg := exactDot_self_nonneg v
  rw [DotOverflows, Wide]
  constructor
  · rintro (⟨hx, hy, -, -⟩ | h)
    · have hz := mul_self_nonneg v.z.raw
      rw [exactDot, Fixed.mul_raw_eq_iff.2 ⟨hx, hx⟩, Fixed.mul_raw_eq_iff.2 ⟨hy, hy⟩]
      omega
    · omega
  · intro h
    exact .inr (by omega)

theorem raw_saturatedDot_self (v : FixedVec) :
    (v.saturatedDot v).raw = min (v.exactDot v / Fixed.unit) Fixed.greatest.raw := by
  have hnonneg : 0 ≤ v.exactDot v / Fixed.unit :=
    Int.ediv_nonneg (exactDot_self_nonneg v) (by decide)
  have hgreatest : Fixed.greatest.raw = 9223372036854775807 := rfl
  rw [saturatedDot, Fixed.raw_saturate, hgreatest]
  omega

theorem dot_eq_ok_iff : v.dot w = .ok (v.saturatedDot w) ↔ ¬v.DotOverflows w := by
  constructor
  · intro h hoverflows
    rw [dot_of_overflows hoverflows] at h
    cases h
  · exact dot_of_not_overflows

theorem dot_eq_error_iff : v.dot w = .error .addition ↔ v.DotOverflows w := by
  constructor
  · intro h
    by_contra hfits
    rw [dot_of_not_overflows hfits] at h
    cases h
  · exact dot_of_overflows

/-- **A dot product saturates as long as the sums of its products fit in 128 bits**; otherwise it is
    a fault. A squared length is one from a sum of `2 ^ 127` on, and else it is not negative and
    ends at the greatest position. -/
theorem dot_saturates_iff (v w : FixedVec) :
    (v.dot w = .ok (v.saturatedDot w) ↔ ¬v.DotOverflows w) ∧
      (v.dot w = .error .addition ↔ v.DotOverflows w) ∧
      (v.lengthSquared = .ok (v.saturatedDot v) ↔ v.exactDot v < 2 ^ 127) ∧
      0 ≤ (v.saturatedDot v).raw ∧
      (v.saturatedDot v).raw = min (v.exactDot v / Fixed.unit) Fixed.greatest.raw := by
  refine ⟨dot_eq_ok_iff, dot_eq_error_iff, ?_, ?_, raw_saturatedDot_self v⟩
  · rw [lengthSquared, dot_eq_ok_iff, dotOverflows_self_iff, not_le]
  · rw [raw_saturatedDot_self]
    exact le_min (Int.ediv_nonneg (exactDot_self_nonneg v) (by decide)) (by decide)

/-- Far from the origin on all lanes at once there is no squared length, though its value would only
    have to be moved into range. -/
theorem dot_fails_at_least :
    (splat .least).lengthSquared = .error .addition ∧
      (splat .least).saturatedDot (splat .least) = .greatest ∧
      dot ⟨.least, .least, .zero⟩ ⟨.least, .least, .zero⟩ = .error .addition ∧
      saturatedDot ⟨.least, .least, .zero⟩ ⟨.least, .least, .zero⟩ = .greatest := by
  decide

end FixedVec

end SignedDistance
