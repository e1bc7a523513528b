import SignedDistance.Proofs.Number.Nearest

set_option autoImplicit false

/-! # A cubic in single precision

The cubic `(1 + x)² (2 - x) / 4` rises from zero at `-1` to one at `1`, with level ends. It is
computed with a rounding after every operation. Up to `1 / 2` the exact cubic leaves room for all of
them. Beyond, it comes so near to one that a bound on each error would not do; but there `1 + x` and
`2 - x` are rounded to multiples of one power of two, by the same amount and in opposite directions,
and what the two roundings take away from the product is more than what the others may add. -/

namespace SignedDistance

open Float.Model (Format)

variable {x l p sum quarter square diff v : ℝ}

/-- The cubic of `x` as it is computed, one operation after another. -/
structure Cubic (x sum quarter square diff v : ℝ) : Prop where
  sum_eq : sum = nearest .binary32 (1 + x)
  quarter_eq : quarter = nearest .binary32 (1 / 4 * sum)
  square_eq : square = nearest .binary32 (quarter * sum)
  diff_eq : diff = nearest .binary32 (2 - x)
  value_eq : v = nearest .binary32 (square * diff)

theorem representable_one : Representable .binary32 1 :=
  representable_binary32 1 0 (by norm_num) (by norm_num) (by norm_num)

namespace Cubic

variable (h : Cubic x sum quarter square diff v)
include h

theorem factors_nonneg (h₁ : -1 ≤ x) (h₂ : x ≤ 1) :
    0 ≤ sum ∧ 0 ≤ quarter ∧ 0 ≤ square ∧ 0 ≤ diff := by
  have hsum : 0 ≤ sum := h.sum_eq ▸ nearest_nonneg _ (by linarith)
  have hquarter : 0 ≤ quarter := h.quarter_eq ▸ nearest_nonneg _ (by positivity)
  have hsquare : 0 ≤ square := h.square_eq ▸ nearest_nonneg _ (mul_nonneg hquarter hsum)
  have hdiff : 0 ≤ diff := h.diff_eq ▸ nearest_nonneg _ (by linarith)
  exact ⟨hsum, hquarter, hsquare, hdiff⟩

theorem nonneg (h₁ : -1 ≤ x) (h₂ : x ≤ 1) : 0 ≤ v := by
  obtain ⟨-, -, hsquare, hdiff⟩ := h.factors_nonneg h₁ h₂
  exact h.value_eq ▸ nearest_nonneg _ (mul_nonneg hsquare hdiff)

/-! ## Where there is room -/

/-- Between two numbers the factors are no greater than their bounds there. -/
theorem le_one_of_mem (h₁ : -1 ≤ x) (h₂ : x ≤ 1) (hl : l ≤ x) (hx : x ≤ p)
    (hsum : Representable .binary32 (1 + p)) (hquarter : Representable .binary32 (1 / 4 * (1 + p)))
    (hsquare : Representable .binary32 (1 / 4 * (1 + p) * (1 + p)))
    (hdiff : Representable .binary32 (2 - l))
    (hle : 1 / 4 * (1 + p) * (1 + p) * (2 - l) ≤ 1) : v ≤ 1 := by
  obtain ⟨hsum₀, -, -, hdiff₀⟩ := h.factors_nonneg h₁ h₂
  have hp : 0 ≤ 1 + p := by linarith
  have hsum' : sum ≤ 1 + p := h.sum_eq ▸ nearest_le hsum (by linarith)
  have hquarter' : quarter ≤ 1 / 4 * (1 + p) :=
    h.quarter_eq ▸ nearest_le hquarter (mul_le_mul_of_nonneg_left hsum' (by norm_num))
  have hsquare' : square ≤ 1 / 4 * (1 + p) * (1 + p) :=
    h.square_eq ▸ nearest_le hsquare (mul_le_mul hquarter' hsum' hsum₀ (by positivity))
  have hdiff' : diff ≤ 2 - l := h.diff_eq ▸ nearest_le hdiff (by linarith)
  exact h.value_eq ▸ nearest_le representable_one
    ((mul_le_mul hsquare' hdiff' hdiff₀ (by positivity)).trans hle)

theorem le_one_of_le_half (h₁ : -1 ≤ x) (h₂ : x ≤ 1 / 2) : v ≤ 1 := by
  have hone : x ≤ 1 := by linarith
  rcases le_total x 0 with hx | hx
  · refine h.le_one_of_mem h₁ hone h₁ hx (representable_binary32 1 0 ?_ ?_ ?_)
      (representable_binary32 1 (-2) ?_ ?_ ?_) (representable_binary32 1 (-2) ?_ ?_ ?_)
      (representable_binary32 3 0 ?_ ?_ ?_) ?_ <;> norm_num
  rcases le_total x (1 / 4) with hx' | hx'
  · refine h.le_one_of_mem h₁ hone hx hx' (representable_binary32 5 (-2) ?_ ?_ ?_)
      (representable_binary32 5 (-4) ?_ ?_ ?_) (representable_binary32 25 (-6) ?_ ?_ ?_)
      (representable_binary32 2 0 ?_ ?_ ?_) ?_ <;> norm_num
  · refine h.le_one_of_mem h₁ hone hx' h₂ (representable_binary32 3 (-1) ?_ ?_ ?_)
      (representable_binary32 3 (-3) ?_ ?_ ?_) (representable_binary32 9 (-4) ?_ ?_ ?_)
      (representable_binary32 7 (-2) ?_ ?_ ?_) ?_ <;> norm_num

end Cubic

/-! ## Near one -/

theorem mul_two_zpow_mem {j : ℤ} (h₀ : 0 ≤ j) (h₁ : j ≤ 2 ^ 22) :
    0 ≤ (j * 2 ^ (-23 : ℤ) : ℝ) ∧ (j * 2 ^ (-23 : ℤ) : ℝ) ≤ 1 / 2 := by
  have h₀' : (0 : ℝ) ≤ j := by exact_mod_cast h₀
  have h₁' : (j : ℝ) ≤ 2 ^ 22 := by exact_mod_cast h₁
  norm_num
  constructor <;> linarith

/-- The two factors are rounded away from two and from one by the same number of units. -/
theorem exists_offset (h₁ : 1 / 2 ≤ x) (h₂ : x ≤ 1) : ∃ j : ℤ, 0 ≤ j ∧ j ≤ 2 ^ 22 ∧
    nearest .binary32 (1 + x) = 2 - j * 2 ^ (-23 : ℤ) ∧
    nearest .binary32 (2 - x) = 1 + j * 2 ^ (-23 : ℤ) := by
  refine ⟨roundEven ((1 - x) / 2 ^ (-23 : ℤ)), ?_, ?_, ?_, ?_⟩
  · refine le_roundEven ?_
    rw [Int.cast_zero]
    exact div_nonneg (by linarith) (by positivity)
  · refine roundEven_le ?_
    rw [div_le_iff₀ (by positivity)]
    norm_num
    linarith
  · rcases h₂.eq_or_lt with rfl | hlt
    · have hzero : roundEven 0 = 0 := mod_cast roundEven_intCast 0
      rw [sub_self, zero_div, hzero, nearest_eq_self (representable_binary32 1 1 ?_ ?_ ?_)] <;>
        norm_num
    · have hquantum : quantum .binary32 (1 + x) = -23 :=
        quantum_eq (k := 0) (by norm_num; linarith) (by norm_num; linarith) (by decide)
      have hsplit : (1 + x) / 2 ^ (-23 : ℤ) =
          2 * ((2 ^ 23 : ℤ) : ℝ) - (1 - x) / 2 ^ (-23 : ℤ) := by
        norm_num
        ring
      rw [nearest, hquantum, hsplit, roundEven_two_mul_sub]
      push_cast
      norm_num
      ring
  · have hquantum : quantum .binary32 (2 - x) = -23 :=
      quantum_eq (k := 0) (by norm_num; linarith) (by norm_num; linarith) (by decide)
    have hsplit : (2 - x) / 2 ^ (-23 : ℤ) =
        2 * ((2 ^ 22 : ℤ) : ℝ) + (1 - x) / 2 ^ (-23 : ℤ) := by
      norm_num
      ring
    rw [nearest, hquantum, hsplit, roundEven_two_mul_add]
    push_cast
    norm_num
    ring

/-- The square of half the first factor, of which a quarter of the factor is exact. -/
theorem nearest_square_le {j : ℤ} (h₀ : 0 ≤ j) (h₁ : j ≤ 2 ^ 22) {t : ℝ}
    (ht : t = j * 2 ^ (-23 : ℤ)) :
    nearest .binary32 (nearest .binary32 (1 / 4 * (2 - t)) * (2 - t)) ≤ 1 - t + t ^ 2 / 2 := by
  have hquarter : nearest .binary32 (1 / 4 * (2 - t)) = 1 / 4 * (2 - t) := by
    refine nearest_eq_self (representable_binary32 (2 ^ 24 - j) (-25) ?_ ?_ ?_)
    · rw [abs_le]
      omega
    · norm_num
    · rw [ht]
      push_cast
      norm_num
      ring
  obtain ⟨ht₀, ht₁⟩ := ht ▸ mul_two_zpow_mem h₀ h₁
  rw [hquarter]
  rcases ht₀.eq_or_lt with rfl | hpos
  · refine nearest_le (representable_binary32 1 0 ?_ ?_ ?_) ?_ <;> norm_num
  have hquantum : quantum .binary32 (1 / 4 * (2 - t) * (2 - t)) = -24 :=
    quantum_eq (k := -1) (by norm_num; nlinarith) (by norm_num; nlinarith) (by decide)
  have hsplit : 1 / 4 * (2 - t) * (2 - t) / 2 ^ (-24 : ℤ) =
      2 * ((2 ^ 23 - j : ℤ) : ℝ) + j ^ 2 * 2 ^ (-24 : ℤ) := by
    rw [ht]
    push_cast
    norm_num
    ring
  have hround := roundEven_le_two_mul (x := j ^ 2 * 2 ^ (-24 : ℤ)) (by positivity)
  rw [nearest, hquantum, hsplit, roundEven_two_mul_add]
  calc _ ≤ (2 * (2 ^ 23 - j) + 2 * (j ^ 2 * 2 ^ (-24 : ℤ))) * (2 ^ (-24 : ℤ) : ℝ) := by
        push_cast
        exact mul_le_mul_of_nonneg_right (by linarith) (by positivity)
    _ = 1 - t + t ^ 2 / 2 := by
        rw [ht]
        norm_num
        ring

/-- **The computed cubic is never greater than one.** -/
theorem Cubic.le_one (h : Cubic x sum quarter square diff v) (h₁ : -1 ≤ x) (h₂ : x ≤ 1) :
    v ≤ 1 := by
  rcases le_total x (1 / 2) with hx | hx
  · exact h.le_one_of_le_half h₁ hx
  obtain ⟨j, hj₀, hj₁, hsum, hdiff⟩ := exists_offset hx h₂
  obtain ⟨t, ht⟩ : ∃ t : ℝ, t = j * 2 ^ (-23 : ℤ) := ⟨_, rfl⟩
  obtain ⟨ht₀, ht₁⟩ := ht ▸ mul_two_zpow_mem hj₀ hj₁
  rw [← h.sum_eq, ← ht] at hsum
  rw [← h.diff_eq, ← ht] at hdiff
  have hsquare : square ≤ 1 - t + t ^ 2 / 2 := by
    rw [h.square_eq, h.quarter_eq, hsum]
    exact nearest_square_le hj₀ hj₁ ht
  rw [h.value_eq, hdiff]
  refine nearest_le representable_one ?_
  calc square * (1 + t) ≤ (1 - t + t ^ 2 / 2) * (1 + t) :=
        mul_le_mul_of_nonneg_right hsquare (by linarith)
    _ = 1 - t ^ 2 * (1 - t) / 2 := by ring
    _ ≤ 1 := by nlinarith [mul_nonneg (sq_nonneg t) (by linarith : 0 ≤ 1 - t)]

end SignedDistance
