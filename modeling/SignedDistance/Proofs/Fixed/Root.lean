import SignedDistance.Proofs.Length

set_option autoImplicit false

/-! # Square roots

The root of a number with raw value `n` has the raw value `√(n * unit)`. It is drawn in double
precision: the raw value is rounded to a double, multiplied by the unit, which is exact, the root is
rounded to a double again and at last to an integer. So it is the root of the integer `n * unit`
(`FixedVec.wholeRoot`), and off by less than one unit over the whole range. Every one of these steps
keeps the order, and none of them does anything to the square of a whole number. -/

namespace SignedDistance.Fixed

open Float.Model (Format)
open FixedVec (root wholeRoot)

variable {a b : Fixed} {n : ℤ}

/-- A double times the unit has the same digits. -/
theorem nearest_mul_unit (h : 1 ≤ n) :
    nearest .binary64 n * (65536 : ℝ) = nearest .binary64 (n * unit : ℤ) := by
  have hone : (2 : ℝ) ^ (Format.binary64.minExponent + Format.binary64.mantissaBits - 1 : ℤ) ≤
      |(n : ℝ)| := by
    have hn : (1 : ℝ) ≤ |(n : ℝ)| := by exact_mod_cast h.trans (le_abs_self n)
    exact (zpow_le_one_of_nonpos₀ one_le_two (by decide)).trans hn
  have hscaled := nearest_mul_two_pow hone 16
  norm_num [unit] at hscaled ⊢
  exact hscaled.symm

theorem raw_mul_unit_le (a : Fixed) : a.raw * unit ≤ 2 ^ 79 := by
  have hupper := a.upper
  simp only [unit]
  omega

/-- Nothing below zero has a root. -/
theorem wholeRoot_of_nonpos (h : n ≤ 0) : wholeRoot n = 0 := by
  have hle : nearest .binary64 n ≤ 0 := by
    rw [← nearest_zero (S := .binary64)]
    exact nearest_mono .binary64 (by exact_mod_cast h)
  rw [wholeRoot, root, Real.sqrt_eq_zero_of_nonpos hle, nearest_zero, round_zero]

/-- **The root is drawn of the exact raw value**, and rounded to a whole number of units. -/
theorem sqrt_eq_saturate (a : Fixed) : a.sqrt = saturate (wholeRoot (a.raw * unit)) := by
  rcases le_or_gt a.raw 0 with h | h
  · have hnonpos : a.raw * unit ≤ 0 := mul_nonpos_of_nonpos_of_nonneg h (by decide)
    rw [sqrt, if_pos h, wholeRoot_of_nonpos hnonpos]
    rfl
  have hraw : |a.raw| ≤ 2 ^ 128 := by
    have hupper := a.upper
    rw [abs_of_pos h]
    omega
  have hnonneg : (0 : ℝ) ≤ (a.raw * unit : ℤ) := by exact_mod_cast (mul_pos h (by decide)).le
  have hle : |nearest .binary64 (a.raw * unit : ℤ)| ≤ 2 ^ 79 := by
    refine abs_nearest_le ⟨1, 79, by decide, by decide, by norm_num⟩ ?_
    rw [abs_of_nonneg hnonneg]
    exact_mod_cast a.raw_mul_unit_le
  have hscaled := (Double.denotes_ofInt hraw).mul_unit
  rw [← EReal.coe_mul, nearest_mul_unit h,
    fit_coe (hle.trans_lt (Double.two_pow_lt_limit (by decide)))] at hscaled
  have hsqrt := hscaled.sqrt (nearest_nonneg _ hnonneg)
  have hwhole := hsqrt.nearestInt_eq (FixedVec.root_nonneg (a.raw * unit))
  rw [sqrt, if_neg h.not_ge, ofRawDouble, hwhole]
  rfl

/-! ## One unit off at most -/

theorem sqrt_spec (h : 0 < a.raw) :
    (a.sqrt.raw - 1) ^ 2 < a.raw * unit ∧ a.raw * unit < (a.sqrt.raw + 1) ^ 2 := by
  have hle := a.raw_mul_unit_le
  obtain ⟨hpos, hlower, hupper⟩ := FixedVec.wholeRoot_spec (mul_pos h (by decide : 0 < unit))
    (hle.trans (by norm_num))
  have hfits : Fits (wholeRoot (a.raw * unit)) := by
    have hsquare : (wholeRoot (a.raw * unit) - 1) ^ 2 < (2 ^ 40) ^ 2 :=
      hlower.trans (hle.trans_lt (by norm_num))
    have hroot := abs_lt_of_sq_lt_sq hsquare (by norm_num)
    rw [abs_lt] at hroot
    constructor <;> omega
  rw [sqrt_eq_saturate, raw_saturate_eq_iff.2 hfits]
  exact ⟨hlower, hupper⟩

theorem sqrt_of_nonpos (h : a.raw ≤ 0) : a.sqrt = zero := if_pos h

/-! ## Order and squares -/

theorem wholeRoot_mono : Monotone wholeRoot := by
  intro m n h
  have hnearest := nearest_mono .binary64 (Int.cast_le (R := ℝ).2 h)
  exact monotone_round (nearest_mono .binary64 (Real.sqrt_le_sqrt hnearest))

theorem sqrt_monotone : Monotone sqrt := by
  intro a b h
  rw [sqrt_eq_saturate, sqrt_eq_saturate]
  refine saturate_mono (wholeRoot_mono ?_)
  exact mul_le_mul_of_nonneg_right (le_iff_raw.1 h) (by decide)

/-- A square is told from its root if doubles hold them both. -/
theorem wholeRoot_mul_self (hn : 0 ≤ n) (hroot : Representable .binary64 n)
    (hsquare : Representable .binary64 (n * n)) : wholeRoot (n * n) = n := by
  have hn' : (0 : ℝ) ≤ n := by exact_mod_cast hn
  rw [wholeRoot, root, Int.cast_mul, nearest_eq_self hsquare, Real.sqrt_mul_self hn',
    nearest_eq_self hroot, round_intCast]

theorem sqrt_ofInt_mul_self (hn : 0 ≤ n) (hfits : Fits (n * n * unit)) :
    (ofInt (n * n)).sqrt = ofInt n := by
  have hsquare : |n * n| ≤ 2 ^ 53 := by
    have hupper := hfits.2
    rw [abs_of_nonneg (mul_self_nonneg n)]
    simp only [unit] at hupper
    omega
  have hself : |n| ≤ 2 ^ 53 := by
    rw [abs_of_nonneg hn]
    nlinarith [abs_le.1 hsquare]
  have hexact : (ofInt (n * n)).raw = n * n * unit := raw_saturate_eq_iff.2 hfits
  have hsplit : n * n * unit * unit = n * unit * (n * unit) := by ring
  rw [sqrt_eq_saturate, hexact, hsplit, wholeRoot_mul_self (mul_nonneg hn (by decide))]
  · rfl
  · exact ⟨n, 16, hself, by decide, by norm_num [unit]⟩
  · refine ⟨n * n, 32, hsquare, by decide, ?_⟩
    push_cast [unit]
    ring

/-- **Square roots are correct to one unit** and keep the order, over the whole range, and those of
    squares of whole numbers are exact. -/
theorem sqrt_accurate :
    (∀ a : Fixed, 0 < a.raw →
      (a.sqrt.raw - 1) ^ 2 < a.raw * unit ∧ a.raw * unit < (a.sqrt.raw + 1) ^ 2) ∧
    (∀ a : Fixed, a.raw ≤ 0 → a.sqrt = zero) ∧
    Monotone sqrt ∧
    ∀ n : ℤ, 0 ≤ n → Fits (n * n * unit) → (ofInt (n * n)).sqrt = ofInt n :=
  ⟨fun _ => sqrt_spec, fun _ => sqrt_of_nonpos, sqrt_monotone, fun _ => sqrt_ofInt_mul_self⟩

/-- The greatest number, the least one, and the greatest whole number whose square is in range. -/
theorem sqrt_accurate_greatest :
    0 < greatest.raw ∧ greatest.raw * unit < (greatest.sqrt.raw + 1) ^ 2 ∧
    least.raw ≤ 0 ∧ least.sqrt = zero ∧
    Fits (11863283 * 11863283 * unit) ∧
      (ofInt (11863283 * 11863283)).sqrt = ofInt 11863283 := by
  obtain ⟨hspec, hnonpos, -, hsquare⟩ := sqrt_accurate
  have hgreatest : 0 < greatest.raw := by decide
  have hleast : least.raw ≤ 0 := by decide
  have hfits : Fits (11863283 * 11863283 * unit) := by decide
  exact ⟨hgreatest, (hspec greatest hgreatest).2, hleast, hnonpos least hleast, hfits,
    hsquare 11863283 (by decide) hfits⟩

end SignedDistance.Fixed
