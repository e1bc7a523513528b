import SignedDistance.Decimal.Text
import SignedDistance.Proofs.Number.Value

set_option autoImplicit false

/-! # The fewest digits read back

What reads back as a number is told in units of its last digit: half a unit above the digits, and
below them half a unit as well, or a quarter where the numbers below are twice as dense. The test
on the grids is this interval without fractions, rounding takes all of it to the number, and one of
the grids that are tried is fine enough to have a point in it. -/

namespace SignedDistance

open Float.Model (Format)
open Unpacked (CanonicalDigits)

/-! ## The last digit that is kept -/

section Quantum

variable {S : Format} {x t : ℝ} {k : ℤ}

theorem quantum_le (hx : 0 < x) (h : x < 2 ^ (S.mantissaBits + k)) (hk : S.minExponent ≤ k) :
    quantum S x ≤ k := by
  by_contra! hlt
  have hle := two_zpow_quantum_le_abs hx.ne' (S := S) (by omega)
  rw [abs_of_pos hx] at hle
  have hpower : (2 : ℝ) ^ (S.mantissaBits + k) ≤ 2 ^ (S.mantissaBits + quantum S x - 1) :=
    zpow_le_zpow_right₀ one_le_two (by omega)
  linarith

theorem le_quantum (h : 2 ^ S.mantissaBitsWithoutImplicit * 2 ^ k ≤ x) : k ≤ quantum S x := by
  by_contra! hlt
  have hbelow := (le_abs_self x).trans_lt (abs_lt_two_zpow_quantum S x)
  have hpower : (2 : ℝ) ^ (S.mantissaBits + quantum S x) ≤ 2 ^ (S.mantissaBits + k - 1) :=
    zpow_le_zpow_right₀ one_le_two (by omega)
  rw [two_zpow_mantissaBits_sub_one] at hpower
  linarith

theorem nearest_of_quantum (h : quantum S (t * 2 ^ k) = k) :
    nearest S (t * 2 ^ k) = roundEven t * 2 ^ k := by
  rw [nearest, h, mul_div_cancel_right₀ _ (by positivity)]

end Quantum

/-! ## Powers of ten and of two -/

theorem pow_toNat_neg_mul {a : ℝ} (ha : a ≠ 0) (n : ℤ) : a ^ (-n).toNat * a ^ n = a ^ n.toNat := by
  rw [← zpow_natCast, ← zpow_natCast, ← zpow_add₀ ha]
  congr 1
  omega

/-- Three digits are worth ten bits at most, and one is worth three bits at least. -/
theorem ten_zpow_le_two_zpow {i j : ℤ} (hdigits : 0 ≤ i → 10 * i ≤ 3 * j)
    (hplaces : i < 0 → 3 * i ≤ j) : (10 : ℝ) ^ i ≤ 2 ^ j := by
  rcases le_or_gt 0 i with hi | hi
  · have hij := hdigits hi
    lift i to ℕ using hi
    lift j to ℕ using by omega
    rw [zpow_natCast, zpow_natCast, ← pow_le_pow_iff_left₀ (by positivity) (by positivity)
      three_ne_zero]
    calc ((10 : ℝ) ^ i) ^ 3 = (10 ^ 3) ^ i := pow_right_comm 10 i 3
      _ ≤ (2 ^ 10) ^ i := pow_le_pow_left₀ (by norm_num) (by norm_num) i
      _ = 2 ^ (10 * i) := (pow_mul 2 10 i).symm
      _ ≤ 2 ^ (j * 3) := pow_le_pow_right₀ one_le_two (by omega)
      _ = (2 ^ j) ^ 3 := pow_mul 2 j 3
  · have hij := hplaces hi
    obtain ⟨n, rfl⟩ : ∃ n : ℕ, i = -n := ⟨i.natAbs, by omega⟩
    calc (10 : ℝ) ^ (-n : ℤ) = ((10 : ℝ) ^ n)⁻¹ := by rw [zpow_neg, zpow_natCast]
      _ ≤ ((2 ^ 3 : ℝ) ^ n)⁻¹ :=
        inv_anti₀ (by positivity) (pow_le_pow_left₀ (by norm_num) (by norm_num) n)
      _ = 2 ^ (3 * -n : ℤ) := by rw [← pow_mul, ← zpow_natCast, ← zpow_neg]; push_cast; ring_nf
      _ ≤ 2 ^ j := zpow_le_zpow_right₀ one_le_two hij

namespace BinaryFraction

variable {b : BinaryFraction} {i : ℤ} {c tries : ℕ} {t : ℝ}

/-! ## What reads back -/

/-- Just below a power of two the last digit is worth half as much. -/
theorem nearest_below_power {S : Format} {e : ℤ}
    (hlower : 2 ^ S.mantissaBitsWithoutImplicit - 1 / 4 ≤ t)
    (hupper : t < 2 ^ S.mantissaBitsWithoutImplicit) (hquantum : quantum S (t * 2 ^ e) < e) :
    nearest S (t * 2 ^ e) = 2 ^ S.mantissaBitsWithoutImplicit * 2 ^ e := by
  have hone : (1 : ℝ) ≤ 2 ^ S.mantissaBitsWithoutImplicit := one_le_pow₀ one_le_two
  have hhalf : t * 2 ^ e = 2 * t * 2 ^ (e - 1) := by
    rw [zpow_sub_one₀ two_ne_zero]
    ring
  have hquantum' : quantum S (2 * t * 2 ^ (e - 1)) = e - 1 := by
    refine le_antisymm (hhalf ▸ by omega) (le_quantum ?_)
    exact mul_le_mul_of_nonneg_right (by linarith) (by positivity)
  have hround : roundEven (2 * t) = 2 * 2 ^ S.mantissaBitsWithoutImplicit := by
    have hle : |2 * t - (2 * 2 ^ S.mantissaBitsWithoutImplicit : ℤ)| ≤ 1 / 2 := by
      push_cast
      exact abs_le.2 ⟨by linarith, by linarith⟩
    exact roundEven_eq_iff.2 (hle.lt_or_eq.imp id fun heq => ⟨heq, even_two_mul _⟩)
  rw [hhalf, nearest_of_quantum hquantum', hround, zpow_sub_one₀ two_ne_zero]
  push_cast
  ring

/-- **What reads back is rounded to the number.** -/
theorem nearest_of_reach {S : Format} {m : ℕ} {e : ℤ} (hcanonical : CanonicalDigits S m e)
    (hm : 0 < m) (h : Reach m (ofParts S m e).narrowBelow t) :
    nearest S (t * 2 ^ e) = m * 2 ^ e := by
  have hunit : (0 : ℝ) < 2 ^ e := by positivity
  obtain ⟨hlower, hupper⟩ := h.bounds
  have hlower' : m - 1 / 2 ≤ t := by linarith [reachBelow_le (ofParts S m e).narrowBelow]
  have hm' : (m + 1 : ℝ) ≤ 2 ^ S.mantissaBits := mod_cast hcanonical.lt
  have hquantum : quantum S (t * 2 ^ e) ≤ e := by
    refine quantum_le (mul_pos (h.pos hm) hunit) ?_ hcanonical.minExponent_le
    rw [zpow_add₀ two_ne_zero, zpow_natCast]
    exact mul_lt_mul_of_pos_right (by linarith [hupper]) hunit
  rcases hquantum.eq_or_lt with heq | hlt
  · rw [nearest_of_quantum heq, h.roundEven_eq]
    rfl
  -- a finer digit is kept only below the least number with all the digits that there is room for
  have hmin := minExponent_le_quantum S (t * 2 ^ e)
  have hfull : (2 : ℝ) ^ S.mantissaBitsWithoutImplicit ≤ m :=
    mod_cast hcanonical.le hm (by omega)
  have hshort : t < 2 ^ S.mantissaBitsWithoutImplicit := by
    by_contra! hle
    exact hlt.not_ge (le_quantum (mul_le_mul_of_nonneg_right hle hunit.le))
  obtain rfl : m = 2 ^ S.mantissaBitsWithoutImplicit := by
    refine le_antisymm (Nat.lt_add_one_iff.1 ?_) (mod_cast hfull)
    have : (m : ℝ) < 2 ^ S.mantissaBitsWithoutImplicit + 1 := by linarith
    exact_mod_cast this
  have hnarrow : (ofParts S (2 ^ S.mantissaBitsWithoutImplicit) e).narrowBelow = true := by
    simp only [ofParts, Bool.and_eq_true, decide_eq_true_eq]
    exact ⟨rfl, by omega⟩
  rw [hnarrow, reachBelow, if_pos rfl] at hlower
  push_cast at hlower ⊢
  exact nearest_below_power hlower hshort hlt

/-! ## The test on a grid -/

theorem onGrid_spec (b : BinaryFraction) (i : ℤ) :
    0 < (b.onGrid i).1 ∧ 0 < (b.onGrid i).2 ∧
      ((b.onGrid i).2 * 2 ^ b.exponent : ℝ) = (b.onGrid i).1 * 10 ^ i := by
  simp only [onGrid, Nat.pow_eq]
  refine ⟨by positivity, by positivity, ?_⟩
  push_cast
  rw [mul_right_comm, pow_toNat_neg_mul two_ne_zero, mul_assoc, pow_toNat_neg_mul (by norm_num)]

/-- **The test is exact.** -/
theorem readsBack_iff (hm : 0 < b.mantissa) :
    b.readsBack (b.onGrid i).1 (b.onGrid i).2 c = true ↔
      Reach b.mantissa b.narrowBelow (c * 10 ^ i / 2 ^ b.exponent) := by
  obtain ⟨hunit, -, hgrid⟩ := b.onGrid_spec i
  generalize (b.onGrid i).1 = unit at hunit hgrid
  generalize (b.onGrid i).2 = den at hgrid
  set t : ℝ := c * 10 ^ i / 2 ^ b.exponent with ht
  have hpos : (0 : ℝ) < 4 * unit := by positivity
  have hx : ((4 * c * den : ℕ) : ℝ) = t * (4 * unit) := by
    rw [ht]
    field_simp
    push_cast
    linear_combination 4 * c * hgrid
  have hlow : (((4 * b.mantissa - if b.narrowBelow then 1 else 2) * unit : ℕ) : ℝ) =
      (b.mantissa - reachBelow b.narrowBelow) * (4 * unit) := by
    rw [reachBelow]
    split_ifs <;> rw [Nat.cast_mul, Nat.cast_sub (by omega)] <;> push_cast <;> ring
  have hhigh : (((4 * b.mantissa + 2) * unit : ℕ) : ℝ) =
      (b.mantissa + 1 / 2) * (4 * unit) := by
    push_cast
    ring
  rw [readsBack, Reach]
  by_cases heven : Even b.mantissa
  · rw [if_pos heven, if_pos (Nat.even_iff.1 heven), Bool.and_eq_true, decide_eq_true_eq,
      decide_eq_true_eq, ← Nat.cast_le (α := ℝ), ← Nat.cast_le (α := ℝ), hx, hlow, hhigh,
      mul_le_mul_iff_left₀ hpos, mul_le_mul_iff_left₀ hpos]
  · rw [if_neg heven, if_neg (mt Nat.even_iff.2 heven), Bool.and_eq_true, decide_eq_true_eq,
      decide_eq_true_eq, ← Nat.cast_lt (α := ℝ), ← Nat.cast_lt (α := ℝ), hx, hlow, hhigh,
      mul_lt_mul_iff_left₀ hpos, mul_lt_mul_iff_left₀ hpos]

theorem reach_of_neighbour? (hm : 0 < b.mantissa) (h : b.neighbour? i = some c) :
    Reach b.mantissa b.narrowBelow (c * 10 ^ i / 2 ^ b.exponent) := by
  simp only [neighbour?] at h
  split_ifs at h with hup hdown
  · obtain rfl := Option.some.inj h
    exact (readsBack_iff hm).1 (Bool.and_eq_true_iff.1 hup).1
  · obtain rfl := Option.some.inj h
    exact (readsBack_iff hm).1 hdown

/-- On a grid that is fine enough the neighbour below reads back. -/
theorem neighbour?_ne_none (hm : 0 < b.mantissa) (hfine : (4 * 10 ^ i : ℝ) ≤ 2 ^ b.exponent) :
    b.neighbour? i ≠ none := by
  obtain ⟨hunit, hden, hgrid⟩ := b.onGrid_spec i
  set down := b.mantissa * (b.onGrid i).1 / (b.onGrid i).2 with hdown
  have hle : (down * (b.onGrid i).2 : ℝ) ≤ b.mantissa * (b.onGrid i).1 :=
    mod_cast Nat.div_mul_le_self _ _
  have hlt : (b.mantissa * (b.onGrid i).1 : ℝ) < (down + 1) * (b.onGrid i).2 :=
    mod_cast Nat.lt_mul_of_div_lt (Nat.lt_succ_self down) hden
  have hexponent : (0 : ℝ) < 2 ^ b.exponent := by positivity
  have hunit' : (0 : ℝ) < (b.onGrid i).1 := mod_cast hunit
  have hpoint : (down * 10 ^ i / 2 ^ b.exponent : ℝ) * (b.onGrid i).1 = down * (b.onGrid i).2 := by
    field_simp
    linear_combination -down * hgrid
  have hgap : ((b.onGrid i).2 : ℝ) ≤ 1 / 4 * (b.onGrid i).1 := by
    refine le_of_mul_le_mul_right ?_ hexponent
    rw [hgrid]
    nlinarith
  have hreach : Reach b.mantissa b.narrowBelow (down * 10 ^ i / 2 ^ b.exponent) := by
    refine reach_of_lt ?_ ?_
    · refine lt_of_mul_lt_mul_right ?_ hunit'.le
      rw [hpoint]
      nlinarith [le_reachBelow b.narrowBelow]
    · refine lt_of_mul_lt_mul_right ?_ hunit'.le
      rw [hpoint]
      nlinarith
  have hhit := (readsBack_iff hm).2 hreach
  simp only [neighbour?]
  split_ifs
  · exact Option.some_ne_none _
  · exact Option.some_ne_none _

/-! ## The search -/

/-- A search that has a hit before it gives up ends with a hit. -/
theorem neighbour?_firstHit {k : ℕ} (hk : k < tries) (hhit : b.neighbour? (i - k) ≠ none) :
    b.neighbour? (b.firstHit i tries).2 = some (b.firstHit i tries).1 := by
  induction tries generalizing i k with
  | zero => omega
  | succ tries ih =>
    rw [firstHit]
    split
    · assumption
    · next hnone =>
      obtain _ | k := k
      · rw [Nat.cast_zero, sub_zero] at hhit
        exact absurd hnone hhit
      · refine ih (Nat.lt_of_succ_lt_succ hk) ?_
        rwa [Nat.cast_succ, add_comm, ← sub_sub] at hhit

/-- The last of the grids is fine enough for the digits of a single. -/
theorem finest_grid_le (hlog : b.mantissa.log2 < 24) (hlower : -149 ≤ b.exponent)
    (hupper : b.exponent ≤ 128) : (4 * 10 ^ (b.topGrid - 19) : ℝ) ≤ 2 ^ b.exponent := by
  have hpower : (10 : ℝ) ^ (b.topGrid - 19) ≤ 2 ^ (b.exponent - 2) := by
    refine ten_zpow_le_two_zpow ?_ ?_ <;> rw [topGrid] <;> omega
  calc (4 * 10 ^ (b.topGrid - 19) : ℝ) ≤ 2 ^ (2 : ℤ) * 2 ^ (b.exponent - 2) := by
        refine mul_le_mul (by norm_num) hpower (by positivity) (by positivity)
    _ = 2 ^ b.exponent := by
        rw [← zpow_add₀ two_ne_zero]
        congr 1
        ring

/-- **The fewest digits read back**, those of a single: some are found, and rounding takes them to
    the number. -/
theorem nearest_shortest {m : ℕ} {e : ℤ} (hcanonical : CanonicalDigits .binary32 m e) (hm : 0 < m)
    (he : e ≤ 128) :
    nearest .binary32 ((ofParts .binary32 m e).shortest.1 *
      10 ^ (ofParts .binary32 m e).shortest.2) = m * 2 ^ e := by
  have hlog : m.log2 < 24 := (Nat.log2_lt hm.ne').2 hcanonical.lt
  have hfine := finest_grid_le (b := ofParts .binary32 m e) hlog hcanonical.minExponent_le he
  have hhit := neighbour?_firstHit (show 19 < 20 by omega) (neighbour?_ne_none hm hfine)
  have hnearest := nearest_of_reach hcanonical hm (reach_of_neighbour? hm hhit)
  rwa [ofParts, div_mul_cancel₀ _ (by positivity)] at hnearest

end BinaryFraction

end SignedDistance
