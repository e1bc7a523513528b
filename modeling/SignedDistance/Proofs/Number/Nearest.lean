import Mathlib

set_option autoImplicit false

/-! # Rounding real numbers to a format

A format holds the multiples `n * 2 ^ k` of powers of two with few digits in `n` and no small `k`.
Rounding takes a real number to the nearest of them, and of two that are equally near to the one
with even digits. Exponents have no upper bound in the format; what becomes of numbers that are too
large is a matter of packing them. -/

namespace SignedDistance

open Float.Model (Format)

/-! ## To integers -/

/-- The integer nearest to a real number, a half going to the even neighbour. -/
noncomputable def roundEven (x : ℝ) : ℤ :=
  if Int.fract x < 1 / 2 then ⌊x⌋
  else if 1 / 2 < Int.fract x then ⌊x⌋ + 1
  else ⌊x⌋ + ⌊x⌋ % 2

/-- Nearer than a half, or a half away and even. -/
theorem roundEven_spec (x : ℝ) :
    |x - roundEven x| < 1 / 2 ∨ |x - roundEven x| = 1 / 2 ∧ Even (roundEven x) := by
  have hfloor := Int.floor_add_fract x
  have hnonneg := Int.fract_nonneg x
  have hlt := Int.fract_lt_one x
  unfold roundEven
  split_ifs with hbelow habove
  · left
    rw [abs_lt]
    constructor <;> linarith
  · left
    push_cast
    rw [abs_lt]
    constructor <;> linarith
  · right
    have hhalf : Int.fract x = 1 / 2 := le_antisymm (not_lt.1 habove) (not_lt.1 hbelow)
    rcases Int.emod_two_eq_zero_or_one ⌊x⌋ with heven | hodd
    · rw [heven, add_zero]
      refine ⟨?_, Int.even_iff.2 heven⟩
      rw [abs_of_nonneg] <;> linarith
    · rw [hodd]
      refine ⟨?_, Int.even_iff.2 (by omega)⟩
      push_cast
      rw [abs_of_nonpos] <;> linarith

/-- No other integer is as near. -/
theorem roundEven_eq_iff {x : ℝ} {n : ℤ} :
    roundEven x = n ↔ |x - n| < 1 / 2 ∨ |x - n| = 1 / 2 ∧ Even n := by
  refine ⟨fun h => h ▸ roundEven_spec x, fun h => ?_⟩
  have hspec := roundEven_spec x
  generalize roundEven x = m at hspec
  have hle : |x - m| ≤ 1 / 2 ∧ |x - n| ≤ 1 / 2 :=
    ⟨hspec.elim le_of_lt fun h => h.1.le, h.elim le_of_lt fun h => h.1.le⟩
  have hdist : |(m : ℝ) - n| ≤ |x - n| + |x - m| := by
    have := abs_sub_abs_le_abs_sub (m : ℝ) n
    calc |(m : ℝ) - n| = |(x - n) - (x - m)| := by ring_nf
      _ ≤ |x - n| + |x - m| := abs_sub _ _
  by_contra hne
  -- two integers that are both that near are neighbours at a half each, and one of them is odd
  have hone : (1 : ℝ) ≤ |(m : ℝ) - n| := by
    rw [← Int.cast_sub, ← Int.cast_abs]
    exact_mod_cast Int.one_le_abs (sub_ne_zero.2 hne)
  obtain ⟨hm, hmeven⟩ := hspec.resolve_left (by intro hlt; linarith [hle.2])
  obtain ⟨hn, hneven⟩ := h.resolve_left (by intro hlt; linarith [hle.1])
  have habs : |m - n| = 1 := by
    have : |(m : ℝ) - n| = 1 := le_antisymm (by linarith) hone
    exact_mod_cast this
  obtain ⟨a, ha⟩ := hmeven
  obtain ⟨b, hb⟩ := hneven
  rcases abs_eq (by norm_num : (0 : ℤ) ≤ 1) |>.1 habs with h | h <;> omega

theorem abs_sub_roundEven_le (x : ℝ) : |x - roundEven x| ≤ 1 / 2 :=
  (roundEven_spec x).elim le_of_lt fun h => h.1.le

@[simp] theorem roundEven_intCast (n : ℤ) : roundEven n = n :=
  roundEven_eq_iff.2 (.inl (by simp))

/-- Reflection at an integer keeps what is even. -/
theorem roundEven_two_mul_sub (n : ℤ) (x : ℝ) : roundEven (2 * n - x) = 2 * n - roundEven x := by
  have hdist : |2 * (n : ℝ) - x - ((2 * n - roundEven x : ℤ) : ℝ)| = |x - roundEven x| := by
    rw [abs_sub_comm x]
    push_cast
    ring_nf
  rw [roundEven_eq_iff, hdist]
  refine (roundEven_spec x).imp id fun h => ⟨h.1, ?_⟩
  exact (even_two_mul n).sub h.2

theorem roundEven_neg (x : ℝ) : roundEven (-x) = -roundEven x := by
  simpa using roundEven_two_mul_sub 0 x

theorem roundEven_two_mul_add (n : ℤ) (x : ℝ) : roundEven (2 * n + x) = 2 * n + roundEven x := by
  have h := roundEven_two_mul_sub n (-x)
  rwa [roundEven_neg, sub_neg_eq_add, sub_neg_eq_add] at h

/-- No integer is nearer. -/
theorem abs_sub_roundEven_le_abs_sub (x : ℝ) (n : ℤ) : |x - roundEven x| ≤ |x - n| := by
  rcases eq_or_ne (roundEven x) n with rfl | hne
  · exact le_rfl
  · have hhalf : 1 / 2 ≤ |x - n| := by
      by_contra hlt
      exact hne (roundEven_eq_iff.2 (.inl (not_le.1 hlt)))
    exact (abs_sub_roundEven_le x).trans hhalf

theorem roundEven_le {x : ℝ} {n : ℤ} (h : x ≤ n) : roundEven x ≤ n := by
  by_contra hlt
  have hone : (n + 1 : ℝ) ≤ roundEven x := mod_cast not_le.1 hlt
  have hnear := abs_le.1 (abs_sub_roundEven_le x)
  linarith [hnear.1]

theorem le_roundEven {x : ℝ} {n : ℤ} (h : n ≤ x) : n ≤ roundEven x := by
  have hneg : roundEven (-x) ≤ -n := roundEven_le (by push_cast; linarith)
  rw [roundEven_neg] at hneg
  exact neg_le_neg_iff.1 hneg

theorem roundEven_le_two_mul {x : ℝ} (h : 0 ≤ x) : (roundEven x : ℝ) ≤ 2 * x := by
  rcases lt_or_ge x (1 / 2) with hlt | hle
  · have hzero : roundEven x = 0 := roundEven_eq_iff.2 (.inl (by
      rwa [Int.cast_zero, sub_zero, abs_of_nonneg h]))
    rw [hzero, Int.cast_zero]
    linarith
  · have hnear := abs_le.1 (abs_sub_roundEven_le x)
    linarith [hnear.1]

/-! ## To given digits -/

/-- How far below given digits numbers go that are rounded to them, in units of the last digit: less
    far if the numbers below are twice as dense. -/
noncomputable def reachBelow (narrow : Bool) : ℝ := if narrow then 1 / 4 else 1 / 2

/-- What is rounded to the digits `m`, in units of the last digit. The ends belong to it if the
    digits are even. -/
def Reach (m : ℕ) (narrow : Bool) (t : ℝ) : Prop :=
  if Even m then m - reachBelow narrow ≤ t ∧ t ≤ m + 1 / 2
  else m - reachBelow narrow < t ∧ t < m + 1 / 2

theorem reachBelow_le (narrow : Bool) : reachBelow narrow ≤ 1 / 2 := by
  rw [reachBelow]
  split_ifs <;> norm_num

theorem le_reachBelow (narrow : Bool) : 1 / 4 ≤ reachBelow narrow := by
  rw [reachBelow]
  split_ifs <;> norm_num

section Reach

variable {m : ℕ} {narrow : Bool} {t : ℝ}

theorem reach_of_lt (hlower : m - reachBelow narrow < t) (hupper : t < m + 1 / 2) :
    Reach m narrow t := by
  rw [Reach]
  split_ifs
  · exact ⟨hlower.le, hupper.le⟩
  · exact ⟨hlower, hupper⟩

theorem Reach.bounds (h : Reach m narrow t) :
    m - reachBelow narrow ≤ t ∧ t ≤ m + 1 / 2 := by
  rw [Reach] at h
  split_ifs at h
  · exact h
  · exact ⟨h.1.le, h.2.le⟩

theorem Reach.pos (h : Reach m narrow t) (hm : 0 < m) : 0 < t := by
  have hone : (1 : ℝ) ≤ m := mod_cast hm
  linarith [h.bounds.1, reachBelow_le narrow]

/-- The digits are the nearest integer. -/
theorem Reach.roundEven_eq (h : Reach m narrow t) : roundEven t = m := by
  obtain ⟨hlower, hupper⟩ := h.bounds
  have hbelow := reachBelow_le narrow
  have hle : |t - m| ≤ 1 / 2 := abs_le.2 ⟨by linarith, by linarith⟩
  rw [roundEven_eq_iff, Int.cast_natCast, Int.even_coe_nat]
  rw [Reach] at h
  split_ifs at h with heven
  · exact hle.lt_or_eq.imp id fun heq => ⟨heq, heven⟩
  · exact .inl (abs_lt.2 ⟨by linarith, by linarith⟩)

end Reach

/-! ## To a format -/

/-- The number with the digits `n` and the exponent `k`. -/
noncomputable def scaled (n k : ℤ) : ℝ := n * 2 ^ k

variable (S : Format)

/-- The exponent of the last digit that is kept of a number. -/
noncomputable def quantum (x : ℝ) : ℤ := S.targetExponent (Int.log 2 |x| + 1)

/-- The number of the format that is nearest to a real number. -/
noncomputable def nearest (x : ℝ) : ℝ := roundEven (x / 2 ^ quantum S x) * 2 ^ quantum S x

/-- The numbers of the format, however large. -/
def Representable (g : ℝ) : Prop :=
  ∃ n k : ℤ, |n| ≤ 2 ^ S.mantissaBits ∧ S.minExponent ≤ k ∧ g = n * 2 ^ k

variable {S} {x y g : ℝ}

theorem Representable.neg (h : Representable S g) : Representable S (-g) := by
  obtain ⟨n, k, hn, hk, rfl⟩ := h
  exact ⟨-n, k, by rwa [abs_neg], hk, by push_cast; ring⟩

/-- There is no greatest exponent. -/
theorem Representable.mul_two_pow (h : Representable S g) (k : ℕ) :
    Representable S (g * 2 ^ k) := by
  obtain ⟨n, e, hn, he, rfl⟩ := h
  exact ⟨n, e + k, hn, by omega, by rw [zpow_add₀ two_ne_zero, zpow_natCast, mul_assoc]⟩

theorem quantum_neg (x : ℝ) : quantum S (-x) = quantum S x := by rw [quantum, quantum, abs_neg]

theorem nearest_neg (x : ℝ) : nearest S (-x) = -nearest S x := by
  rw [nearest, nearest, quantum_neg, neg_div, roundEven_neg]
  push_cast
  ring

theorem nearest_zero : nearest S 0 = 0 := by
  have h : roundEven 0 = 0 := mod_cast roundEven_intCast 0
  rw [nearest, zero_div, h, Int.cast_zero, zero_mul]

/-- Between two powers of two the last digit that is kept is the same. -/
theorem quantum_eq {k : ℤ} (h₁ : 2 ^ k ≤ x) (h₂ : x < 2 ^ (k + 1))
    (hk : S.minExponent ≤ k + 1 - S.mantissaBits) : quantum S x = k + 1 - S.mantissaBits := by
  have hx : 0 < x := lt_of_lt_of_le (by positivity) h₁
  have hlog : Int.log 2 x = k := le_antisymm
    (Int.lt_add_one_iff.1 ((Int.lt_zpow_iff_log_lt one_lt_two hx).1 (by exact_mod_cast h₂)))
    ((Int.zpow_le_iff_le_log one_lt_two hx).1 (by exact_mod_cast h₁))
  rw [quantum, abs_of_pos hx, hlog, Format.targetExponent, max_eq_left hk]

theorem minExponent_le_quantum (S : Format) (x : ℝ) : S.minExponent ≤ quantum S x :=
  le_max_right _ _

/-- The digits that are kept are no more than the format has room for. -/
theorem abs_lt_two_zpow_quantum (S : Format) (x : ℝ) :
    |x| < 2 ^ (S.mantissaBits + quantum S x) := by
  have hle : Int.log 2 |x| + 1 ≤ S.mantissaBits + quantum S x := by
    have := le_max_left (Int.log 2 |x| + 1 - S.mantissaBits) S.minExponent
    rw [quantum, Format.targetExponent]
    omega
  exact (Int.lt_zpow_succ_log_self one_lt_two _).trans_le
    (zpow_le_zpow_right₀ one_le_two hle)

/-- They are all that it has room for, unless the last digit is the smallest that there is. -/
theorem two_zpow_quantum_le_abs (hx : x ≠ 0) (hq : quantum S x ≠ S.minExponent) :
    2 ^ (S.mantissaBits + quantum S x - 1) ≤ |x| := by
  have hlog : S.mantissaBits + quantum S x - 1 = Int.log 2 |x| := by
    rw [quantum, Format.targetExponent] at hq ⊢
    omega
  rw [hlog]
  exact Int.zpow_log_le_self one_lt_two (abs_pos.2 hx)

theorem two_zpow_mantissaBits_sub_one (S : Format) (t : ℤ) :
    (2 : ℝ) ^ (S.mantissaBits + t - 1) = 2 ^ S.mantissaBitsWithoutImplicit * 2 ^ t := by
  rw [← zpow_natCast, ← zpow_add₀ two_ne_zero, Format.mantissaBits]
  congr 1
  push_cast
  ring

theorem abs_digits_le (S : Format) (x : ℝ) :
    |roundEven (x / 2 ^ quantum S x)| ≤ 2 ^ S.mantissaBits := by
  have hpos : (0 : ℝ) < 2 ^ quantum S x := by positivity
  have hle : |x / 2 ^ quantum S x| ≤ ((2 ^ S.mantissaBits : ℤ) : ℝ) := by
    rw [abs_div, abs_of_pos hpos, div_le_iff₀ hpos]
    refine (abs_lt_two_zpow_quantum S x).le.trans_eq ?_
    rw [zpow_add₀ two_ne_zero, zpow_natCast]
    push_cast
    rfl
  obtain ⟨hlower, hupper⟩ := abs_le.1 hle
  exact abs_le.2 ⟨le_roundEven (by push_cast at hlower ⊢; exact hlower), roundEven_le hupper⟩

theorem le_digits (hx : 0 < x) (hq : quantum S x ≠ S.minExponent) :
    2 ^ S.mantissaBitsWithoutImplicit ≤ roundEven (x / 2 ^ quantum S x) := by
  have hpos : (0 : ℝ) < 2 ^ quantum S x := by positivity
  have hle := two_zpow_quantum_le_abs hx.ne' hq
  rw [abs_of_pos hx, two_zpow_mantissaBits_sub_one] at hle
  refine le_roundEven ?_
  rw [le_div_iff₀ hpos]
  exact_mod_cast hle

theorem representable_nearest (S : Format) (x : ℝ) : Representable S (nearest S x) :=
  ⟨_, _, abs_digits_le S x, minExponent_le_quantum S x, rfl⟩

theorem abs_sub_mul_quantum (S : Format) (x : ℝ) (n : ℤ) :
    |x - n * 2 ^ quantum S x| = |x / 2 ^ quantum S x - n| * 2 ^ quantum S x := by
  have hpos : (0 : ℝ) < 2 ^ quantum S x := by positivity
  rw [← abs_of_pos hpos, ← abs_mul, abs_of_pos hpos, sub_mul, div_mul_cancel₀ _ hpos.ne']

/-- Multiples of the last digit that is kept are no nearer. -/
theorem abs_sub_nearest_le_of_multiple (S : Format) (x : ℝ) (n : ℤ) :
    |x - nearest S x| ≤ |x - n * 2 ^ quantum S x| := by
  rw [nearest, abs_sub_mul_quantum, abs_sub_mul_quantum]
  exact mul_le_mul_of_nonneg_right (abs_sub_roundEven_le_abs_sub _ n) (by positivity)

/-- **Rounding makes a relative error**, of half a digit at most, unless digits are missing. -/
theorem abs_sub_nearest_le_mul (h : 2 ^ (S.minExponent + S.mantissaBits - 1 : ℤ) ≤ |x|) :
    |x - nearest S x| ≤ |x| * 2 ^ (-S.mantissaBits : ℤ) := by
  have hfull : (2 : ℝ) ^ (S.mantissaBits + quantum S x - 1) ≤ |x| := by
    rcases eq_or_ne (quantum S x) S.minExponent with hq | hq
    · rwa [hq, add_comm (S.mantissaBits : ℤ)]
    · have hx : x ≠ 0 := abs_pos.1 (lt_of_lt_of_le (by positivity) h)
      exact two_zpow_quantum_le_abs hx hq
  calc |x - nearest S x| ≤ 1 / 2 * 2 ^ quantum S x := by
        rw [nearest, abs_sub_mul_quantum]
        exact mul_le_mul_of_nonneg_right (abs_sub_roundEven_le _) (by positivity)
    _ = 2 ^ (S.mantissaBits + quantum S x - 1) * 2 ^ (-S.mantissaBits : ℤ) := by
        have hhalf : (1 / 2 : ℝ) = 2 ^ (-1 : ℤ) := by norm_num
        rw [hhalf, ← zpow_add₀ two_ne_zero, ← zpow_add₀ two_ne_zero]
        congr 1
        ring
    _ ≤ |x| * 2 ^ (-S.mantissaBits : ℤ) := mul_le_mul_of_nonneg_right hfull (by positivity)

theorem log_mul_two_pow (hx : 0 < x) (k : ℕ) : Int.log 2 (x * 2 ^ k) = Int.log 2 x + k := by
  have hscaled : (0 : ℝ) < x * 2 ^ k := by positivity
  have hlower := Int.zpow_log_le_self (b := 2) one_lt_two hx
  have hupper := Int.lt_zpow_succ_log_self (b := 2) one_lt_two x
  push_cast at hlower hupper
  refine le_antisymm (Int.lt_add_one_iff.1 ?_) ?_
  · rw [← Int.lt_zpow_iff_log_lt one_lt_two hscaled, add_right_comm]
    push_cast
    rw [zpow_add₀ two_ne_zero, zpow_natCast]
    exact mul_lt_mul_of_pos_right hupper (by positivity)
  · rw [← Int.zpow_le_iff_le_log one_lt_two hscaled]
    push_cast
    rw [zpow_add₀ two_ne_zero, zpow_natCast]
    exact mul_le_mul_of_nonneg_right hlower (by positivity)

/-- Rounding does not see where the point is, unless digits are missing. -/
theorem nearest_mul_two_pow (h : 2 ^ (S.minExponent + S.mantissaBits - 1 : ℤ) ≤ |x|) (k : ℕ) :
    nearest S (x * 2 ^ k) = nearest S x * 2 ^ k := by
  have hx : 0 < |x| := lt_of_lt_of_le (by positivity) h
  have hlog := (Int.zpow_le_iff_le_log one_lt_two hx).1 (by exact_mod_cast h)
  have hquantum : quantum S (x * 2 ^ k) = quantum S x + k := by
    rw [quantum, quantum, abs_mul, abs_of_pos (by positivity : (0 : ℝ) < 2 ^ k),
      log_mul_two_pow hx, Format.targetExponent, Format.targetExponent]
    omega
  rw [nearest, nearest, hquantum, zpow_add₀ two_ne_zero, zpow_natCast,
    mul_div_mul_right _ _ (by positivity), mul_assoc]

/-- **No number of the format is nearer.** -/
theorem abs_sub_nearest_le (x : ℝ) (hg : Representable S g) : |x - nearest S x| ≤ |x - g| := by
  wlog hx : 0 ≤ x generalizing x g
  · have := this (-x) hg.neg (by linarith)
    rwa [nearest_neg, ← neg_sub', ← neg_sub', abs_neg, abs_neg] at this
  rcases hx.eq_or_lt with rfl | hx
  · rw [nearest_zero, sub_zero, abs_zero]
    exact abs_nonneg _
  obtain ⟨n, k, hn, hk, rfl⟩ := hg
  rcases le_or_gt (quantum S x) k with hle | hlt
  · -- the number is a multiple of the last digit that is kept
    obtain ⟨d, rfl⟩ : ∃ d : ℕ, k = d + quantum S x := ⟨(k - quantum S x).toNat, by omega⟩
    have hmultiple := abs_sub_nearest_le_of_multiple S x (n * 2 ^ d)
    rw [zpow_add₀ two_ne_zero, zpow_natCast, ← mul_assoc]
    exact_mod_cast hmultiple
  · -- the number is below the least one with as many digits as `x`, which is a multiple
    have hlt' : quantum S x ≠ S.minExponent := by omega
    have hleast : (2 : ℝ) ^ (S.mantissaBits + quantum S x - 1) ≤ x := by
      have := two_zpow_quantum_le_abs hx.ne' hlt'
      rwa [abs_of_pos hx] at this
    have hbelow : (n : ℝ) * 2 ^ k ≤ 2 ^ (S.mantissaBits + quantum S x - 1) := by
      have hn' : (n : ℝ) ≤ 2 ^ S.mantissaBits := by exact_mod_cast (le_abs_self n).trans hn
      calc (n : ℝ) * 2 ^ k ≤ 2 ^ S.mantissaBits * 2 ^ k :=
            mul_le_mul_of_nonneg_right hn' (by positivity)
        _ = 2 ^ (S.mantissaBits + k) := by rw [zpow_add₀ two_ne_zero, zpow_natCast]
        _ ≤ 2 ^ (S.mantissaBits + quantum S x - 1) := zpow_le_zpow_right₀ one_le_two (by omega)
    have hmultiple := abs_sub_nearest_le_of_multiple S x (2 ^ S.mantissaBitsWithoutImplicit)
    rw [two_zpow_mantissaBits_sub_one] at hleast hbelow
    push_cast at hmultiple
    refine hmultiple.trans ?_
    rw [abs_of_nonneg (by linarith), abs_of_nonneg (by linarith)]
    linarith

theorem nearest_eq_self (hg : Representable S g) : nearest S g = g := by
  have h := abs_sub_nearest_le g hg
  rw [sub_self, abs_zero] at h
  linarith [abs_eq_zero.1 (le_antisymm h (abs_nonneg _))]

/-- **Rounding keeps the order.** -/
theorem nearest_mono (S : Format) : Monotone (nearest S) := by
  intro x y hle
  by_contra hlt
  rw [not_le] at hlt
  -- both results are numbers of the format, so each of `x` and `y` is nearer to its own one
  have hx := abs_sub_nearest_le x (representable_nearest S y)
  have hy := abs_sub_nearest_le y (representable_nearest S x)
  have hne : x ≠ y := fun h => absurd hlt (by rw [h]; exact lt_irrefl _)
  rcases abs_cases (x - nearest S x) with hx' | hx' <;>
    rcases abs_cases (x - nearest S y) with hx'' | hx'' <;>
    rcases abs_cases (y - nearest S y) with hy' | hy' <;>
    rcases abs_cases (y - nearest S x) with hy'' | hy'' <;>
    exact hne (by linarith)

theorem nearest_nonneg (S : Format) (h : 0 ≤ x) : 0 ≤ nearest S x :=
  nearest_zero (S := S) ▸ nearest_mono S h

theorem nearest_le (hg : Representable S g) (h : x ≤ g) : nearest S x ≤ g :=
  nearest_eq_self hg ▸ nearest_mono S h

theorem abs_nearest_le (hg : Representable S g) (h : |x| ≤ g) : |nearest S x| ≤ g := by
  obtain ⟨hlower, hupper⟩ := abs_le.1 h
  have hneg := nearest_mono S hlower
  rw [nearest_neg, nearest_eq_self hg] at hneg
  exact abs_le.2 ⟨hneg, nearest_le hg hupper⟩

theorem nearest_le_two_mul (S : Format) (h : 0 ≤ x) : nearest S x ≤ 2 * x := by
  have hpos : (0 : ℝ) < 2 ^ quantum S x := by positivity
  calc nearest S x ≤ 2 * (x / 2 ^ quantum S x) * 2 ^ quantum S x :=
        mul_le_mul_of_nonneg_right (roundEven_le_two_mul (div_nonneg h hpos.le)) hpos.le
    _ = 2 * x := by rw [mul_assoc, div_mul_cancel₀ _ hpos.ne']

/-- Rounding takes no more than half from what is not below the least number there is. -/
theorem le_two_mul_nearest (h : 2 ^ S.minExponent ≤ x) : x ≤ 2 * nearest S x := by
  have hx : 0 < x := lt_of_lt_of_le (by positivity) h
  -- the power of two below has room
  have hlog : S.minExponent ≤ Int.log 2 x := (Int.zpow_le_iff_le_log one_lt_two hx).1 (by exact_mod_cast h)
  have hpower : Representable S (2 ^ Int.log 2 x) :=
    ⟨1, Int.log 2 x, by simp [one_le_pow₀], hlog, by rw [Int.cast_one, one_mul]⟩
  have hle : (2 : ℝ) ^ Int.log 2 x ≤ x := by exact_mod_cast Int.zpow_log_le_self one_lt_two hx
  calc x ≤ 2 ^ (Int.log 2 x + 1) := by exact_mod_cast (Int.lt_zpow_succ_log_self one_lt_two x).le
    _ = 2 * nearest S (2 ^ Int.log 2 x) := by
        rw [nearest_eq_self hpower, zpow_add_one₀ two_ne_zero, mul_comm]
    _ ≤ 2 * nearest S x := mul_le_mul_of_nonneg_left (nearest_mono S hle) zero_le_two

theorem representable_binary32 (n k : ℤ) (hn : |n| ≤ 2 ^ 24) (hk : -149 ≤ k) (h : g = n * 2 ^ k) :
    Representable .binary32 g :=
  ⟨n, k, hn, hk, h⟩

/-! ## The range of singles -/

/-- The numbers that are rounded to a positive finite one. -/
def Single.InRange (x : ℝ) : Prop := 2 ^ (-150 : ℤ) < x ∧ x < 2 ^ 128 - 2 ^ 103

/-- Zero, and sizes that leave room for a square and do not lose it. -/
def Single.Moderate (x : ℝ) : Prop := x ≤ 2 ^ 63 ∧ (x = 0 ∨ 2 ^ (-75 : ℤ) < x)

/-- Zero, and sizes that leave room for as many digits as there may be. -/
def Single.FullDigits (x : ℝ) : Prop := x = 0 ∨ 2 ^ (-126 : ℤ) ≤ |x|

end SignedDistance
